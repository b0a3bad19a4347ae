import Smoldb.Lib.Program

/-!
# What a program has gone through

A program that has been running for a while has made some calls and been answered, and it is that
history which has brought it to where it is.  `Ran p h q` says that after the history `h` what is
left of the program `p` is `q`.  Nothing is said about a system: other programs may have run on it
in between.

A history of a program that returned is taken apart along the program: `Ran.handle_ok` at the end of
its first part, and `Ran.foldlM_ok` at the rounds of a loop.
-/

set_option autoImplicit false

namespace Program

variable {Op : Type} {Res : Op → Type} {ε ε' α β : Type}

/-- A program gets somewhere, with these calls and answers. -/
inductive Ran : Program Op Res ε α → List (Σ op, Res op) → Program Op Res ε α → Prop
  | refl (p : Program Op Res ε α) : Ran p [] p
  | call {op : Op} {next : Res op → Program Op Res ε α} {r : Res op} {h : List (Σ op, Res op)}
      {q : Program Op Res ε α} (hnext : Ran (next r) h q) : Ran (call op next) (⟨op, r⟩ :: h) q

namespace Ran

variable {p q : Program Op Res ε α} {h : List (Σ op, Res op)}

/-- One call more. -/
theorem snoc {op : Op} {next : Res op → Program Op Res ε α} (hran : Ran p h (.call op next))
    (r : Res op) : Ran p (h ++ [⟨op, r⟩]) (next r) := by
  generalize hq : Program.call op next = q at hran
  induction hran with
  | refl p => exact hq ▸ .call (.refl _)
  | call _ ih => exact .call (ih hq)

theorem of_ok {a : α} (hran : Ran (.ok a) h q) : h = [] ∧ q = .ok a := by
  cases hran
  exact ⟨rfl, rfl⟩

theorem of_error {e : ε} (hran : Ran (.error e) h q) : h = [] ∧ q = .error e := by
  cases hran
  exact ⟨rfl, rfl⟩

theorem of_panicked {message : String} (hran : Ran (.panicked message) h q) :
    h = [] ∧ q = .panicked message := by
  cases hran
  exact ⟨rfl, rfl⟩

/-- The first call. -/
theorem of_call {op : Op} {next : Res op → Program Op Res ε α} (hran : Ran (.call op next) h q)
    (hq : q ≠ .call op next) : ∃ r h', h = ⟨op, r⟩ :: h' ∧ Ran (next r) h' q := by
  cases hran with
  | refl => exact absurd rfl hq
  | call hnext => exact ⟨_, _, rfl, hnext⟩

theorem of_call_ok {op : Op} {next : Res op → Program Op Res ε α} {a : α}
    (hran : Ran (.call op next) h (.ok a)) :
    ∃ r h', h = ⟨op, r⟩ :: h' ∧ Ran (next r) h' (.ok a) := hran.of_call (by simp)

/-- **A history ends the first part**, and then the other one. -/
theorem handle_ok {f : α → Program Op Res ε' β} {g : ε → Program Op Res ε' β} {b : β}
    (hran : (p.handle f g).Ran h (.ok b)) : ∃ h₁ h₂, h = h₁ ++ h₂ ∧
      ((∃ a, p.Ran h₁ (.ok a) ∧ (f a).Ran h₂ (.ok b)) ∨
        ∃ e, p.Ran h₁ (.error e) ∧ (g e).Ran h₂ (.ok b)) := by
  induction p generalizing h with
  | ok a => exact ⟨[], h, rfl, Or.inl ⟨a, .refl _, hran⟩⟩
  | error e => exact ⟨[], h, rfl, Or.inr ⟨e, .refl _, hran⟩⟩
  | panicked message => exact absurd hran.of_panicked.2 (by simp)
  | call op next ih =>
    obtain ⟨r, h', rfl, hnext⟩ := of_call_ok hran
    obtain ⟨h₁, h₂, rfl, ⟨a, ha, hb⟩ | ⟨e, he, hb⟩⟩ := ih r hnext
    · exact ⟨_, h₂, rfl, Or.inl ⟨a, .call ha, hb⟩⟩
    · exact ⟨_, h₂, rfl, Or.inr ⟨e, .call he, hb⟩⟩

theorem bind_ok {f : α → Program Op Res ε β} {b : β} (hran : (p >>= f).Ran h (.ok b)) :
    ∃ h₁ h₂ a, h = h₁ ++ h₂ ∧ p.Ran h₁ (.ok a) ∧ (f a).Ran h₂ (.ok b) := by
  obtain ⟨h₁, h₂, rfl, ⟨a, ha, hb⟩ | ⟨e, -, hb⟩⟩ := handle_ok hran
  · exact ⟨h₁, h₂, a, rfl, ha, hb⟩
  · exact absurd hb.of_error.2 (by simp)

theorem mapError_ok {f : ε → ε'} {a : α} (hran : (p.mapError f).Ran h (.ok a)) :
    p.Ran h (.ok a) := by
  obtain ⟨h₁, h₂, rfl, ⟨b, hb, hab⟩ | ⟨e, -, he⟩⟩ := handle_ok hran
  · obtain ⟨rfl, heq⟩ := hab.of_ok
    rwa [List.append_nil, ok.inj heq]
  · exact absurd he.of_error.2 (by simp)

theorem attempt_ok {r : Except ε α} (hran : (p.attempt : Program Op Res ε' _).Ran h (.ok r)) :
    (∃ a, r = .ok a ∧ p.Ran h (.ok a)) ∨ ∃ e, r = .error e ∧ p.Ran h (.error e) := by
  obtain ⟨h₁, h₂, rfl, ⟨a, ha, hr⟩ | ⟨e, he, hr⟩⟩ := handle_ok hran
  · obtain ⟨rfl, heq⟩ := hr.of_ok
    rw [List.append_nil]
    exact Or.inl ⟨a, ok.inj heq, ha⟩
  · obtain ⟨rfl, heq⟩ := hr.of_ok
    rw [List.append_nil]
    exact Or.inr ⟨e, ok.inj heq, he⟩

theorem ofExcept_ok {r : Except ε α} {a : α} (hran : (ofExcept r).Ran h (.ok a)) :
    h = [] ∧ r = .ok a := by
  cases r with
  | ok b =>
    obtain ⟨rfl, hb⟩ := of_ok hran
    exact ⟨rfl, congrArg _ (ok.inj hb).symm⟩
  | error e => exact absurd (of_error hran).2 (by simp)

theorem foldlM_ok_from {f : β → α → Program Op Res ε β}
    {P : List α → β → List (Σ op, Res op) → Prop}
    (hround : ∀ done a b h b' h', P done b h → (f b a).Ran h' (.ok b') →
      P (done ++ [a]) b' (h ++ h'))
    {l : List α} {done : List α} {b b' : β} {h₀ : List (Σ op, Res op)} (hP : P done b h₀)
    (hran : (l.foldlM f b).Ran h (.ok b')) : P (done ++ l) b' (h₀ ++ h) := by
  induction l generalizing done b h₀ h with
  | nil =>
    obtain ⟨rfl, hb⟩ := of_ok hran
    rwa [ok.inj hb, List.append_nil, List.append_nil]
  | cons a l ih =>
    rw [List.foldlM_cons] at hran
    obtain ⟨h₁, h₂, b₁, rfl, hfirst, hrest⟩ := bind_ok hran
    rw [← List.append_assoc, List.append_cons]
    exact ih (hround done a b h₀ b₁ h₁ hP hfirst) hrest

/-- **A history goes through the rounds of a loop**, one after the other. -/
theorem foldlM_ok {f : β → α → Program Op Res ε β} {P : List α → β → List (Σ op, Res op) → Prop}
    (hround : ∀ done a b h b' h', P done b h → (f b a).Ran h' (.ok b') →
      P (done ++ [a]) b' (h ++ h'))
    {l : List α} {b b' : β} (hP : P [] b []) (hran : (l.foldlM f b).Ran h (.ok b')) :
    P l b' h := foldlM_ok_from hround hP hran

/-- What a program can call is what it has called, and what it still can. -/
theorem calls (hran : Ran p h q) {P : Op → Prop} (hp : p.Calls P) :
    (∀ c ∈ h, P c.1) ∧ q.Calls P := by
  induction hran with
  | refl p => exact ⟨fun c hc ↦ absurd hc (by simp), hp⟩
  | call _ ih =>
    obtain ⟨hh, hq⟩ := ih (hp.2 _)
    exact ⟨List.forall_mem_cons.mpr ⟨hp.1, hh⟩, hq⟩

end Ran

end Program
