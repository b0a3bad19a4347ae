import Smoldb.Lib.Program

/-!
# Contracts of programs

`Meets answer P p Q` is a contract of a program: run in a state with `P`, it ends as `Q` says.  `Q`
has a part for every way to end.  The rules put the contract of a program together from those of its
parts, and `Meets.foldlM` is the one for loops, with an invariant on the part of the list that is
done.

A program can be run as a part of another one that makes other calls besides, which is `within`.
-/

set_option autoImplicit false

namespace Program

variable {Op Op' : Type} {Res : Op → Type} {Res' : Op' → Type} {ε ε' α β σ : Type}

/-- What holds at the end of a run, for every way to end. -/
structure Post (σ ε α : Type) where
  ok : α → σ → Prop
  error : ε → σ → Prop
  panicked : String → σ → Prop

/-- What holds of an end. -/
def Post.Holds (Q : Post σ ε α) : Outcome ε α → σ → Prop
  | .ok a => Q.ok a
  | .error e => Q.error e
  | .panicked message => Q.panicked message

/-- From states with `P`, the program ends as `Q` says. -/
def Meets (answer : σ → (op : Op) → σ × Res op) (P : σ → Prop) (p : Program Op Res ε α)
    (Q : Post σ ε α) : Prop := ∀ s, P s → Q.Holds (p.run answer s).2 (p.run answer s).1

@[simp] theorem ok_bind (a : α) (f : α → Program Op Res ε β) : (ok a >>= f) = f a := rfl

namespace Meets

variable {answer : σ → (op : Op) → σ × Res op} {P P' : σ → Prop} {Q : Post σ ε α}
  {p : Program Op Res ε α}

theorem ok {a : α} (h : ∀ s, P s → Q.ok a s) : Meets answer P (.ok a) Q := h

theorem error {e : ε} (h : ∀ s, P s → Q.error e s) : Meets answer P (.error e) Q := h

theorem panicked {message : String} (h : ∀ s, P s → Q.panicked message s) :
    Meets answer P (.panicked message) Q := h

theorem ofExcept {r : Except ε α} (hok : ∀ a, r = .ok a → ∀ s, P s → Q.ok a s)
    (herror : ∀ e, r = .error e → ∀ s, P s → Q.error e s) : Meets answer P (ofExcept r) Q := by
  cases r with
  | ok a => exact hok a rfl
  | error e => exact herror e rfl

/-- One call. -/
theorem perform {op : Op} {Q : Post σ ε (Res op)}
    (h : ∀ s, P s → Q.ok (answer s op).2 (answer s op).1) : Meets answer P (perform op) Q := h

theorem strengthen (h : Meets answer P p Q) (hP : ∀ s, P' s → P s) : Meets answer P' p Q :=
  fun s hs ↦ h s (hP s hs)

/-- A contract may promise less. -/
theorem weaken {R : Post σ ε α} (h : Meets answer P p Q) (hok : ∀ a s, Q.ok a s → R.ok a s)
    (herror : ∀ e s, Q.error e s → R.error e s)
    (hpanic : ∀ message s, Q.panicked message s → R.panicked message s) :
    Meets answer P p R := by
  intro s hs
  have hend := h s hs
  generalize (p.run answer s).2 = o at hend ⊢
  cases o with
  | ok a => exact hok a _ hend
  | error e => exact herror e _ hend
  | panicked message => exact hpanic message _ hend

/-- A fact that does not depend on the state. -/
theorem of_fact {F : Prop} (h : F → Meets answer P p Q) : Meets answer (fun s ↦ F ∧ P s) p Q :=
  fun s hs ↦ h hs.1 s hs.2

/-- **Go on behind a program**, whether it ends with a value or with an error. -/
theorem handle {f : α → Program Op Res ε' β} {g : ε → Program Op Res ε' β} {R : Post σ ε' β}
    (hp : Meets answer P p Q) (hf : ∀ a, Meets answer (Q.ok a) (f a) R)
    (hg : ∀ e, Meets answer (Q.error e) (g e) R)
    (hpanic : ∀ message s, Q.panicked message s → R.panicked message s) :
    Meets answer P (p.handle f g) R := by
  intro s hs
  have hend := hp s hs
  rw [run_handle]
  rcases hrun : p.run answer s with ⟨s', a | e | message⟩ <;> rw [hrun] at hend
  · exact hf a s' hend
  · exact hg e s' hend
  · exact hpanic message s' hend

theorem bind {f : α → Program Op Res ε β} {R : Post σ ε β} (hp : Meets answer P p Q)
    (hf : ∀ a, Meets answer (Q.ok a) (f a) R) (herror : ∀ e s, Q.error e s → R.error e s)
    (hpanic : ∀ message s, Q.panicked message s → R.panicked message s) :
    Meets answer P (p >>= f) R := hp.handle hf (fun e ↦ .error (herror e)) hpanic

/-- Take the error as a value. -/
theorem attempt {R : Post σ ε' (Except ε α)} (hp : Meets answer P p Q)
    (hok : ∀ a s, Q.ok a s → R.ok (.ok a) s) (herror : ∀ e s, Q.error e s → R.ok (.error e) s)
    (hpanic : ∀ message s, Q.panicked message s → R.panicked message s) :
    Meets answer P p.attempt R := hp.handle (fun a ↦ .ok (hok a)) (fun e ↦ .ok (herror e)) hpanic

theorem foldlM_from {f : β → α → Program Op Res ε β} {I : List α → β → σ → Prop}
    {E : ε → σ → Prop} {F : String → σ → Prop} {l : List α}
    (h : ∀ done a, a ∈ l → ∀ b, Meets answer (I done b) (f b a) ⟨I (done ++ [a]), E, F⟩)
    (done : List α) (b : β) : Meets answer (I done b) (l.foldlM f b) ⟨I (done ++ l), E, F⟩ := by
  induction l generalizing done b with
  | nil =>
    rw [List.append_nil]
    exact .ok fun s hs ↦ hs
  | cons a l ih =>
    rw [List.foldlM_cons, List.append_cons]
    exact (h done a List.mem_cons_self b).bind
      (fun b' ↦ ih (fun done c hc ↦ h done c (List.mem_cons_of_mem _ hc)) (done ++ [a]) b')
      (fun e s hs ↦ hs) fun message s hs ↦ hs

/-- **The loop rule**: the invariant holds at the end, if every round keeps it, and otherwise there
is what a round has left. -/
theorem foldlM {f : β → α → Program Op Res ε β} {I : List α → β → σ → Prop}
    {E : ε → σ → Prop} {F : String → σ → Prop} {l : List α}
    (h : ∀ done a, a ∈ l → ∀ b, Meets answer (I done b) (f b a) ⟨I (done ++ [a]), E, F⟩) (b : β) :
    Meets answer (I [] b) (l.foldlM f b) ⟨I l, E, F⟩ := foldlM_from h [] b

end Meets

/-! ## Parts of larger programs -/

/-- The program as a part of one with other calls and errors. -/
def within (f : Op → Op') (g : ∀ op, Res' (f op) → Res op) (h : ε → ε') :
    Program Op Res ε α → Program Op' Res' ε' α
  | ok a => ok a
  | error e => error (h e)
  | panicked message => panicked message
  | call op next => call (f op) fun r ↦ (next (g op r)).within f g h

/-- **A part keeps its contract.** -/
theorem Meets.within {answer : σ → (op : Op') → σ × Res' op} {f : Op → Op'}
    {g : ∀ op, Res' (f op) → Res op} {h : ε → ε'} {P : σ → Prop} {p : Program Op Res ε α}
    {Q : Post σ ε' α}
    (hp : Meets (fun s op ↦ ((answer s (f op)).1, g op (answer s (f op)).2)) P p
      ⟨Q.ok, fun e ↦ Q.error (h e), Q.panicked⟩) : Meets answer P (p.within f g h) Q := by
  intro s hs
  have hend := hp s hs
  clear hp hs
  induction p generalizing s with
  | ok a => exact hend
  | error e => exact hend
  | panicked message => exact hend
  | call op next ih => exact ih _ _ hend

end Program
