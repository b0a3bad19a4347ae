import Smoldb.Lib.LastWrite

/-!
# A map that is written behind

A map on disk takes writes at once and makes them durable later.  What is durable for sure is what
there was when the map was last flushed; of the writes since then a crash keeps some and loses
others, and nobody knows which.  `WriteBehind.apply` is what a write, a flush and a crash do, and
`Recovers` says what a crash can leave under a key.

Whatever is to be shown of such a map is shown of the values under one key, the durable one and
those that are pending: `Within Q` says that all of them are in `Q`.  It is kept by everything that
happens as long as what is written is in `Q` (`Within.run`), and a flush makes it true if the value
that can be seen is in `Q` (`within_flush`).  So `content_of_flushed`: what was there when the map
was flushed stays, unless it is written over.
-/

set_option autoImplicit false

/-- A map that is written behind: what is durable, and what has been written since. -/
structure WriteBehind (κ β : Type) where
  durable : κ → Option β
  pending : List (κ × β)

namespace WriteBehind

open LastWrite

variable {κ β : Type} [DecidableEq κ] {s : WriteBehind κ β} {k : κ}

/-- A map in which nothing has been written. -/
def empty : WriteBehind κ β := ⟨fun _ ↦ none, []⟩

/-- What is seen under a key: the last value written, durable or not. -/
def content (s : WriteBehind κ β) (k : κ) : Option β :=
  ((last Prod.fst s.pending k).map Prod.snd).or (s.durable k)

/-- Something that happens to the map. -/
inductive Event (κ β : Type) where
  | write (k : κ) (v : β)
  | flush
  | crash (recovered : κ → Option β)

/-- What happens. -/
def apply (s : WriteBehind κ β) : Event κ β → WriteBehind κ β
  | .write k v => ⟨s.durable, s.pending ++ [(k, v)]⟩
  | .flush => ⟨s.content, []⟩
  | .crash recovered => ⟨recovered, []⟩

/-- One thing after the other. -/
def run (events : List (Event κ β)) (s : WriteBehind κ β) : WriteBehind κ β := events.foldl apply s

/-- **What a crash can leave** under a key: the durable value, or any that has been written since.
-/
def Recovers (s : WriteBehind κ β) (k : κ) (o : Option β) : Prop :=
  o = s.durable k ∨ ∃ v, (k, v) ∈ s.pending ∧ o = some v

/-- A crash leaves what a crash can leave. -/
def Possible (s : WriteBehind κ β) : Event κ β → Prop
  | .write _ _ => True
  | .flush => True
  | .crash recovered => ∀ k, s.Recovers k (recovered k)

/-- All crashes leave what they can leave. -/
def AllPossible : List (Event κ β) → WriteBehind κ β → Prop
  | [], _ => True
  | e :: events, s => s.Possible e ∧ AllPossible events (s.apply e)

/-- Is it a crash? -/
def Event.IsCrash : Event κ β → Prop
  | write _ _ => False
  | flush => False
  | crash _ => True

omit [DecidableEq κ] in
theorem possible_of_not_isCrash {e : Event κ β} (h : ¬ e.IsCrash) : s.Possible e := by
  cases e with
  | write k v => exact trivial
  | flush => exact trivial
  | crash recovered => exact (h trivial).elim

/-! ## What is seen -/

theorem content_write (k' : κ) (v : β) :
    (s.apply (.write k' v)).content k = if k' = k then some v else s.content k := by
  rw [apply, content, last_append, last_singleton, content]
  by_cases h : k' = k <;> simp [h]

@[simp] theorem content_flush : (s.apply .flush).content k = s.content k := rfl

@[simp] theorem content_crash (recovered : κ → Option β) :
    (s.apply (.crash recovered)).content k = recovered k := rfl

theorem run_append (A B : List (Event κ β)) (s : WriteBehind κ β) :
    run (A ++ B) s = run B (run A s) := List.foldl_append

theorem run_cons (e : Event κ β) (B : List (Event κ β)) (s : WriteBehind κ β) :
    run (e :: B) s = run B (s.apply e) := rfl

theorem allPossible_append (A B : List (Event κ β)) (s : WriteBehind κ β) :
    AllPossible (A ++ B) s ↔ AllPossible A s ∧ AllPossible B (run A s) := by
  induction A generalizing s with
  | nil => exact ⟨fun h ↦ ⟨trivial, h⟩, fun h ↦ h.2⟩
  | cons e A ih =>
    rw [List.cons_append, AllPossible, AllPossible, ih, run_cons, and_assoc]

/-- **As long as nothing crashes**, what is seen is what was there, or has been written over. -/
theorem content_run {events : List (Event κ β)} (h : ∀ e ∈ events, ¬ e.IsCrash) :
    (run events s).content k = s.content k ∨
      ∃ v, .write k v ∈ events ∧ (run events s).content k = some v := by
  induction events generalizing s with
  | nil => exact Or.inl rfl
  | cons e events ih =>
    obtain ⟨he, hevents⟩ := List.forall_mem_cons.mp h
    rw [run_cons]
    rcases ih (s := s.apply e) hevents with hsame | ⟨v, hv, hcontent⟩
    · rw [hsame]
      cases e with
      | flush => exact Or.inl rfl
      | crash recovered => exact (he trivial).elim
      | write k' v =>
        rw [content_write]
        by_cases hk : k' = k
        · exact Or.inr ⟨v, by rw [hk]; exact List.mem_cons_self, if_pos hk⟩
        · exact Or.inl (if_neg hk)
    · exact Or.inr ⟨v, List.mem_cons_of_mem _ hv, hcontent⟩

/-! ## What can be under a key -/

/-- The durable value of a key is in a set, and so are those that are pending. -/
structure Within (s : WriteBehind κ β) (k : κ) (Q : Option β → Prop) : Prop where
  durable : Q (s.durable k)
  pending : ∀ v, (k, v) ∈ s.pending → Q (some v)

namespace Within

variable {Q : Option β → Prop}

theorem content (h : s.Within k Q) : Q (s.content k) := by
  rw [WriteBehind.content]
  cases hlast : last Prod.fst s.pending k with
  | none => exact h.durable
  | some e =>
    obtain ⟨k', v⟩ := e
    obtain rfl : k' = k := key_of_last hlast
    exact h.pending v (mem_of_last hlast)

omit [DecidableEq κ] in
theorem recovers (h : s.Within k Q) {o : Option β} (ho : s.Recovers k o) : Q o := by
  obtain rfl | ⟨v, hv, rfl⟩ := ho
  · exact h.durable
  · exact h.pending v hv

/-- **What happens keeps it**, if what is written is in the set. -/
theorem apply (h : s.Within k Q) {e : Event κ β} (he : s.Possible e)
    (hwrite : ∀ v, e = .write k v → Q (some v)) : (s.apply e).Within k Q := by
  cases e with
  | flush => exact ⟨h.content, fun v hv ↦ absurd hv (by simp [WriteBehind.apply])⟩
  | crash recovered => exact ⟨h.recovers (he k), fun v hv ↦ absurd hv (by simp [WriteBehind.apply])⟩
  | write k' v' =>
    refine ⟨h.durable, fun v hv ↦ ?_⟩
    obtain hv | hv := List.mem_append.mp hv
    · exact h.pending v hv
    · obtain ⟨rfl, rfl⟩ := Prod.mk.inj (List.mem_singleton.mp hv)
      exact hwrite v rfl

theorem run (h : s.Within k Q) {events : List (Event κ β)} (hp : AllPossible events s)
    (hwrite : ∀ v, .write k v ∈ events → Q (some v)) : (run events s).Within k Q := by
  induction events generalizing s with
  | nil => exact h
  | cons e events ih =>
    refine ih (h.apply hp.1 fun v he ↦ hwrite v ?_) hp.2 fun v hv ↦
      hwrite v (List.mem_cons_of_mem _ hv)
    rw [← he]
    exact List.mem_cons_self

end Within

/-- A flush leaves nothing but what is seen. -/
theorem within_flush {Q : Option β → Prop} (h : Q (s.content k)) : (s.apply .flush).Within k Q :=
  ⟨h, fun v hv ↦ absurd hv (by simp [apply])⟩

/-- **What has been flushed stays**, unless it is written over: if the map is flushed behind a write
and has not crashed between them, then at any time after that there is the value of the write, or of
one that came later. -/
theorem content_of_flushed {A B C : List (Event κ β)} {v : β}
    (hB : ∀ e ∈ B, ¬ e.IsCrash)
    (hp : AllPossible (A ++ .write k v :: (B ++ .flush :: C)) s) :
    ∃ v', (run (A ++ .write k v :: (B ++ .flush :: C)) s).content k = some v' ∧
      (v' = v ∨ .write k v' ∈ B ++ C) := by
  let Q : Option β → Prop := fun o ↦ ∃ v', o = some v' ∧ (v' = v ∨ .write k v' ∈ B ++ C)
  have hwritten : Q (((run A s).apply (.write k v)).content k) := by
    rw [content_write, if_pos rfl]
    exact ⟨v, rfl, Or.inl rfl⟩
  have hflushed : Q ((run B ((run A s).apply (.write k v))).content k) := by
    rcases content_run hB with hsame | ⟨v', hv', hcontent⟩
    · rwa [hsame]
    · exact ⟨v', hcontent, Or.inr (List.mem_append_left C hv')⟩
  rw [allPossible_append, AllPossible, allPossible_append, AllPossible] at hp
  rw [run_append, run_cons, run_append, run_cons]
  refine ((within_flush hflushed).run hp.2.2.2.2 fun v' hv' ↦ ?_).content
  exact ⟨v', rfl, Or.inr (List.mem_append_right B hv')⟩

end WriteBehind
