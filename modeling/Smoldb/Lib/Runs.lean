import Mathlib

/-!
# What holds all along a run

A run takes steps from one state to the next, and is kept as the list of its steps, so that the
states on the way are those after its prefixes.

There are properties no step can break, and properties that some steps break.  The rule for the
first is `run_inv`.  The rule for the second is `forall_run`, and where the steps that break a
property can be told beforehand, `forall_run_iff`: the property holds all along a run exactly if
the run takes no such step.
-/

set_option autoImplicit false

namespace Runs

universe u v

variable {σ : Type u} {α : Type v} {step : σ → α → σ} {Inv Good : σ → Prop}
  {Allowed Breaks : σ → α → Prop}

/-- What every step keeps, a run keeps. -/
theorem run_inv (hinv : ∀ s a, Inv s → Inv (step s a)) (l : List α) {s : σ} (h : Inv s) :
    Inv (l.foldl step s) := by
  induction l generalizing s with
  | nil => exact h
  | cons a l ih => exact ih (hinv s a h)

/-- **What every allowed step keeps** holds all along a run of allowed steps. -/
theorem forall_run (hstep : ∀ s a, Good s → Allowed s a → Good (step s a)) {l : List α} {s : σ}
    (hgood : Good s) (hallowed : ∀ done a, done ++ [a] <+: l → Allowed (done.foldl step s) a)
    (done : List α) : done <+: l → Good (done.foldl step s) := by
  induction done using List.reverseRecOn with
  | nil => exact fun _ ↦ hgood
  | append_singleton done a ih =>
    intro hprefix
    rw [List.foldl_concat]
    exact hstep _ a (ih ((List.prefix_append done [a]).trans hprefix)) (hallowed done a hprefix)

/-- **A property that holds all along a run.**  The steps that break it, and only these, are known
beforehand; an invariant may help to know them. -/
theorem forall_run_iff (hinv : ∀ s a, Inv s → Inv (step s a))
    (hstep : ∀ s a, Inv s → Good s → (Good (step s a) ↔ ¬ Breaks s a)) (l : List α) {s : σ}
    (h : Inv s) (hgood : Good s) :
    (∀ done, done <+: l → Good (done.foldl step s)) ↔
      ∀ done a, done ++ [a] <+: l → ¬ Breaks (done.foldl step s) a := by
  constructor
  · intro hall done a hprefix
    have hdone : Good (done.foldl step s) := hall done ((List.prefix_append done [a]).trans hprefix)
    have hnext := hall _ hprefix
    rw [List.foldl_concat] at hnext
    exact (hstep _ a (run_inv hinv done h) hdone).mp hnext
  · intro hall done hprefix
    have hboth : ∀ s a, Inv s ∧ Good s → ¬ Breaks s a → Inv (step s a) ∧ Good (step s a) :=
      fun s a hs ha ↦ ⟨hinv s a hs.1, (hstep s a hs.1 hs.2).mpr ha⟩
    exact (@forall_run _ _ step (fun s ↦ Inv s ∧ Good s) _ hboth l s ⟨h, hgood⟩ hall done
      hprefix).2

/-- What is asked of the steps of a run is asked of the first, and of the others. -/
theorem forall_steps_cons {b : α} {l : List α} {s : σ} :
    (∀ done a, done ++ [a] <+: b :: l → Allowed (done.foldl step s) a) ↔
      Allowed s b ∧ ∀ done a, done ++ [a] <+: l → Allowed (done.foldl step (step s b)) a := by
  constructor
  · refine fun h ↦ ⟨h [] b (List.prefix_append [b] l), fun done a hprefix ↦ ?_⟩
    exact h (b :: done) a (List.cons_prefix_cons.mpr ⟨rfl, hprefix⟩)
  · rintro ⟨hfirst, hrest⟩ done a hprefix
    cases done with
    | nil =>
      obtain ⟨rfl, -⟩ := List.cons_prefix_cons.mp hprefix
      exact hfirst
    | cons c done =>
      obtain ⟨rfl, hl⟩ := List.cons_prefix_cons.mp hprefix
      exact hrest done a hl

end Runs
