import Mathlib

/-!
# Loops that may be left early

`Loop.run body l s` is a `for` loop over `l` with a state: `body a s` gives the next state and
either `none`, to go on, or `some r`, to leave the loop with `r`.

`exists_of_run_eq` finds the round that leaves.  For a loop whose decision to go on does not depend
on the state there is more to say: `run_of_exit` splits it into the elements it gets to (`upTo`,
which stops with the first one that leaves) and a plain fold over them.
-/

set_option autoImplicit false

namespace Loop

universe u v w

variable {α : Type u} {σ : Type v} {ρ : Type w}

/-- Run `body` over a list, until it leaves. -/
def run (body : α → σ → σ × Option ρ) : List α → σ → σ × Option ρ
  | [], s => (s, none)
  | a :: l, s =>
    match body a s with
    | (s', none) => run body l s'
    | (s', some r) => (s', some r)

variable {body : α → σ → σ × Option ρ}

@[simp] theorem run_nil (s : σ) : run body [] s = (s, none) := rfl

theorem run_cons (a : α) (l : List α) (s : σ) :
    run body (a :: l) s = match (body a s).2 with
      | none => run body l (body a s).1
      | some r => ((body a s).1, some r) := by
  rw [run]
  rcases body a s with ⟨s', _ | r⟩ <;> rfl

/-- A loop is left with what some round leaves it with. -/
theorem exists_of_run_eq {l : List α} {s : σ} {r : ρ} (h : (run body l s).2 = some r) :
    ∃ a ∈ l, ∃ s', (body a s').2 = some r := by
  induction l generalizing s with
  | nil => exact nomatch h
  | cons a l ih =>
    rw [run_cons] at h
    cases hexit : (body a s).2 with
    | none =>
      rw [hexit] at h
      obtain ⟨b, hb, s', hs'⟩ := ih h
      exact ⟨b, List.mem_cons_of_mem _ hb, s', hs'⟩
    | some r' =>
      rw [hexit] at h
      exact ⟨a, List.mem_cons_self, s, hexit.trans h⟩

/-- The part of the list up to the first element that leaves, that one included. -/
def upTo (exit : α → Option ρ) : List α → List α
  | [] => []
  | a :: l => if (exit a).isSome then [a] else a :: upTo exit l

/-- A loop that nothing leaves gets to every element. -/
theorem upTo_of_forall {exit : α → Option ρ} {l : List α} (h : ∀ a ∈ l, exit a = none) :
    upTo exit l = l := by
  induction l with
  | nil => rfl
  | cons a l ih =>
    rw [upTo, h a (by simp), Option.isSome_none, if_neg (by simp),
      ih fun b hb ↦ h b (List.mem_cons_of_mem _ hb)]

/-- Behind the first element that leaves, the loop gets to nothing. -/
theorem upTo_append_cons {exit : α → Option ρ} {l : List α} {a : α} (h : ∀ b ∈ l, exit b = none)
    (ha : (exit a).isSome) (m : List α) : upTo exit (l ++ a :: m) = l ++ [a] := by
  induction l with
  | nil => rw [List.nil_append, upTo, if_pos ha, List.nil_append]
  | cons b l ih =>
    rw [List.cons_append, upTo, h b (by simp), Option.isSome_none, if_neg (by simp),
      ih fun c hc ↦ h c (List.mem_cons_of_mem _ hc), List.cons_append]

/-- Either nothing leaves, or there is a first element that does. -/
theorem forall_or_split (exit : α → Option ρ) (l : List α) :
    (∀ a ∈ l, exit a = none) ∨
      ∃ A a B r, l = A ++ a :: B ∧ (∀ b ∈ A, exit b = none) ∧ exit a = some r := by
  induction l with
  | nil => exact Or.inl fun a ha ↦ absurd ha (by simp)
  | cons a l ih =>
    cases ha : exit a with
    | some r => exact Or.inr ⟨[], a, l, r, rfl, fun b hb ↦ absurd hb (by simp), ha⟩
    | none =>
      rcases ih with h | ⟨A, b, B, r, rfl, hA, hb⟩
      · exact Or.inl (List.forall_mem_cons.mpr ⟨ha, h⟩)
      · exact Or.inr ⟨a :: A, b, B, r, rfl, List.forall_mem_cons.mpr ⟨ha, hA⟩, hb⟩

theorem findSome?_append_cons {exit : α → Option ρ} {l : List α} {a : α} {r : ρ}
    (h : ∀ b ∈ l, exit b = none) (ha : exit a = some r) (m : List α) :
    (l ++ a :: m).findSome? exit = some r := by
  rw [List.findSome?_append, List.findSome?_eq_none_iff.mpr h, List.findSome?_cons, ha]
  rfl

/-- **A loop that decides without looking at the state** folds over what it gets to and returns
the first reason to leave. -/
theorem run_of_exit (exit : α → Option ρ) {l : List α} (h : ∀ a ∈ l, ∀ s, (body a s).2 = exit a)
    (s : σ) : run body l s =
      ((upTo exit l).foldl (fun s a ↦ (body a s).1) s, l.findSome? exit) := by
  induction l generalizing s with
  | nil => rfl
  | cons a l ih =>
    have hl : ∀ b ∈ l, ∀ s, (body b s).2 = exit b := fun b hb ↦ h b (List.mem_cons_of_mem _ hb)
    rw [run_cons, h a (by simp) s, upTo, List.findSome?_cons]
    cases exit a with
    | none => simp [ih hl]
    | some r => simp

end Loop
