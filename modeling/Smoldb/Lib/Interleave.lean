import Smoldb.Lib.LastWrite

/-!
# Several lists at the same time

`Interleaves ls l` says that `l` is what comes out if the lists `ls` are worked off at the same
time, each from its front: every step takes the first element of one of them, and it is nowhere said
of which.

An interleaving has the elements of the lists and no others, and where it writes a key last, one of
the lists does (`exists_last`).  So if the lists do not contradict each other on a key, it makes no
difference to it how they are interleaved (`last_eq_some_iff`).  One list after the other is one way
to do it (`flatten`).
-/

set_option autoImplicit false

open LastWrite

universe u v

variable {α : Type u} {κ : Type v}

/-- The list is worked off from the fronts of the lists, in any order. -/
inductive Interleaves : List (List α) → List α → Prop where
  | nil {ls : List (List α)} (h : ∀ x ∈ ls, x = []) : Interleaves ls []
  | step {ls : List (List α)} {i : ℕ} {a : α} {x l : List α} (hi : ls[i]? = some (a :: x))
      (h : Interleaves (ls.set i x) l) : Interleaves ls (a :: l)

namespace Interleaves

variable {ls : List (List α)} {l : List α}

/-- The lists after a step are the lists before it, one of them without its first element. -/
theorem mem_or_of_mem_set {i : ℕ} {a : α} {x y : List α} (hi : ls[i]? = some (a :: x))
    (hy : y ∈ ls.set i x) : y ∈ ls ∨ y = x ∧ a :: x ∈ ls :=
  (List.mem_or_eq_of_mem_set hy).imp_right fun h ↦ ⟨h, List.mem_of_getElem? hi⟩

/-- **The elements** of an interleaving are those of the lists. -/
theorem mem_iff (h : Interleaves ls l) {a : α} : a ∈ l ↔ ∃ x ∈ ls, a ∈ x := by
  induction h with
  | nil h =>
    refine ⟨fun ha ↦ (nomatch ha), fun ⟨x, hx, ha⟩ ↦ ?_⟩
    rw [h x hx] at ha
    exact ha
  | @step ls i b x l hi h ih =>
    have hmem : b :: x ∈ ls := List.mem_of_getElem? hi
    rw [List.mem_cons, ih]
    constructor
    · rintro (rfl | ⟨y, hy, ha⟩)
      · exact ⟨a :: x, hmem, List.mem_cons_self⟩
      · obtain hy | ⟨rfl, hmem⟩ := mem_or_of_mem_set hi hy
        · exact ⟨y, hy, ha⟩
        · exact ⟨b :: y, hmem, List.mem_cons_of_mem _ ha⟩
    · rintro ⟨y, hy, ha⟩
      obtain ⟨j, hj⟩ := List.mem_iff_getElem?.mp hy
      by_cases hji : j = i
      · subst hji
        obtain rfl := Option.some.inj (hj.symm.trans hi)
        refine (List.mem_cons.mp ha).imp_right fun ha ↦ ⟨x, ?_, ha⟩
        exact List.mem_set (List.getElem?_eq_some_iff.mp hi).1 _
      · refine Or.inr ⟨y, ?_, ha⟩
        rw [← List.getElem?_set_ne (Ne.symm hji) (a := x)] at hj
        exact List.mem_of_getElem? hj

variable [DecidableEq κ] {key : α → κ} {k : κ}

/-- **What is written last in an interleaving** is written last in one of the lists. -/
theorem exists_last (h : Interleaves ls l) {a : α} (ha : last key l k = some a) :
    ∃ x ∈ ls, last key x k = some a := by
  induction h with
  | nil => exact nomatch ha
  | @step ls i b x l hi h ih =>
    rw [last_cons, Option.or_eq_some_iff] at ha
    obtain ha | ⟨hnone, ha⟩ := ha
    · obtain ⟨y, hy, hlast⟩ := ih ha
      obtain hy | ⟨rfl, hmem⟩ := mem_or_of_mem_set hi hy
      · exact ⟨y, hy, hlast⟩
      · exact ⟨b :: y, hmem, by rw [last_cons, hlast, Option.some_or]⟩
    · -- the key is not written again, in particular not by the list that was taken from
      have hx : last key x k = none := last_eq_none_iff.mpr fun c hc ↦
        last_eq_none_iff.mp hnone c (h.mem_iff.mpr
          ⟨x, List.mem_set (List.getElem?_eq_some_iff.mp hi).1 _, hc⟩)
      exact ⟨b :: x, List.mem_of_getElem? hi, by rw [last_cons, hx, Option.none_or, ha]⟩

/-- **Lists that agree on a key** write it the same way however they are interleaved. -/
theorem last_eq_some_iff (h : Interleaves ls l) (hagree : ∀ x ∈ ls, ∀ y ∈ ls, ∀ a b,
      last key x k = some a → last key y k = some b → a = b) {a : α} :
    last key l k = some a ↔ ∃ x ∈ ls, last key x k = some a := by
  refine ⟨h.exists_last, fun ⟨x, hx, ha⟩ ↦ ?_⟩
  have hmem : a ∈ l := h.mem_iff.mpr ⟨x, hx, mem_of_last ha⟩
  obtain ⟨b, hb⟩ := exists_last_of_mem key hmem
  rw [key_of_last ha] at hb
  obtain ⟨y, hy, hlast⟩ := h.exists_last hb
  rw [hb, hagree x hx y hy a b ha hlast]

/-- A list that is worked off makes no difference. -/
theorem nil_cons (h : Interleaves ls l) : Interleaves ([] :: ls) l := by
  induction h with
  | nil h =>
    refine .nil fun x hx ↦ ?_
    obtain rfl | hx := List.mem_cons.mp hx
    · rfl
    · exact h x hx
  | @step ls i a x l hi h ih =>
    refine .step (i := i + 1) hi ?_
    rw [List.set_cons_succ]
    exact ih

/-- One list after the other is an interleaving. -/
theorem flatten (ls : List (List α)) : Interleaves ls ls.flatten := by
  induction ls with
  | nil => exact .nil fun x hx ↦ nomatch hx
  | cons x ls ih =>
    rw [List.flatten_cons]
    induction x with
    | nil => exact ih.nil_cons
    | cons a x ihx => exact .step (i := 0) rfl ihx

end Interleaves
