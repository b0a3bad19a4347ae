import Mathlib

/-!
# Grouping a list by a key

The idiom `map.entry(key).or_insert_with(Vec::new).push(x)`, folded over a list, collects the
elements of the list under their keys.  `Grouping.push` is one round of it on an association list
and `Grouping.groups` the fold.

Everything a caller needs is in two statements: the keys of the result are distinct
(`groups_keys_nodup`), and the pair of a key and a list is in the result exactly when the list is
what filtering by that key leaves, and is not empty (`mem_groups`).
-/

set_option autoImplicit false

namespace Grouping

universe u v

variable {α : Type u} {κ : Type v} [DecidableEq κ]

/-- Append `a` to the group of `k`, opening the group if there is none. -/
def push (k : κ) (a : α) : List (κ × List α) → List (κ × List α)
  | [] => [(k, [a])]
  | (k', as) :: gs => if k' = k then (k', as ++ [a]) :: gs else (k', as) :: push k a gs

/-- The elements of `l`, grouped under the value of `f`. -/
def groups (f : α → κ) (l : List α) : List (κ × List α) := l.foldl (fun gs a ↦ push (f a) a gs) []

theorem keys_push (k : κ) (a : α) (gs : List (κ × List α)) :
    (push k a gs).map Prod.fst
      = if k ∈ gs.map Prod.fst then gs.map Prod.fst else gs.map Prod.fst ++ [k] := by
  induction gs with
  | nil => simp [push]
  | cons g gs ih =>
    obtain ⟨k', as⟩ := g
    rw [push]
    by_cases h : k' = k
    · simp [h]
    · rw [if_neg h, List.map_cons, ih]
      by_cases hk : k ∈ gs.map Prod.fst <;> simp [Ne.symm h, hk]

theorem nodup_push {k : κ} {a : α} {gs : List (κ × List α)} (h : (gs.map Prod.fst).Nodup) :
    ((push k a gs).map Prod.fst).Nodup := by
  rw [keys_push]
  split
  · exact h
  · rename_i hk
    exact List.nodup_append.mpr ⟨h, by simp, by
      intro x hx y hy
      rw [List.mem_singleton] at hy
      exact fun hxy ↦ hk (hy ▸ hxy ▸ hx)⟩

theorem mem_push_self {k : κ} {a : α} {gs : List (κ × List α)} (h : (gs.map Prod.fst).Nodup)
    {as : List α} :
    (k, as) ∈ push k a gs ↔
      (∃ bs, (k, bs) ∈ gs ∧ as = bs ++ [a]) ∨ (k ∉ gs.map Prod.fst ∧ as = [a]) := by
  induction gs with
  | nil => simp [push]
  | cons g gs ih =>
    obtain ⟨k', cs⟩ := g
    rw [List.map_cons, List.nodup_cons] at h
    rw [push]
    by_cases hk : k' = k
    · subst hk
      have hno : ∀ bs, (k', bs) ∉ gs := fun bs hbs ↦ h.1 (List.mem_map.mpr ⟨_, hbs, rfl⟩)
      simp [hno]
    · rw [if_neg hk, List.mem_cons, ih h.2]
      simp [Ne.symm hk]

theorem mem_push_of_ne {k k' : κ} (hk : k' ≠ k) {a : α} {gs : List (κ × List α)} {as : List α} :
    (k', as) ∈ push k a gs ↔ (k', as) ∈ gs := by
  induction gs with
  | nil => simp [push, hk]
  | cons g gs ih =>
    obtain ⟨k'', cs⟩ := g
    rw [push]
    by_cases h : k'' = k
    · subst h; simp [hk]
    · rw [if_neg h, List.mem_cons, ih, List.mem_cons]

theorem groups_concat (f : α → κ) (l : List α) (a : α) :
    groups f (l ++ [a]) = push (f a) a (groups f l) := by
  rw [groups, List.foldl_append]; rfl

theorem groups_keys_nodup (f : α → κ) (l : List α) : ((groups f l).map Prod.fst).Nodup := by
  induction l using List.reverseRecOn with
  | nil => simp [groups]
  | append_singleton l a ih => rw [groups_concat]; exact nodup_push ih

/-- The keys of the groups are the keys of the elements. -/
theorem mem_groups_keys {f : α → κ} {l : List α} {k : κ} :
    k ∈ (groups f l).map Prod.fst ↔ ∃ a ∈ l, f a = k := by
  induction l using List.reverseRecOn with
  | nil => simp [groups]
  | append_singleton l a ih =>
    rw [groups_concat, keys_push]
    split
    · rename_i h
      rw [ih]
      constructor
      · rintro ⟨b, hb, rfl⟩; exact ⟨b, by simp [hb], rfl⟩
      · rintro ⟨b, hb, rfl⟩
        rcases List.mem_append.mp hb with hb | hb
        · exact ⟨b, hb, rfl⟩
        · rw [List.mem_singleton] at hb; subst hb; exact ih.mp h
    · rw [List.mem_append, ih]
      simp [or_and_right, exists_or, eq_comm]

/-- **What the groups are**: the group of `k` is the list filtered by `k`, when that is not
empty. -/
theorem mem_groups {f : α → κ} {l : List α} {k : κ} {as : List α} :
    (k, as) ∈ groups f l ↔ as = l.filter (fun a ↦ f a = k) ∧ as ≠ [] := by
  induction l using List.reverseRecOn generalizing as with
  | nil => simp [groups]
  | append_singleton l a ih =>
    rw [groups_concat, List.filter_append]
    by_cases hk : f a = k
    · subst hk
      rw [mem_push_self (groups_keys_nodup f l)]
      have hsome : ∀ bs, (f a, bs) ∈ groups f l → bs = l.filter fun b ↦ f b = f a :=
        fun bs h ↦ (ih.mp h).1
      have hnone : f a ∉ (groups f l).map Prod.fst → l.filter (fun b ↦ f b = f a) = [] := by
        intro h
        rw [List.filter_eq_nil_iff]
        intro b hb hba
        exact h (mem_groups_keys.mpr ⟨b, hb, of_decide_eq_true hba⟩)
      constructor
      · rintro (⟨bs, hbs, rfl⟩ | ⟨hno, rfl⟩)
        · simp [hsome bs hbs]
        · simp [hnone hno]
      · rintro ⟨rfl, -⟩
        by_cases hmem : f a ∈ (groups f l).map Prod.fst
        · obtain ⟨⟨k', bs⟩, hbs, hk'⟩ := List.mem_map.mp hmem
          obtain rfl : k' = f a := hk'
          exact Or.inl ⟨bs, hbs, by simp [hsome bs hbs]⟩
        · exact Or.inr ⟨hmem, by simp [hnone hmem]⟩
    · rw [mem_push_of_ne (Ne.symm hk), ih]
      simp [hk]

theorem flatMap_push_perm (k : κ) (a : α) (gs : List (κ × List α)) :
    ((push k a gs).flatMap Prod.snd).Perm (gs.flatMap Prod.snd ++ [a]) := by
  induction gs with
  | nil => simp [push]
  | cons g gs ih =>
    obtain ⟨k', as⟩ := g
    rw [push]
    split
    · simp only [List.flatMap_cons, List.append_assoc]
      exact List.Perm.append_left as List.perm_append_comm
    · simp only [List.flatMap_cons, List.append_assoc]
      exact List.Perm.append_left as ih

/-- **Grouping loses nothing**: the groups together are a rearrangement of the list. -/
theorem groups_flatMap_perm (f : α → κ) (l : List α) :
    ((groups f l).flatMap Prod.snd).Perm l := by
  induction l using List.reverseRecOn with
  | nil => simp [groups]
  | append_singleton l a ih =>
    rw [groups_concat]
    exact (flatMap_push_perm (f a) a (groups f l)).trans (ih.append_right [a])

end Grouping
