import Mathlib

/-!
# The last write of a list

A map that is only ever written to holds, under each key, the last value written there.  This file
says so without the map: `LastWrite.last key W k` is the last element of the list `W` that `key`
sends to `k`, and the list is the whole history.

Two things make the notion worth having.  It composes, `last_append`: the history of two runs is
the second one where the second wrote and the first one elsewhere.  And it survives coarsening the
key, `last_refine`: an element that is last for a coarse key is last for every finer one.  The
second is what lets a batch be deduplicated by a fine key (`collapse`, which replaces each element
by the last one with its key) before it is written under a coarser key, with no effect on what is
finally stored (`last_collapse`).

`getElem?_foldl_insert` is the link to an actual map.
-/

set_option autoImplicit false

namespace LastWrite

universe u v w

variable {α : Type u} {κ : Type v} {κ' : Type w} [DecidableEq κ] [DecidableEq κ']

/-- The last element of `W` whose key is `k`. -/
def last (key : α → κ) (W : List α) (k : κ) : Option α := (W.filter fun a ↦ key a = k).getLast?

variable {key : α → κ}

@[simp] theorem last_nil (k : κ) : last key [] k = none := rfl

theorem last_append (A B : List α) (k : κ) :
    last key (A ++ B) k = (last key B k).or (last key A k) := by
  rw [last, List.filter_append, List.getLast?_append, last, last]

theorem last_singleton (a : α) (k : κ) : last key [a] k = if key a = k then some a else none := by
  by_cases h : key a = k <;> simp [last, h]

theorem last_cons (a : α) (W : List α) (k : κ) :
    last key (a :: W) k = (last key W k).or (if key a = k then some a else none) := by
  rw [← List.singleton_append, last_append, last_singleton]

theorem mem_filter_of_last {W : List α} {k : κ} {a : α} (h : last key W k = some a) :
    a ∈ W.filter fun b ↦ key b = k :=
  List.mem_of_getLast? h

theorem mem_of_last {W : List α} {k : κ} {a : α} (h : last key W k = some a) : a ∈ W :=
  (List.mem_filter.mp (mem_filter_of_last h)).1

theorem key_of_last {W : List α} {k : κ} {a : α} (h : last key W k = some a) : key a = k := by
  simpa using (List.mem_filter.mp (mem_filter_of_last h)).2

theorem last_eq_none_iff {W : List α} {k : κ} : last key W k = none ↔ ∀ a ∈ W, key a ≠ k := by
  simp [last]

theorem exists_last_of_mem (key : α → κ) {W : List α} {a : α} (h : a ∈ W) :
    ∃ b, last key W (key a) = some b := by
  rw [← Option.ne_none_iff_exists', Ne, last_eq_none_iff]
  exact fun hn ↦ hn a h rfl

/-- **What being last means**: nothing after it has its key. -/
theorem last_eq_some_iff {W : List α} {k : κ} {a : α} :
    last key W k = some a ↔ key a = k ∧ ∃ A B, W = A ++ a :: B ∧ ∀ b ∈ B, key b ≠ k := by
  constructor
  · intro h
    refine ⟨key_of_last h, ?_⟩
    induction W with
    | nil => simp at h
    | cons c W ih =>
      rw [last_cons] at h
      cases hW : last key W k with
      | none =>
        rw [hW, Option.none_or] at h
        split at h
        · rw [Option.some_inj] at h
          exact ⟨[], W, by rw [h, List.nil_append], last_eq_none_iff.mp hW⟩
        · exact absurd h (by simp)
      | some b =>
        rw [hW, Option.some_or] at h
        obtain ⟨A, B, rfl, hB⟩ := ih (hW.trans h)
        exact ⟨c :: A, B, rfl, hB⟩
  · rintro ⟨hk, A, B, rfl, hB⟩
    rw [last_append, last_cons, last_eq_none_iff.mpr hB, if_pos hk, Option.none_or, Option.some_or]

/-- **An element that is last for a coarse key is last for every finer one.** -/
theorem last_refine {coarse : α → κ'} (hc : ∀ a b, key a = key b → coarse a = coarse b)
    {W : List α} {k : κ'} {a : α} (h : last coarse W k = some a) :
    last key W (key a) = some a := by
  obtain ⟨hk, A, B, rfl, hB⟩ := last_eq_some_iff.mp h
  refine last_eq_some_iff.mpr ⟨rfl, A, B, rfl, fun b hb hba ↦ hB b hb ?_⟩
  rw [hc b a hba, hk]

/-- Filtering out elements of other keys does not change the last element of this one. -/
theorem last_filter {p : α → Bool} {k : κ} (hp : ∀ a, key a = k → p a = true) (W : List α) :
    last key (W.filter p) k = last key W k := by
  rw [last, List.filter_filter, last]
  congr 1
  refine List.filter_congr fun a _ ↦ ?_
  by_cases h : key a = k
  · simp [h, hp a h]
  · simp [h]

/-- Filtering by a predicate that fails on the key leaves nothing of it. -/
theorem last_filter_eq_none {p : α → Bool} {k : κ} (hp : ∀ a, key a = k → p a = false)
    (W : List α) : last key (W.filter p) k = none := by
  rw [last_eq_none_iff]
  intro a ha hk
  rw [List.mem_filter, hp a hk] at ha
  exact absurd ha.2 (by simp)

/-- Two keys that agree on when they are `k` pick the same last element. -/
theorem last_congr {coarse : α → κ'} {W : List α} {k : κ} {k' : κ'}
    (h : ∀ a ∈ W, key a = k ↔ coarse a = k') : last key W k = last coarse W k' := by
  rw [last, last]
  congr 1
  exact List.filter_congr fun a ha ↦ by simp [h a ha]

/-- Replacing the elements moves the last one along. -/
theorem last_map {β : Type w} (g : β → α) (W : List β) (k : κ) :
    last key (W.map g) k = (last (fun b ↦ key (g b)) W k).map g := by
  rw [last, List.filter_map, List.getLast?_map]
  rfl

/-- What is written again later does not count the first time. -/
theorem last_append_of_subset {A B : List α} (h : A ⊆ B) (k : κ) :
    last key (A ++ B) k = last key B k := by
  rw [last_append]
  cases hB : last key B k with
  | some b => rfl
  | none =>
    have hA : last key A k = none :=
      last_eq_none_iff.mpr fun a ha ↦ last_eq_none_iff.mp hB a (h ha)
    rw [hA]
    rfl

/-! ## Several writers -/

section Writers

variable {β : Type w} {W : β → List α} {k : κ} {a : α}

/-- If every writer that writes a key writes `a` last, then nothing else is last. -/
theorem last_flatMap_unique {bs : List β} (h : ∀ b ∈ bs, ∀ c, last key (W b) k = some c → c = a)
    {c : α} (hc : last key (bs.flatMap W) k = some c) : c = a := by
  induction bs with
  | nil => exact absurd hc (by simp)
  | cons b bs ih =>
    rw [List.flatMap_cons, last_append, Option.or_eq_some_iff] at hc
    rcases hc with hc | ⟨-, hc⟩
    · exact ih (fun b' hb' ↦ h b' (List.mem_cons_of_mem _ hb')) hc
    · exact h b (by simp) c hc

/-- **Writers that agree on a key** leave what they agree on, once one of them has written. -/
theorem last_flatMap {bs : List β} (h : ∀ b ∈ bs, ∀ c, last key (W b) k = some c → c = a) {b : β}
    (hb : b ∈ bs) (ha : last key (W b) k = some a) : last key (bs.flatMap W) k = some a := by
  have hmem : a ∈ bs.flatMap W := List.mem_flatMap.mpr ⟨b, hb, mem_of_last ha⟩
  obtain ⟨c, hc⟩ := exists_last_of_mem key hmem
  rw [key_of_last ha] at hc
  rw [hc, last_flatMap_unique h hc]

/-- The order of writers that agree on a key makes no difference to it. -/
theorem last_flatMap_perm {bs bs' : List β} (hp : bs.Perm bs')
    (h : ∀ b ∈ bs, ∀ b' ∈ bs, ∀ c c', last key (W b) k = some c → last key (W b') k = some c' →
      c = c') : last key (bs.flatMap W) k = last key (bs'.flatMap W) k := by
  cases hc : last key (bs.flatMap W) k with
  | none =>
    refine (last_eq_none_iff.mpr fun a ha ↦ last_eq_none_iff.mp hc a ?_).symm
    exact (hp.flatMap_right W).mem_iff.mpr ha
  | some c =>
    -- some writer writes `c`, and the others agree with it
    obtain ⟨b, hb, hmem⟩ := List.mem_flatMap.mp (mem_of_last hc)
    obtain ⟨a, ha⟩ := exists_last_of_mem key hmem
    rw [key_of_last hc] at ha
    have hagree : ∀ b' ∈ bs, ∀ c', last key (W b') k = some c' → c' = a :=
      fun b' hb' c' hc' ↦ h b' hb' b hb c' a hc' ha
    rw [last_flatMap_unique hagree hc]
    exact (last_flatMap (fun b' hb' ↦ hagree b' (hp.mem_iff.mpr hb')) (hp.mem_iff.mp hb) ha).symm

end Writers

/-! ## Deduplicating before writing -/

/-- Each element replaced by the last one with its key. -/
def collapse (key : α → κ) (W : List α) : List α := W.filterMap fun a ↦ last key W (key a)

theorem mem_collapse {W : List α} {a : α} :
    a ∈ collapse key W ↔ last key W (key a) = some a := by
  rw [collapse, List.mem_filterMap]
  constructor
  · rintro ⟨b, _, hb⟩
    rwa [key_of_last hb]
  · exact fun h ↦ ⟨a, mem_of_last h, h⟩

/-- The elements of one key, after the replacement: as many as before, all equal to the last. -/
theorem collapse_eq_map (W : List α) :
    collapse key W = W.map fun a ↦ (last key W (key a)).getD a := by
  rw [collapse, ← List.filterMap_eq_map]
  refine List.filterMap_congr fun a ha ↦ ?_
  obtain ⟨b, hb⟩ := exists_last_of_mem key ha
  simp [hb]

@[simp] theorem length_collapse (W : List α) : (collapse key W).length = W.length := by
  rw [collapse_eq_map, List.length_map]

theorem collapse_map {β : Type w} (g : β → α) (W : List β) :
    collapse key (W.map g) = (collapse (fun b ↦ key (g b)) W).map g := by
  rw [collapse, List.filterMap_map, collapse, List.map_filterMap]
  exact List.filterMap_congr fun b _ ↦ last_map g W (key (g b))

/-- **Deduplicating by a fine key is invisible under a coarser one.** -/
theorem last_collapse {coarse : α → κ'} (hc : ∀ a b, key a = key b → coarse a = coarse b)
    (W : List α) (k : κ') : last coarse (collapse key W) k = last coarse W k := by
  have hkey : ∀ a ∈ W, coarse ((last key W (key a)).getD a) = coarse a := by
    intro a ha
    obtain ⟨b, hb⟩ := exists_last_of_mem key ha
    rw [hb, Option.getD_some]
    exact hc b a (key_of_last hb)
  have hfilter : (collapse key W).filter (fun a ↦ coarse a = k)
      = (W.filter fun a ↦ coarse a = k).map fun a ↦ (last key W (key a)).getD a := by
    rw [collapse_eq_map, List.filter_map]
    congr 1
    exact List.filter_congr fun a ha ↦ by simp [hkey a ha]
  rw [last, hfilter, List.getLast?_map]
  cases h : last coarse W k with
  | none => rw [show (W.filter fun a ↦ coarse a = k).getLast? = none from h, Option.map_none]
  | some a =>
    rw [show (W.filter fun a ↦ coarse a = k).getLast? = some a from h, Option.map_some,
      last_refine hc h, Option.getD_some]

/-! ## The map a history leaves -/

open Std in
/-- **Writing a history into a map**: each key holds its last write, or what was there before. -/
theorem getElem?_foldl_insert {β : Type w} {cmp : κ → κ → Ordering} [TransCmp cmp]
    [LawfulEqCmp cmp] (key : α → κ) (val : α → β) (W : List α) (m : ExtTreeMap κ β cmp) (k : κ) :
    (W.foldl (fun m a ↦ m.insert (key a) (val a)) m)[k]?
      = ((last key W k).map val).or m[k]? := by
  induction W generalizing m with
  | nil => simp
  | cons a W ih =>
    rw [List.foldl_cons, ih, last_cons]
    cases last key W k with
    | some b => simp
    | none => by_cases h : key a = k <;> simp [ExtTreeMap.getElem?_insert, h]

/-! ## The other way round: the first write of a list -/

/-- The first element of `W` whose key is `k`. -/
def first (key : α → κ) (W : List α) (k : κ) : Option α := W.find? fun a ↦ key a = k

theorem mem_of_first {W : List α} {k : κ} {a : α} (h : first key W k = some a) : a ∈ W :=
  List.mem_of_find?_eq_some h

theorem key_of_first {W : List α} {k : κ} {a : α} (h : first key W k = some a) : key a = k := by
  simpa using List.find?_some h

theorem first_append (A B : List α) (k : κ) :
    first key (A ++ B) k = (first key A k).or (first key B k) := List.find?_append

theorem first_cons (a : α) (W : List α) (k : κ) :
    first key (a :: W) k = if key a = k then some a else first key W k := by
  by_cases h : key a = k <;> simp [first, h]

theorem first_eq_none_iff {W : List α} {k : κ} : first key W k = none ↔ ∀ a ∈ W, key a ≠ k := by
  simp [first]

theorem exists_first_of_mem (key : α → κ) {W : List α} {a : α} (h : a ∈ W) :
    ∃ b, first key W (key a) = some b := by
  rw [← Option.ne_none_iff_exists', Ne, first_eq_none_iff]
  exact fun hn ↦ hn a h rfl

/-- An element that is alone with its key is the first one, wherever it stands. -/
theorem first_of_unique {W : List α} {a : α} (ha : a ∈ W) (h : ∀ b ∈ W, key b = key a → b = a) :
    first key W (key a) = some a := by
  cases hf : first key W (key a) with
  | none => exact absurd rfl (first_eq_none_iff.mp hf a ha)
  | some b => rw [h b (mem_of_first hf) (key_of_first hf)]

/-- If only one writer has a key, its first write is the first of all. -/
theorem first_flatMap_of_unique {β : Type w} {W : β → List α} {bs : List β} {b : β} {k : κ}
    (hb : b ∈ bs) (h : ∀ b' ∈ bs, b' ≠ b → ∀ a ∈ W b', key a ≠ k) :
    first key (bs.flatMap W) k = first key (W b) k := by
  induction bs with
  | nil => exact absurd hb (by simp)
  | cons b' bs ih =>
    rw [List.flatMap_cons, first_append]
    have htail : ∀ b'' ∈ bs, b'' ≠ b → ∀ a ∈ W b'', key a ≠ k :=
      fun b'' hb'' ↦ h b'' (List.mem_cons_of_mem _ hb'')
    by_cases hbb : b' = b
    · subst hbb
      cases hf : first key (W b') k with
      | some a => rfl
      | none =>
        rw [Option.none_or, first_eq_none_iff]
        intro a ha
        obtain ⟨b'', hb'', ha⟩ := List.mem_flatMap.mp ha
        by_cases hne : b'' = b'
        · rw [hne] at ha
          exact first_eq_none_iff.mp hf a ha
        · exact htail b'' hb'' hne a ha
    · rw [first_eq_none_iff.mpr (h b' List.mem_cons_self hbb), Option.none_or]
      exact ih ((List.mem_cons.mp hb).resolve_left (Ne.symm hbb)) htail

/-- What is first of all is first for one of the writers. -/
theorem exists_first_of_flatMap {β : Type w} {W : β → List α} {bs : List β} {k : κ} {a : α}
    (h : first key (bs.flatMap W) k = some a) : ∃ b ∈ bs, first key (W b) k = some a := by
  induction bs with
  | nil => exact nomatch h
  | cons b bs ih =>
    rw [List.flatMap_cons, first_append, Option.or_eq_some_iff] at h
    rcases h with hb | ⟨-, hrest⟩
    · exact ⟨b, List.mem_cons_self, hb⟩
    · obtain ⟨b', hb', ha⟩ := ih hrest
      exact ⟨b', List.mem_cons_of_mem _ hb', ha⟩

/-- Two writers that have a key have the same first write of it. -/
def FirstAgree {β : Type w} (key : α → κ) (W : β → List α) (bs : List β) : Prop :=
  ∀ b ∈ bs, ∀ b' ∈ bs, ∀ k a a', first key (W b) k = some a → first key (W b') k = some a' → a = a'

/-- **Writers that agree can write in any order**: what is first for one of them is first of all. -/
theorem FirstAgree.first_flatMap {β : Type w} {W : β → List α} {bs : List β}
    (h : FirstAgree key W bs) {k : κ} {a : α} :
    first key (bs.flatMap W) k = some a ↔ ∃ b ∈ bs, first key (W b) k = some a := by
  refine ⟨exists_first_of_flatMap, fun ⟨b, hb, ha⟩ ↦ ?_⟩
  have hmem : a ∈ bs.flatMap W := List.mem_flatMap.mpr ⟨b, hb, mem_of_first ha⟩
  obtain ⟨a', hall⟩ := exists_first_of_mem key hmem
  rw [key_of_first ha] at hall
  obtain ⟨b', hb', ha'⟩ := exists_first_of_flatMap hall
  rw [hall, h b hb b' hb' k a a' ha ha']

open Std in
/-- **Filling the vacant keys of a map**: each holds what was there before, or its first write. -/
theorem getElem?_foldl_insertIfNew {β : Type w} {cmp : κ → κ → Ordering} [TransCmp cmp]
    [LawfulEqCmp cmp] (key : α → κ) (val : α → β) (W : List α) (m : ExtTreeMap κ β cmp) (k : κ) :
    (W.foldl (fun m a ↦ m.insertIfNew (key a) (val a)) m)[k]?
      = m[k]?.or ((first key W k).map val) := by
  induction W generalizing m with
  | nil => simp [first]
  | cons a W ih =>
    rw [List.foldl_cons, ih, ExtTreeMap.getElem?_insertIfNew, first_cons]
    by_cases hk : key a = k
    · subst hk
      by_cases hm : key a ∈ m <;> simp [hm]
    · simp [hk]

end LastWrite
