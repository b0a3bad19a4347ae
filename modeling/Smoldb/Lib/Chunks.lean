import Mathlib

/-!
# Numbers cut up into chunks

The numbers below `n` are cut up into chunks of `b`, the last of which may be shorter.  There are as
many as `n` divided by `b` and rounded up.
-/

set_option autoImplicit false

/-- The `i`-th chunk of `b` of the numbers below `n`. -/
def chunk (n b i : ℕ) : List ℕ := List.range' (i * b) (min (i * b + b) n - i * b)

/-- **Chunks tile a range.** -/
theorem flatten_chunks (n b k : ℕ) :
    ((List.range k).map (chunk n b)).flatten = List.range (min (k * b) n) := by
  induction k with
  | zero => simp
  | succ k ih =>
    rw [List.range_succ, List.map_append, List.flatten_append, ih, List.map_singleton,
      List.flatten_singleton, chunk, Nat.succ_mul, List.range_eq_range', List.range_eq_range']
    by_cases hk : k * b ≤ n
    · have hsum : min (k * b + b) n = k * b + (min (k * b + b) n - k * b) := by omega
      rw [min_eq_left hk, hsum, Nat.add_sub_cancel_left, ← List.range'_append_1, Nat.zero_add]
    · have hnone : min (k * b + b) n - k * b = 0 := by omega
      rw [hnone, List.range'_zero, List.append_nil]
      congr 1
      omega

theorem length_chunk (n b i : ℕ) : (chunk n b i).length = min (i * b + b) n - i * b := by
  rw [chunk, List.length_range']

/-- No chunk is too long. -/
theorem length_chunk_le (n b i : ℕ) : (chunk n b i).length ≤ min b n := by
  rw [length_chunk]
  omega

theorem chunk_zero (n b : ℕ) : (chunk n b 0).length = min b n := by
  rw [length_chunk, Nat.zero_mul]
  omega

/-- A chunk that begins below `n` is not empty. -/
theorem chunk_ne_nil {n b i : ℕ} (hb : b ≠ 0) (hi : i * b < n) : chunk n b i ≠ [] := by
  refine List.ne_nil_of_length_pos ?_
  rw [length_chunk]
  omega

/-- Division, rounded up. -/
def divCeil (n b : ℕ) : ℕ := if 0 < n % b then n / b + 1 else n / b

/-- **There are chunks enough.** -/
theorem le_divCeil_mul (n : ℕ) {b : ℕ} (hb : b ≠ 0) : n ≤ divCeil n b * b := by
  have hdiv := Nat.div_add_mod' n b
  have hmod := Nat.mod_lt n (Nat.pos_of_ne_zero hb)
  rw [divCeil]
  split
  · rw [Nat.succ_mul]
    omega
  · omega

/-- **No chunk begins too late.** -/
theorem mul_lt_of_lt_divCeil {n b i : ℕ} (hi : i < divCeil n b) : i * b < n := by
  have hdiv := Nat.div_add_mod' n b
  rw [divCeil] at hi
  split at hi
  · have hle := Nat.mul_le_mul_right b (Nat.lt_succ_iff.mp hi)
    omega
  · have hle := Nat.mul_le_mul_right b (Nat.succ_le_of_lt hi)
    rw [Nat.succ_mul] at hle
    have hb : b ≠ 0 := by
      rintro rfl
      simp at hi
    omega

/-- There is no chunk only if there is nothing to cut up. -/
theorem divCeil_pos {n b : ℕ} (hb : b ≠ 0) (hn : 0 < n) : 0 < divCeil n b := by
  have hle := le_divCeil_mul n hb
  exact Nat.pos_of_ne_zero fun h ↦ by simp [h] at hle; omega
