import Mathlib

/-!
# Unsigned numbers in decimal

`Decimal.parse bits` reads a text as a number of `bits` bits: an optional plus sign and then at
least one digit, leading zeros allowed, and no overflow.  `Nat.repr` writes a number without sign
and leading zeros, so `parse_repr` says that what is written is read back, and not the converse.
-/

set_option autoImplicit false

namespace Decimal

/-- The text without its plus sign, if it has one. -/
def unsigned : List Char → List Char
  | '+' :: cs => cs
  | cs => cs

/-- Read a text as an unsigned number of `bits` bits. -/
def parse (bits : ℕ) (text : String) : Option ℕ :=
  let digits := unsigned text.toList
  let n := Nat.ofDigitChars 10 digits 0
  if digits ≠ [] ∧ digits.all Char.isDigit ∧ n < 2 ^ bits then some n else none

theorem isDigit_of_mem {n : ℕ} {c : Char} (h : c ∈ Nat.toDigits 10 n) : c.isDigit = true :=
  Nat.isDigit_of_mem_toDigits (by decide) (by decide) h

/-- A number is written without a sign. -/
theorem unsigned_toDigits (n : ℕ) : unsigned (Nat.toDigits 10 n) = Nat.toDigits 10 n := by
  have hd : ∀ c ∈ Nat.toDigits 10 n, c.isDigit = true := fun c hc ↦ isDigit_of_mem hc
  cases h : Nat.toDigits 10 n with
  | nil => exact absurd h Nat.toDigits_ne_nil
  | cons c cs =>
    have hc : c ≠ '+' := by
      rintro rfl
      exact absurd (hd '+' (by simp [h])) (by decide)
    rw [unsigned]
    exact fun _ h ↦ hc (List.cons.inj h).1

/-- **What is written is read back.** -/
theorem parse_repr {bits n : ℕ} (h : n < 2 ^ bits) : parse bits (Nat.repr n) = some n := by
  have hall : (Nat.toDigits 10 n).all Char.isDigit = true :=
    List.all_eq_true.mpr fun c hc ↦ isDigit_of_mem hc
  simp only [parse, Nat.toList_repr, unsigned_toDigits, Nat.ofDigitChars_ten_toDigits]
  rw [if_pos ⟨Nat.toDigits_ne_nil, hall, h⟩]

end Decimal
