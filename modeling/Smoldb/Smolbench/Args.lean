import Mathlib

/-!
# The numbers of the benchmark

The arguments of the benchmark are numbers such as `100_000`, `100k` or `1Mi`.  A `Numeral` is such
a number: digits and underscores that begin with a digit, and a unit, which may be binary.  It has a
`text` and a `value`, and `parse_number` is meant to read numerals and nothing else.

It reads a unit that is followed by an `i` without a look at what comes after that.
`parseNumber_iff` says that this is the only thing that goes wrong.  A numeral is read as its value
if that fits (`Numeral.Fits`): `checked_mul` and `checked_add` give up on values of more than 64
bits, and the conversion to `usize` on those that are too long for the machine.  Either comes to the
error of a text that is no number.

The parser is one loop over the characters, and a unit ends it.  So the proofs have a lemma for each
of three: what the loop does with characters that can be in the digits (`scanned`), what it does
with a unit at the end, and what it cannot have read if it read something.
-/

set_option autoImplicit false

namespace Smoldb

/-! ## The parser -/

/-- `char::to_digit` with radix 10. -/
def toDigit (c : Char) : Option ℕ :=
  if c.isDigit then some (c.toNat - '0'.toNat) else none

/-- `u64::checked_mul`. -/
def checkedMul (a b : ℕ) : Option ℕ := if a * b < UInt64.size then some (a * b) else none

/-- `u64::checked_add`. -/
def checkedAdd (a b : ℕ) : Option ℕ := if a + b < UInt64.size then some (a + b) else none

/-- `u64::pow`, which has no result if it overflows: it is then wrong, or panics. -/
def u64Pow (base exponent : ℕ) : Option ℕ :=
  if base ^ exponent < UInt64.size then some (base ^ exponent) else none

/-- The loop of `parse_number_impl`.  An overflow of `u64::pow` is no result. -/
def parseNumberLoop (result : ℕ) : List Char → Option (Option ℕ)
  | [] => some (some result)
  | c :: chars =>
    match toDigit c with
    | some v =>
      match (checkedMul result 10).bind (checkedAdd · v) with
      | some result => parseNumberLoop result chars
      | none => some none
    | none =>
      if c ≠ '_' then
        match ['k', 'M', 'B', 'T'].idxOf? c with
        | none => some none
        | some position =>
          let power := position + 1
          match chars with
          | 'i' :: _ => (u64Pow 1024 power).map (checkedMul result)
          | _ :: _ => some none
          | [] => (u64Pow 1000 power).map (checkedMul result)
      else parseNumberLoop result chars

/-- `parse_number_impl`. -/
def parseNumberImpl (n : List Char) : Option (Option ℕ) :=
  match n with
  | [] => some none
  | c :: chars =>
    match toDigit c with
    | none => some none
    | some result => parseNumberLoop result chars

/-- `parse_number`, where `usizeMax` is the largest `usize`. -/
def parseNumber (usizeMax : ℕ) (n : String) : Option (Except String ℕ) :=
  (parseNumberImpl n.toList).map fun result ↦
    match result.bind fun v ↦ if v ≤ usizeMax then some v else none with
    | some v => .ok v
    | none => .error s!"Invalid number: {n}"

/-! ## Numerals -/

/-- What digits stand for, among other characters. -/
def digitsValue (cs : List Char) : ℕ := Nat.ofDigits 10 (cs.filterMap toDigit).reverse

/-- The units. -/
inductive NumberUnit where
  | k
  | M
  | B
  | T
  deriving DecidableEq

namespace NumberUnit

def char : NumberUnit → Char
  | k => 'k'
  | M => 'M'
  | B => 'B'
  | T => 'T'

def power : NumberUnit → ℕ
  | k => 1
  | M => 2
  | B => 3
  | T => 4

end NumberUnit

/-- What may follow the digits of a numeral. -/
inductive Scale where
  | one
  | decimal (unit : NumberUnit)
  | binary (unit : NumberUnit)

namespace Scale

def text : Scale → List Char
  | one => []
  | decimal unit => [unit.char]
  | binary unit => [unit.char, 'i']

def multiplier : Scale → ℕ
  | one => 1
  | decimal unit => 1000 ^ unit.power
  | binary unit => 1024 ^ unit.power

theorem multiplier_pos (scale : Scale) : 0 < scale.multiplier := by
  cases scale with
  | one => exact Nat.one_pos
  | decimal unit => exact Nat.pow_pos (by decide)
  | binary unit => exact Nat.pow_pos (by decide)

def IsBinary : Scale → Prop
  | binary _ => True
  | _ => False

end Scale

/-- A digit, any digits and underscores, and what follows. -/
structure Numeral where
  first : Char
  rest : List Char
  scale : Scale
  isDigit_first : first.isDigit = true
  isDigit_rest : ∀ c ∈ rest, c.isDigit = true ∨ c = '_'

namespace Numeral

def text (self : Numeral) : List Char := self.first :: self.rest ++ self.scale.text

def value (self : Numeral) : ℕ :=
  digitsValue (self.first :: self.rest) * self.scale.multiplier

/-- The value is one of `u64` and `usize`. -/
def Fits (self : Numeral) (usizeMax : ℕ) : Prop :=
  self.value < UInt64.size ∧ self.value ≤ usizeMax

end Numeral

/-! ## What the parser does with digits -/

/-- What comes out of some characters that come after a number. -/
def scanned (result : ℕ) (cs : List Char) : ℕ :=
  result * 10 ^ (cs.filterMap toDigit).length + digitsValue cs

theorem scanned_nil (result : ℕ) : scanned result [] = result := by
  simp [scanned, digitsValue]

theorem scanned_cons_digit {c : Char} {v : ℕ} (h : toDigit c = some v) (result : ℕ)
    (cs : List Char) : scanned result (c :: cs) = scanned (result * 10 + v) cs := by
  rw [scanned, scanned, digitsValue, digitsValue, List.filterMap_cons_some h, List.reverse_cons,
    Nat.ofDigits_append, Nat.ofDigits_singleton, List.length_reverse, List.length_cons]
  ring

theorem scanned_cons_other {c : Char} (h : toDigit c = none) (result : ℕ) (cs : List Char) :
    scanned result (c :: cs) = scanned result cs := by
  rw [scanned, scanned, digitsValue, digitsValue, List.filterMap_cons_none h]

theorem le_scanned (result : ℕ) (cs : List Char) : result ≤ scanned result cs :=
  (Nat.le_mul_of_pos_right result (by positivity)).trans (Nat.le_add_right _ _)

theorem toDigit_of_isDigit {c : Char} (h : c.isDigit = true) :
    toDigit c = some (c.toNat - '0'.toNat) := if_pos h

theorem digitsValue_eq_scanned (cs : List Char) : digitsValue cs = scanned 0 cs := by
  rw [scanned, zero_mul, zero_add]

theorem digit_lt {c : Char} (h : c.isDigit = true) : c.toNat - '0'.toNat < 10 := by
  have hle : c.toNat ≤ 57 := by
    rw [Char.isDigit, Bool.and_eq_true, decide_eq_true_eq, decide_eq_true_eq] at h
    exact h.2
  have hzero : '0'.toNat = 48 := rfl
  omega

/-- The digits are taken up, if what they stand for fits. -/
theorem parseNumberLoop_append {rest : List Char} (hrest : ∀ c ∈ rest, c.isDigit = true ∨ c = '_')
    {result : ℕ} (tail : List Char) (hfits : scanned result rest < UInt64.size) :
    parseNumberLoop result (rest ++ tail) = parseNumberLoop (scanned result rest) tail := by
  induction rest generalizing result with
  | nil => rw [scanned_nil, List.nil_append]
  | cons c rest ih =>
    rw [List.forall_mem_cons] at hrest
    obtain ⟨hc, hrest⟩ := hrest
    rw [List.cons_append, parseNumberLoop]
    obtain hdigit | rfl := hc
    · have hv := toDigit_of_isDigit hdigit
      rw [scanned_cons_digit hv] at hfits ⊢
      have hle := le_scanned (result * 10 + (c.toNat - '0'.toNat)) rest
      have hmul : checkedMul result 10 = some (result * 10) := if_pos (by omega)
      have hadd : checkedAdd (result * 10) (c.toNat - '0'.toNat)
          = some (result * 10 + (c.toNat - '0'.toNat)) := if_pos (by omega)
      simp only [hv, hmul, Option.bind_some, hadd]
      exact ih hrest hfits
    · have hnone : toDigit '_' = none := rfl
      rw [scanned_cons_other hnone] at hfits ⊢
      simp only [hnone, ne_eq, not_true_eq_false, if_false]
      exact ih hrest hfits

/-- The digits are not taken up, if what they stand for does not fit. -/
theorem parseNumberLoop_overflow {rest : List Char}
    (hrest : ∀ c ∈ rest, c.isDigit = true ∨ c = '_') {result : ℕ} (hresult : result < UInt64.size)
    (tail : List Char) (hlarge : ¬ scanned result rest < UInt64.size) :
    parseNumberLoop result (rest ++ tail) = some none := by
  induction rest generalizing result with
  | nil =>
    rw [scanned_nil] at hlarge
    exact absurd hresult hlarge
  | cons c rest ih =>
    rw [List.forall_mem_cons] at hrest
    obtain ⟨hc, hrest⟩ := hrest
    rw [List.cons_append, parseNumberLoop]
    obtain hdigit | rfl := hc
    · have hv := toDigit_of_isDigit hdigit
      rw [scanned_cons_digit hv] at hlarge
      by_cases hnext : result * 10 + (c.toNat - '0'.toNat) < UInt64.size
      · have hmul : checkedMul result 10 = some (result * 10) := if_pos (by omega)
        have hadd : checkedAdd (result * 10) (c.toNat - '0'.toNat)
            = some (result * 10 + (c.toNat - '0'.toNat)) := if_pos hnext
        simp only [hv, hmul, Option.bind_some, hadd]
        exact ih hrest hnext hlarge
      · have hnone : (checkedMul result 10).bind (checkedAdd · (c.toNat - '0'.toNat)) = none := by
          rw [checkedMul]
          split
          · exact if_neg hnext
          · rfl
        simp only [hv, hnone]
    · have hnone : toDigit '_' = none := rfl
      rw [scanned_cons_other hnone] at hlarge
      simp only [hnone, ne_eq, not_true_eq_false, if_false]
      exact ih hrest hresult hlarge

/-! ## What the parser does with units -/

theorem NumberUnit.idxOf_char (unit : NumberUnit) :
    ['k', 'M', 'B', 'T'].idxOf? unit.char = some (unit.power - 1) := by
  cases unit <;> rfl

theorem NumberUnit.toDigit_char (unit : NumberUnit) : toDigit unit.char = none := by
  cases unit <;> rfl

theorem NumberUnit.char_ne (unit : NumberUnit) : unit.char ≠ '_' := by
  cases unit <;> decide

theorem NumberUnit.u64Pow_power (unit : NumberUnit) :
    u64Pow 1024 (unit.power - 1 + 1) = some (1024 ^ unit.power) ∧
      u64Pow 1000 (unit.power - 1 + 1) = some (1000 ^ unit.power) := by
  cases unit <;> decide

/-- A character is one of a unit, or it is not found. -/
theorem NumberUnit.exists_or (c : Char) :
    (∃ unit : NumberUnit, c = unit.char) ∨ ['k', 'M', 'B', 'T'].idxOf? c = none := by
  by_cases hc : c ∈ ['k', 'M', 'B', 'T']
  · left
    simp only [List.mem_cons, List.not_mem_nil, or_false] at hc
    obtain rfl | rfl | rfl | rfl := hc
    · exact ⟨k, rfl⟩
    · exact ⟨M, rfl⟩
    · exact ⟨B, rfl⟩
    · exact ⟨T, rfl⟩
  · exact Or.inr (List.idxOf?_eq_none_iff.mpr hc)

/-- A unit is taken up with what comes after it. -/
theorem parseNumberLoop_unit (result : ℕ) (unit : NumberUnit) (chars : List Char) :
    parseNumberLoop result (unit.char :: chars) =
      match chars with
      | 'i' :: _ => some (checkedMul result (1024 ^ unit.power))
      | _ :: _ => some none
      | [] => some (checkedMul result (1000 ^ unit.power)) := by
  obtain ⟨hbinary, hdecimal⟩ := unit.u64Pow_power
  rw [parseNumberLoop]
  simp only [unit.toDigit_char, ne_eq, unit.char_ne, not_false_eq_true, if_true, unit.idxOf_char,
    hbinary, hdecimal, Option.map_some]

/-- What follows the digits is taken up, and all that comes after an `i`. -/
theorem parseNumberLoop_scale (result : ℕ) (hresult : result < UInt64.size) (scale : Scale)
    {tail : List Char} (htail : tail = [] ∨ scale.IsBinary) :
    parseNumberLoop result (scale.text ++ tail) = some (checkedMul result scale.multiplier) := by
  cases scale with
  | one =>
    obtain rfl := htail.resolve_right id
    rw [Scale.multiplier, checkedMul, mul_one, if_pos hresult]
    rfl
  | decimal unit =>
    obtain rfl := htail.resolve_right id
    exact parseNumberLoop_unit result unit []
  | binary unit => exact parseNumberLoop_unit result unit ('i' :: tail)

namespace Numeral

/-- **A numeral is read**, and what follows an `i` is passed over. -/
theorem parseNumberImpl_text (n : Numeral) {tail : List Char}
    (htail : tail = [] ∨ n.scale.IsBinary) :
    parseNumberImpl (n.text ++ tail)
      = some (if n.value < UInt64.size then some n.value else none) := by
  have hfirst := toDigit_of_isDigit n.isDigit_first
  have hsmall : n.first.toNat - '0'.toNat < UInt64.size :=
    (digit_lt n.isDigit_first).trans (by decide)
  have hvalue : n.value = scanned (n.first.toNat - '0'.toNat) n.rest * n.scale.multiplier := by
    rw [value, digitsValue_eq_scanned, scanned_cons_digit hfirst, zero_mul, zero_add]
  rw [text, List.append_assoc, List.cons_append, parseNumberImpl, hvalue]
  simp only [hfirst]
  by_cases hfits : scanned (n.first.toNat - '0'.toNat) n.rest < UInt64.size
  · rw [parseNumberLoop_append n.isDigit_rest _ hfits, parseNumberLoop_scale _ hfits _ htail]
    rfl
  · have hle := Nat.le_mul_of_pos_right (scanned (n.first.toNat - '0'.toNat) n.rest)
      n.scale.multiplier_pos
    rw [parseNumberLoop_overflow n.isDigit_rest hsmall _ hfits, if_neg (by omega)]

/-- What may stand within the digits. -/
def inDigits (c : Char) : Bool := c.isDigit || c = '_'

theorem inDigits_iff {c : Char} : inDigits c = true ↔ c.isDigit = true ∨ c = '_' := by
  simp [inDigits]

/-- What is not a unit, or has something but an `i` after it, is not read. -/
theorem parseNumberLoop_other (result : ℕ) {c : Char} {chars : List Char} (hc : inDigits c = false)
    (hno : ∀ (scale : Scale) (tail : List Char), tail = [] ∨ scale.IsBinary →
      c :: chars ≠ scale.text ++ tail) :
    parseNumberLoop result (c :: chars) = some none := by
  obtain ⟨unit, rfl⟩ | hunit := NumberUnit.exists_or c
  · rw [parseNumberLoop_unit]
    split
    · rename_i tail
      exact absurd rfl (hno (.binary unit) tail (Or.inr trivial))
    · rfl
    · exact absurd rfl (hno (.decimal unit) [] (Or.inl rfl))
  · have hnot : ¬ (c.isDigit = true ∨ c = '_') := by
      rw [← inDigits_iff, hc]
      simp
    obtain ⟨hdigit, hne⟩ := not_or.mp hnot
    have hnone : toDigit c = none := if_neg hdigit
    rw [parseNumberLoop]
    simp only [hnone, ne_eq, hne, not_false_eq_true, if_true, hunit]

/-- **What is not a numeral is not read**, unless it is one with an `i` and something after that. -/
theorem parseNumberImpl_of_not {s : List Char}
    (h : ∀ (n : Numeral) (tail : List Char), tail = [] ∨ n.scale.IsBinary → s ≠ n.text ++ tail) :
    parseNumberImpl s = some none := by
  cases s with
  | nil => rfl
  | cons c chars =>
    rw [parseNumberImpl]
    by_cases hc : c.isDigit = true
    · rw [toDigit_of_isDigit hc]
      simp only
      have hrest : ∀ c ∈ chars.takeWhile inDigits, c.isDigit = true ∨ c = '_' := fun c hc ↦
        inDigits_iff.mp (List.mem_takeWhile_imp hc)
      have hsplit : chars = chars.takeWhile inDigits ++ chars.dropWhile inDigits :=
        List.takeWhile_append_dropWhile.symm
      have hno : ∀ (scale : Scale) (tail : List Char), tail = [] ∨ scale.IsBinary →
          chars.dropWhile inDigits ≠ scale.text ++ tail := fun scale tail htail heq ↦ by
        refine h ⟨c, chars.takeWhile inDigits, scale, hc, hrest⟩ tail htail ?_
        rw [text, List.append_assoc, ← heq, List.cons_append, ← hsplit]
      have hhead : ∀ c' chars', chars.dropWhile inDigits = c' :: chars' → inDigits c' = false :=
        fun c' chars' heq ↦ by
          have hnot := List.head?_dropWhile_not inDigits chars
          rw [heq] at hnot
          exact hnot
      rw [hsplit]
      by_cases hfits : scanned (c.toNat - '0'.toNat) (chars.takeWhile inDigits) < UInt64.size
      · rw [parseNumberLoop_append hrest _ hfits]
        cases htail : chars.dropWhile inDigits with
        | nil => exact absurd htail (hno .one [] (Or.inl rfl))
        | cons c' chars' =>
          rw [htail] at hno
          exact parseNumberLoop_other _ (hhead c' chars' htail) hno
      · exact parseNumberLoop_overflow hrest ((digit_lt hc).trans (by decide)) _ hfits
    · rw [toDigit, if_neg hc]

/-- What follows the digits is known from the text. -/
theorem dropWhile_text (n : Numeral) {tail : List Char} (htail : tail = [] ∨ n.scale.IsBinary) :
    (n.text ++ tail).dropWhile inDigits = n.scale.text ++ tail := by
  have hdigits : ∀ c ∈ n.first :: n.rest, inDigits c = true := fun c hc ↦ by
    obtain rfl | hc := List.mem_cons.mp hc
    · exact inDigits_iff.mpr (Or.inl n.isDigit_first)
    · exact inDigits_iff.mpr (n.isDigit_rest c hc)
  rw [text, List.append_assoc, List.dropWhile_append_of_pos hdigits]
  have hunit : ∀ unit : NumberUnit, ¬ inDigits unit.char = true := fun unit ↦ by
    cases unit <;> decide
  cases hscale : n.scale with
  | one =>
    rw [hscale] at htail
    rw [htail.resolve_right id]
    rfl
  | decimal unit => exact List.dropWhile_cons_of_neg (hunit unit)
  | binary unit => exact List.dropWhile_cons_of_neg (hunit unit)

/-- There is nothing to a numeral after an `i`. -/
theorem text_ne_text_append {m n : Numeral} (hbinary : n.scale.IsBinary) {tail : List Char}
    (htail : tail ≠ []) : m.text ≠ n.text ++ tail := by
  intro heq
  have hscale : m.scale.text = n.scale.text ++ tail := by
    rw [← n.dropWhile_text (Or.inr hbinary), ← heq, ← List.append_nil m.text,
      m.dropWhile_text (Or.inl rfl), List.append_nil]
  have hlen := congrArg List.length hscale
  have hpos := List.length_pos_iff.mpr htail
  have hm : m.scale.text.length ≤ 2 := by
    cases m.scale <;> simp [Scale.text]
  have hn : n.scale.text.length = 2 := by
    cases h : n.scale with
    | one =>
      rw [h] at hbinary
      exact hbinary.elim
    | decimal unit =>
      rw [h] at hbinary
      exact hbinary.elim
    | binary unit => rfl
  rw [List.length_append] at hlen
  omega

end Numeral

/-! ## What is read -/

/-- The result of `parse_number` is that of `parse_number_impl`, if it fits. -/
theorem parseNumber_of_impl {s : String} {result : Option ℕ}
    (h : parseNumberImpl s.toList = some result) (usizeMax : ℕ) :
    parseNumber usizeMax s = some (match result.bind fun v ↦
      if v ≤ usizeMax then some v else none with
      | some v => .ok v
      | none => .error s!"Invalid number: {s}") := by
  rw [parseNumber, h]
  rfl

theorem exists_parseNumberImpl (s : List Char) : ∃ result, parseNumberImpl s = some result := by
  by_cases h : ∃ (n : Numeral) (tail : List Char),
      (tail = [] ∨ n.scale.IsBinary) ∧ s = n.text ++ tail
  · obtain ⟨n, tail, htail, rfl⟩ := h
    exact ⟨_, n.parseNumberImpl_text htail⟩
  · exact ⟨none, Numeral.parseNumberImpl_of_not fun n tail htail hs ↦ h ⟨n, tail, htail, hs⟩⟩

/-- The parser always has a result, and its error is always the same. -/
theorem parseNumber_cases (usizeMax : ℕ) (s : String) :
    (∃ v, parseNumber usizeMax s = some (.ok v)) ∨
      parseNumber usizeMax s = some (.error s!"Invalid number: {s}") := by
  obtain ⟨result, h⟩ := exists_parseNumberImpl s.toList
  rw [parseNumber_of_impl h]
  cases result.bind fun v ↦ if v ≤ usizeMax then some v else none with
  | none => exact Or.inr rfl
  | some v => exact Or.inl ⟨v, rfl⟩

/-- **What the parser reads** are numerals, and numerals with an `i` that something follows. -/
theorem parseNumber_eq_ok_iff (usizeMax : ℕ) (s : String) (v : ℕ) :
    parseNumber usizeMax s = some (.ok v) ↔ ∃ (n : Numeral) (tail : List Char),
      (tail = [] ∨ n.scale.IsBinary) ∧ s.toList = n.text ++ tail ∧ n.value = v ∧
        n.Fits usizeMax := by
  constructor
  · intro h
    by_cases hread : ∃ (n : Numeral) (tail : List Char),
        (tail = [] ∨ n.scale.IsBinary) ∧ s.toList = n.text ++ tail
    · obtain ⟨n, tail, htail, hs⟩ := hread
      have himpl := n.parseNumberImpl_text htail
      rw [← hs] at himpl
      rw [parseNumber_of_impl himpl] at h
      by_cases hsize : n.value < UInt64.size
      · by_cases husize : n.value ≤ usizeMax
        · simp only [if_pos hsize, Option.bind_some, if_pos husize] at h
          exact ⟨n, tail, htail, hs, Except.ok.inj (Option.some.inj h), hsize, husize⟩
        · simp [hsize, husize] at h
      · simp [hsize] at h
    · have himpl : parseNumberImpl s.toList = some none :=
        Numeral.parseNumberImpl_of_not fun n tail htail hs ↦ hread ⟨n, tail, htail, hs⟩
      rw [parseNumber_of_impl himpl] at h
      simp at h
  · rintro ⟨n, tail, htail, hs, rfl, hsize, husize⟩
    have himpl := n.parseNumberImpl_text htail
    rw [← hs] at himpl
    rw [parseNumber_of_impl himpl]
    simp only [if_pos hsize, Option.bind_some, if_pos husize]

/-- What is read is a `usize`. -/
theorem le_of_parseNumber {usizeMax v : ℕ} {s : String}
    (h : parseNumber usizeMax s = some (.ok v)) : v ≤ usizeMax := by
  obtain ⟨n, -, -, -, rfl, -, husize⟩ := (parseNumber_eq_ok_iff usizeMax s v).mp h
  exact husize

/-- **When `parse_number` reads numerals** and nothing else.  That it returns exactly the numbers
that the numerals stand for and that fit, and an error in all other cases, is the case for a string
unless that is a numeral with an `i` and something after that, whose value fits. -/
theorem parseNumber_iff (usizeMax : ℕ) (s : String) :
    ((∀ v, parseNumber usizeMax s = some (.ok v) ↔
        ∃ n : Numeral, s.toList = n.text ∧ n.value = v ∧ n.Fits usizeMax) ∧
      ((¬ ∃ n : Numeral, s.toList = n.text ∧ n.Fits usizeMax) →
        parseNumber usizeMax s = some (.error s!"Invalid number: {s}"))) ↔
    ¬ ∃ (n : Numeral) (tail : List Char), n.scale.IsBinary ∧ tail ≠ [] ∧
      s.toList = n.text ++ tail ∧ n.Fits usizeMax := by
  constructor
  · rintro ⟨h, -⟩ ⟨n, tail, hbinary, htail, hs, hfits⟩
    obtain ⟨m, hm, -⟩ := (h n.value).mp ((parseNumber_eq_ok_iff usizeMax s n.value).mpr
      ⟨n, tail, Or.inr hbinary, hs, rfl, hfits⟩)
    exact Numeral.text_ne_text_append hbinary htail (hm.symm.trans hs)
  · intro hno
    have hok : ∀ v, parseNumber usizeMax s = some (.ok v) ↔
        ∃ n : Numeral, s.toList = n.text ∧ n.value = v ∧ n.Fits usizeMax := fun v ↦ by
      rw [parseNumber_eq_ok_iff]
      constructor
      · rintro ⟨n, tail, htail, hs, hv, hfits⟩
        by_cases hnil : tail = []
        · rw [hnil, List.append_nil] at hs
          exact ⟨n, hs, hv, hfits⟩
        · exact absurd ⟨n, tail, htail.resolve_left hnil, hnil, hs, hfits⟩ hno
      · rintro ⟨n, hs, hv, hfits⟩
        exact ⟨n, [], Or.inl rfl, by rw [hs, List.append_nil], hv, hfits⟩
    refine ⟨hok, fun hnone ↦ ?_⟩
    obtain ⟨v, hv⟩ | herror := parseNumber_cases usizeMax s
    · obtain ⟨n, hs, -, hfits⟩ := (hok v).mp hv
      exact absurd ⟨n, hs, hfits⟩ hnone
    · exact herror

/-- **Not only numerals are read.** -/
theorem not_parseNumber_exact : ¬ ∀ (usizeMax : ℕ) (s : String) (v : ℕ),
    parseNumber usizeMax s = some (.ok v) →
      ∃ n : Numeral, s.toList = n.text ∧ n.value = v ∧ n.Fits usizeMax := by
  intro h
  obtain ⟨m, hm, -⟩ := h 18446744073709551615 "1kiB" 1024 (by decide)
  let n : Numeral := ⟨'1', [], .binary .k, rfl, by simp⟩
  exact Numeral.text_ne_text_append (n := n) trivial (List.cons_ne_nil 'B' []) hm.symm

end Smoldb
