import Smoldb.Types
import Smoldb.Lib.Decimal

/-!
# Points as text

`Crates` leaves open how points are written as text and where ids sit on the ring.  Here are two
instances of it, for payloads of a kind of which there are finitely many.

Points are written the way `serde_json` writes them, as an object with a number or a string for an
id and the payload behind it.  What differs between payloads is in a `Json.Format`: the text of each
of them, and what the reader makes of that text, by itself (`reread`) and as a part of a point
(`rereadInside`).  The texts have no comma, so the payload of a point is what stands behind the last
`,"payload":` of its text, whatever the id is, and that is all `Format.pointFromSlice` needs to tell
the payload from the id (`readWith_pointText`).

`Crates.bool` has the payloads `true` and `false`, which are read as they were written.
`Crates.uneven` has payloads for which this is not so: four floats, of which the reader takes the
first three for the next one each, and arrays in arrays, which it gives up on at a depth of 128.

In both the ring has shard `0` at place `0`, shard `1` at place `1` and every id at place `0` but
the number `2`.  That is the routing the source's own test of it expects.
-/

set_option autoImplicit false

namespace Smoldb

namespace Json

/-- An id in JSON: an untagged number or string. -/
def idText : PointId → List Char
  | .id n => Nat.toDigits 10 n.toNat
  | .uuid s => '"' :: (s.toList ++ ['"'])

/-- What stands before the id. -/
def opening : List Char := "\x7b\"id\":".toList

/-- What stands behind the id. -/
def closing (payload : String) : List Char := (",\"payload\":" ++ payload ++ "\x7d").toList

/-- A point in JSON. -/
def pointText (id : PointId) (payload : String) : String :=
  String.ofList (opening ++ (idText id ++ closing payload))

/-- Read an id: a string if it starts with a quote, and a number otherwise. -/
def readId : List Char → Option PointId
  | '"' :: cs => some (.uuid (String.ofList cs.dropLast))
  | cs => (Decimal.parse 64 (String.ofList cs)).map fun n ↦ .id (UInt64.ofNat n)

/-- Read the id of a point with this payload. -/
def readWith (payload : String) (cs : List Char) : Option PointId :=
  ((cs.dropPrefix? opening).bind (·.dropSuffix? (closing payload))).bind readId

theorem readId_idText (id : PointId) : readId (idText id) = some id := by
  cases id with
  | uuid s =>
    rw [idText, readId, List.dropLast_concat, String.ofList_toList]
  | id n =>
    have hn : Decimal.parse 64 (Nat.repr n.toNat) = some n.toNat := Decimal.parse_repr n.toNat_lt
    have hhead : ∀ cs, idText (.id n) ≠ '"' :: cs := by
      intro cs h
      have hq : '"' ∈ Nat.toDigits 10 n.toNat := by
        rw [show Nat.toDigits 10 n.toNat = '"' :: cs from h]
        exact List.mem_cons_self
      exact absurd (Decimal.isDigit_of_mem hq) (by decide)
    rw [readId, idText, ← Nat.repr_eq_ofList_toDigits, hn, Option.map_some, UInt64.ofNat_toNat]
    exact hhead

/-- The closing without the comma it starts with. -/
theorem closing_eq (payload : String) :
    closing payload = ',' :: ("\"payload\":".toList ++ (payload.toList ++ ['\x7d'])) := by
  rw [closing, String.toList_append, String.toList_append, List.append_assoc]
  rfl

/-- A closing starts with the only comma it has. -/
theorem comma_notMem_tail {payload : String} (h : ',' ∉ payload.toList) :
    ',' ∉ (closing payload).tail := by
  rw [closing_eq, List.tail_cons, List.mem_append, List.mem_append, not_or, not_or]
  exact ⟨by decide, h, by decide⟩

/-- A closing that ends another one is that one. -/
theorem closing_inj_of_suffix {a b : String} (hb : ',' ∉ b.toList)
    (h : closing a <:+ closing b) : a = b := by
  have hcons : closing b = ',' :: (closing b).tail := by
    rw [closing_eq]
    rfl
  have hlist : closing a = closing b := by
    rw [hcons, List.suffix_cons_iff] at h
    rcases h with heq | htail
    · rw [hcons, heq]
    · refine absurd (htail.subset ?_) (comma_notMem_tail hb)
      rw [closing_eq a]
      exact List.mem_cons_self
  rw [closing_eq, closing_eq, List.cons_inj_right, List.append_cancel_left_eq,
    List.append_cancel_right_eq] at hlist
  exact String.toList_inj.mp hlist

/-- **The text of a point has one reading**: with the payload it was written with, as its id. -/
theorem readWith_pointText {a b : String} (ha : ',' ∉ a.toList) (hb : ',' ∉ b.toList)
    (id : PointId) : readWith b (pointText id a).toList = if b = a then some id else none := by
  have hprefix : (pointText id a).toList.dropPrefix? opening = some (idText id ++ closing a) := by
    rw [pointText, String.toList_ofList]
    exact List.dropPrefix?_append_of_beq _ (beq_self_eq_true opening)
  rw [readWith, hprefix, Option.bind_some]
  split
  · rename_i hab
    have hsuffix : (idText id ++ closing a).dropSuffix? (closing b) = some (idText id) :=
      List.dropSuffix?_eq_some_iff.mpr ⟨closing a, rfl, by rw [hab]; exact beq_self_eq_true _⟩
    rw [hsuffix, Option.bind_some, readId_idText]
  · rename_i hab
    have hsuffix : (idText id ++ closing a).dropSuffix? (closing b) = none := by
      rw [Option.eq_none_iff_forall_ne_some]
      intro q hq
      obtain ⟨s, hs, hbs⟩ := List.dropSuffix?_eq_some_iff.mp hq
      rw [beq_iff_eq] at hbs
      rw [hbs] at hs
      -- two lists that end the same text, one of which therefore ends the other
      rcases List.suffix_or_suffix_of_suffix ⟨_, hs.symm⟩ (List.suffix_append _ (closing a))
        with hba | hba
      · exact hab (closing_inj_of_suffix ha hba)
      · exact hab (closing_inj_of_suffix hb hba).symm
    rw [hsuffix]
    rfl

/-- Some payloads as JSON, and what the reader makes of them. -/
structure Format (V : Type) where
  values : List V
  text : V → String
  /-- What is read from the text of a payload. -/
  reread : V → V
  /-- What is read from the text of a payload in a point. -/
  rereadInside : V → Except String V
  mem_values : ∀ v, v ∈ values
  text_injective : Function.Injective text
  comma_notMem_text : ∀ v, ',' ∉ (text v).toList

namespace Format

variable {V : Type} (F : Format V)

/-- The point a text is written for. -/
def pointOf (text : String) : Option (Point V) :=
  F.values.findSome? fun v ↦ (readWith (F.text v) text.toList).map (⟨·, v⟩)

/-- Read a point. -/
def pointFromSlice (text : String) : Except String (Point V) :=
  match F.pointOf text with
  | some p => (F.rereadInside p.payload).map (⟨p.id, ·⟩)
  | none => .error "invalid point"

/-- Read a payload. -/
def valueFromStr (text : String) : Except String V :=
  match F.values.find? fun v ↦ F.text v = text with
  | some v => .ok (F.reread v)
  | none => .error "invalid payload"

theorem pointOf_pointText (id : PointId) (v : V) :
    F.pointOf (pointText id (F.text v)) = some ⟨id, v⟩ := by
  have hread := fun u ↦
    readWith_pointText (F.comma_notMem_text v) (F.comma_notMem_text u) id
  cases h : F.pointOf (pointText id (F.text v)) with
  | none =>
    have hv := List.findSome?_eq_none_iff.mp h v (F.mem_values v)
    rw [hread, if_pos rfl] at hv
    exact nomatch hv
  | some p =>
    obtain ⟨u, -, hu⟩ := List.exists_of_findSome?_eq_some h
    obtain ⟨id', hid, rfl⟩ := Option.map_eq_some_iff.mp hu
    rw [hread] at hid
    split at hid
    · rename_i huv
      rw [Option.some.inj hid, F.text_injective huv]
    · exact nomatch hid

theorem pointFromSlice_pointText (id : PointId) (v : V) :
    F.pointFromSlice (pointText id (F.text v)) = (F.rereadInside v).map (⟨id, ·⟩) := by
  rw [pointFromSlice, pointOf_pointText]

theorem valueFromStr_text (v : V) : F.valueFromStr (F.text v) = .ok (F.reread v) := by
  have hfind : F.values.find? (fun u ↦ F.text u = F.text v) = some v := by
    cases h : F.values.find? (fun u ↦ F.text u = F.text v) with
    | none => exact absurd (decide_eq_true rfl) (List.find?_eq_none.mp h v (F.mem_values v))
    | some u =>
      have hu := List.find?_some h
      rw [decide_eq_true_iff] at hu
      rw [F.text_injective hu]
  rw [valueFromStr, hfind]

end Format

/-- The place of a shard: its id. -/
def placeOfShard (s : ShardId) : UInt64 := s.toUInt64

/-- The place of a point id. -/
def placeOfPoint (id : PointId) : UInt64 := if id = .id 2 then 1 else 0

theorem placeOfShard_injective : Function.Injective placeOfShard := by
  intro s t h
  have hnat : s.toUInt64.toNat = t.toUInt64.toNat := congrArg UInt64.toNat h
  rw [UInt32.toNat_toUInt64, UInt32.toNat_toUInt64] at hnat
  exact UInt32.toNat_inj.mp hnat

/-- The crates, for payloads of a format. -/
def Format.crates {V : Type} (F : Format V) : Crates V where
  pointToString p := .ok (pointText p.id (F.text p.payload))
  pointFromSlice := F.pointFromSlice
  valueToString := F.text
  valueFromStr := F.valueFromStr
  hashShard := placeOfShard
  hashPoint := placeOfPoint
  showStatus st := st.message
  pointToString_ok p := ⟨_, rfl⟩
  pointFromSlice_id p s q hs hq := by
    cases hs
    rw [F.pointFromSlice_pointText] at hq
    obtain ⟨v, -, rfl⟩ := except_map_eq_ok.mp hq
    rfl
  valueFromStr_ok v := ⟨_, F.valueFromStr_text v⟩
  hashShard_injective := placeOfShard_injective

section Crates

variable {V : Type} (F : Format V) (p : Point V)

theorem Format.pointFromSlice_encode : F.crates.pointFromSlice (F.crates.encode p)
    = (F.rereadInside p.payload).map (⟨p.id, ·⟩) := F.pointFromSlice_pointText p.id p.payload

theorem Format.resend_eq : F.crates.resend p = ⟨p.id, F.reread p.payload⟩ := by
  have h : F.crates.valueFromStr (F.crates.valueToString p.payload) = .ok (F.reread p.payload) :=
    F.valueFromStr_text p.payload
  rw [Crates.resend, h]

end Crates

/-! ## Payloads that are read as they were written -/

/-- `true` and `false`. -/
def boolean : Format Bool where
  values := [true, false]
  text b := if b then "true" else "false"
  reread b := b
  rereadInside := .ok
  mem_values := by decide
  text_injective := by decide
  comma_notMem_text := by decide

/-! ## Payloads that are not -/

/-- A payload that the reader does not give back as it was written, or not always. -/
inductive Uneven where
  | float : Fin 4 → Uneven
  /-- As many arrays, each in the one before, and one more. -/
  | arrays : Fin 127 → Uneven
  deriving DecidableEq

namespace Uneven

/-- The text of a payload. -/
def text : Uneven → String
  | float 0 => "6.934698245112693e276"
  | float 1 => "6.934698245112692e276"
  | float 2 => "6.934698245112691e276"
  | float 3 => "6.93469824511269e276"
  | arrays n => String.ofList (List.replicate (n + 1) '[' ++ List.replicate (n + 1) ']')

/-- The reader gets the last digit of a float wrong. -/
def reread : Uneven → Uneven
  | float 0 => float 1
  | float 1 => float 2
  | float _ => float 3
  | arrays n => arrays n

/-- Inside a point there is one level less for the payload. -/
def rereadInside : Uneven → Except String Uneven
  | arrays 126 => .error "recursion limit exceeded"
  | v => .ok v.reread

theorem bracket_mem_text {v : Uneven} : '[' ∈ v.text.toList ↔ ∃ n, v = arrays n := by
  cases v with
  | float i => exact iff_of_false (by revert i; decide) (by simp)
  | arrays n => simp [text]

theorem text_injective : Function.Injective text := by
  intro u v h
  have hbracket := bracket_mem_text (v := u)
  rw [h, bracket_mem_text] at hbracket
  cases u with
  | arrays m =>
    obtain ⟨n, rfl⟩ := hbracket.mpr ⟨m, rfl⟩
    have hlength := congrArg (fun s : String ↦ s.toList.length) h
    simp only [text, String.toList_ofList, List.length_append, List.length_replicate] at hlength
    exact congrArg arrays (Fin.ext (by omega))
  | float i =>
    cases v with
    | arrays n => exact absurd (hbracket.mp ⟨n, rfl⟩) (by simp)
    | float j =>
      clear hbracket
      revert i j
      decide

theorem comma_notMem_text (v : Uneven) : ',' ∉ v.text.toList := by
  cases v with
  | float i => revert i; decide
  | arrays n => simp [text]

end Uneven

/-- Floats and arrays. -/
def uneven : Format Uneven where
  values := (List.finRange 4).map .float ++ (List.finRange 127).map .arrays
  text := Uneven.text
  reread := Uneven.reread
  rereadInside := Uneven.rereadInside
  mem_values v := by cases v <;> simp
  text_injective := Uneven.text_injective
  comma_notMem_text := Uneven.comma_notMem_text

end Json

/-- The crates, for payloads that are `true` or `false`. -/
def Crates.bool : Crates Bool := Json.boolean.crates

instance : Crates.bool.PointsRoundTrip where
  readsBack := Json.boolean.pointFromSlice_encode

instance : Crates.bool.PayloadsRoundTrip where
  valueFromStr_toString := Json.boolean.valueFromStr_text

/-- The crates, for payloads that are not read as they were written. -/
def Crates.uneven : Crates Json.Uneven := Json.uneven.crates

end Smoldb
