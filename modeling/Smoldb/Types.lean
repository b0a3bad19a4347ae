import Mathlib

/-!
# Identifiers, points and errors

The vocabulary of the database: the ids of segments, shards and peers, `PointId` with its two
kinds, points, and the error types with the texts they are displayed as.

Three of the crates the database is built on decide things its own code relies on and are not part
of it: `serde_json` turns points and payloads into text and back, `hashring` hashes shard ids and
point ids, and `tonic` prints the status of a failed call.  They are collected in `Crates`, as
functions together with what holds of them for every point: a point can be written, its id is the
one that is read if its text is, the text of a payload can be read, and no two shard ids hash to the
same place.

That decoding gives back what was encoded is not among these laws.  It does not hold of every
payload, as `serde_json` limits how deep a text may be nested and may read a float one digit off.
Where a result needs it, it is a hypothesis: of the points it is about (`Crates.Readable`,
`Crates.ReadsBack`), or of all of them (`Crates.PointsRoundTrip`, `Crates.PayloadsRoundTrip`).

The payload of a point is a `serde_json::Value`, which the database stores and returns and never
looks into, so it is a type variable `V` throughout.
-/

set_option autoImplicit false

namespace Smoldb

abbrev SegmentId := UInt64

abbrev ShardId := UInt32

abbrev PeerId := UInt64

abbrev CollectionName := String

/-- The components of a path. -/
abbrev Path := List String

/-- The id of a point: a number or a string. -/
inductive PointId where
  | id : UInt64 → PointId
  | uuid : String → PointId
  deriving DecidableEq

namespace PointId

/-- The text of an id, which is the key a segment stores the point under. -/
def intoString : PointId → String
  | id n => Nat.repr n.toNat
  | uuid s => s

/-- The derived order: numbers before strings, each kind in its own order. -/
instance : Ord PointId where
  compare
    | id m, id n => compare m n
    | id _, uuid _ => .lt
    | uuid _, id _ => .gt
    | uuid s, uuid t => compare s t

theorem compare_id_uuid (m : UInt64) (t : String) : compare (id m) (uuid t) = .lt := rfl

theorem compare_uuid_id (s : String) (n : UInt64) : compare (uuid s) (id n) = .gt := rfl

instance : Std.OrientedOrd PointId where
  eq_swap {a b} := by
    cases a <;> cases b
    case id.id m n => exact Std.OrientedOrd.eq_swap (α := UInt64)
    case uuid.uuid s t => exact Std.OrientedOrd.eq_swap (α := String)
    all_goals rfl

instance : Std.TransOrd PointId where
  isLE_trans {a b c} hab hbc := by
    cases a <;> cases b <;> cases c
    case id.id.id => exact Std.TransOrd.isLE_trans (α := UInt64) hab hbc
    case uuid.uuid.uuid => exact Std.TransOrd.isLE_trans (α := String) hab hbc
    all_goals simp_all [compare_id_uuid, compare_uuid_id]

instance : Std.LawfulEqOrd PointId where
  eq_of_compare {a b} h := by
    cases a <;> cases b
    case id.id => exact congrArg id (Std.LawfulEqOrd.eq_of_compare (α := UInt64) h)
    case uuid.uuid => exact congrArg uuid (Std.LawfulEqOrd.eq_of_compare (α := String) h)
    all_goals simp [compare_id_uuid, compare_uuid_id] at h

/-- Is the id a number?  Only these are ever sent to another node. -/
def isId : PointId → Bool
  | id _ => true
  | uuid _ => false

/-- Numbers keep their identity in the key. -/
theorem intoString_id_inj {m n : UInt64} (h : (id m).intoString = (id n).intoString) : m = n :=
  UInt64.toNat_inj.mp (Nat.repr_inj.mp h)

theorem eq_of_intoString {a b : PointId} (ha : a.isId = true) (hb : b.isId = true)
    (h : a.intoString = b.intoString) : a = b := by
  cases a with
  | uuid s => exact absurd ha (by simp [isId])
  | id m =>
    cases b with
    | uuid s => exact absurd hb (by simp [isId])
    | id n => rw [intoString_id_inj h]

end PointId

/-- A point: an id and a payload. -/
@[ext]
structure Point (V : Type) where
  id : PointId
  payload : V
  deriving DecidableEq

/-- `StorageError`. -/
inductive StorageError where
  | badInput : String → StorageError
  | serviceError : String → StorageError
  deriving DecidableEq

instance : ToString StorageError where
  toString
    | .badInput e => s!"Bad input: {e}"
    | .serviceError e => s!"Service error: {e}"

/-- The status codes the internal services answer with. -/
inductive Code where
  | notFound
  | internal
  | unavailable
  deriving DecidableEq

/-- A `tonic::Status`. -/
structure Status where
  code : Code
  message : String
  deriving DecidableEq

/-- `CollectionError`, with the errors of the crates it wraps as their texts. -/
inductive CollectionError where
  | tonicTransportError : String → CollectionError
  | tonicStatusError : Status → CollectionError
  | serviceError : String → CollectionError
  | storageError : StorageError → CollectionError
  | jsonParseError : String → CollectionError
  deriving DecidableEq

/-- `CollectionResult<T>`. -/
abbrev CollectionResult (α : Type) := Except CollectionError α

theorem except_map_eq_ok {ε α β : Type} {f : α → β} {x : Except ε α} {b : β} :
    x.map f = .ok b ↔ ∃ a, x = .ok a ∧ f a = b := by
  cases x <;> simp [Except.map]

/-- A `HashMap<K, T>`.  The order of the entries is the order in which the map is iterated. -/
abbrev HashMap (κ α : Type) := AList fun _ : κ ↦ α

/-- The order in which a fresh hash map is iterated: any order of its entries. -/
structure IterOrder (α : Type) where
  arrange : List α → List α
  perm : ∀ l, (arrange l).Perm l

/-- Iteration in the order of insertion. -/
def IterOrder.insertion {α : Type} : IterOrder α := ⟨fun l ↦ l, fun _ ↦ .refl _⟩

/-- Iteration against the order of insertion. -/
def IterOrder.reversed {α : Type} : IterOrder α := ⟨List.reverse, List.reverse_perm⟩

namespace HashMap

variable {κ α β : Type}

/-- The map as it is iterated after it has been filled. -/
def arrangedBy (m : HashMap κ α) (order : IterOrder (Σ _ : κ, α)) : HashMap κ α :=
  ⟨order.arrange m.entries, (List.perm_nodupKeys (order.perm m.entries)).mpr m.nodupKeys⟩

/-- Replace every value in place. -/
def mapValues (m : HashMap κ α) (g : κ → α → β) : HashMap κ β :=
  ⟨m.entries.map fun e ↦ ⟨e.1, g e.1 e.2⟩, by
    rw [List.NodupKeys, List.keys, List.map_map]
    exact m.nodupKeys⟩

@[simp] theorem mem_arrangedBy {m : HashMap κ α} {order : IterOrder (Σ _ : κ, α)} {k : κ} :
    k ∈ m.arrangedBy order ↔ k ∈ m :=
  AList.mem_of_perm (order.perm m.entries)

@[simp] theorem keys_mapValues (m : HashMap κ α) (g : κ → α → β) :
    (m.mapValues g).keys = m.keys := by
  rw [AList.keys, mapValues, List.keys, List.map_map]
  rfl

theorem mapValues_mapValues {γ : Type} (m : HashMap κ α) (g : κ → α → β) (f : κ → β → γ) :
    (m.mapValues g).mapValues f = m.mapValues fun k a ↦ f k (g k a) :=
  AList.ext (List.map_map ..)

variable [DecidableEq κ]

@[simp] theorem lookup_arrangedBy (m : HashMap κ α) (order : IterOrder (Σ _ : κ, α)) (k : κ) :
    (m.arrangedBy order).lookup k = m.lookup k :=
  AList.perm_lookup (order.perm m.entries)

theorem lookup_mapValues (m : HashMap κ α) (g : κ → α → β) (k : κ) :
    (m.mapValues g).lookup k = (m.lookup k).map (g k) :=
  List.dlookup_map₂ (l := m.entries) (f := g) k

end HashMap

/-- What the code takes from `serde_json`, `hashring` and `tonic`.

The laws are those that `serde_json` keeps for every point.  A point can always be written.  A text
that was written for a point may be refused, since the reader gives up on values nested more than
127 deep and a payload is one level deeper inside a point than by itself; but if it is read, the id
is the one that was written.  The text of a payload is read by itself, as payloads come from texts
that were, but what is read may be another payload: numbers are read without `float_roundtrip`, and
the last digit of one may change. -/
structure Crates (V : Type) where
  /-- `serde_json::to_string` of a point. -/
  pointToString : Point V → Except String String
  /-- `serde_json::from_slice` into a point. -/
  pointFromSlice : String → Except String (Point V)
  /-- `serde_json::Value::to_string`. -/
  valueToString : V → String
  /-- `serde_json::from_str` into a value. -/
  valueFromStr : String → Except String V
  /-- The place of a shard on the ring. -/
  hashShard : ShardId → UInt64
  /-- The place of a point id on the ring. -/
  hashPoint : PointId → UInt64
  /-- `Display` of a status. -/
  showStatus : Status → String
  pointToString_ok : ∀ p, ∃ s, pointToString p = .ok s
  pointFromSlice_id : ∀ p s q, pointToString p = .ok s → pointFromSlice s = .ok q → q.id = p.id
  valueFromStr_ok : ∀ v, ∃ v', valueFromStr (valueToString v) = .ok v'
  hashShard_injective : Function.Injective hashShard

namespace Crates

variable {V : Type} (X : Crates V)

/-- `Display` of a collection error. -/
def showError : CollectionError → String
  | .tonicTransportError e => s!"Tonic transport error: {e}"
  | .tonicStatusError st => s!"Tonic error: {X.showStatus st}"
  | .serviceError e => s!"Service error: {e}"
  | .storageError e => s!"Storage error: {e}"
  | .jsonParseError e => s!"Json parsing error: {e}"

/-- The text a point is stored as. -/
def encode (p : Point V) : String := ((X.pointToString p).toOption).getD ""

theorem pointToString_eq (p : Point V) : X.pointToString p = .ok (X.encode p) := by
  obtain ⟨s, hs⟩ := X.pointToString_ok p
  rw [encode, hs]
  rfl

/-- The text of a point is read as a point with its id, if it is read. -/
theorem id_of_read {p q : Point V} (h : X.pointFromSlice (X.encode p) = .ok q) : q.id = p.id :=
  X.pointFromSlice_id p _ q (X.pointToString_eq p) h

/-! ## What is read back

A point that is stored is read back from its text, and a point that is sent to another node has its
payload read back from the text of the payload. -/

/-- What is read from the text of the first point is the second one. -/
def ReadsAs (p q : Point V) : Prop := X.pointFromSlice (X.encode p) = .ok q

theorem ReadsAs.id_eq {X : Crates V} {p q : Point V} (h : X.ReadsAs p q) : q.id = p.id :=
  X.id_of_read h

/-- The text of the point is read as some point. -/
def Readable (p : Point V) : Prop := ∃ q, X.pointFromSlice (X.encode p) = .ok q

/-- The text of the point is read as the point. -/
def ReadsBack (p : Point V) : Prop := X.pointFromSlice (X.encode p) = .ok p

theorem ReadsBack.readable {X : Crates V} {p : Point V} (h : X.ReadsBack p) : X.Readable p := ⟨p, h⟩

/-- The point that another node makes of a point that is sent to it. -/
def resend (p : Point V) : Point V :=
  match X.valueFromStr (X.valueToString p.payload) with
  | .ok payload => ⟨p.id, payload⟩
  | .error _ => p

@[simp] theorem resend_id (p : Point V) : (X.resend p).id = p.id := by
  rw [resend]
  split <;> rfl

theorem valueFromStr_toString (p : Point V) :
    X.valueFromStr (X.valueToString p.payload) = .ok (X.resend p).payload := by
  obtain ⟨v, hv⟩ := X.valueFromStr_ok p.payload
  rw [resend, hv]

/-- **Points round-trip**: the text of a point is read as the point.  This is what `serde_json` does
for payloads nested at most 126 deep whose numbers are integers, or floats that it happens to read
as they were, and not for others: it is built without `float_roundtrip`, and its limit of recursion
is 128.  So it is an assumption on `V`, the payloads that are used, and a result that needs it is
about those. -/
class PointsRoundTrip (X : Crates V) : Prop where
  readsBack : ∀ p, X.ReadsBack p

/-- **Payloads round-trip**: the text of a payload is read as the payload.  This is what
`serde_json` does for payloads whose numbers are integers, or floats that it happens to read as they
were.  It is an assumption on `V` as well, and needed where a point goes to another node. -/
class PayloadsRoundTrip (X : Crates V) : Prop where
  valueFromStr_toString : ∀ v, X.valueFromStr (X.valueToString v) = .ok v

@[simp] theorem pointFromSlice_encode [X.PointsRoundTrip] (p : Point V) :
    X.pointFromSlice (X.encode p) = .ok p := PointsRoundTrip.readsBack p

theorem readable [X.PointsRoundTrip] (p : Point V) : X.Readable p :=
  (PointsRoundTrip.readsBack p).readable

theorem encode_injective [X.PointsRoundTrip] : Function.Injective X.encode := by
  intro p q h
  have hp := X.pointFromSlice_encode p
  rw [h, X.pointFromSlice_encode] at hp
  exact (Except.ok.inj hp).symm

@[simp] theorem resend_eq [X.PayloadsRoundTrip] (p : Point V) : X.resend p = p := by
  rw [resend, PayloadsRoundTrip.valueFromStr_toString]

end Crates

end Smoldb
