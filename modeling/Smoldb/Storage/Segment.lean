import Smoldb.Types
import Smoldb.Lib.LastWrite

/-!
# Segments

A segment is one sled tree.  A point is stored under the text of its id, as the JSON text of the
whole point, so a segment is a map from strings to strings, and it is `Db`.

Every call to sled may fail.  `SledWrites` and `SledReads` say what sled answers to the calls of
one `insert_points` and one `get_points`: the calls are numbered in the order in which they are
made, and a failing insert says whether it took effect all the same.  Nothing else in these
functions is left open.

`insertPoints_spec` is the one fact about writing that the rest of the development uses: whatever
sled does, the tree ends up with a prefix of the list written to it, all of the list if the call
returns `Ok`, and how much is written and what is returned do not depend on the tree.
-/

set_option autoImplicit false

namespace Smoldb

open LastWrite

/-- The content of a sled tree. -/
abbrev Db := Std.ExtTreeMap String String

/-- What sled answers to one insert. -/
inductive SledCall where
  | ok
  /-- An error, and whether the entry is in the tree nevertheless. -/
  | fails (e : String) (applied : Bool)
  deriving DecidableEq

/-- What sled answers to the calls of one `insert_points`. -/
structure SledWrites where
  insert : ℕ → SledCall
  flush : Option String

/-- What sled answers to the calls of one `get_points`: the error of the call, if it fails. -/
structure SledReads where
  get : ℕ → Option String
  iter : ℕ → Option String

/-- Sled answers every call. -/
def SledWrites.clean : SledWrites := ⟨fun _ ↦ .ok, none⟩

@[inherit_doc SledWrites.clean]
def SledReads.clean : SledReads := ⟨fun _ ↦ none, fun _ ↦ none⟩

variable {V : Type} (X : Crates V)

/-- A `Segment`.  The tree behind its sled handle is in the state, not here. -/
structure Segment where
  path : Path
  deriving DecidableEq

namespace Segment

/-! ## The code -/

/-- The loop of `insert_points`, from its `i`-th round on, and the flush behind it. -/
def insertFrom (env : SledWrites) : ℕ → List (Point V) → Db → Db × Except StorageError Unit
  | _, [], db =>
    match env.flush with
    | none => (db, .ok ())
    | some e => (db, .error (.serviceError s!"Failed to flush segment db: {e}"))
  | i, p :: ps, db =>
    match X.pointToString p with
    | .error e => (db, .error (.serviceError s!"Failed to serialize point: {e}"))
    | .ok value =>
      match env.insert i with
      | .ok => insertFrom env (i + 1) ps (db.insert p.id.intoString value)
      | .fails e applied =>
        (if applied then db.insert p.id.intoString value else db,
          .error (.serviceError s!"Failed to insert point into segment db: {e}"))

/-- `Segment::insert_points`. -/
def insertPoints (env : SledWrites) (points : List (Point V)) (db : Db) :
    Db × Except StorageError Unit := insertFrom X env 0 points db

/-- Decoding a stored value. -/
def decode (value : String) : Except StorageError (Point V) :=
  match X.pointFromSlice value with
  | .ok p => .ok p
  | .error e => .error (.serviceError s!"Failed to deserialize point: {e}")

/-- The loop of `get_points` over the entries of the tree. -/
def iterFrom (env : SledReads) : ℕ → List (String × String) → Except StorageError (List (Point V))
  | _, [] => .ok []
  | i, (_, value) :: es =>
    match env.iter i with
    | some e => .error (.serviceError s!"Failed to iterate over segment db: {e}")
    | none =>
      match decode X value with
      | .error e => .error e
      | .ok p => (iterFrom env (i + 1) es).map (p :: ·)

/-- The loop of `get_points` over the ids asked for. -/
def getFrom (env : SledReads) (db : Db) : ℕ → List PointId → Except StorageError (List (Point V))
  | _, [] => .ok []
  | i, id :: ids =>
    match env.get i with
    | some e => .error (.serviceError s!"Failed to get point from segment db: {e}")
    | none =>
      match db[id.intoString]? with
      | none => getFrom env db (i + 1) ids
      | some value =>
        match decode X value with
        | .error e => .error e
        | .ok p => (getFrom env db (i + 1) ids).map (p :: ·)

/-- `Segment::get_points`. -/
def getPoints (env : SledReads) (ids : Option (List PointId)) (db : Db) :
    Except StorageError (List (Point V)) :=
  match ids with
  | none => iterFrom X env 0 db.toList
  | some ids => getFrom X env db 0 ids

/-- `Segment::count_points`. -/
def countPoints (db : Db) : ℕ := db.size

/-! ## What is written -/

/-- Store one point. -/
def put (db : Db) (p : Point V) : Db := db.insert p.id.intoString (X.encode p)

/-- Store points one after the other. -/
def putAll (points : List (Point V)) (db : Db) : Db := points.foldl (put X) db

@[simp] theorem putAll_nil (db : Db) : putAll X [] db = db := rfl

@[simp] theorem putAll_cons (p : Point V) (ps : List (Point V)) (db : Db) :
    putAll X (p :: ps) db = putAll X ps (put X db p) := rfl

theorem putAll_append (ps qs : List (Point V)) (db : Db) :
    putAll X (ps ++ qs) db = putAll X qs (putAll X ps db) := List.foldl_append

/-- The key a point is stored under. -/
def keyOf (p : Point V) : String := p.id.intoString

/-- **What a tree holds after some points are stored**: the last one of each key, and what was
there before under the other keys. -/
theorem getElem?_putAll (points : List (Point V)) (db : Db) (k : String) :
    (putAll X points db)[k]? = ((last keyOf points k).map X.encode).or db[k]? :=
  getElem?_foldl_insert keyOf X.encode points db k

theorem insertFrom_spec (env : SledWrites) (i : ℕ) (points : List (Point V)) :
    ∃ n r, (∀ db, insertFrom X env i points db = (putAll X (points.take n) db, r)) ∧
      (r = .ok () → points.length ≤ n) := by
  induction points generalizing i with
  | nil =>
    cases hf : env.flush with
    | none => exact ⟨0, .ok (), fun db ↦ by simp [insertFrom, hf], by simp⟩
    | some e => exact ⟨0, .error _, fun db ↦ by simp [insertFrom, hf]; rfl, by simp⟩
  | cons p ps ih =>
    cases hi : env.insert i with
    | ok =>
      obtain ⟨n, r, hn, hr⟩ := ih (i + 1)
      refine ⟨n + 1, r, fun db ↦ ?_, fun h ↦ by simpa using hr h⟩
      simp only [insertFrom, X.pointToString_eq, hi, hn, List.take_succ_cons, putAll_cons, put]
    | fails e applied =>
      refine ⟨if applied then 1 else 0, (insertFrom X env i (p :: ps) ∅).2, fun db ↦ ?_, ?_⟩
      · simp only [insertFrom, X.pointToString_eq, hi]
        cases applied <;> simp [put]
      · simp only [insertFrom, X.pointToString_eq, hi]
        exact fun h ↦ nomatch h

/-- **Writing to a segment**, whatever sled does: a prefix of the points is stored, all of them if
the call succeeds; how long it is and what is returned do not depend on the tree. -/
theorem insertPoints_spec (env : SledWrites) (points : List (Point V)) :
    ∃ n r, (∀ db, insertPoints X env points db = (putAll X (points.take n) db, r)) ∧
      (r = .ok () → points.length ≤ n) :=
  insertFrom_spec X env 0 points

theorem insertFrom_clean (i : ℕ) (points : List (Point V)) (db : Db) :
    insertFrom X .clean i points db = (putAll X points db, .ok ()) := by
  induction points generalizing i db with
  | nil => rfl
  | cons p ps ih => simp only [insertFrom, X.pointToString_eq, SledWrites.clean]; exact ih _ _

theorem insertPoints_clean (points : List (Point V)) (db : Db) :
    insertPoints X .clean points db = (putAll X points db, .ok ()) :=
  insertFrom_clean X 0 points db

/-! ## What is read -/

/-- The point stored under a key, as it is read. -/
def read (db : Db) (k : String) : Option (Point V) :=
  db[k]?.bind fun value ↦ (X.pointFromSlice value).toOption

/-- Every value in the tree is the text of a point that is stored under its own key. -/
def Sound (db : Db) : Prop := ∀ k v, db[k]? = some v → ∃ p, v = X.encode p ∧ keyOf p = k

/-- What is stored under the key, if anything is, can be read. -/
def ReadableAt (db : Db) (k : String) : Prop :=
  ∀ v, db[k]? = some v → ∃ p, X.pointFromSlice v = .ok p

/-- Everything in the tree can be read. -/
def Readable (db : Db) : Prop := ∀ k, ReadableAt X db k

theorem decode_eq_ok {value : String} {p : Point V} :
    decode X value = .ok p ↔ (X.pointFromSlice value).toOption = some p := by
  rw [decode]
  cases X.pointFromSlice value <;> simp [Except.toOption]

theorem read_eq_some_iff {db : Db} {k : String} {p : Point V} :
    read X db k = some p ↔ ∃ v, db[k]? = some v ∧ X.pointFromSlice v = .ok p := by
  rw [read, Option.bind_eq_some_iff]
  refine exists_congr fun v ↦ and_congr_right fun _ ↦ ?_
  cases X.pointFromSlice v <;> simp [Except.toOption]

theorem read_eq_some_of_encode [X.PointsRoundTrip] {db : Db} {k : String} {p : Point V}
    (h : db[k]? = some (X.encode p)) : read X db k = some p :=
  (read_eq_some_iff X).mpr ⟨_, h, X.pointFromSlice_encode p⟩

theorem Sound.empty : Sound X ∅ := by intro k v h; simp at h

theorem Sound.put {X : Crates V} {db : Db} (h : Sound X db) (p : Point V) :
    Sound X (Segment.put X db p) := by
  intro k v hv
  rw [Segment.put, Std.ExtTreeMap.getElem?_insert] at hv
  split at hv
  · rename_i hk
    rw [Option.some_inj] at hv
    exact ⟨p, hv.symm, Std.LawfulEqCmp.eq_of_compare hk⟩
  · exact h k v hv

theorem Sound.putAll {X : Crates V} {db : Db} (h : Sound X db) (points : List (Point V)) :
    Sound X (Segment.putAll X points db) := by
  induction points generalizing db with
  | nil => exact h
  | cons p ps ih => exact ih (h.put p)

/-- If all points can be read, everything in a sound tree can. -/
theorem Sound.readable {X : Crates V} [X.PointsRoundTrip] {db : Db} (h : Sound X db) :
    Readable X db := by
  intro k v hv
  obtain ⟨p, rfl, -⟩ := h k v hv
  exact ⟨p, X.pointFromSlice_encode p⟩

/-- What a key reads as has the key, since its id is the one that was stored. -/
theorem Sound.key_of_read {X : Crates V} {db : Db} (h : Sound X db) {k : String} {p : Point V}
    (hr : read X db k = some p) : keyOf p = k := by
  obtain ⟨v, hv, hp⟩ := (read_eq_some_iff X).mp hr
  obtain ⟨q, rfl, hk⟩ := h k v hv
  rw [keyOf, X.id_of_read hp]
  exact hk

/-- In a sound tree a stored value is what its key reads as. -/
theorem Sound.getElem?_iff {X : Crates V} [X.PointsRoundTrip] {db : Db} (h : Sound X db)
    {k : String} {p : Point V} : db[k]? = some (X.encode p) ↔ read X db k = some p := by
  refine ⟨read_eq_some_of_encode X, fun hr ↦ ?_⟩
  obtain ⟨v, hv, hp⟩ := (read_eq_some_iff X).mp hr
  obtain ⟨q, rfl, -⟩ := h k v hv
  rw [X.pointFromSlice_encode] at hp
  cases hp
  exact hv

/-- A by-id read that succeeds returns, for every id asked for, what is stored under its text. -/
theorem getFrom_eq_ok {env : SledReads} {db : Db} {i : ℕ} {ids : List PointId}
    {ps : List (Point V)} (h : getFrom X env db i ids = .ok ps) :
    (∀ id ∈ ids, ReadableAt X db id.intoString) ∧
      ps = ids.filterMap fun id ↦ read X db id.intoString := by
  induction ids generalizing i ps with
  | nil => rw [getFrom] at h; cases h; exact ⟨fun _ hid ↦ absurd hid List.not_mem_nil, rfl⟩
  | cons id ids ih =>
    rw [getFrom] at h
    rw [List.forall_mem_cons]
    split at h
    · exact nomatch h
    · split at h
      · rename_i hdb
        obtain ⟨hreadable, hps⟩ := ih h
        refine ⟨⟨fun v hv ↦ ?_, hreadable⟩, ?_⟩
        · rw [hdb] at hv
          exact nomatch hv
        · rw [List.filterMap_cons, read, hdb, Option.bind_none]
          exact hps
      · rename_i value hdb
        split at h
        · exact nomatch h
        · rename_i p hp
          obtain ⟨qs, hqs, rfl⟩ := except_map_eq_ok.mp h
          obtain ⟨hreadable, hps⟩ := ih hqs
          have hread : read X db id.intoString = some p := by
            rw [read, hdb, Option.bind_some, (decode_eq_ok X).mp hp]
          refine ⟨⟨fun v hv ↦ ?_, hreadable⟩, ?_⟩
          · obtain ⟨w, hw, hdec⟩ := (read_eq_some_iff X).mp hread
            rw [← Option.some.inj (hw.symm.trans hv)]
            exact ⟨p, hdec⟩
          · rw [List.filterMap_cons, hread, hps]

theorem getFrom_clean {db : Db} {ids : List PointId}
    (h : ∀ id ∈ ids, ReadableAt X db id.intoString) (i : ℕ) :
    getFrom X .clean db i ids = .ok (ids.filterMap fun id ↦ read X db id.intoString) := by
  induction ids generalizing i with
  | nil => rfl
  | cons id ids ih =>
    rw [List.forall_mem_cons] at h
    rw [getFrom, SledReads.clean]
    cases hdb : db[id.intoString]? with
    | none => rw [List.filterMap_cons, read, hdb, Option.bind_none]; exact ih h.2 _
    | some value =>
      obtain ⟨p, hp⟩ := h.1 value hdb
      have hread : read X db id.intoString = some p := (read_eq_some_iff X).mpr ⟨value, hdb, hp⟩
      simp only [decode, hp, List.filterMap_cons, hread]
      rw [show (⟨fun _ ↦ none, fun _ ↦ none⟩ : SledReads) = .clean from rfl, ih h.2]
      rfl

theorem iterFrom_eq_ok {env : SledReads} {i : ℕ} {es : List (String × String)}
    {ps : List (Point V)} (h : iterFrom X env i es = .ok ps) :
    (∀ e ∈ es, ∃ p, X.pointFromSlice e.2 = .ok p) ∧
      ps = es.filterMap fun e ↦ (X.pointFromSlice e.2).toOption := by
  induction es generalizing i ps with
  | nil => rw [iterFrom] at h; cases h; exact ⟨fun _ he ↦ absurd he List.not_mem_nil, rfl⟩
  | cons e es ih =>
    obtain ⟨k, value⟩ := e
    rw [iterFrom] at h
    rw [List.forall_mem_cons]
    split at h
    · exact nomatch h
    · split at h
      · exact nomatch h
      · rename_i p hp
        obtain ⟨qs, hqs, rfl⟩ := except_map_eq_ok.mp h
        obtain ⟨hreadable, hps⟩ := ih hqs
        have hread := (decode_eq_ok X).mp hp
        refine ⟨⟨⟨p, ?_⟩, hreadable⟩, by rw [List.filterMap_cons, hread, hps]⟩
        cases hv : X.pointFromSlice value with
        | error e => rw [hv] at hread; exact nomatch hread
        | ok q => rw [hv] at hread; rw [Option.some.inj hread]

theorem iterFrom_clean {es : List (String × String)}
    (h : ∀ e ∈ es, ∃ p, X.pointFromSlice e.2 = .ok p) (i : ℕ) :
    iterFrom X .clean i es = .ok (es.filterMap fun e ↦ (X.pointFromSlice e.2).toOption) := by
  induction es generalizing i with
  | nil => rfl
  | cons e es ih =>
    rw [List.forall_mem_cons] at h
    obtain ⟨p, hp⟩ := h.1
    simp only [iterFrom, SledReads.clean, decode, hp, List.filterMap_cons, Except.toOption]
    rw [show (⟨fun _ ↦ none, fun _ ↦ none⟩ : SledReads) = .clean from rfl, ih h.2]
    rfl

/-- The points of a tree, in the order of their keys. -/
def points (db : Db) : List (Point V) :=
  db.toList.filterMap fun e ↦ (X.pointFromSlice e.2).toOption

theorem mem_points {db : Db} {p : Point V} : p ∈ points X db ↔ ∃ k, read X db k = some p := by
  rw [points, List.mem_filterMap]
  constructor
  · rintro ⟨⟨k, v⟩, he, hp⟩
    refine ⟨k, ?_⟩
    rw [read, Std.ExtTreeMap.mem_toList_iff_getElem?_eq_some.mp he, Option.bind_some, hp]
  · rintro ⟨k, hk⟩
    rw [read, Option.bind_eq_some_iff] at hk
    obtain ⟨v, hv, hp⟩ := hk
    exact ⟨(k, v), Std.ExtTreeMap.mem_toList_iff_getElem?_eq_some.mpr hv, hp⟩

theorem Sound.mem_points {X : Crates V} {db : Db} (h : Sound X db) {p : Point V} :
    p ∈ points X db ↔ read X db (keyOf p) = some p := by
  rw [Segment.mem_points]
  refine ⟨?_, fun hp ↦ ⟨_, hp⟩⟩
  rintro ⟨k, hk⟩
  rwa [h.key_of_read hk]

/-- No two points of a tree have the same id. -/
theorem Sound.points_ids_nodup {X : Crates V} {db : Db} (h : Sound X db) :
    ((points X db).map Point.id).Nodup := by
  rw [List.Nodup, List.pairwise_map, points, List.pairwise_filterMap]
  have hkeys : db.toList.Pairwise fun e e' ↦ ¬ compare e.1 e'.1 = .eq :=
    Std.ExtTreeMap.distinct_keys_toList
  -- an entry is read as a point with the key of the entry
  have hkey : ∀ e ∈ db.toList, ∀ p, (X.pointFromSlice e.2).toOption = some p → keyOf p = e.1 := by
    intro e he p hp
    refine h.key_of_read ?_
    rw [read, Std.ExtTreeMap.mem_toList_iff_getElem?_eq_some.mp he, Option.bind_some, hp]
  refine hkeys.imp_of_mem fun {e e'} he he' hne p hp q hq hid ↦ hne ?_
  rw [← hkey e he p hp, ← hkey e' he' q hq, keyOf, keyOf, hid]
  exact Std.ReflCmp.compare_self

/-- What a read of a tree returns: by id, what is stored under the text of each id; without ids,
all points in the order of their keys. -/
def answer (ids : Option (List PointId)) (db : Db) : List (Point V) :=
  match ids with
  | none => points X db
  | some ids => ids.filterMap fun id ↦ read X db id.intoString

@[simp] theorem answer_none (db : Db) : answer X none db = points X db := rfl

@[simp] theorem answer_some (ids : List PointId) (db : Db) :
    answer X (some ids) db = ids.filterMap fun id ↦ read X db id.intoString := rfl

/-- Everything a read of a tree meets can be read. -/
def Answers (ids : Option (List PointId)) (db : Db) : Prop :=
  match ids with
  | none => Readable X db
  | some ids => ∀ id ∈ ids, ReadableAt X db id.intoString

theorem Readable.answers {X : Crates V} {db : Db} (h : Readable X db)
    (ids : Option (List PointId)) : Answers X ids db := by
  cases ids with
  | none => exact h
  | some ids => exact fun id _ ↦ h id.intoString

theorem forall_mem_toList {db : Db} :
    (∀ e ∈ db.toList, ∃ p, X.pointFromSlice e.2 = .ok p) ↔ Readable X db := by
  constructor
  · exact fun h k v hv ↦ h (k, v) (Std.ExtTreeMap.mem_toList_iff_getElem?_eq_some.mpr hv)
  · exact fun h e he ↦ h e.1 e.2 (Std.ExtTreeMap.mem_toList_iff_getElem?_eq_some.mp he)

/-- There are as many points as entries, if the entries can be read. -/
theorem Readable.length_points {X : Crates V} {db : Db} (h : Readable X db) :
    (points X db).length = db.size := by
  have hsome : ∀ e ∈ db.toList, ((X.pointFromSlice e.2).toOption).isSome = true := by
    intro e he
    obtain ⟨p, hp⟩ := (forall_mem_toList X).mpr h e he
    rw [hp]
    rfl
  rw [points, List.length_filterMap_eq_countP, ← Std.ExtTreeMap.length_toList]
  exact List.countP_eq_length.mpr hsome

/-- **A read that succeeds returns the answer**, and has met nothing that cannot be read. -/
theorem getPoints_eq_ok {env : SledReads} {ids : Option (List PointId)} {db : Db}
    {ps : List (Point V)} (h : getPoints X env ids db = .ok ps) :
    Answers X ids db ∧ ps = answer X ids db := by
  cases ids with
  | none =>
    obtain ⟨hreadable, hps⟩ := iterFrom_eq_ok X h
    exact ⟨(forall_mem_toList X).mp hreadable, hps⟩
  | some ids => exact getFrom_eq_ok X h

/-- A tree answers as long as sled does, if what the read meets can be read. -/
theorem getPoints_clean (ids : Option (List PointId)) {db : Db} (h : Answers X ids db) :
    getPoints X .clean ids db = .ok (answer X ids db) := by
  cases ids with
  | none => exact iterFrom_clean X ((forall_mem_toList X).mpr h) 0
  | some ids => exact getFrom_clean X h 0

end Segment

end Smoldb
