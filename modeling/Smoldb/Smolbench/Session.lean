import Smoldb.Api.Refinement
import Smoldb.Smolbench.Client

/-!
# A session of the benchmark with a node

The requests of the benchmark are served by a node.  In between are the libraries that send them,
find the handler of a URL, and print and parse the bodies, and `Web` has what they decide: which
handler a URL leads to, what the body of a response says, what becomes of the payload of a point on
its way, and which bodies are too long.

`Session` is the machine: the node, how many calls there have been, and how many ids have been drawn
at random.  `Session.answer` is what becomes of a call of the benchmark.  A request of a collection
or of points is located, becomes an `Http.Request`, and is served by `Http.serve`; one that leads
nowhere, or whose body is too long, is answered by the server itself.  The node may do anything in
the order of its hash maps, and that and the ids that are drawn come from `Surroundings`.

The upserts of the benchmark are a program of their own with other calls (`Smolbench/Upsert.lean`),
and `Session.answer` runs it on the same session, so whatever is known of either is known of the
other's requests.

`Database.Filled` is what the points of the benchmark make of a database: for each of the ids there
is the point of the benchmark with some timestamp, every other slot has what it had, and other
tables are as they were.  It does not say in which batches they were sent.
-/

set_option autoImplicit false

namespace Smoldb

open LastWrite

variable {V : Type} {X : Crates V}

/-! ## Between the benchmark and the node -/

/-- What a URL is about. -/
inductive Location where
  | collection (name : CollectionName)
  | points (name : CollectionName)
  | point (name : CollectionName) (id : String)

namespace Location

/-- The handler of a `GET`. -/
def get : Location → Http.Request V
  | collection name => .getCollection name
  | points name => .listPoints name
  | point name id => .getPoint name id

/-- The handler of a `PUT` with `params`. -/
def put (params : String) : Location → Option (Http.Request V)
  | collection name => some (.createCollection name params)
  | _ => none

/-- The handler of a `DELETE`. -/
def delete : Location → Option (Http.Request V)
  | collection name => some (.deleteCollection name)
  | _ => none

end Location

/-- What is between the benchmark and a node: the router, the text of a result in a body, the
payload of a point, and the limit of a body. -/
structure Web (V : Type) where
  locate : String → Option Location
  json : Http.Result V → String
  json_created : ∀ b, json (.created b) = toString b
  payload : (text timestamp : String) → V
  accepts : List BenchPoint → Bool

/-- The URLs of the benchmark are those of a collection. -/
structure Web.Leads (web : Web V) (url : String) (name : CollectionName) : Prop where
  collection : web.locate s!"{url}/collections/{name}" = some (.collection name)
  points : web.locate s!"{url}/collections/{name}/points" = some (.points name)
  point : ∀ id : UInt64, web.locate s!"{url}/collections/{name}/points/{id.toNat}"
    = some (.point name (PointId.id id).intoString)

/-- The point a node reads from a body. -/
def BenchPoint.toPoint (web : Web V) (p : BenchPoint) : Point V :=
  ⟨.id (UInt64.ofNat p.id), web.payload p.text p.timestamp⟩

/-- What is open in a session: the order of hash maps, the time, and the ids that are drawn. -/
structure Surroundings where
  env : ℕ → Http.Env
  now : ℕ → String
  time : ℕ → String
  random : ℕ → UInt64

/-- A node, with the number of calls there have been and of ids that have been drawn. -/
structure Session {V : Type} (X : Crates V) where
  node : Node X
  calls : ℕ
  drawn : ℕ

/-- What the benchmark gets of a response.  If a handler panics, the connection is closed. -/
def Web.receive (web : Web V) (time : String) :
    Option (Http.Response (Http.Result V)) → Except BenchError HttpAnswer
  | none => .error (.requestError "connection closed before message completed")
  | some ⟨status, .success r⟩ => .ok ⟨status, some (.success ⟨web.json r, time⟩)⟩
  | some ⟨status, .error e⟩ => .ok ⟨status, some (.error e)⟩

namespace Session

/-- A call that the node has nothing to do with. -/
def tick (self : Session X) : Session X := { self with calls := self.calls + 1 }

/-- A request, if there is a handler for it. -/
def request (web : Web V) (J : ConfigJson) (peer : PeerId) (around : Surroundings)
    (self : Session X) : Option (Http.Request V) → Session X × Except BenchError HttpAnswer
  | none => (self.tick, .ok ⟨404, none⟩)
  | some request =>
    let (node, response) := Http.serve J peer (around.env self.calls) request self.node
    ({ self.tick with node := node }, web.receive (around.time self.calls) response)

end Session

/-- A body that is not JSON. -/
def SmolBenchError.noJson : SmolBenchError := .jsonError "expected value at line 1 column 1"

/-- An answer as `upsert_points` takes it. -/
def HttpAnswer.toUpsert : Except BenchError HttpAnswer → Except SmolBenchError ApiResponse
  | .ok ⟨_, some response⟩ => .ok response
  | .ok ⟨_, none⟩ => .error .noJson
  | .error e => .error (.requestError (toString e))

/-- The calls of the benchmark, in a session with a node. -/
def Session.answer (web : Web V) (J : ConfigJson) (peer : PeerId) (around : Surroundings)
    (self : Session X) : (op : ClientOp) → Session X × op.Reply
  | .upsert .now => (self.tick, around.now self.calls)
  | .upsert (.sleep _) => (self.tick, ())
  | .upsert (.put url points) =>
    match web.locate url with
    | some (.points name) =>
      if web.accepts points then
        let (session, answer) := self.request web J peer around
          (some (.upsertPoints name (points.map (BenchPoint.toPoint web))))
        (session, HttpAnswer.toUpsert answer)
      else (self.tick, .error .noJson)
    | _ => (self.tick, .error .noJson)
  | .get url => self.request web J peer around ((web.locate url).map Location.get)
  | .put url params => self.request web J peer around ((web.locate url).bind (Location.put params))
  | .delete url => self.request web J peer around ((web.locate url).bind Location.delete)
  | .random => ({ self with drawn := self.drawn + 1 }, around.random self.drawn)

/-! ## What the benchmark does to a database -/

/-- A point of the benchmark has been written for each of the ids, and nothing else. -/
structure Table.Filled (web : Web V) (ids : List ℕ) (t t' : Table X) : Prop where
  params : t'.params = t.params
  found : ∀ i ∈ ids, ∃ timestamp,
    t'.get (.id (UInt64.ofNat i)) = some ((benchPoint timestamp i).toPoint web)
  kept : ∀ slot, (∀ i ∈ ids, slotOf X (.id (UInt64.ofNat i)) ≠ slot) → t'.row slot = t.row slot

namespace Table.Filled

variable {web : Web V} {ids ids' : List ℕ} {t t' : Table X}

theorem refl (web : Web V) (t : Table X) : Filled web [] t t :=
  ⟨rfl, fun _ hi ↦ absurd hi (by simp), fun _ _ ↦ rfl⟩

theorem slotOf_eq_iff {m n : UInt64} :
    slotOf X (.id m) = slotOf X (.id n) ↔ m = n := by
  constructor
  · intro h
    exact PointId.intoString_id_inj (congrArg Prod.snd h)
  · rintro rfl
    rfl

/-- More points are written. -/
theorem write (h : Filled web ids t t') (timestamp : String)
    (hids : ∀ i ∈ ids ++ ids', i < UInt64.size) :
    Filled web (ids ++ ids') t
      (t'.write ((ids'.map (benchPoint timestamp)).map (BenchPoint.toPoint web))) := by
  have hkey : ∀ p ∈ (ids'.map (benchPoint timestamp)).map (BenchPoint.toPoint web),
      ∃ i ∈ ids', p = (benchPoint timestamp i).toPoint web := by
    simp only [List.map_map, List.mem_map, Function.comp_apply]
    rintro p ⟨i, hi, rfl⟩
    exact ⟨i, hi, rfl⟩
  refine ⟨h.params, fun i hi ↦ ?_, fun slot hslot ↦ ?_⟩
  · rw [Table.get, Table.write]
    simp only
    cases hl : last (fun p ↦ slotOf X p.id)
        ((ids'.map (benchPoint timestamp)).map (BenchPoint.toPoint web))
        (slotOf X (.id (UInt64.ofNat i))) with
    | some p =>
      obtain ⟨j, hj, rfl⟩ := hkey p (mem_of_last hl)
      have hij : UInt64.ofNat j = UInt64.ofNat i := slotOf_eq_iff.mp
        (@key_of_last _ _ _ (fun p : Point V ↦ slotOf X p.id) _ _ _ hl)
      have hj' := hids j (List.mem_append_right _ hj)
      have hi' := hids i hi
      have hnat := congrArg UInt64.toNat hij
      rw [UInt64.toNat_ofNat_of_lt' hj', UInt64.toNat_ofNat_of_lt' hi'] at hnat
      exact ⟨timestamp, by rw [hnat]; rfl⟩
    | none =>
      obtain hi | hi := List.mem_append.mp hi
      · exact h.found i hi
      · refine absurd rfl (last_eq_none_iff.mp hl ((benchPoint timestamp i).toPoint web) ?_)
        exact List.mem_map_of_mem (List.mem_map_of_mem hi)
  · rw [Table.write]
    have hnone : last (fun p ↦ slotOf X p.id)
        ((ids'.map (benchPoint timestamp)).map (BenchPoint.toPoint web)) slot = none := by
      rw [last_eq_none_iff]
      intro p hp
      obtain ⟨i, hi, rfl⟩ := hkey p hp
      exact hslot i (List.mem_append_right _ hi)
    simp only [hnone, Option.none_or]
    exact h.kept slot fun i hi ↦ hslot i (List.mem_append_left _ hi)

end Table.Filled

namespace Database

variable {db db' : Database X} {name : CollectionName} {ids ids' : List ℕ}

/-- Points of the benchmark have been written to a table, if it is there. -/
structure Filled (web : Web V) (name : CollectionName) (ids : List ℕ) (db db' : Database X) :
    Prop where
  table : Option.Rel (Table.Filled web ids) (db name) (db' name)
  others : ∀ other, other ≠ name → db' other = db other

theorem Filled.refl (web : Web V) (name : CollectionName) (db : Database X) :
    Filled web name [] db db where
  table := by
    cases db name with
    | none => exact .none
    | some t => exact .some (.refl web t)
  others _ _ := rfl

theorem Filled.cases {web : Web V} (h : Filled web name ids db db') :
    (db name = none ∧ db' name = none) ∨
      ∃ t t', db name = some t ∧ db' name = some t' ∧ Table.Filled web ids t t' := by
  have htable := h.table
  generalize db name = o at htable ⊢
  generalize db' name = o' at htable ⊢
  cases htable with
  | none => exact Or.inl ⟨rfl, rfl⟩
  | some htable => exact Or.inr ⟨_, _, rfl, rfl, htable⟩

theorem Filled.write {web : Web V} (h : Filled web name ids db db') (timestamp : String)
    (hids : ∀ i ∈ ids ++ ids', i < UInt64.size) :
    Filled web name (ids ++ ids') db (db'.next (.upsertPoints name
      ((ids'.map (benchPoint timestamp)).map (BenchPoint.toPoint web)))) where
  table := by
    rw [next, Function.update_self]
    obtain ⟨hdb, hdb'⟩ | ⟨t, t', hdb, hdb', htable⟩ := h.cases
    · rw [hdb, hdb']
      exact .none
    · rw [hdb, hdb']
      exact .some (htable.write timestamp hids)
  others other hother := by
    rw [next, Function.update_of_ne hother]
    exact h.others other hother

theorem Filled.eq_none_iff {web : Web V} (h : Filled web name ids db db') :
    db' name = none ↔ db name = none := by
  obtain ⟨hdb, hdb'⟩ | ⟨t, t', hdb, hdb', -⟩ := h.cases <;> simp [hdb, hdb']

/-- There is no table to write to. -/
theorem Filled.of_none (web : Web V) (hdb : db name = none) : Filled web name ids db db where
  table := by
    rw [hdb]
    exact .none
  others _ _ := rfl

/-- If there is no table nothing is written. -/
theorem Filled.eq_of_none {web : Web V} (h : Filled web name ids db db') (hdb : db name = none) :
    db' = db := by
  funext other
  by_cases hother : other = name
  · subst hother
    rw [hdb]
    exact h.eq_none_iff.mpr hdb
  · exact h.others other hother

/-- A point is found under an id. -/
def Finds (db : Database X) (name : CollectionName) (id : UInt64) : Prop :=
  ∃ t p, db name = some t ∧ t.get (.id id) = some p

end Database

end Smoldb
