import Smoldb.Cluster.LastWriter
import Smoldb.Lib.Decimal

/-!
# The HTTP API for points

Over HTTP a point is written with its id in JSON, where a number and a string are different, and
read with its id in the path, where everything is text.  `PointId.ofPath` is how `get_point` makes
an id of a text: it takes whatever parses as a `u64` for a number.

So a point that was just written need not be found under its own text, and what is found there is
what `serde_json` reads from the text it has written for the point.  `getPoint_iff` has the exact
conditions under which the point is found as it was put.

* The text of its id is read as an id with the same text, in the same shard.  A number is; but the
  string `"007"` is read as `7`, and `"7"` as the number, which may be in another shard.
* No point behind it, in the batch or in a later one, has its shard and its text.
* The point is read as it was written.

Everything on the way from a body to the tree and back is in the model: the ids that can be in a
body, with those that are refused; the upsert on a node without remote shards; and the read by id,
of which the handler takes the first point.
-/

set_option autoImplicit false

namespace Smoldb

open LastWrite

variable {V : Type} {X : Crates V}

/-! ## Requests -/

/-- What a JSON document may have for an id. -/
inductive RequestId where
  | number : ℕ → RequestId
  | string : String → RequestId
  | other
  deriving DecidableEq

/-- The untagged decoding of an id: a `u64`, or else a string. -/
def PointId.ofRequest : RequestId → Option PointId
  | .number n => if n < 2 ^ 64 then some (.id (UInt64.ofNat n)) else none
  | .string s => some (.uuid s)
  | .other => none

/-- The id in the path of `get_point`. -/
def PointId.ofPath (id : String) : PointId :=
  match Decimal.parse 64 id with
  | some n => .id (UInt64.ofNat n)
  | none => .uuid id

/-- Every id can be written in a request. -/
theorem PointId.exists_request (id : PointId) : ∃ r, PointId.ofRequest r = some id := by
  cases id with
  | id n =>
    have hn : n.toNat < 2 ^ 64 := n.toNat_lt
    exact ⟨.number n.toNat, by rw [ofRequest, if_pos hn, UInt64.ofNat_toNat]⟩
  | uuid s => exact ⟨.string s, rfl⟩

/-- A number is found again under its text. -/
theorem PointId.ofPath_intoString_id (n : UInt64) : ofPath (PointId.id n).intoString = .id n := by
  rw [ofPath, intoString, Decimal.parse_repr n.toNat_lt]
  exact congrArg PointId.id UInt64.ofNat_toNat

/-- A point as it stands in a request. -/
structure RequestPoint (V : Type) where
  id : RequestId
  payload : V

/-- `UpsertPoints`, decoded from the body of a request. -/
def decodeBody : List (RequestPoint V) → Option (List (Point V))
  | [] => some []
  | p :: ps => (PointId.ofRequest p.id).bind fun id ↦ (decodeBody ps).map (⟨id, p.payload⟩ :: ·)

namespace Http

/-- The response to `PUT /collections/{collection_name}/points`. -/
structure UpsertPointsResponse where
  numPoints : ℕ
  deriving DecidableEq

/-- `upsert_points`, for a body that is accepted. -/
def upsertPoints (cl : Cluster X) (peer : PeerId) (toc : TableOfContent X) (env : ClusterWriteEnv)
    (name : CollectionName) (points : List (Point V)) (w : Stores) :
    Stores × Option (CollectionResult UpsertPointsResponse) :=
  match cl.performPointsOp peer toc env name points w with
  | (w, none) => (w, none)
  | (w, some (.error e)) => (w, some (.error (.storageError e)))
  | (w, some (.ok _)) => (w, some (.ok ⟨points.length⟩))

/-- `get_point`. -/
def getPoint (cl : Cluster X) (peer : PeerId) (toc : TableOfContent X) (env : ClusterReadEnv)
    (name : CollectionName) (id : String) (w : Stores) : Option (CollectionResult (Point V)) :=
  match cl.retrievePoints peer toc env name (some [PointId.ofPath id]) w with
  | none => none
  | some (.error e) => some (.error (.serviceError
      s!"Error retrieving point with id '{id}' in collection '{name}': {e}"))
  | some (.ok []) => some (.error (.serviceError
      s!"Point with id '{id}' not found in collection '{name}'"))
  | some (.ok (p :: _)) => some (.ok p)

/-- A `PUT` of points. -/
structure Put (V : Type) where
  env : ClusterWriteEnv
  points : List (Point V)

/-- A sequence of `PUT`s to one collection. -/
def runPuts (cl : Cluster X) (peer : PeerId) (toc : TableOfContent X) (name : CollectionName)
    (puts : List (Put V)) (w : Stores) : Stores :=
  puts.foldl (fun w put ↦ (upsertPoints cl peer toc put.env name put.points w).1) w

section OneNode

variable (cl : Cluster X) (peer : PeerId) {toc : TableOfContent X} {name : CollectionName}
  {c : Collection X} (hc : toc.collections.lookup name = some c) (halone : c.Alone)

include hc halone

/-- **A `PUT` on a node without remotes** writes a prefix of the points of every shard, and all of
them if it succeeds. -/
theorem upsertPoints_spec (put : Put V) : ∃ log r,
    (∀ w, upsertPoints cl peer toc put.env name put.points w = (Stores.putAll X log w, some r)) ∧
    (∀ pl, log pl <+: WriteLog.node peer name (shardPoints c.shardOf put.points) pl) ∧
    ((∃ a, r = .ok a) → log = WriteLog.node peer name (shardPoints c.shardOf put.points)) := by
  obtain ⟨log, result, heq, hpre, hok⟩ := c.upsertPoints_local_spec peer name put.env.sled
    (fun s shard ↦ shard.upsertPoints cl (put.env.remote s shard.peerId)) put.env.order put.points
  have hup : ∀ w, cl.upsertPoints peer name c put.env put.points false w
      = (Stores.putAll X log w, some result) := by
    intro w
    rw [← heq w]
    exact c.upsertPoints_of_no_remotes halone _ put.env.order put.points false w
  cases result with
  | ok u =>
    refine ⟨log, .ok ⟨put.points.length⟩, fun w ↦ ?_, hpre, fun _ ↦ hok rfl⟩
    simp [upsertPoints, Cluster.performPointsOp, hc, hup]
  | error e =>
    refine ⟨log, .error (.storageError (.serviceError
      s!"Failed to upsert points in collection '{name}': {X.showError e}")), fun w ↦ ?_, hpre,
      fun h ↦ ?_⟩
    · simp [upsertPoints, Cluster.performPointsOp, hc, hup]
    · obtain ⟨a, ha⟩ := h
      exact nomatch ha

/-- A `PUT` keeps points in their places. -/
theorem upsertPoints_placed (put : Put V) {w : Stores} (h : Placed c peer name w) :
    Placed c peer name (upsertPoints cl peer toc put.env name put.points w).1 := by
  obtain ⟨log, r, heq, hpre, -⟩ := upsertPoints_spec cl peer hc halone put
  rw [heq]
  exact h.putAll (shardOf_of_mem_log hpre)

theorem runPuts_placed (puts : List (Put V)) {w : Stores} (h : Placed c peer name w) :
    Placed c peer name (runPuts cl peer toc name puts w) := by
  induction puts generalizing w with
  | nil => exact h
  | cons put puts ih => exact ih (upsertPoints_placed cl peer hc halone put h)

omit halone in
/-- A `PUT` that succeeds with a point in it needs a shard to put it. -/
theorem exists_shard_of_ok {put : Put V} {w : Stores} {a : UpsertPointsResponse}
    (hok : (upsertPoints cl peer toc put.env name put.points w).2 = some (.ok a))
    (hne : put.points ≠ []) : ∃ s, s ∈ c.replicaHolder.shards := by
  have hup : (cl.upsertPoints peer name c put.env put.points false w).2 = some (.ok ()) := by
    simp only [upsertPoints, Cluster.performPointsOp, hc] at hok
    cases hr : cl.upsertPoints peer name c put.env put.points false w with
    | mk w' r =>
      rw [hr] at hok
      cases r with
      | none => exact nomatch hok
      | some r =>
        cases r with
        | error e => exact nomatch hok
        | ok u => rfl
  exact Collection.exists_shard_of_ok hne hup

/-- Points of other shards and texts leave a point where it is, whatever fails. -/
theorem runPuts_holds {s : ShardId} {p : Point V} (later : List (Put V))
    (hother : ∀ q ∈ later.flatMap Put.points, c.shardOf q.id = s →
      q.id.intoString ≠ p.id.intoString)
    {w : Stores} (h : w.Holds X ⟨peer, name, s⟩ p) :
    (runPuts cl peer toc name later w).Holds X ⟨peer, name, s⟩ p := by
  induction later generalizing w with
  | nil => exact h
  | cons put later ih =>
    rw [List.flatMap_cons] at hother
    have hrest : ∀ q ∈ later.flatMap Put.points, c.shardOf q.id = s →
        q.id.intoString ≠ p.id.intoString := fun q hq ↦ hother q (List.mem_append_right _ hq)
    have hstep : runPuts cl peer toc name (put :: later) w
        = runPuts cl peer toc name later
            (upsertPoints cl peer toc put.env name put.points w).1 := rfl
    obtain ⟨log, r, heq, hpre, -⟩ := upsertPoints_spec cl peer hc halone put
    rw [hstep, heq]
    refine ih hrest ?_
    have hnone : last Segment.keyOf (log ⟨peer, name, s⟩) (Segment.keyOf p) = none := by
      rw [last_eq_none_iff]
      intro q hq
      have hmem := (hpre ⟨peer, name, s⟩).subset hq
      rw [WriteLog.node_self] at hmem
      obtain ⟨hs, hlast⟩ := mem_shardPoints.mp hmem
      exact hother q (List.mem_append_left _ (mem_of_last hlast)) hs
    show (Stores.putAll X log w ⟨peer, name, s⟩ 0)[Segment.keyOf p]? = some (X.encode p)
    rw [Stores.putAll, LocalShard.putAll_zero, Segment.getElem?_putAll, hnone]
    exact h

/-- A `PUT` that succeeds, as a write to the map. -/
theorem getElem?_upsertPoints {put : Put V} {w : Stores} {a : UpsertPointsResponse}
    (hok : (upsertPoints cl peer toc put.env name put.points w).2 = some (.ok a)) (w' : Stores)
    (s : ShardId) (k : String) :
    ((upsertPoints cl peer toc put.env name put.points w').1 ⟨peer, name, s⟩ 0)[k]?
      = ((lastWritten c.shardOf put.points s k).map X.encode).or (w' ⟨peer, name, s⟩ 0)[k]? := by
  obtain ⟨log, r, heq, -, hlog⟩ := upsertPoints_spec cl peer hc halone put
  rw [heq, Option.some_inj] at hok
  rw [heq, hlog ⟨a, hok⟩]
  exact getElem?_putAll_node c.shardOf peer name put.points w' s k

/-- `PUT`s that succeed, as writes to the map. -/
theorem getElem?_runPuts {later : List (Put V)}
    (hok : ∀ put ∈ later, ∀ w, ∃ a,
      (upsertPoints cl peer toc put.env name put.points w).2 = some (.ok a))
    (w : Stores) (s : ShardId) (k : String) :
    (runPuts cl peer toc name later w ⟨peer, name, s⟩ 0)[k]?
      = ((lastWritten c.shardOf (later.flatMap Put.points) s k).map X.encode).or
          (w ⟨peer, name, s⟩ 0)[k]? := by
  induction later generalizing w with
  | nil => rfl
  | cons put later ih =>
    obtain ⟨a, ha⟩ := hok put (by simp) w
    have hstep : runPuts cl peer toc name (put :: later) w
        = runPuts cl peer toc name later
            (upsertPoints cl peer toc put.env name put.points w).1 := rfl
    rw [hstep, ih fun put' hput ↦ hok put' (List.mem_cons_of_mem _ hput),
      getElem?_upsertPoints cl peer hc halone ha, List.flatMap_cons, lastWritten_append]
    cases lastWritten c.shardOf (later.flatMap Put.points) s k <;> rfl

omit halone in
/-- **A `GET` returns what is read** in the shard of the id that its path is read as. -/
theorem getPoint_eq_ok_iff (hwf : c.WellFormed) {s₀ : ShardId}
    (hs₀ : s₀ ∈ c.replicaHolder.shards) {env : ClusterReadEnv} (hsled : ∀ s, env.sled s = .clean)
    {w : Stores} {id : String} {p : Point V} :
    getPoint cl peer toc env name id w = some (.ok p) ↔
      w.read X peer name (c.shardOf (PointId.ofPath id)) (PointId.ofPath id) = some p := by
  constructor
  · intro h
    simp only [getPoint, Cluster.retrievePoints, hc] at h
    cases hget : cl.getPoints peer name c env (some [PointId.ofPath id]) none false w with
    | none => simp [hget] at h
    | some result =>
      cases result with
      | error e => simp [hget] at h
      | ok ps =>
        cases ps with
        | nil => simp [hget] at h
        | cons q qs =>
          simp only [hget, Option.some.injEq, Except.ok.injEq] at h
          have hmem := (Cluster.getPoints_ids hget).mem_iff.mp (List.mem_cons_self (a := q))
          rw [h, List.mem_filterMap] at hmem
          obtain ⟨id', hid, hread⟩ := hmem
          rwa [List.mem_singleton.mp hid] at hread
  · intro hread
    have hreadable : ∀ id' ∈ [PointId.ofPath id],
        Segment.ReadableAt X (w ⟨peer, name, c.shardOf id'⟩ 0) id'.intoString := by
      intro id' hid v hv
      rw [List.mem_singleton.mp hid] at hv
      obtain ⟨v', hv', hdec⟩ := (Segment.read_eq_some_iff X).mp hread
      exact ⟨p, by rw [← Option.some.inj (hv'.symm.trans hv)]; exact hdec⟩
    obtain ⟨ps, hps, hperm⟩ := cl.getPoints_ids_clean hwf hs₀ hsled _ hreadable false
    rw [List.filterMap_cons, hread] at hperm
    simp only [getPoint, Cluster.retrievePoints, hc, hps, List.perm_singleton.mp hperm]

omit halone in
/-- In a collection where every point is in its place, that is the point with the text and the shard
of the id, if there is one and it can be read. -/
theorem getPoint_eq_ok_iff_placed (hwf : c.WellFormed) {s₀ : ShardId}
    (hs₀ : s₀ ∈ c.replicaHolder.shards) {env : ClusterReadEnv} (hsled : ∀ s, env.sled s = .clean)
    {w : Stores} (hp : Placed c peer name w) {id : String} {p : Point V} :
    getPoint cl peer toc env name id w = some (.ok p) ↔
      (PointId.ofPath id).intoString = p.id.intoString ∧
        c.shardOf (PointId.ofPath id) = c.shardOf p.id ∧
        w.read X peer name (c.shardOf p.id) p.id = some p := by
  rw [getPoint_eq_ok_iff cl peer hc hwf hs₀ hsled, Stores.read, Stores.read]
  constructor
  · intro hread
    obtain ⟨hk, hs⟩ := hp.of_read hread
    refine ⟨hk.symm, hs.symm, ?_⟩
    rw [hs, show p.id.intoString = _ from hk]
    exact hread
  · rintro ⟨htext, hs, hread⟩
    rwa [htext, hs]

end OneNode

/-- The point is not overwritten: nothing behind it has its shard and its text. -/
def Kept (c : Collection X) (W : List (Point V)) (p : Point V) : Prop :=
  ∃ A B, W = A ++ p :: B ∧ ∀ q ∈ B, c.shardOf q.id = c.shardOf p.id →
    q.id.intoString ≠ p.id.intoString

theorem kept_iff {c : Collection X} {W : List (Point V)} {p : Point V} :
    Kept c W p ↔ lastWritten c.shardOf W (c.shardOf p.id) p.id.intoString = some p := by
  rw [lastWritten, last_eq_some_iff, Kept]
  simp only [Prod.mk.injEq, not_and, ne_eq, true_and]

/-- **When a point that was just put is found under its text.**  The text must be read as an id with
the same text and the same shard, no later point may have the shard and text of this one, and the
point must be read back from its own text as it is.  That is enough whatever becomes of the later
batches, and if they succeed it is also necessary. -/
theorem getPoint_iff (cl : Cluster X) (peer : PeerId) {toc : TableOfContent X}
    {name : CollectionName} {c : Collection X} (hc : toc.collections.lookup name = some c)
    (hwf : c.WellFormed) (halone : c.Alone) {w : Stores} (hw : Placed c peer name w) (put : Put V)
    {a : UpsertPointsResponse}
    (hput : (upsertPoints cl peer toc put.env name put.points w).2 = some (.ok a)) {p : Point V}
    (hp : last Point.id put.points p.id = some p) (later : List (Put V))
    (hlater : ∀ l ∈ later, ∀ q ∈ l.points, q.id ≠ p.id) (env : ClusterReadEnv)
    (hread : ∀ s, env.sled s = .clean) :
    let id := PointId.ofPath p.id.intoString
    let W := put.points ++ later.flatMap Put.points
    let found := getPoint cl peer toc env name p.id.intoString
      (runPuts cl peer toc name later (upsertPoints cl peer toc put.env name put.points w).1)
    (id.intoString = p.id.intoString → c.shardOf id = c.shardOf p.id → Kept c W p →
      X.ReadsBack p → found = some (.ok p)) ∧
    ((∀ l ∈ later, ∀ w, ∃ a, (upsertPoints cl peer toc l.env name l.points w).2 = some (.ok a)) →
      (found = some (.ok p) ↔ id.intoString = p.id.intoString ∧ c.shardOf id = c.shardOf p.id ∧
        Kept c W p ∧ X.ReadsBack p)) := by
  intro id W found
  have hne : put.points ≠ [] := List.ne_nil_of_mem (mem_of_last hp)
  obtain ⟨s₀, hs₀⟩ := exists_shard_of_ok cl peer hc hput hne
  have hplaced : Placed c peer name (runPuts cl peer toc name later
      (upsertPoints cl peer toc put.env name put.points w).1) :=
    runPuts_placed cl peer hc halone later (upsertPoints_placed cl peer hc halone put hw)
  have hfound : found = some (.ok p) ↔ id.intoString = p.id.intoString ∧
      c.shardOf id = c.shardOf p.id ∧ Stores.read X _ peer name (c.shardOf p.id) p.id = some p :=
    getPoint_eq_ok_iff_placed cl peer hc hwf hs₀ hread hplaced
  -- `p` itself is not among the later points
  have hnot : ∀ s k, lastWritten c.shardOf (later.flatMap Put.points) s k ≠ some p := by
    intro s k hl
    obtain ⟨l, hl, hpl⟩ := List.mem_flatMap.mp (mem_of_last hl)
    exact hlater l hl p hpl rfl
  refine ⟨fun htext hs hkept hback ↦ hfound.mpr ⟨htext, hs, ?_⟩, fun hok ↦ ?_⟩
  · refine (Segment.read_eq_some_iff X).mpr ⟨X.encode p, ?_, hback⟩
    rw [kept_iff, lastWritten_append, Option.or_eq_some_iff] at hkept
    rcases hkept with hl | ⟨hnone, hl⟩
    · exact absurd hl (hnot _ _)
    · refine runPuts_holds cl peer hc halone later (fun q hq hqs hqk ↦ ?_) ?_
      · refine last_eq_none_iff.mp hnone q hq ?_
        rw [hqs, hqk]
      · rw [Stores.Holds, getElem?_upsertPoints cl peer hc halone hput]
        rw [Segment.keyOf, hl]
        rfl
  · -- what is stored is the text of the last point with the shard and the text
    obtain ⟨q, hq⟩ : ∃ q, lastWritten c.shardOf W (c.shardOf p.id) p.id.intoString = some q :=
      exists_last_of_mem (fun p : Point V ↦ (c.shardOf p.id, p.id.intoString))
        (List.mem_append_left _ (mem_of_last hp))
    have hstored : (runPuts cl peer toc name later
        (upsertPoints cl peer toc put.env name put.points w).1
          ⟨peer, name, c.shardOf p.id⟩ 0)[p.id.intoString]? = some (X.encode q) := by
      rw [getElem?_runPuts cl peer hc halone hok, getElem?_upsertPoints cl peer hc halone hput,
        ← Option.or_assoc, ← Option.map_or, ← lastWritten_append, hq, Option.map_some,
        Option.some_or]
    -- which is `p` if it has the id of `p`
    have hself : q.id = p.id → q = p := by
      intro hid
      rw [← hid] at hq
      have hlast : last Point.id W p.id = some q := by rw [← hid]; exact last_of_lastWritten hq
      have hnone : last Point.id (later.flatMap Put.points) p.id = none := by
        rw [last_eq_none_iff]
        intro r hr
        obtain ⟨l, hl, hr⟩ := List.mem_flatMap.mp hr
        exact hlater l hl r hr
      rw [last_append, hnone, Option.none_or, hp] at hlast
      exact (Option.some.inj hlast).symm
    rw [hfound, kept_iff, hq, Option.some_inj, Stores.read, Segment.read_eq_some_iff, hstored]
    refine and_congr_right fun _ ↦ and_congr_right fun _ ↦ ⟨?_, ?_⟩
    · rintro ⟨v, hv, hdec⟩
      rw [← Option.some.inj hv] at hdec
      obtain rfl := hself (X.id_of_read hdec).symm
      exact ⟨rfl, hdec⟩
    · rintro ⟨rfl, hback⟩
      exact ⟨_, rfl, hback⟩

/-- The node of the tests: one collection, and no remotes. -/
def oneNode : TableOfContent Crates.bool := ⟨[⟨"c", .joined "c" [101] 101⟩].toAList⟩

/-- A string with leading zeros is put, and then there is no point under it. -/
theorem getPoint_misses_leading_zeros :
    (upsertPoints (Cluster.joined Crates.bool "c" [101]) 101 oneNode (.without []) "c"
      [⟨.uuid "007", true⟩] .empty).2 = some (.ok ⟨1⟩) ∧
    getPoint (Cluster.joined Crates.bool "c" [101]) 101 oneNode (.without []) "c"
        (PointId.uuid "007").intoString
        (upsertPoints (Cluster.joined Crates.bool "c" [101]) 101 oneNode (.without []) "c"
          [⟨.uuid "007", true⟩] .empty).1
      = some (.error (.serviceError "Point with id '007' not found in collection 'c'")) := by
  decide

/-- A number, and after it a batch with another one. -/
theorem getPoint_iff_numbers :
    getPoint (Cluster.joined Crates.bool "c" [101]) 101 oneNode (.without []) "c"
        (PointId.id 7).intoString
        (runPuts (Cluster.joined Crates.bool "c" [101]) 101 oneNode "c"
          [⟨.without [], [⟨.id 2, true⟩]⟩]
          (upsertPoints (Cluster.joined Crates.bool "c" [101]) 101 oneNode (.without []) "c"
            [⟨.id 7, true⟩] .empty).1)
      = some (.ok ⟨.id 7, true⟩) := by
  have hwf : (Collection.joined (X := Crates.bool) "c" [101] 101).WellFormed :=
    (Cluster.joined_hosts (by decide)).wellFormed
  have halone : (Collection.joined (X := Crates.bool) "c" [101] 101).Alone :=
    Collection.init_alone "c" ⟨""⟩ ["storage", "collections", "c"] .insertion
  have hc : oneNode.collections.lookup "c" = some (.joined "c" [101] 101) := rfl
  have hput : (upsertPoints (Cluster.joined Crates.bool "c" [101]) 101 oneNode (.without []) "c"
      [⟨.id 7, true⟩] .empty).2 = some (.ok ⟨1⟩) := by decide
  have hkept : Kept (Collection.joined (X := Crates.bool) "c" [101] 101)
      [⟨.id 7, true⟩, ⟨.id 2, true⟩] ⟨.id 7, true⟩ := by
    refine ⟨[], [⟨.id 2, true⟩], rfl, fun q hq _ ↦ ?_⟩
    rw [List.mem_singleton] at hq
    rw [hq]
    decide
  exact (getPoint_iff (Cluster.joined Crates.bool "c" [101]) 101 hc hwf halone
    ((Stores.empty_fresh 101 "c").placed _) ⟨.without [], [⟨.id 7, true⟩]⟩ hput rfl
    [⟨.without [], [⟨.id 2, true⟩]⟩]
    (by
      intro l hl q hq
      rw [List.mem_singleton] at hl
      subst hl
      rw [List.mem_singleton] at hq
      subst hq
      decide)
    (.without []) fun _ ↦ rfl).1 (by decide) (by decide) hkept (Crates.bool.pointFromSlice_encode _)

end Http

end Smoldb
