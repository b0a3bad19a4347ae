import Smoldb.Storage.Replicas
import Smoldb.Lib.Loop

/-!
# Collections

`Collection.upsertPoints` and `Collection.getPoints` are the two operations everything else goes
through: the HTTP handlers call them with `localOnly = false` and the handlers of the internal
service with `localOnly = true`.

Both are generic in how the replicas of a shard are reached, which the source leaves to
`dyn ShardOperationTrait`: they take the trait method as a function of the shard and the replica,
acting on some state `σ`.  A panic is a missing result, as for the replica sets.

Writing is easier to reason about than it looks.  Whether the loop over the shards goes on after a
shard depends on what its replicas returned and on nothing else, and what a replica returns to a
write does not depend on what is stored.  `upsertPoints_eq` draws the conclusion: an upsert is a
plain sequence of calls, `calls`, one for each replica of each shard it gets to.
-/

set_option autoImplicit false

namespace Smoldb

open LastWrite

variable {V : Type} {X : Crates V}

/-- `DEFAULT_CONSISTENCY_FACTOR`. -/
def defaultConsistencyFactor : ℕ := 2

/-- `CollectionConfig`. -/
structure CollectionConfig where
  params : String
  deriving DecidableEq

/-- `Collection`. -/
structure Collection {V : Type} (X : Crates V) where
  id : CollectionName
  config : CollectionConfig
  replicaHolder : ReplicaHolder X
  path : Path

namespace Collection

/-! ## Making a collection -/

/-- `Collection::init`, as far as memory is concerned: two shards, `0` and `1`, and no remotes. -/
def init (id : CollectionName) (config : CollectionConfig) (path : Path)
    (order : IterOrder (Σ _ : ShardId, ReplicaSet)) : Collection X :=
  let shards : HashMap ShardId ReplicaSet :=
    [⟨0, .new (.init (path ++ ["0"]) 0) [] id⟩, ⟨1, .new (.init (path ++ ["1"]) 1) [] id⟩].toAList
  ⟨id, config, .new (shards.arrangedBy order), path⟩

/-- The remote shards of a peer, added under the name the collection is registered by. -/
def addRemoteShards (self : Collection X) (peerId : PeerId) : Collection X :=
  { self with replicaHolder := self.replicaHolder.addRemoteShards peerId self.id }

/-- Every shard has the segment that is written to, and a remote shard stands for the same shard of
the same collection. -/
structure WellFormed (c : Collection X) : Prop where
  segment : ∀ s rs, c.replicaHolder.shards.lookup s = some rs → 0 ∈ rs.localShard.segments
  remote : ∀ s rs, c.replicaHolder.shards.lookup s = some rs →
    ∀ r ∈ rs.remotes, r.id = s ∧ r.collection = c.id

theorem lookup_init (id : CollectionName) (config : CollectionConfig) (path : Path)
    (order : IterOrder (Σ _ : ShardId, ReplicaSet)) (s : ShardId) :
    (init (X := X) id config path order).replicaHolder.shards.lookup s =
      if s = 0 then some (.new (.init (path ++ ["0"]) 0) [] id)
      else if s = 1 then some (.new (.init (path ++ ["1"]) 1) [] id) else none := by
  rw [init, ReplicaHolder.new, HashMap.lookup_arrangedBy, AList.lookup_to_alist]
  by_cases h0 : s = 0
  · subst h0; rfl
  · by_cases h1 : s = 1
    · subst h1; rfl
    · simp [List.dlookup_cons_ne, h0, h1]

theorem mem_init {id : CollectionName} {config : CollectionConfig} {path : Path}
    {order : IterOrder (Σ _ : ShardId, ReplicaSet)} {s : ShardId} :
    s ∈ (init (X := X) id config path order).replicaHolder.shards ↔ s = 0 ∨ s = 1 := by
  rw [← AList.lookup_isSome, lookup_init]
  by_cases h0 : s = 0
  · simp [h0]
  · by_cases h1 : s = 1 <;> simp [h0, h1]

theorem init_wellFormed (id : CollectionName) (config : CollectionConfig) (path : Path)
    (order : IterOrder (Σ _ : ShardId, ReplicaSet)) :
    (init (X := X) id config path order).WellFormed := by
  have hnew : ∀ s rs, (init (X := X) id config path order).replicaHolder.shards.lookup s = some rs →
      ∃ p t, rs = .new (.init p t) [] id := by
    intro s rs hs
    rw [lookup_init] at hs
    split at hs
    · exact ⟨_, _, (Option.some.inj hs).symm⟩
    · split at hs
      · exact ⟨_, _, (Option.some.inj hs).symm⟩
      · exact nomatch hs
  constructor
  · intro s rs hs
    obtain ⟨p, t, rfl⟩ := hnew s rs hs
    exact LocalShard.zero_mem_init p t
  · intro s rs hs r hr
    obtain ⟨p, t, rfl⟩ := hnew s rs hs
    exact absurd hr (by simp [ReplicaSet.new])

theorem WellFormed.addRemoteShards {self : Collection X} (h : self.WellFormed) (peerId : PeerId) :
    (self.addRemoteShards peerId).WellFormed := by
  have hadd : ∀ s rs, (self.addRemoteShards peerId).replicaHolder.shards.lookup s = some rs →
      ∃ rs₀, self.replicaHolder.shards.lookup s = some rs₀ ∧
        rs = ReplicaHolder.addRemote peerId self.id s rs₀ := by
    intro s rs hs
    rw [Collection.addRemoteShards, ReplicaHolder.lookup_addRemoteShards,
      Option.map_eq_some_iff] at hs
    obtain ⟨rs₀, hs₀, rfl⟩ := hs
    exact ⟨rs₀, hs₀, rfl⟩
  constructor
  · intro s rs hs
    obtain ⟨rs₀, hs₀, rfl⟩ := hadd s rs hs
    rw [ReplicaHolder.addRemote]
    split <;> exact h.segment s rs₀ hs₀
  · intro s rs hs r hr
    obtain ⟨rs₀, hs₀, rfl⟩ := hadd s rs hs
    rw [ReplicaHolder.addRemote] at hr
    split at hr
    · exact h.remote s rs₀ hs₀ r hr
    · rcases List.mem_append.mp hr with hr | hr
      · exact h.remote s rs₀ hs₀ r hr
      · rw [List.mem_singleton] at hr
        subst hr
        exact ⟨rfl, rfl⟩

/-! ## Writing -/

section Upsert

variable {σ : Type} (self : Collection X)
  (upsert : ShardId → Replica → List (Point V) → σ → σ × CollectionResult Unit)

/-- `points_map`: the last point of each id. -/
def pointsMap (points : List (Point V)) : Std.ExtTreeMap PointId (Point V) :=
  points.foldl (fun m p ↦ m.insert p.id p) ∅

/-- The points of a group of ids. -/
def groupPoints (points : List (Point V)) (ids : List PointId) : List (Point V) :=
  ids.filterMap fun id ↦ (pointsMap points)[id]?

/-- `min_desired_success`. -/
def minDesiredSuccess (replicaSet : ReplicaSet) (localOnly : Bool) : ℕ :=
  if localOnly then 1 else min replicaSet.numReplicas defaultConsistencyFactor

/-- What becomes of the results of a shard: `none` if the loop goes on to the next one, and
otherwise what `upsert_points` ends with, a panic being the inner `none`. -/
def acknowledge (X : Crates V) (shardId : ShardId) (replicaSet : ReplicaSet) (localOnly : Bool)
    (results : List (CollectionResult Unit)) : Option (Option (CollectionResult Unit)) :=
  let totalSuccess := results.countP fun r ↦ r.isOk
  match results with
  | [] => some none
  | .error e :: _ =>
    some (some (.error (.serviceError
      s!"Failed to upsert points in local shard {shardId}: {X.showError e}")))
  | .ok _ :: _ =>
    if totalSuccess < minDesiredSuccess replicaSet localOnly then
      some (some (.error (.serviceError
        s!"Failed to upsert points in shard {shardId}: only {totalSuccess} out of {replicaSet.numReplicas} replicas succeeded")))
    else none

/-- One round of the loop over the shards. -/
def upsertGroup (points : List (Point V)) (localOnly : Bool) (group : ShardId × List PointId)
    (w : σ) : σ × Option (Option (CollectionResult Unit)) :=
  match self.replicaHolder.shards.lookup group.1 with
  | none => (w, some (some (.error (.storageError (.badInput s!"Shard {group.1} not found")))))
  | some replicaSet =>
    match replicaSet.executeClusterOperation
        (fun r w ↦
          let (w, result) := upsert group.1 r (groupPoints points group.2) w
          (w, some result))
        localOnly w with
    | (w, none) => (w, some none)
    | (w, some results) => (w, acknowledge X group.1 replicaSet localOnly results)

/-- `Collection::upsert_points`. -/
def upsertPoints (order : IterOrder (ShardId × List PointId)) (points : List (Point V))
    (localOnly : Bool) (w : σ) : σ × Option (CollectionResult Unit) :=
  match self.replicaHolder.selectShards (points.map Point.id) with
  | .error e => (w, some (.error (.storageError e)))
  | .ok groups =>
    match Loop.run (self.upsertGroup upsert points localOnly) (order.arrange groups) w with
    | (w, none) => (w, some (.ok ()))
    | (w, some result) => (w, result)

end Upsert

/-! ## Reading -/

section Read

variable (self : Collection X)
  (read : ShardId → Replica → Option (List PointId) → Option (CollectionResult (List (Point V))))

/-- `collect::<Result<Vec<_>, _>>()`: the first error, if there is one. -/
def collectResults {ρ : Type} : List (CollectionResult ρ) → CollectionResult (List ρ)
  | [] => .ok []
  | .error e :: _ => .error e
  | .ok a :: rs => (collectResults rs).map (a :: ·)

/-- Points go into the list of all points unless one with their id is there already. -/
def insertVacant (points : List (Point V)) (all : Std.ExtTreeMap PointId (Point V)) :
    Std.ExtTreeMap PointId (Point V) := points.foldl (fun m p ↦ m.insertIfNew p.id p) all

/-- One round of the loop over the shards when all points are asked for. -/
def listShard (shardId : Option ShardId) (localOnly : Bool)
    (entry : Sigma fun _ : ShardId ↦ ReplicaSet) (all : Std.ExtTreeMap PointId (Point V)) :
    Std.ExtTreeMap PointId (Point V) × Option (Option (CollectionResult (List (Point V)))) :=
  if shardId.any (entry.1 ≠ ·) then (all, none)
  else
    match (entry.2.executeClusterOperation (fun r u ↦ (u, read entry.1 r none)) localOnly ()).2 with
    | none => (all, some none)
    | some results =>
      match collectResults results with
      | .error e => (all, some (some (.error e)))
      | .ok lists => (insertVacant lists.flatten all, none)

/-- One round of the loop over the shards when the ids asked for are spread over them. -/
def readGroup (group : ShardId × List PointId) (points : List (Point V)) :
    List (Point V) × Option (Option (CollectionResult (List (Point V)))) :=
  match self.replicaHolder.getReplicaSet group.1 with
  | .error e => (points, some (some (.error (.storageError e))))
  | .ok replicaSet =>
    match read group.1 (.localShard replicaSet.localShard) (some group.2) with
    | none => (points, some none)
    | some (.error e) => (points, some (some (.error e)))
    | some (.ok collected) => (points ++ collected, none)

/-- `Collection::get_points`. -/
def getPoints (order : IterOrder (ShardId × List PointId)) (ids : Option (List PointId))
    (shardId : Option ShardId) (localOnly : Bool) : Option (CollectionResult (List (Point V))) :=
  match ids with
  | none =>
    match Loop.run (listShard read shardId localOnly) self.replicaHolder.shards.entries ∅ with
    | (all, none) => some (.ok (all.toList.map Prod.snd))
    | (_, some result) => result
  | some ids =>
    match shardId with
    | some shardId =>
      match self.replicaHolder.getReplicaSet shardId with
      | .error e => some (.error (.storageError e))
      | .ok replicaSet => read shardId (.localShard replicaSet.localShard) (some ids)
    | none =>
      match self.replicaHolder.selectShards ids with
      | .error e => some (.error (.storageError e))
      | .ok groups =>
        match Loop.run (self.readGroup read) (order.arrange groups) [] with
        | (points, none) => some (.ok points)
        | (_, some result) => result

end Read

end Collection

end Smoldb
