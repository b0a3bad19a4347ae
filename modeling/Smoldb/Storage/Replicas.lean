import Smoldb.Storage.Segment
import Smoldb.Lib.Grouping
import Smoldb.Lib.HashRing

/-!
# Shards, replica sets and the ring

A collection is split into shards, and a shard is kept by a replica set: the shard of this node and
stand-ins for the same shard on other nodes.  `ReplicaHolder` has the replica sets and the ring
that says which shard a point id belongs to.

None of these values changes while points are written or read.  The sled handle inside a segment
has interior mutability, and every method here takes `&self`; so a `LocalShard` records which
segments it has and the trees themselves are in a state that the operations are given.  What the
state is differs: for the replicas of one node it is the trees of that node, for a call that goes
over the network it is the trees of the whole cluster.  `executeClusterOperation` is generic in it,
as it is generic in the operation.

A panic ends an operation without a result.  It is the `none` of an `Option` around the result.
-/

set_option autoImplicit false

namespace Smoldb

variable {V : Type} (X : Crates V)

/-- A shard of this node. -/
structure LocalShard where
  id : ShardId
  path : Path
  segments : HashMap SegmentId Segment
  deriving DecidableEq

/-- The same shard on another node. -/
structure RemoteShard where
  id : ShardId
  collection : CollectionName
  peerId : PeerId
  deriving DecidableEq

/-- The trees of a shard. -/
abbrev ShardStore := SegmentId → Db

/-- One replica of a shard, as `&dyn ShardOperationTrait`. -/
inductive Replica where
  | localShard : LocalShard → Replica
  | remoteShard : RemoteShard → Replica
  deriving DecidableEq

/-! ## The shard of this node -/

namespace LocalShard

/-- `LocalShard::init`: a shard with the one segment that `Segment::create` makes. -/
def init (path : Path) (id : ShardId) : LocalShard :=
  ⟨id, path, [⟨0, ⟨path ++ ["segments", "0"]⟩⟩].toAList⟩

theorem zero_mem_init (path : Path) (id : ShardId) : 0 ∈ (init path id).segments := by
  rw [← AList.lookup_isSome]
  rfl

/-- `LocalShard::get_points`. -/
def getPoints (self : LocalShard) (env : SledReads) (ids : Option (List PointId))
    (store : ShardStore) : CollectionResult (List (Point V)) :=
  if 0 ∈ self.segments then
    match Segment.getPoints X env ids (store 0) with
    | .ok ps => .ok ps
    | .error e => .error (.storageError (.serviceError s!"Failed to get points from segment: {e}"))
  else .error (.storageError (.serviceError "No segments available"))

/-- `LocalShard::upsert_points`. -/
def upsertPoints (self : LocalShard) (env : SledWrites) (points : List (Point V))
    (store : ShardStore) : ShardStore × CollectionResult Unit :=
  if 0 ∈ self.segments then
    match Segment.insertPoints X env points (store 0) with
    | (db, .ok _) => (Function.update store 0 db, .ok ())
    | (db, .error e) => (Function.update store 0 db, .error (.storageError e))
  else (store, .error (.serviceError "No segments available"))

/-- `LocalShard::count_points`. -/
def countPoints (self : LocalShard) (store : ShardStore) : ℕ :=
  if 0 ∈ self.segments then Segment.countPoints (store 0) else 0

/-- Points stored in segment `0`, which is where all of them go. -/
def putAll (points : List (Point V)) (store : ShardStore) : ShardStore :=
  Function.update store 0 (Segment.putAll X points (store 0))

@[simp] theorem putAll_zero (points : List (Point V)) (store : ShardStore) :
    putAll X points store 0 = Segment.putAll X points (store 0) := by
  rw [putAll, Function.update_self]

theorem putAll_of_ne {g : SegmentId} (hg : g ≠ 0) (points : List (Point V)) (store : ShardStore) :
    putAll X points store g = store g := by
  rw [putAll, Function.update_of_ne hg]

@[simp] theorem putAll_nil (store : ShardStore) : putAll X [] store = store := by
  rw [putAll, Segment.putAll_nil, Function.update_eq_self]

theorem putAll_append (ps qs : List (Point V)) (store : ShardStore) :
    putAll X (ps ++ qs) store = putAll X qs (putAll X ps store) := by
  funext g
  by_cases hg : g = 0
  · subst hg; simp [Segment.putAll_append]
  · simp [putAll_of_ne X hg]

/-- **Writing to a shard**, whatever sled does: a prefix of the points is stored, all of them if the
call succeeds; how long it is and what is returned do not depend on the store. -/
theorem upsertPoints_spec (self : LocalShard) (env : SledWrites) (points : List (Point V)) :
    ∃ n r, (∀ store, self.upsertPoints X env points store = (putAll X (points.take n) store, r)) ∧
      (r = .ok () → points.length ≤ n) := by
  obtain ⟨n, r, hn, hr⟩ := Segment.insertPoints_spec X env points
  by_cases h0 : 0 ∈ self.segments
  · cases r with
    | ok u => exact ⟨n, .ok (), fun store ↦ by simp [upsertPoints, h0, hn, putAll], fun _ ↦ hr rfl⟩
    | error e =>
      exact ⟨n, .error (.storageError e), fun store ↦ by simp [upsertPoints, h0, hn, putAll],
        fun h ↦ nomatch h⟩
  · exact ⟨0, .error (.serviceError "No segments available"),
      fun store ↦ by simp [upsertPoints, h0], fun h ↦ nomatch h⟩

/-- With the segment there and sled answering, all points are stored. -/
theorem upsertPoints_clean {self : LocalShard} (h0 : 0 ∈ self.segments) (points : List (Point V))
    (store : ShardStore) :
    self.upsertPoints X .clean points store = (putAll X points store, .ok ()) := by
  simp [upsertPoints, h0, Segment.insertPoints_clean, putAll]

theorem getPoints_eq_ok {self : LocalShard} {env : SledReads} {ids : Option (List PointId)}
    {store : ShardStore} {ps : List (Point V)} (h : self.getPoints X env ids store = .ok ps) :
    Segment.Answers X ids (store 0) ∧ ps = Segment.answer X ids (store 0) := by
  rw [getPoints] at h
  split at h
  · split at h
    · rename_i hg; rw [← Except.ok.inj h]; exact Segment.getPoints_eq_ok X hg
    · exact nomatch h
  · exact nomatch h

theorem getPoints_clean {self : LocalShard} (h0 : 0 ∈ self.segments)
    (ids : Option (List PointId)) {store : ShardStore} (h : Segment.Answers X ids (store 0)) :
    self.getPoints X .clean ids store = .ok (Segment.answer X ids (store 0)) := by
  simp only [getPoints, if_pos h0, Segment.getPoints_clean X ids h]

end LocalShard

/-! ## Replica sets -/

/-- The replicas of one shard. -/
structure ReplicaSet where
  localShard : LocalShard
  remotes : List RemoteShard
  collectionId : CollectionName
  deriving DecidableEq

namespace ReplicaSet

/-- `ReplicaSet::new`. -/
def new (localShard : LocalShard) (remotes : List PeerId) (collectionId : CollectionName) :
    ReplicaSet :=
  ⟨localShard, remotes.map fun peerId ↦ ⟨localShard.id, collectionId, peerId⟩, collectionId⟩

/-- `ReplicaSet::num_replicas`. -/
def numReplicas (self : ReplicaSet) : ℕ := self.remotes.length + 1

variable {σ ρ : Type}

/-- The loop of `execute_cluster_operation` over the remote shards. -/
def operateRemotes (operation : Replica → σ → σ × Option (CollectionResult ρ)) :
    List RemoteShard → σ → σ × Option (List (CollectionResult ρ))
  | [], w => (w, some [])
  | r :: rs, w =>
    match operation (.remoteShard r) w with
    | (w, none) => (w, none)
    | (w, some result) =>
      match operateRemotes operation rs w with
      | (w, none) => (w, none)
      | (w, some results) => (w, some (result :: results))

/-- `ReplicaSet::execute_cluster_operation`: the operation on the shard of this node and then,
unless `localOnly`, on the others.  Errors are results like any other. -/
def executeClusterOperation (self : ReplicaSet)
    (operation : Replica → σ → σ × Option (CollectionResult ρ)) (localOnly : Bool) (w : σ) :
    σ × Option (List (CollectionResult ρ)) :=
  match operation (.localShard self.localShard) w with
  | (w, none) => (w, none)
  | (w, some localResult) =>
    if localOnly then (w, some [localResult])
    else
      match operateRemotes operation self.remotes w with
      | (w, none) => (w, none)
      | (w, some results) => (w, some (localResult :: results))

/-- The replicas an operation is executed on, in the order in which that happens. -/
def replicas (self : ReplicaSet) (localOnly : Bool) : List Replica :=
  .localShard self.localShard :: if localOnly then [] else self.remotes.map .remoteShard

variable (operation : Replica → σ → σ × Option (CollectionResult ρ))
  (result : Replica → CollectionResult ρ)

theorem operateRemotes_of_result (h : ∀ r w, (operation r w).2 = some (result r))
    (rs : List RemoteShard) (w : σ) :
    operateRemotes operation rs w =
      ((rs.map Replica.remoteShard).foldl (fun w r ↦ (operation r w).1) w,
        some ((rs.map Replica.remoteShard).map result)) := by
  induction rs generalizing w with
  | nil => rfl
  | cons r rs ih =>
    have hr : operation (.remoteShard r) w =
        ((operation (.remoteShard r) w).1, some (result (.remoteShard r))) :=
      Prod.ext rfl (h _ _)
    rw [operateRemotes, hr]
    simp only [ih, List.map_cons, List.foldl_cons]

/-- **An operation whose results do not depend on the state** is executed on one replica after the
other, and no result keeps the others from being asked. -/
theorem executeClusterOperation_of_result (h : ∀ r w, (operation r w).2 = some (result r))
    (self : ReplicaSet) (localOnly : Bool) (w : σ) :
    self.executeClusterOperation operation localOnly w =
      ((self.replicas localOnly).foldl (fun w r ↦ (operation r w).1) w,
        some ((self.replicas localOnly).map result)) := by
  have hl : operation (.localShard self.localShard) w =
      ((operation (.localShard self.localShard) w).1,
        some (result (.localShard self.localShard))) :=
    Prod.ext rfl (h _ _)
  rw [executeClusterOperation, hl]
  cases localOnly with
  | true => rfl
  | false => simp [operateRemotes_of_result operation result h, replicas]

end ReplicaSet

/-! ## The holder of the replica sets -/

/-- The replica sets of a collection and the ring of their shard ids.  The ring is private to the
source's type and only ever filled from the shard ids, so it is part of the type that it is. -/
structure ReplicaHolder {V : Type} (X : Crates V) where
  shards : HashMap ShardId ReplicaSet
  ring : HashRing ShardId
  ringed : ring = HashRing.ofList X.hashShard shards.keys

namespace ReplicaHolder

variable {X}

/-- `ReplicaHolder::new`: the shard ids go on the ring in the order in which the map yields them. -/
def new (shards : HashMap ShardId ReplicaSet) : ReplicaHolder X :=
  ⟨shards, HashRing.ofList X.hashShard shards.keys, rfl⟩

/-- `ReplicaHolder::get_replica_set`. -/
def getReplicaSet (self : ReplicaHolder X) (shardId : ShardId) : Except StorageError ReplicaSet :=
  match self.shards.lookup shardId with
  | some replicaSet => .ok replicaSet
  | none => .error (.badInput s!"Shard {shardId} not found")

/-- One round of the loop of `add_remote_shards`. -/
def addRemote (peerId : PeerId) (collection : CollectionName) (shardId : ShardId)
    (replicaSet : ReplicaSet) : ReplicaSet :=
  if replicaSet.remotes.any (fun r ↦ r.peerId = peerId) then replicaSet
  else { replicaSet with remotes := replicaSet.remotes ++ [⟨shardId, collection, peerId⟩] }

/-- `ReplicaHolder::add_remote_shards`. -/
def addRemoteShards (self : ReplicaHolder X) (peerId : PeerId) (collection : CollectionName) :
    ReplicaHolder X :=
  ⟨self.shards.mapValues (addRemote peerId collection), self.ring, by
    rw [HashMap.keys_mapValues, self.ringed]⟩

/-- The shard of a point id: `ring.get(&point_id)`. -/
def route (self : ReplicaHolder X) (id : PointId) : Option ShardId := self.ring.get (X.hashPoint id)

/-- The loop of `select_shards`. -/
def selectFrom (self : ReplicaHolder X) :
    List PointId → List (ShardId × List PointId) →
      Except StorageError (List (ShardId × List PointId))
  | [], groups => .ok groups
  | id :: ids, groups =>
    match self.route id with
    | none => .error (.serviceError "No shards found")
    | some shardId => self.selectFrom ids (Grouping.push shardId id groups)

/-- `ReplicaHolder::select_shards`. -/
def selectShards (self : ReplicaHolder X) (pointIds : List PointId) :
    Except StorageError (List (ShardId × List PointId)) := self.selectFrom pointIds []

/-- The shard of a point id, for a holder that has shards. -/
def shardOf (self : ReplicaHolder X) (id : PointId) : ShardId := (self.route id).getD 0

/-- The shard of an id is one of the shards there are. -/
theorem mem_of_route {self : ReplicaHolder X} {id : PointId} {s : ShardId}
    (hs : self.route id = some s) : s ∈ self.shards := by
  rw [route, self.ringed] at hs
  exact AList.mem_keys.mpr (HashRing.mem_of_get_ofList hs)

/-- A holder with a shard has a shard for every id. -/
theorem route_eq {self : ReplicaHolder X} {s : ShardId} (hs : s ∈ self.shards) (id : PointId) :
    self.route id = some (self.shardOf id) := by
  have hne : self.route id ≠ none := by
    rw [route, self.ringed, Ne, HashRing.get_ofList_eq_none_iff]
    intro hn
    rw [AList.mem_keys, hn] at hs
    exact absurd hs (by simp)
  obtain ⟨t, ht⟩ := Option.ne_none_iff_exists'.mp hne
  rw [shardOf, ht, Option.getD_some]

/-- A holder without shards has none for any id. -/
theorem route_eq_none {self : ReplicaHolder X} (h : self.shards.keys = []) (id : PointId) :
    self.route id = none := by
  rw [route, self.ringed, HashRing.get_ofList_eq_none_iff]
  exact h

theorem exists_lookup_shardOf {self : ReplicaHolder X} {s : ShardId} (hs : s ∈ self.shards)
    (id : PointId) : ∃ rs, self.shards.lookup (self.shardOf id) = some rs :=
  Option.isSome_iff_exists.mp (AList.lookup_isSome.mpr (mem_of_route (route_eq hs id)))

/-- Holders with the same shard ids route alike, whatever order their maps are iterated in. -/
theorem route_congr {self other : ReplicaHolder X}
    (hkeys : ∀ s, s ∈ self.shards ↔ s ∈ other.shards) (id : PointId) :
    self.route id = other.route id := by
  rw [route, route, self.ringed, other.ringed, HashRing.ofList_perm X.hashShard_injective]
  rw [List.perm_ext_iff_of_nodup self.shards.keys_nodup other.shards.keys_nodup]
  exact fun s ↦ by rw [← AList.mem_keys, ← AList.mem_keys, hkeys]

theorem shardOf_congr {self other : ReplicaHolder X}
    (hkeys : ∀ s, s ∈ self.shards ↔ s ∈ other.shards) : self.shardOf = other.shardOf := by
  funext id
  rw [shardOf, shardOf, route_congr hkeys]

theorem selectFrom_eq {self : ReplicaHolder X} {s : ShardId} (hs : s ∈ self.shards)
    (ids : List PointId) (groups : List (ShardId × List PointId)) :
    self.selectFrom ids groups =
      .ok (ids.foldl (fun gs id ↦ Grouping.push (self.shardOf id) id gs) groups) := by
  induction ids generalizing groups with
  | nil => rfl
  | cons id ids ih => rw [selectFrom, route_eq hs]; exact ih _

/-- **`select_shards` groups the ids by their shard.** -/
theorem selectShards_eq {self : ReplicaHolder X} {s : ShardId} (hs : s ∈ self.shards)
    (ids : List PointId) : self.selectShards ids = .ok (Grouping.groups self.shardOf ids) :=
  selectFrom_eq hs ids []

/-- Without shards there is nowhere to put an id. -/
theorem selectShards_of_keys_nil {self : ReplicaHolder X} (h : self.shards.keys = [])
    {ids : List PointId} (hids : ids ≠ []) :
    self.selectShards ids = .error (.serviceError "No shards found") := by
  cases ids with
  | nil => exact absurd rfl hids
  | cons id ids => rw [selectShards, selectFrom, route_eq_none h]

theorem lookup_addRemoteShards (self : ReplicaHolder X) (peerId : PeerId)
    (collection : CollectionName) (s : ShardId) :
    (self.addRemoteShards peerId collection).shards.lookup s
      = (self.shards.lookup s).map (addRemote peerId collection s) :=
  HashMap.lookup_mapValues _ _ _

theorem mem_addRemoteShards {self : ReplicaHolder X} {peerId : PeerId}
    {collection : CollectionName} {s : ShardId} :
    s ∈ (self.addRemoteShards peerId collection).shards ↔ s ∈ self.shards := by
  rw [AList.mem_keys, AList.mem_keys, addRemoteShards, HashMap.keys_mapValues]

end ReplicaHolder

end Smoldb
