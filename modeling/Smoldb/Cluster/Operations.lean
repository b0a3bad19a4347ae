import Smoldb.Cluster.Calls
import Smoldb.Cluster.Requests

/-!
# The operations of a node

What comes to a node are requests of clients, calls of other nodes, and changes to its collections
and its peers.  All of them take the lock of the collections.  Requests and calls read, and go on
with a program; the others write, and have nothing to wait for once they have the lock.

`Operation` has one constructor for each, and `Operation.program` what is done under the lock: the
programs of `Cluster/Requests.lean`, in the functions that call them, with `local_only` as these
pass it on.  A request of a client passes `false`, and a handler passes `true`.

* `eval_performPointsProgram` and its three siblings: the programs are the functions of
  `Cluster.lean`, errors and status codes included.
* `Operation.targets` has the calls to other nodes an operation may make, one for each remote shard
  of each shard that it is about, and `makes_program` says that it makes them one after the other.
* `targets_eq_nil_of_internal`: what is done for another node makes none.
-/

set_option autoImplicit false

namespace Smoldb

open Program

variable {V : Type} {X : Crates V}

/-! ## What is done under the lock -/

namespace TableOfContent

variable (toc : TableOfContent X) (order : IterOrder (ShardId × List PointId))

/-- `TableOfContent::perform_points_op`, for the one operation there is. -/
def performPointsProgram (name : CollectionName) (points : List (Point V)) :
    AskProgram V StorageError Bool :=
  match toc.collections.lookup name with
  | none => .error (.badInput s!"Collection '{name}' does not exist")
  | some collection =>
    (collection.upsertProgram order points false).handle (fun _ ↦ .ok true) fun e ↦
      .error (.serviceError s!"Failed to upsert points in collection '{name}': {X.showError e}")

/-- `TableOfContent::retrieve_points`. -/
def retrieveProgram (name : CollectionName) (ids : Option (List PointId)) :
    AskProgram V StorageError (List (Point V)) :=
  match toc.collections.lookup name with
  | none => .error (.badInput s!"Collection '{name}' does not exist")
  | some collection =>
    (collection.getProgram order ids none false).mapError fun e ↦
      .serviceError s!"Failed to retrieve points from collection '{name}': {X.showError e}"

end TableOfContent

namespace PointsInternalService

variable (toc : TableOfContent X) (order : IterOrder (ShardId × List PointId))

/-- `PointsInternalService::upsert_points`. -/
def upsertProgram (request : UpsertPointsRequest) : AskProgram V Status UpsertPointsResponse :=
  let name := request.collectionName
  match toc.collections.lookup name with
  | none => .error ⟨.notFound, s!"Collection '{name}' not found"⟩
  | some collection =>
    match decodePoints X request.points with
    | none => .panicked "called `Result::unwrap()` on an `Err` value"
    | some points =>
      (collection.upsertProgram order points true).handle
        (fun _ ↦ .ok ⟨"Upsert operation completed"⟩) fun e ↦
        .error ⟨.internal, s!"Failed to upsert points in collection '{name}': {X.showError e}"⟩

/-- `PointsInternalService::get_points`. -/
def getProgram (request : GetPointsRequest) : AskProgram V Status GetPointsResponse :=
  let name := request.collectionName
  match toc.collections.lookup name with
  | none => .error ⟨.notFound, s!"Collection '{name}' not found"⟩
  | some collection =>
    let pointIds := if request.returnAll then none else some (request.ids.map PointId.id)
    (collection.getProgram order pointIds request.shardId true).handle
      (fun points ↦ .ok ⟨points.filterMap (Point.toGrpc X)⟩) fun e ↦
      .error ⟨.internal, s!"Failed to retrieve points from collection '{name}': {X.showError e}"⟩

end PointsInternalService

section Eval

variable (toc : TableOfContent X) (peer : PeerId) (w : Stores)

/-- **The handler of a call to write** is this program. -/
theorem PointsInternalService.eval_upsertProgram
    (remote : ShardId → RemoteShard → List (Point V) → Stores → Stores × CollectionResult Unit)
    (read : ShardId → Replica → Option (List PointId) → Option (CollectionResult (List (Point V))))
    (env : WriteEnv) (request : UpsertPointsRequest) :
    (upsertProgram toc env.order request).eval
        (askAnswer (replicaUpsert X peer request.collectionName env.sled remote) read) w
      = upsertPoints toc peer remote env request w := by
  simp only [upsertProgram, upsertPoints]
  cases toc.collections.lookup request.collectionName with
  | none => rfl
  | some collection =>
    simp only
    cases decodePoints X request.points with
    | none => rfl
    | some points =>
      simp only [eval_handle, Collection.eval_upsertProgram]
      rcases collection.upsertPoints _ env.order points true w with ⟨w', _ | e | u⟩ <;> rfl

/-- **The handler of a call to read** is this program. -/
theorem PointsInternalService.eval_getProgram
    (upsert : ShardId → Replica → List (Point V) → Stores → Stores × CollectionResult Unit)
    (remote : ShardId → RemoteShard → Option (List PointId) →
      Option (CollectionResult (List (Point V))))
    (env : ReadEnv) (request : GetPointsRequest) :
    (getProgram toc env.order request).eval
        (askAnswer upsert (replicaGet X peer request.collectionName env.sled w remote)) w
      = (w, getPoints toc peer remote env request w) := by
  simp only [getProgram, getPoints]
  cases toc.collections.lookup request.collectionName with
  | none => rfl
  | some collection =>
    simp only [eval_handle, Collection.eval_getProgram]
    rcases collection.getPoints _ env.order _ request.shardId true with _ | e | points <;> rfl

variable (cl : Cluster X) (name : CollectionName)

/-- **The request of a client to write** is this program. -/
theorem TableOfContent.eval_performPointsProgram (env : ClusterWriteEnv)
    (read : ShardId → Replica → Option (List PointId) → Option (CollectionResult (List (Point V))))
    (points : List (Point V)) :
    (toc.performPointsProgram env.order name points).eval
        (askAnswer (cl.replicaUpsert peer name env) read) w
      = cl.performPointsOp peer toc env name points w := by
  simp only [performPointsProgram, Cluster.performPointsOp, Cluster.upsertPoints]
  cases toc.collections.lookup name with
  | none => rfl
  | some collection =>
    simp only [eval_handle, Collection.eval_upsertProgram]
    rcases collection.upsertPoints _ env.order points false w with ⟨w', _ | e | u⟩ <;> rfl

/-- **The request of a client to read** is this program. -/
theorem TableOfContent.eval_retrieveProgram
    (upsert : ShardId → Replica → List (Point V) → Stores → Stores × CollectionResult Unit)
    (env : ClusterReadEnv) (ids : Option (List PointId)) :
    (toc.retrieveProgram env.order name ids).eval
        (askAnswer upsert (cl.replicaGet peer name env w)) w
      = (w, cl.retrievePoints peer toc env name ids w) := by
  simp only [retrieveProgram, Cluster.retrievePoints, Cluster.getPoints]
  cases toc.collections.lookup name with
  | none => rfl
  | some collection =>
    simp only [mapError, eval_handle, Collection.eval_getProgram]
    rcases collection.getPoints _ env.order ids none false with _ | e | points <;> rfl

end Eval

/-! ## Operations -/

/-- An operation that takes the lock of the collections.  Of those that write, nothing is kept but
that they do. -/
inductive Operation (V : Type) where
  | performPointsOp (name : CollectionName) (points : List (Point V))
  | retrievePoints (name : CollectionName) (ids : Option (List PointId))
  | upsertPoints (request : UpsertPointsRequest)
  | getPoints (request : GetPointsRequest)
  | createCollection
  | deleteCollection
  | addPeerToKnown

/-- The remotes of a shard. -/
def Collection.remotesOf (self : Collection X) (s : ShardId) : List (ShardId × RemoteShard) :=
  match self.replicaHolder.shards.lookup s with
  | none => []
  | some replicaSet => replicaSet.remotes.map fun r ↦ (s, r)

namespace Operation

/-- Is it done for another node? -/
def internal : Operation V → Bool
  | upsertPoints _ | getPoints _ => true
  | _ => false

/-- Does it ask for the lock with `write`? -/
def writes : Operation V → Bool
  | createCollection | deleteCollection | addPeerToKnown => true
  | _ => false

variable (toc : TableOfContent X) (order : IterOrder (ShardId × List PointId))

/-- What it does when it has the lock, and what the node that called it gets to see of that. -/
def program : Operation V → AskProgram V (Option Status) (List PointGrpc)
  | performPointsOp name points =>
    (toc.performPointsProgram order name points).handle (fun _ ↦ .ok []) fun _ ↦ .error none
  | retrievePoints name ids =>
    (toc.retrieveProgram order name ids).handle (fun _ ↦ .ok []) fun _ ↦ .error none
  | upsertPoints request =>
    (PointsInternalService.upsertProgram toc order request).handle (fun _ ↦ .ok []) fun status ↦
      .error (some status)
  | getPoints request =>
    (PointsInternalService.getProgram toc order request).handle (fun response ↦ .ok response.points)
      fun status ↦ .error (some status)
  | _ => .ok []

/-- What it asks replicas for, if nothing stops it. -/
def asks : Operation V → List (Ask V)
  | performPointsOp name points =>
    match toc.collections.lookup name with
    | none => []
    | some collection => collection.upsertAsks order points false
  | retrievePoints name ids =>
    match toc.collections.lookup name with
    | none => []
    | some collection => collection.getAsks order ids none false
  | upsertPoints request =>
    match toc.collections.lookup request.collectionName, decodePoints X request.points with
    | some collection, some points => collection.upsertAsks order points true
    | _, _ => []
  | getPoints request =>
    match toc.collections.lookup request.collectionName with
    | none => []
    | some collection =>
      collection.getAsks order
        (if request.returnAll then none else some (request.ids.map PointId.id))
        request.shardId true
  | _ => []

/-- The calls to other nodes that it may make: an upsert of a client one for each remote of each
shard its points belong to, and a list of a client one for each remote of each shard. -/
def targets : Operation V → List (ShardId × RemoteShard)
  | performPointsOp name points =>
    match toc.collections.lookup name with
    | none => []
    | some collection => (collection.shardOrder order points).flatMap collection.remotesOf
  | retrievePoints name none =>
    match toc.collections.lookup name with
    | none => []
    | some collection => collection.replicaHolder.shards.keys.flatMap collection.remotesOf
  | _ => []

/-- A client asks for all points of a collection. -/
def Lists (self : Operation V) : Prop := ∃ name, self = retrievePoints name none

end Operation

/-! ## What they ask other nodes for -/

namespace Collection

variable (self : Collection X) {order : IterOrder (ShardId × List PointId)}

/-- The remotes of some replicas. -/
theorem filterMap_target_replicas {f : Replica → Ask V} {s : ShardId}
    (hlocal : ∀ shard, (f (.localShard shard)).target = none)
    (hremote : ∀ shard, (f (.remoteShard shard)).target = some (s, shard)) (rs : ReplicaSet)
    (localOnly : Bool) : ((rs.replicas localOnly).map f).filterMap Ask.target
      = if localOnly then [] else rs.remotes.map fun r ↦ (s, r) := by
  rw [ReplicaSet.replicas, List.map_cons, List.filterMap_cons_none (hlocal _)]
  cases localOnly with
  | true => rfl
  | false =>
    rw [if_neg Bool.false_ne_true, if_neg Bool.false_ne_true, List.filterMap_map,
      List.filterMap_map,
      ← List.filterMap_eq_map]
    exact List.filterMap_congr fun r _ ↦ hremote r

theorem filterMap_target_upsertAsks (points : List (Point V)) (localOnly : Bool) :
    (self.upsertAsks order points localOnly).filterMap Ask.target
      = if localOnly then [] else (self.shardOrder order points).flatMap self.remotesOf := by
  have hshard : ∀ s,
      ((self.shardCalls points localOnly s).map Ask.upsertPoints).filterMap Ask.target
      = if localOnly then [] else self.remotesOf s := by
    intro s
    rw [shardCalls, remotesOf]
    cases self.replicaHolder.shards.lookup s with
    | none => cases localOnly <;> rfl
    | some replicaSet =>
      simp only [List.map_map]
      exact filterMap_target_replicas (fun _ ↦ rfl) (fun _ ↦ rfl) replicaSet localOnly
  rw [upsertAsks, List.map_flatMap, List.filterMap_flatMap]
  simp only [hshard]
  cases localOnly with
  | true => exact List.flatMap_eq_nil_iff.mpr fun _ _ ↦ rfl
  | false => rfl

theorem filterMap_target_listAsks (shardId : Option ShardId) (localOnly : Bool)
    (entry : Sigma fun _ : ShardId ↦ ReplicaSet) :
    (listAsks shardId localOnly entry : List (Ask V)).filterMap Ask.target
      = if localOnly then [] else if shardId.any (entry.1 ≠ ·) then []
        else entry.2.remotes.map fun r ↦ (entry.1, r) := by
  rw [listAsks]
  split
  · cases localOnly <;> rfl
  · exact filterMap_target_replicas (fun _ ↦ rfl) (fun _ ↦ rfl) entry.2 localOnly

theorem filterMap_target_readAsks (group : ShardId × List PointId) :
    (self.readAsks group).filterMap Ask.target = [] := by
  rw [readAsks]
  cases self.replicaHolder.getReplicaSet group.1 <;> rfl

/-- A read of some ids asks no other node. -/
theorem filterMap_target_getAsks_ids (ids : List PointId) (shardId : Option ShardId)
    (localOnly : Bool) :
    (self.getAsks order (some ids) shardId localOnly).filterMap Ask.target = [] := by
  cases shardId with
  | some shardId => exact self.filterMap_target_readAsks (shardId, ids)
  | none =>
    simp only [getAsks]
    cases self.replicaHolder.selectShards ids with
    | error e => rfl
    | ok groups =>
      simp only [List.filterMap_flatMap]
      exact List.flatMap_eq_nil_iff.mpr fun group _ ↦ self.filterMap_target_readAsks group

/-- A read for another node asks no other node. -/
theorem filterMap_target_getAsks_local (ids : Option (List PointId)) (shardId : Option ShardId) :
    (self.getAsks order ids shardId true).filterMap Ask.target = [] := by
  cases ids with
  | some ids => exact self.filterMap_target_getAsks_ids ids shardId true
  | none =>
    rw [getAsks, List.filterMap_flatMap]
    exact List.flatMap_eq_nil_iff.mpr fun entry _ ↦ filterMap_target_listAsks shardId true entry

/-- A list for a client asks all remotes. -/
theorem filterMap_target_getAsks_list :
    (self.getAsks order none none false).filterMap Ask.target
      = self.replicaHolder.shards.keys.flatMap self.remotesOf := by
  rw [getAsks, List.filterMap_flatMap, AList.keys, List.keys, List.flatMap_map]
  refine List.flatMap_congr fun entry hentry ↦ ?_
  have hlookup : self.replicaHolder.shards.lookup entry.1 = some entry.2 :=
    AList.mem_lookup_iff.mpr hentry
  rw [filterMap_target_listAsks, remotesOf, hlookup]
  rfl

end Collection

namespace Operation

variable (toc : TableOfContent X) (order : IterOrder (ShardId × List PointId))

/-- **The calls an operation may make** are what it asks other nodes for. -/
theorem filterMap_target_asks (self : Operation V) :
    (self.asks toc order).filterMap Ask.target = self.targets toc order := by
  cases self with
  | performPointsOp name points =>
    simp only [asks, targets]
    cases toc.collections.lookup name with
    | none => rfl
    | some collection => exact collection.filterMap_target_upsertAsks points false
  | retrievePoints name ids =>
    simp only [asks]
    cases ids with
    | none =>
      simp only [targets]
      cases toc.collections.lookup name with
      | none => rfl
      | some collection => exact collection.filterMap_target_getAsks_list
    | some ids =>
      show _ = []
      cases toc.collections.lookup name with
      | none => rfl
      | some collection => exact collection.filterMap_target_getAsks_ids ids none false
  | upsertPoints request =>
    simp only [asks, targets]
    cases toc.collections.lookup request.collectionName with
    | none => rfl
    | some collection =>
      cases decodePoints X request.points with
      | none => rfl
      | some points => exact collection.filterMap_target_upsertAsks points true
  | getPoints request =>
    simp only [asks, targets]
    cases toc.collections.lookup request.collectionName with
    | none => rfl
    | some collection => exact collection.filterMap_target_getAsks_local _ request.shardId
  | createCollection => rfl
  | deleteCollection => rfl
  | addPeerToKnown => rfl

/-- **What is done for another node makes no calls.** -/
theorem targets_eq_nil_of_internal {self : Operation V} (h : self.internal = true) :
    self.targets toc order = [] := by
  cases self with
  | upsertPoints request => rfl
  | getPoints request => rfl
  | _ => exact nomatch h

theorem targets_eq_nil_of_writes {self : Operation V} (h : self.writes = true) :
    self.targets toc order = [] := by
  cases self with
  | createCollection | deleteCollection | addPeerToKnown => rfl
  | _ => exact nomatch h

/-- **An operation asks for what it asks for**, one thing after the other, and a list is only
stopped by an error. -/
theorem makes_program (self : Operation V) :
    (self.program toc order).Makes Ask.Stops (fun _ _ ↦ True) (self.asks toc order)
      (¬ self.Lists ∨ self.asks toc order = []) := by
  cases self with
  | performPointsOp name points =>
    have hstop : ¬ (performPointsOp name points : Operation V).Lists := fun ⟨_, h⟩ ↦ nomatch h
    simp only [program, asks, TableOfContent.performPointsProgram]
    cases toc.collections.lookup name with
    | none => exact Or.inl hstop
    | some collection =>
      exact ((Collection.makes_upsertProgram order points false (Or.inl hstop)).map _ _).map _ _
  | retrievePoints name ids =>
    simp only [program, asks, TableOfContent.retrieveProgram]
    cases toc.collections.lookup name with
    | none => exact Or.inr rfl
    | some collection =>
      cases ids with
      | none => exact ((Collection.makes_getProgram_list order none false _).map id _).map _ _
      | some ids =>
        have hstop : ¬ (retrievePoints name (some ids) : Operation V).Lists :=
          fun ⟨_, h⟩ ↦ nomatch h
        exact ((Collection.makes_getProgram order _ none false (Or.inl hstop)).map id _).map _ _
  | upsertPoints request =>
    have hstop : ¬ (upsertPoints request : Operation V).Lists := fun ⟨_, h⟩ ↦ nomatch h
    simp only [program, asks, PointsInternalService.upsertProgram]
    cases toc.collections.lookup request.collectionName with
    | none => exact Or.inl hstop
    | some collection =>
      cases decodePoints X request.points with
      | none => exact Or.inl hstop
      | some points =>
        exact ((Collection.makes_upsertProgram order points true (Or.inl hstop)).map _ _).map _ _
  | getPoints request =>
    have hstop : ¬ (getPoints request : Operation V).Lists := fun ⟨_, h⟩ ↦ nomatch h
    simp only [program, asks, PointsInternalService.getProgram]
    cases toc.collections.lookup request.collectionName with
    | none => exact Or.inl hstop
    | some collection =>
      exact ((Collection.makes_getProgram order _ _ true (Or.inl hstop)).map _ _).map _ _
  | createCollection => exact ⟨rfl, trivial⟩
  | deleteCollection => exact ⟨rfl, trivial⟩
  | addPeerToKnown => exact ⟨rfl, trivial⟩

/-- **What is answered to another node** can be decoded there. -/
theorem program_returns (self : Operation V) :
    (self.program toc order).Returns fun points ↦ ∃ ps, decodePoints X points = some ps := by
  cases self with
  | performPointsOp name points =>
    exact (returns_true _).handle (fun _ _ ↦ ⟨[], rfl⟩) fun _ ↦ trivial
  | retrievePoints name ids => exact (returns_true _).handle (fun _ _ ↦ ⟨[], rfl⟩) fun _ ↦ trivial
  | upsertPoints request => exact (returns_true _).handle (fun _ _ ↦ ⟨[], rfl⟩) fun _ ↦ trivial
  | getPoints request =>
    have hget : (PointsInternalService.getProgram toc order request).Returns fun response ↦
        ∃ ps, decodePoints X response.points = some ps := by
      simp only [PointsInternalService.getProgram]
      cases toc.collections.lookup request.collectionName with
      | none => exact trivial
      | some collection =>
        exact (returns_true _).handle (fun points _ ↦ ⟨_, decodePoints_toGrpc points⟩)
          fun _ ↦ trivial
    exact hget.handle (fun _ h ↦ h) fun _ ↦ trivial
  | createCollection => exact ⟨[], rfl⟩
  | deleteCollection => exact ⟨[], rfl⟩
  | addPeerToKnown => exact ⟨[], rfl⟩

end Operation

end Smoldb
