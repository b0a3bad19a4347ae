import Smoldb.Storage.Upsert

/-!
# A cluster of nodes

A node has a table of contents, which holds its collections by name, and the trees of its shards.
`Cluster` has the first half for every node and does not change while points are written and read;
`Stores` has the trees, addressed by node, collection, shard and segment.

A node reaches the replicas of a shard through `replicaUpsert` and `replicaGet`.  The shard of the
node itself is its own trees.  A remote shard looks up an address, gets a channel and makes a call,
which runs the handler of `PointsInternalService` at the node on the other end, on the trees of that
node.  Only points with a number for an id are sent, and only those are returned.

What is not decided by the code is in an environment: what sled answers, in which order hash maps
are iterated, where an address leads, and which requests and replies get lost.  A call can fail
before the handler has run, in it, and after it, so a failed call may have written everything,
nothing, or something in between.

The handlers pass `local_only = true` on, so they never make a call themselves.  Accordingly they
are given a stand-in for the remote shards, `noRemote`, and `Collection.upsertPoints_congr_local`
says that it makes no difference which.
-/

set_option autoImplicit false

namespace Smoldb

variable {V : Type} {X : Crates V}

abbrev Uri := String

/-! ## Nodes and their trees -/

/-- `TableOfContent`, as far as points are concerned. -/
structure TableOfContent {V : Type} (X : Crates V) where
  collections : HashMap CollectionName (Collection X)

/-- `ChannelService`: the addresses of the peers. -/
structure ChannelService where
  idToAddress : HashMap PeerId Uri

/-- Where the trees of a shard are. -/
structure Place where
  peer : PeerId
  collection : CollectionName
  shard : ShardId
  deriving DecidableEq

/-- The trees of all nodes. -/
abbrev Stores := Place → ShardStore

/-- No tree has an entry. -/
def Stores.empty : Stores := fun _ _ ↦ ∅

/-- The nodes of a cluster, and the address book the remote shards use. -/
structure Cluster {V : Type} (X : Crates V) where
  node : PeerId → Option (TableOfContent X)
  channelService : RemoteShard → ChannelService

/-- The collection of a name at a node. -/
def Cluster.collection (cl : Cluster X) (peer : PeerId) (name : CollectionName) :
    Option (Collection X) := (cl.node peer).bind fun toc ↦ toc.collections.lookup name

/-! ## The environment of a call -/

/-- What is open in a write to one node: map orders and the answers of sled. -/
structure WriteEnv where
  order : IterOrder (ShardId × List PointId)
  sled : ShardId → SledWrites

/-- What is open in a read at one node. -/
structure ReadEnv where
  order : IterOrder (ShardId × List PointId)
  sled : ShardId → SledReads

/-- What becomes of a call to another node.  The channel leads to the server of `connect`; the
request or the reply is lost if there is a status for it; `aborted` is what the caller sees when
nobody answers or the handler panics. -/
structure CallEnv (η : Type) where
  connect : Uri → Except String PeerId
  request : Option Status
  handler : η
  reply : Option Status
  aborted : Status

/-- What is open in a write that goes to other nodes. -/
structure ClusterWriteEnv extends WriteEnv where
  remote : ShardId → PeerId → CallEnv WriteEnv

/-- What is open in a read that goes to other nodes. -/
structure ClusterReadEnv extends ReadEnv where
  remote : ShardId → PeerId → CallEnv ReadEnv

/-! ## Messages of the internal service -/

/-- `p2p_grpc_schema::Point`. -/
structure PointGrpc where
  id : UInt64
  payload : String

structure UpsertPointsRequest where
  collectionName : CollectionName
  points : List PointGrpc
  shardId : Option ShardId

structure UpsertPointsResponse where
  message : String

structure GetPointsRequest where
  collectionName : CollectionName
  ids : List UInt64
  returnAll : Bool
  shardId : Option ShardId

structure GetPointsResponse where
  points : List PointGrpc

/-- The wire form of a point, if its id is a number. -/
def Point.toGrpc (X : Crates V) (p : Point V) : Option PointGrpc :=
  match p.id with
  | .id n => some ⟨n, X.valueToString p.payload⟩
  | .uuid _ => none

/-- A point off the wire.  The payload is unwrapped, so this may panic. -/
def PointGrpc.toPoint (X : Crates V) (p : PointGrpc) : Option (Point V) :=
  match X.valueFromStr p.payload with
  | .ok payload => some ⟨.id p.id, payload⟩
  | .error _ => none

/-- All points of a message, or a panic. -/
def decodePoints (X : Crates V) : List PointGrpc → Option (List (Point V))
  | [] => some []
  | p :: ps => (p.toPoint X).bind fun q ↦ (decodePoints X ps).map (q :: ·)

/-! ## Writing -/

/-- How the replicas of a shard at a node are written to. -/
def replicaUpsert (X : Crates V) (peer : PeerId) (name : CollectionName)
    (sled : ShardId → SledWrites)
    (remote : ShardId → RemoteShard → List (Point V) → Stores → Stores × CollectionResult Unit)
    (s : ShardId) (replica : Replica) (points : List (Point V)) (w : Stores) :
    Stores × CollectionResult Unit :=
  match replica with
  | .localShard shard =>
    let (store, result) := shard.upsertPoints X (sled s) points (w ⟨peer, name, s⟩)
    (Function.update w ⟨peer, name, s⟩ store, result)
  | .remoteShard shard => remote s shard points w

/-- In place of remote shards where none is ever asked. -/
def noRemote (_ : ShardId) (_ : RemoteShard) (_ : List (Point V)) (w : Stores) :
    Stores × CollectionResult Unit := (w, .ok ())

/-- `PointsInternalService::upsert_points`, at the node `peer`. -/
def PointsInternalService.upsertPoints (toc : TableOfContent X) (peer : PeerId)
    (remote : ShardId → RemoteShard → List (Point V) → Stores → Stores × CollectionResult Unit)
    (env : WriteEnv) (request : UpsertPointsRequest) (w : Stores) :
    Stores × Option (Except Status UpsertPointsResponse) :=
  let name := request.collectionName
  match toc.collections.lookup name with
  | none => (w, some (.error ⟨.notFound, s!"Collection '{name}' not found"⟩))
  | some collection =>
    match decodePoints X request.points with
    | none => (w, none)
    | some points =>
      match collection.upsertPoints (replicaUpsert X peer name env.sled remote) env.order points
          true w with
      | (w, none) => (w, none)
      | (w, some (.error e)) =>
        (w, some (.error ⟨.internal,
          s!"Failed to upsert points in collection '{name}': {X.showError e}"⟩))
      | (w, some (.ok _)) => (w, some (.ok ⟨"Upsert operation completed"⟩))

/-- The call of `upsert_points` over a channel to the node `peer`. -/
def Cluster.callUpsert (cl : Cluster X) (env : CallEnv WriteEnv) (peer : PeerId)
    (request : UpsertPointsRequest) (w : Stores) : Stores × Except Status UpsertPointsResponse :=
  match env.request with
  | some status => (w, .error status)
  | none =>
    match cl.node peer with
    | none => (w, .error env.aborted)
    | some toc =>
      match PointsInternalService.upsertPoints toc peer noRemote env.handler request w with
      | (w, none) => (w, .error env.aborted)
      | (w, some (.error status)) => (w, .error status)
      | (w, some (.ok response)) =>
        match env.reply with
        | some status => (w, .error status)
        | none => (w, .ok response)

/-- `RemoteShard::get_channel_service`.  The texts are parsed there, and these are the URIs as they
are displayed, with a slash that the texts do not have. -/
def RemoteShard.getChannelService (_ : RemoteShard) : ChannelService :=
  ⟨[⟨101, "http://0.0.0.0:5001/"⟩, ⟨102, "http://0.0.0.0:5002/"⟩,
    ⟨103, "http://0.0.0.0:5003/"⟩].toAList⟩

/-- `RemoteShard::current_address`. -/
def RemoteShard.currentAddress (self : RemoteShard) (channelService : ChannelService) :
    CollectionResult Uri :=
  match channelService.idToAddress.lookup self.peerId with
  | some uri => .ok uri
  | none => .error (.serviceError
      s!"Peer {self.peerId} does not have an address in the channel service")

/-- `RemoteShard::upsert_points`. -/
def RemoteShard.upsertPoints (self : RemoteShard) (cl : Cluster X) (env : CallEnv WriteEnv)
    (points : List (Point V)) (w : Stores) : Stores × CollectionResult Unit :=
  match self.currentAddress (cl.channelService self) with
  | .error e => (w, .error e)
  | .ok uri =>
    match env.connect uri with
    | .error e => (w, .error (.tonicTransportError e))
    | .ok peer =>
      match cl.callUpsert env peer
          ⟨self.collection, points.filterMap (Point.toGrpc X), none⟩ w with
      | (w, .error status) =>
        (w, .error (.serviceError
          s!"Failed to execute operation on remote shard {self.id}: {X.showStatus status}"))
      | (w, .ok _) => (w, .ok ())

/-- How the replicas of a shard are written to from a node of the cluster. -/
def Cluster.replicaUpsert (cl : Cluster X) (peer : PeerId) (name : CollectionName)
    (env : ClusterWriteEnv) :
    ShardId → Replica → List (Point V) → Stores → Stores × CollectionResult Unit :=
  Smoldb.replicaUpsert X peer name env.sled
    fun s shard ↦ shard.upsertPoints cl (env.remote s shard.peerId)

/-- `Collection::upsert_points` on a collection of a node. -/
def Cluster.upsertPoints (cl : Cluster X) (peer : PeerId) (name : CollectionName)
    (collection : Collection X) (env : ClusterWriteEnv) (points : List (Point V)) (localOnly : Bool)
    (w : Stores) : Stores × Option (CollectionResult Unit) :=
  collection.upsertPoints (cl.replicaUpsert peer name env) env.order points localOnly w

/-- `TableOfContent::perform_points_op`, for the one operation there is. -/
def Cluster.performPointsOp (cl : Cluster X) (peer : PeerId) (toc : TableOfContent X)
    (env : ClusterWriteEnv) (name : CollectionName) (points : List (Point V)) (w : Stores) :
    Stores × Option (Except StorageError Bool) :=
  match toc.collections.lookup name with
  | none => (w, some (.error (.badInput s!"Collection '{name}' does not exist")))
  | some collection =>
    match cl.upsertPoints peer name collection env points false w with
    | (w, none) => (w, none)
    | (w, some (.error e)) =>
      (w, some (.error (.serviceError
        s!"Failed to upsert points in collection '{name}': {X.showError e}")))
    | (w, some (.ok _)) => (w, some (.ok true))

/-! ## Reading -/

/-- How the replicas of a shard at a node are read. -/
def replicaGet (X : Crates V) (peer : PeerId) (name : CollectionName) (sled : ShardId → SledReads)
    (w : Stores)
    (remote : ShardId → RemoteShard → Option (List PointId) →
      Option (CollectionResult (List (Point V))))
    (s : ShardId) (replica : Replica) (ids : Option (List PointId)) :
    Option (CollectionResult (List (Point V))) :=
  match replica with
  | .localShard shard => some (shard.getPoints X (sled s) ids (w ⟨peer, name, s⟩))
  | .remoteShard shard => remote s shard ids

/-- In place of remote shards where none is ever asked. -/
def noRemoteGet (_ : ShardId) (_ : RemoteShard) (_ : Option (List PointId)) :
    Option (CollectionResult (List (Point V))) := some (.ok [])

/-- `PointsInternalService::get_points`, at the node `peer`. -/
def PointsInternalService.getPoints (toc : TableOfContent X) (peer : PeerId)
    (remote : ShardId → RemoteShard → Option (List PointId) →
      Option (CollectionResult (List (Point V))))
    (env : ReadEnv) (request : GetPointsRequest) (w : Stores) :
    Option (Except Status GetPointsResponse) :=
  let name := request.collectionName
  match toc.collections.lookup name with
  | none => some (.error ⟨.notFound, s!"Collection '{name}' not found"⟩)
  | some collection =>
    let pointIds := if request.returnAll then none else some (request.ids.map PointId.id)
    match collection.getPoints (replicaGet X peer name env.sled w remote) env.order pointIds
        request.shardId true with
    | none => none
    | some (.error e) =>
      some (.error ⟨.internal,
        s!"Failed to retrieve points from collection '{name}': {X.showError e}"⟩)
    | some (.ok points) => some (.ok ⟨points.filterMap (Point.toGrpc X)⟩)

/-- The call of `get_points` over a channel to the node `peer`. -/
def Cluster.callGet (cl : Cluster X) (env : CallEnv ReadEnv) (peer : PeerId)
    (request : GetPointsRequest) (w : Stores) : Except Status GetPointsResponse :=
  match env.request with
  | some status => .error status
  | none =>
    match cl.node peer with
    | none => .error env.aborted
    | some toc =>
      match PointsInternalService.getPoints toc peer noRemoteGet env.handler request w with
      | none => .error env.aborted
      | some (.error status) => .error status
      | some (.ok response) =>
        match env.reply with
        | some status => .error status
        | none => .ok response

/-- `RemoteShard::get_points`. -/
def RemoteShard.getPoints (self : RemoteShard) (cl : Cluster X) (env : CallEnv ReadEnv)
    (ids : Option (List PointId)) (w : Stores) : Option (CollectionResult (List (Point V))) :=
  let returnAll := ids.isNone
  let ids := (ids.getD []).filterMap fun
    | .id n => some n
    | .uuid _ => none
  match self.currentAddress (cl.channelService self) with
  | .error e => some (.error e)
  | .ok uri =>
    match env.connect uri with
    | .error e => some (.error (.tonicTransportError e))
    | .ok peer =>
      match cl.callGet env peer ⟨self.collection, ids, returnAll, some self.id⟩ w with
      | .error status =>
        some (.error (.serviceError
          s!"Failed to execute operation on remote shard {self.id}: {X.showStatus status}"))
      | .ok response => (decodePoints X response.points).map .ok

/-- How the replicas of a shard are read from a node of the cluster. -/
def Cluster.replicaGet (cl : Cluster X) (peer : PeerId) (name : CollectionName)
    (env : ClusterReadEnv) (w : Stores) :
    ShardId → Replica → Option (List PointId) → Option (CollectionResult (List (Point V))) :=
  Smoldb.replicaGet X peer name env.sled w
    fun s shard ids ↦ shard.getPoints cl (env.remote s shard.peerId) ids w

/-- `Collection::get_points` on a collection of a node. -/
def Cluster.getPoints (cl : Cluster X) (peer : PeerId) (name : CollectionName)
    (collection : Collection X) (env : ClusterReadEnv) (ids : Option (List PointId))
    (shardId : Option ShardId) (localOnly : Bool) (w : Stores) :
    Option (CollectionResult (List (Point V))) :=
  collection.getPoints (cl.replicaGet peer name env w) env.order ids shardId localOnly

/-- `TableOfContent::retrieve_points`. -/
def Cluster.retrievePoints (cl : Cluster X) (peer : PeerId) (toc : TableOfContent X)
    (env : ClusterReadEnv) (name : CollectionName) (ids : Option (List PointId)) (w : Stores) :
    Option (Except StorageError (List (Point V))) :=
  match toc.collections.lookup name with
  | none => some (.error (.badInput s!"Collection '{name}' does not exist"))
  | some collection =>
    match cl.getPoints peer name collection env ids none false w with
    | none => none
    | some (.error e) =>
      some (.error (.serviceError
        s!"Failed to retrieve points from collection '{name}': {X.showError e}"))
    | some (.ok points) => some (.ok points)

end Smoldb
