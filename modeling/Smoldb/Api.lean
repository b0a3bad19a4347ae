import Smoldb.Disk.Restart
import Smoldb.Http

/-!
# The HTTP API of a node

The handlers of `/collections` and below, as far as the node itself is concerned: it has no remote
shards, and its storage works.  What a handler returns goes through `helpers::time`, which makes a
response of it, with the status `200` or `500`.

There is one definition for each handler, from the request as actix has taken it apart to what goes
into the response, with the texts of its errors.  `Result` has what can be in the body of a
response, and the time is left out of it.  The text of an id in a URL, and the ids in a body, are
read by what is in `Http.lean`.

`Http.serve` is one request at a node, and `Http.run` what happens to a node that is asked one thing
after the other and restarted now and then.  It is the machine of `Disk/Node.lean` with requests and
responses in place of operations and answers; what it is for is in `Api/Database.lean`, and that it
does it in `Api/Refinement.lean`.
-/

set_option autoImplicit false

namespace Smoldb

variable {V : Type} {X : Crates V}

/-! ## What is said about a collection -/

/-- `CollectionInfo`. -/
structure CollectionInfo where
  id : CollectionName
  config : CollectionConfig
  shardCount : ℕ
  segmentCount : ℕ
  deriving DecidableEq

/-- `CollectionInfo::from`. -/
def CollectionInfo.ofCollection (collection : Collection X) : CollectionInfo where
  id := collection.id
  config := collection.config
  shardCount := collection.replicaHolder.shards.entries.length
  segmentCount := (collection.replicaHolder.shards.entries.map fun e ↦
    e.2.localShard.segments.entries.length).sum

/-- `CollectionClusterLocalShard`. -/
structure CollectionClusterLocalShard where
  shardId : ShardId
  pointCount : ℕ
  state : String
  deriving DecidableEq

/-- `CollectionClusterRemoteShard`. -/
structure CollectionClusterRemoteShard where
  peerId : PeerId
  shardId : ShardId
  state : String
  deriving DecidableEq

/-- `CollectionClusterInfo`. -/
structure CollectionClusterInfo where
  peerId : PeerId
  shardCount : ℕ
  localShards : List CollectionClusterLocalShard
  remoteShards : List CollectionClusterRemoteShard
  deriving DecidableEq

/-- `CollectionClusterInfo::from`, for a collection of the node `peer`.  The id of that node is not
in it. -/
def CollectionClusterInfo.ofCollection (collection : Collection X) (peer : PeerId)
    (name : CollectionName) (w : Stores) : CollectionClusterInfo where
  peerId := 0
  shardCount := collection.replicaHolder.shards.entries.length
  localShards := collection.replicaHolder.shards.entries.map fun e ↦
    ⟨e.1, e.2.localShard.countPoints (w ⟨peer, name, e.1⟩), "Active"⟩
  remoteShards := collection.replicaHolder.shards.entries.flatMap fun e ↦
    e.2.remotes.map fun remote ↦ ⟨remote.peerId, remote.id, "Active"⟩

/-! ## Responses -/

namespace Http

/-- What a handler returns when it succeeds. -/
inductive Result (V : Type) where
  | collections (names : List CollectionName)
  | collection (info : CollectionInfo)
  | clusterInfo (info : CollectionClusterInfo)
  | deleted (message : String)
  | created (result : Bool)
  | upserted (response : UpsertPointsResponse)
  | point (point : Point V)
  | points (points : List (Point V))

/-- `ApiResponse`, without the time. -/
inductive ApiResponse (T : Type) where
  | success (result : T)
  | error (error : String)

/-- A response, with its status. -/
structure Response (T : Type) where
  status : ℕ
  body : ApiResponse T

/-- `helpers::time`, for a handler that has returned. -/
def time {T : Type} (X : Crates V) : CollectionResult T → Response T
  | .ok r => ⟨200, .success r⟩
  | .error e => ⟨500, .error (X.showError e)⟩

/-! ## The handlers -/

/-- `get_collections`. -/
def getCollections (toc : TableOfContent X) : CollectionResult (List CollectionName) :=
  .ok toc.collections.keys

/-- `get_collection`. -/
def getCollection (toc : TableOfContent X) (name : CollectionName) :
    CollectionResult CollectionInfo :=
  match toc.collections.lookup name with
  | some collection => .ok (.ofCollection collection)
  | none => .error (.serviceError s!"Collection: {name} doesn't exist")

/-- `get_collection_cluster_info`. -/
def getCollectionClusterInfo (toc : TableOfContent X) (peer : PeerId) (name : CollectionName)
    (w : Stores) : CollectionResult CollectionClusterInfo :=
  match toc.collections.lookup name with
  | some collection => .ok (.ofCollection collection peer name w)
  | none => .error (.serviceError s!"Collection: {name} doesn't exist")

/-- What `delete_collection` makes of the result of the operation. -/
def deleteCollection (name : CollectionName) : Except StorageError Bool → CollectionResult String
  | .ok _ => .ok s!"Collection '{name}' deleted successfully."
  | .error e => .error (.storageError e)

/-- What `create_collection` makes of the result of the operation. -/
def createCollection : Except StorageError Bool → CollectionResult Bool
  | .ok res => .ok res
  | .error e => .error (.storageError e)

/-- What `upsert_points` makes of the result of the operation. -/
def upsertedPoints (points : List (Point V)) :
    Except StorageError Bool → CollectionResult UpsertPointsResponse
  | .ok _ => .ok ⟨points.length⟩
  | .error e => .error (.storageError e)

/-- What `get_point` makes of the points that are retrieved for its id. -/
def foundPoint (name : CollectionName) (id : String) :
    Except StorageError (List (Point V)) → CollectionResult (Point V)
  | .ok [] => .error (.serviceError s!"Point with id '{id}' not found in collection '{name}'")
  | .ok (p :: _) => .ok p
  | .error e => .error (.serviceError
      s!"Error retrieving point with id '{id}' in collection '{name}': {e}")

/-- What `list_points` makes of the points that are retrieved. -/
def listedPoints (name : CollectionName) :
    Except StorageError (List (Point V)) → CollectionResult (List (Point V))
  | .ok [] => .error (.serviceError s!"No points found in collection '{name}'")
  | .ok (p :: ps) => .ok (p :: ps)
  | .error e => .error (.serviceError s!"Error listing points in collection '{name}': {e}")

/-- In a cluster, `upsert_points` and `get_point` are made of the same parts. -/
theorem upsertPoints_eq (cl : Cluster X) (peer : PeerId) (toc : TableOfContent X)
    (env : ClusterWriteEnv) (name : CollectionName) (points : List (Point V)) (w : Stores) :
    upsertPoints cl peer toc env name points w
      = ((cl.performPointsOp peer toc env name points w).1,
          (cl.performPointsOp peer toc env name points w).2.map (upsertedPoints points)) := by
  rw [upsertPoints]
  rcases cl.performPointsOp peer toc env name points w with ⟨w', _ | e | b⟩ <;> rfl

@[inherit_doc upsertPoints_eq]
theorem getPoint_eq (cl : Cluster X) (peer : PeerId) (toc : TableOfContent X)
    (env : ClusterReadEnv) (name : CollectionName) (id : String) (w : Stores) :
    getPoint cl peer toc env name id w
      = (cl.retrievePoints peer toc env name (some [PointId.ofPath id]) w).map
          (foundPoint name id) := by
  rw [getPoint]
  rcases cl.retrievePoints peer toc env name (some [PointId.ofPath id]) w with
    _ | e | _ | ⟨p, ps⟩ <;>
    rfl

end Http

/-! ## Requests to a node -/

/-- `TableOfContent::retrieve_points` at a node without remote shards. -/
def Node.retrievePoints (peer : PeerId) (order : IterOrder (ShardId × List PointId))
    (name : CollectionName) (ids : Option (List PointId)) (node : Node X) :
    Option (Except StorageError (List (Point V))) :=
  match node.memory.toc.collections.lookup name with
  | none => some (.error (.badInput s!"Collection '{name}' does not exist"))
  | some collection =>
    match node.getPoints peer name collection order ids none false with
    | none => none
    | some (.error e) =>
      some (.error (.serviceError
        s!"Failed to retrieve points from collection '{name}': {X.showError e}"))
    | some (.ok points) => some (.ok points)

namespace Http

/-- A request, as the handlers take it. -/
inductive Request (V : Type) where
  | getCollections
  | getCollection (collectionName : CollectionName)
  | getCollectionClusterInfo (collectionName : CollectionName)
  | deleteCollection (collectionName : CollectionName)
  | createCollection (collectionName params : String)
  | upsertPoints (collectionName : CollectionName) (points : List (Point V))
  | getPoint (collectionName : CollectionName) (id : String)
  | listPoints (collectionName : CollectionName)

/-- The orders in which directories and hash maps are iterated while a request is served. -/
structure Env where
  listing : Path → IterOrder String
  shards : IterOrder (Σ _ : ShardId, ReplicaSet)
  groups : IterOrder (ShardId × List PointId)

/-- Everything is iterated in the order in which it has been filled. -/
def Env.insertion : Env := ⟨fun _ ↦ .insertion, .insertion, .insertion⟩

/-- The collection a request is about, if it is about one. -/
def Request.name : Request V → Option CollectionName
  | getCollections => none
  | getCollection name | getCollectionClusterInfo name | deleteCollection name
  | createCollection name _ | upsertPoints name _ | getPoint name _ | listPoints name => some name

/-- The handler of a request, at a node.  A panic is no result. -/
def handle (J : ConfigJson) (peer : PeerId) (env : Env) (node : Node X) :
    Request V → Node X × Option (CollectionResult (Result V))
  | .getCollections =>
    (node, some ((getCollections node.memory.toc).map .collections))
  | .getCollection name =>
    (node, some ((getCollection node.memory.toc name).map .collection))
  | .getCollectionClusterInfo name =>
    (node, some ((getCollectionClusterInfo node.memory.toc peer name node.memory.stores).map
      .clusterInfo))
  | .deleteCollection name =>
    let (node, result) :=
      node.performCollectionMetaOp J peer env.listing env.shards (.deleteCollection name)
    (node, result.map fun r ↦ (deleteCollection name r).map .deleted)
  | .createCollection name params =>
    let (node, result) :=
      node.performCollectionMetaOp J peer env.listing env.shards (.createCollection name params)
    (node, result.map fun r ↦ (createCollection r).map .created)
  | .upsertPoints name points =>
    let (node, result) := node.performPointsOp peer env.groups name points
    (node, result.map fun r ↦ (upsertedPoints points r).map .upserted)
  | .getPoint name id =>
    (node, (node.retrievePoints peer env.groups name (some [PointId.ofPath id])).map fun r ↦
      (foundPoint name id r).map .point)
  | .listPoints name =>
    (node, (node.retrievePoints peer env.groups name none).map fun r ↦
      (listedPoints name r).map .points)

/-- A request at a node, and the response to it.  If a handler panics, there is none. -/
def serve (J : ConfigJson) (peer : PeerId) (env : Env) (request : Request V) (node : Node X) :
    Node X × Option (Response (Result V)) :=
  ((handle J peer env node request).1, (handle J peer env node request).2.map (time X))

/-- Something that happens to a node. -/
inductive Event (V : Type) where
  | request (env : Env) (request : Request V)
  | restart (env : LoadEnv)

/-- One event, and the response if it is a request.  A start that panics is a missing response,
too. -/
def step (J : ConfigJson) (peer : PeerId) (event : Event V) (node : Node X) :
    Node X × List (Option (Response (Result V))) :=
  match event with
  | .request env r => ((serve J peer env r node).1, [(serve J peer env r node).2])
  | .restart env =>
    let (node, panics) := Node.start J peer env node.disk
    (node, panics.map fun _ ↦ none)

/-- One event after the other. -/
def run (J : ConfigJson) (peer : PeerId) :
    List (Event V) → Node X → Node X × List (Option (Response (Result V)))
  | [], node => (node, [])
  | event :: events, node =>
    ((run J peer events (step J peer event node).1).1,
      (step J peer event node).2 ++ (run J peer events (step J peer event node).1).2)

/-- The requests of a run. -/
def requests (events : List (Event V)) : List (Request V) :=
  events.filterMap fun
    | .request _ r => some r
    | .restart _ => none

end Http

end Smoldb
