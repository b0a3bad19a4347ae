import Smoldb.Disk.Files
import Smoldb.Cluster
import Smoldb.Lib.Decimal

/-!
# Collections on disk

The functions that make, delete and load collections, files included.  `Collection.initOnDisk` and
`LocalShard.initOnDisk` are `init` with its files; `Segment`, `LocalShard`, `Collection` and
`TableOfContent` each have their `load`.  They are programs of calls to the disk
(`Disk/Files.lean`), call by call as in the source, with its texts of errors and with `panic` where
it calls `expect`.

* A collection is a directory with a file `config.json` and a directory for each shard, named by the
  id of the shard; a shard has a directory `segments`, and in it one for each segment, which sled
  opens.
* A create looks whether the directory is there, makes it, writes the config and makes the shards.
  It does not undo any of this when a later call fails.
* A load takes every directory with a config for a collection, and in it every entry but the config
  for a shard.  What is missing below a shard it makes.

Opening a segment yields a sled tree, and since the trees are not part of the values (see
`Smoldb.Storage.Replicas`) these functions return the trees they opened next to what they made.
`Memory` has both for a whole node: it is what a restart loses.

`ConfigJson` has what serde_json does with a config.  What is left open is in which order the hash
maps are iterated that are filled on the way: `LoadEnv`.
-/

set_option autoImplicit false

namespace Smoldb

variable {V : Type} {X : Crates V} {ε : Type}

/-- What the code takes from `serde_json` for the config of a collection. -/
structure ConfigJson where
  /-- `serde_json::to_vec`. -/
  toVec : CollectionConfig → Except String String
  /-- `serde_json::from_reader`. -/
  fromReader : String → Except String CollectionConfig
  fromReader_toVec : ∀ c, ∃ s, toVec c = .ok s ∧ fromReader s = .ok c

namespace ConfigJson

/-- What stands before the params. -/
def opening : List Char := "\x7b\"params\":\"".toList

/-- What stands behind the params. -/
def closing : List Char := "\"\x7d".toList

/-- A config in JSON. -/
def configText (c : CollectionConfig) : String :=
  String.ofList (opening ++ (c.params.toList ++ closing))

/-- Read a config. -/
def readConfig (text : String) : Except String CollectionConfig :=
  match (text.toList.dropPrefix? opening).bind (·.dropSuffix? closing) with
  | some params => .ok ⟨String.ofList params⟩
  | none => .error "invalid config"

theorem readConfig_configText (c : CollectionConfig) : readConfig (configText c) = .ok c := by
  have hprefix : (configText c).toList.dropPrefix? opening = some (c.params.toList ++ closing) := by
    rw [configText, String.toList_ofList]
    exact List.dropPrefix?_append_of_beq _ (beq_self_eq_true opening)
  have hsuffix : (c.params.toList ++ closing).dropSuffix? closing = some c.params.toList :=
    List.dropSuffix?_eq_some_iff.mpr ⟨closing, rfl, beq_self_eq_true _⟩
  rw [readConfig, hprefix, Option.bind_some, hsuffix]
  simp only [String.ofList_toList]

/-- Configs the way `serde_json` writes them, as long as the params need no escapes. -/
def plain : ConfigJson where
  toVec c := .ok (configText c)
  fromReader := readConfig
  fromReader_toVec c := ⟨_, rfl, readConfig_configText c⟩

end ConfigJson

/-- The orders in which directories and hash maps are iterated while a node is loaded. -/
structure LoadEnv where
  listing : Path → IterOrder String
  segmentPaths : Path → IterOrder (Σ _ : SegmentId, Path)
  shards : CollectionName → IterOrder (Σ _ : ShardId, ReplicaSet)

/-- Directories and hash maps are iterated in the order in which they have been filled. -/
def LoadEnv.insertion : LoadEnv := ⟨fun _ ↦ .insertion, fun _ ↦ .insertion, fun _ ↦ .insertion⟩

/-- Directories and hash maps are iterated against the order in which they have been filled. -/
def LoadEnv.reversed : LoadEnv := ⟨fun _ ↦ .reversed, fun _ ↦ .reversed, fun _ ↦ .reversed⟩

/-! ## Segments -/

/-- `Segment::create`. -/
def Segment.create (segmentsDir : Path) : Fs StorageError (Segment × Db) := do
  let path := segmentsDir ++ ["0"]
  (Fs.createDirAll path).expect "Failed to create segment directory"
  let db ← (Fs.openTree path).mapError fun e ↦
    .serviceError s!"Failed to open segment database: {e}"
  return (⟨path⟩, db)

/-- `Segment::load`. -/
def Segment.load (path : Path) : Fs StorageError (Segment × Db) := do
  if !(← Fs.pathExists path) then
    Program.error (.serviceError s!"Segment path does not exist: {path.display.quote}")
  let db ← (Fs.openTree path).expect "Failed to open segment database"
  return (⟨path⟩, db)

/-! ## Shards -/

/-- `LocalShard::init`, files included. -/
def LocalShard.initOnDisk (path : Path) (id : ShardId) : Fs ε (LocalShard × ShardStore) := do
  let segmentsDir := path ++ ["segments"]
  (Fs.createDirAll segmentsDir).expect "Failed to create segments directory"
  let (segment0, db) ← (Segment.create segmentsDir).expect "Failed to create initial segment"
  return (⟨id, path, [⟨0, segment0⟩].toAList⟩, Function.update (fun _ ↦ ∅) 0 db)

/-- The paths of the segments of a shard: the entries of its directory that are numbers. -/
def LocalShard.segmentPaths (segmentsDir : Path) (entries : List (Except String String)) :
    HashMap SegmentId Path :=
  entries.foldl (fun m entry ↦
    match entry.toOption.bind fun name ↦ (Decimal.parse 64 name).map fun n ↦ (n, name) with
    | some (n, name) => m.insert (UInt64.ofNat n) (segmentsDir ++ [name])
    | none => m) ∅

/-- The shard id a directory is named after. -/
def LocalShard.idOfPath (path : Path) : Except StorageError ShardId :=
  match path.fileName.bind (Decimal.parse 32) with
  | some n => .ok (UInt32.ofNat n)
  | none => .error (.serviceError "Couldn't parse shard id from shard directory")

/-- One round of the loop of `LocalShard::load`. -/
def LocalShard.loadSegment (loaded : HashMap SegmentId Segment × ShardStore)
    (entry : Σ _ : SegmentId, Path) : Fs StorageError (HashMap SegmentId Segment × ShardStore) := do
  let (segment, db) ← Segment.load entry.2
  return (loaded.1.insert entry.1 segment, Function.update loaded.2 entry.1 db)

/-- `LocalShard::load`. -/
def LocalShard.load (env : LoadEnv) (path : Path) : Fs StorageError (LocalShard × ShardStore) := do
  let segmentsDir := path ++ ["segments"]
  (Fs.createDirAll segmentsDir).expect "Failed to create segments directory"
  let entries ← (Fs.readDir segmentsDir).expect "Failed to read segments directory"
  let id ← Program.ofExcept (LocalShard.idOfPath path)
  let segmentPaths := (LocalShard.segmentPaths segmentsDir entries).arrangedBy
      (env.segmentPaths path)
  let (segments, store) ←
    segmentPaths.entries.foldlM LocalShard.loadSegment (∅, fun _ ↦ ∅)
  return (⟨id, path, segments⟩, store)

/-! ## Collections -/

/-- The capacity of a `BufWriter`. -/
def bufferCapacity : ℕ := 8192

/-- `CollectionConfig::save`.  A config that fits the buffer is only written when the writer is
dropped, where errors are ignored. -/
def CollectionConfig.save (J : ConfigJson) (self : CollectionConfig) (collectionDir : Path) :
    Fs StorageError Unit := do
  let configPath := collectionDir ++ ["config.json"]
  let bytes ← (Program.ofExcept (J.toVec self)).mapError fun e ↦
    .badInput s!"Failed to serialize collection config to JSON: {e}"
  (Fs.createFile configPath).mapError fun e ↦
    .serviceError s!"Failed to create collection config file: {e}"
  if bytes.utf8ByteSize < bufferCapacity then
    let _ ← (Fs.writeFile configPath bytes).attempt
  else
    (Fs.writeFile configPath bytes).mapError fun e ↦
      .serviceError s!"Failed to write collection config: {e}"

/-- The trees of a collection. -/
abbrev Trees := ShardId → ShardStore

/-- `Collection::init`, files included. -/
def Collection.initOnDisk (J : ConfigJson) (id : CollectionName) (config : CollectionConfig)
    (path : Path) (order : IterOrder (Σ _ : ShardId, ReplicaSet)) :
    Fs StorageError (Collection X × Trees) := do
  config.save J path
  let (s0, trees0) ← LocalShard.initOnDisk (path ++ ["0"]) 0
  let (s1, trees1) ← LocalShard.initOnDisk (path ++ ["1"]) 1
  let shards : HashMap ShardId ReplicaSet := [⟨0, .new s0 [] id⟩, ⟨1, .new s1 [] id⟩].toAList
  return (⟨id, config, .new (shards.arrangedBy order), path⟩,
    Function.update (Function.update (fun _ _ ↦ ∅) 0 trees0) 1 trees1)

/-- `Collection::delete`. -/
def Collection.delete (self : Collection X) : Fs StorageError Unit := do
  if ← Fs.pathExists self.path then
    (Fs.removeDirAll self.path).mapError fun e ↦ .serviceError s!"Failed to delete collection: {e}"
  else
    Program.error (.badInput "Collection directory does not exist")

/-- One round of the loop of `Collection::load`. -/
def Collection.loadShard (env : LoadEnv) (id : CollectionName) (path : Path)
    (loaded : HashMap ShardId ReplicaSet × Trees) (entry : Except String String) :
    Fs StorageError (HashMap ShardId ReplicaSet × Trees) := do
  let name ← (Program.ofExcept entry).expect "Can't read directory entry"
  if ← Fs.isDir (path ++ [name]) then
    let (shard, store) ← LocalShard.load env (path ++ [name])
    return (loaded.1.insert shard.id (.new shard [] id), Function.update loaded.2 shard.id store)
  else
    return loaded

/-- `Collection::load`. -/
def Collection.load (J : ConfigJson) (env : LoadEnv) (id : CollectionName) (path : Path) :
    Fs StorageError (Collection X × Trees) := do
  let configPath := path ++ ["config.json"]
  if !(← Fs.pathExists configPath) then
    Program.error (.badInput
      s!"Collection config file does not exist at path: {configPath.display}")
  (Fs.openFile configPath).mapError fun e ↦
    .serviceError s!"Failed to open collection config file: {e}"
  let config ← (do Program.ofExcept (J.fromReader (← Fs.readFile configPath))).mapError fun e ↦
    .badInput s!"Failed to parse collection config JSON: {e}"
  let dirContents ← (Fs.readDir path).mapError fun e ↦
    .serviceError s!"Failed to read collection directory: {e}"
  let (replicas, trees) ←
    dirContents.foldlM (Collection.loadShard env id path) (∅, fun _ _ ↦ ∅)
  return (⟨id, config, .new (replicas.arrangedBy (env.shards id)), path⟩, trees)

/-! ## The table of contents -/

/-- `CollectionMetaOperation`. -/
inductive CollectionMetaOperation where
  | createCollection (collectionName params : String)
  | deleteCollection (collectionName : String)
  deriving DecidableEq

/-- The collection an operation is about. -/
def CollectionMetaOperation.collectionName : CollectionMetaOperation → CollectionName
  | createCollection collectionName _ => collectionName
  | deleteCollection collectionName => collectionName

/-- The collections of a node, and the trees it has open. -/
structure Memory {V : Type} (X : Crates V) where
  toc : TableOfContent X
  stores : Stores

/-- A collection in the table of contents, with the trees opened for it. -/
def Memory.insert (self : Memory X) (peer : PeerId) (name : CollectionName)
    (collection : Collection X) (trees : Trees) : Memory X where
  toc := ⟨self.toc.collections.insert name collection⟩
  stores pl := if pl.peer = peer ∧ pl.collection = name then trees pl.shard else self.stores pl

namespace TableOfContent

/-- The directory of all collections. -/
def collectionsPath : Path := ["storage", "collections"]

/-- One round of the loop of `TableOfContent::load`. -/
def loadCollection (J : ConfigJson) (env : LoadEnv) (peer : PeerId) (loaded : Memory X)
    (entry : Except String String) : Fs ε (Memory X) := do
  let name ← (Program.ofExcept entry).expect "Can't read directory entry"
  let path := collectionsPath ++ [name]
  if ← Fs.pathExists (path ++ ["config.json"]) then
    let (collection, trees) ←
      (Collection.load J env name path).expect "Failed to load collection from path"
    return loaded.insert peer collection.id collection trees
  else
    return loaded

/-- `TableOfContent::load`. -/
def load (J : ConfigJson) (env : LoadEnv) (peer : PeerId) : Fs ε (Memory X) := do
  (Fs.createDirAll collectionsPath).expect "Failed to create collections directory"
  let collectionPaths ← (Fs.readDir collectionsPath).expect "Failed to read collections directory"
  collectionPaths.foldlM (loadCollection J env peer) ⟨⟨∅⟩, Stores.empty⟩

/-- `TableOfContent::mkdir_collection_dir`. -/
def mkdirCollectionDir (collectionName : CollectionName) : Fs StorageError Path := do
  let path := collectionsPath.join collectionName
  if ← Fs.pathExists path then
    Program.error (.badInput s!"Collection path already exists: {path.display}")
  (Fs.createDirAll path).mapError fun e ↦
    .serviceError s!"Can't create directory for collection: {e}"
  return path

/-- `TableOfContent::perform_collection_meta_op`. -/
def performCollectionMetaOp (J : ConfigJson) (peer : PeerId)
    (order : IterOrder (Σ _ : ShardId, ReplicaSet)) (operation : CollectionMetaOperation)
    (memory : Memory X) : Fs ε (Memory X × Except StorageError Bool) :=
  match operation with
  | .createCollection collectionName params => do
    let made ← (do
      let path ← mkdirCollectionDir collectionName
      Collection.initOnDisk J collectionName ⟨params⟩ path order).attempt
    match made with
    | .error e => return (memory, .error e)
    | .ok (collection, trees) =>
      if collectionName ∈ memory.toc.collections then
        return (memory,
          .error (.badInput s!"Collection with name '{collectionName}' already exists"))
      else
        return (memory.insert peer collectionName collection trees, .ok true)
  | .deleteCollection collectionName =>
    match memory.toc.collections.lookup collectionName with
    | none =>
      return (memory,
        .error (.badInput s!"Collection with name '{collectionName}' does not exist"))
    | some collection => do
      -- the collection leaves the map whether or not its directory can be removed
      let memory := { memory with toc := ⟨memory.toc.collections.erase collectionName⟩ }
      match ← collection.delete.attempt with
      | .error e => return (memory, .error e)
      | .ok _ => return (memory, .ok true)

end TableOfContent

end Smoldb
