import Smoldb.Disk.Load
import Smoldb.Cluster.Placement

/-!
# A node and its disk

`Node` is what a node has in memory together with what is on its disk, and `Node.run` is what
happens to it: collections are made and deleted, points are upserted, and now and then the node is
stopped and started again.  A write to a segment ends with a flush, so it is on disk when the upsert
returns.

What the node is for is said by `Catalog.perform`, which knows nothing of shards that are opened, of
directories, or of restarts: there is a collection of a name or there is none, and an upsert writes
into the trees of its shards.  `Node.Represents` ties the two together, and is the invariant of a
run:

* every name in the catalog is one that a file can have, and there is nothing in shards other than
  the two of a collection;
* every point in a tree is in its own shard, under its own key;
* the disk holds the catalog (`Holds`, in `Disk/Layout.lean`);
* and so does memory, with every collection as it is opened (`Memory.OpensAll`).

A restart forgets the memory and loads the disk, so it is the last two that it goes from and to.

This file has the machine and what is needed of a collection that has been opened: which shards it
has, that nothing is remote, and that an upsert writes through to the disk what it writes in memory.
That each event keeps `Node.Represents` is in `Disk/Events.lean`.
-/

set_option autoImplicit false

namespace Smoldb

open LastWrite

open FileTree (View)

variable {V : Type} {X : Crates V}

/-! ## The node -/

/-- A node: what it has in memory, and what is on its disk. -/
structure Node {V : Type} (X : Crates V) where
  memory : Memory X
  disk : Disk

/-- What an operation returns.  A panic is the missing result. -/
abbrev Answer := Option (Except StorageError Bool)

/-- How the shards of a node are written to when nothing fails: the points go into the tree of the
segment, and then the tree is flushed. -/
def replicaUpsertOnDisk (X : Crates V) (peer : PeerId) (name : CollectionName) (s : ShardId)
    (replica : Replica) (points : List (Point V)) (state : Stores × Disk) :
    (Stores × Disk) × CollectionResult Unit :=
  let (w, result) := replicaUpsert X peer name (fun _ ↦ .clean) noRemote s replica points state.1
  match replica with
  | .localShard shard =>
    match shard.segments.lookup 0 with
    | some segment => ((w, state.2.flush segment.path (w ⟨peer, name, s⟩ 0)), result)
    | none => ((w, state.2), result)
  | .remoteShard _ => ((w, state.2), result)

namespace Node

/-- `TableOfContent::perform_collection_meta_op` at a node. -/
def performCollectionMetaOp (J : ConfigJson) (peer : PeerId) (listing : Path → IterOrder String)
    (order : IterOrder (Σ _ : ShardId, ReplicaSet)) (operation : CollectionMetaOperation)
    (node : Node X) : Node X × Answer :=
  match Fs.exec listing
      (TableOfContent.performCollectionMetaOp J peer order operation node.memory : Fs Empty _)
      node.disk with
  | (d, .ok (memory, result)) => (⟨memory, d⟩, some result)
  | (d, .error e) => (⟨node.memory, d⟩, e.elim)
  | (d, .panicked _) => (⟨node.memory, d⟩, none)

/-- `TableOfContent::perform_points_op` at a node without remote shards. -/
def performPointsOp (peer : PeerId) (order : IterOrder (ShardId × List PointId))
    (name : CollectionName) (points : List (Point V)) (node : Node X) : Node X × Answer :=
  match node.memory.toc.collections.lookup name with
  | none => (node, some (.error (.badInput s!"Collection '{name}' does not exist")))
  | some collection =>
    match collection.upsertPoints (replicaUpsertOnDisk X peer name) order points false
        (node.memory.stores, node.disk) with
    | ((w, d), none) => (⟨⟨node.memory.toc, w⟩, d⟩, none)
    | ((w, d), some (.error e)) =>
      (⟨⟨node.memory.toc, w⟩, d⟩, some (.error (.serviceError
        s!"Failed to upsert points in collection '{name}': {X.showError e}")))
    | ((w, d), some (.ok _)) => (⟨⟨node.memory.toc, w⟩, d⟩, some (.ok true))

/-- The node is started: `TableOfContent::load` on what is on its disk.  A panic leaves it down. -/
def start (J : ConfigJson) (peer : PeerId) (env : LoadEnv) (d : Disk) : Node X × List Answer :=
  match Fs.exec env.listing (TableOfContent.load J env peer : Fs Empty _) d with
  | (d, .ok memory) => (⟨memory, d⟩, [])
  | (d, .error e) => (⟨⟨⟨∅⟩, .empty⟩, d⟩, e.elim)
  | (d, .panicked _) => (⟨⟨⟨∅⟩, .empty⟩, d⟩, [none])

/-- Something that happens to a node, with the orders in which directories and hash maps are
iterated on the way. -/
inductive Event (V : Type) where
  | metaOp (listing : Path → IterOrder String) (order : IterOrder (Σ _ : ShardId, ReplicaSet))
      (operation : CollectionMetaOperation)
  | upsert (order : IterOrder (ShardId × List PointId)) (name : CollectionName)
      (points : List (Point V))
  | restart (env : LoadEnv)

/-- One event, and what is returned to the caller if there is one. -/
def step (J : ConfigJson) (peer : PeerId) : Event V → Node X → Node X × List Answer
  | .metaOp listing order operation, node =>
    ((node.performCollectionMetaOp J peer listing order operation).1,
      [(node.performCollectionMetaOp J peer listing order operation).2])
  | .upsert order name points, node =>
    ((node.performPointsOp peer order name points).1,
      [(node.performPointsOp peer order name points).2])
  | .restart env, node => start J peer env node.disk

/-- One event after the other. -/
def run (J : ConfigJson) (peer : PeerId) : List (Event V) → Node X → Node X × List Answer
  | [], node => (node, [])
  | e :: es, node =>
    ((run J peer es (step J peer e node).1).1,
      (step J peer e node).2 ++ (run J peer es (step J peer e node).1).2)

end Node

/-! ## The catalog -/

/-- The shard of an id, for a ring with the shards `0` and `1`. -/
def homeShard (X : Crates V) (id : PointId) : ShardId :=
  ((HashRing.ofList X.hashShard [0, 1]).get (X.hashPoint id)).getD 0

/-- What a caller asks of a node. -/
inductive Request (V : Type) where
  | metaOp (operation : CollectionMetaOperation)
  | upsert (name : CollectionName) (points : List (Point V))

namespace Request

/-- The collection a request is about. -/
def name : Request V → CollectionName
  | metaOp (.createCollection name _) => name
  | metaOp (.deleteCollection name) => name
  | upsert name _ => name

/-- The points a request has. -/
def points : Request V → List (Point V)
  | metaOp _ => []
  | upsert _ points => points

end Request

/-- The request an event is, if it is one. -/
def Node.Event.request : Node.Event V → Option (Request V)
  | .metaOp _ _ operation => some (.metaOp operation)
  | .upsert _ name points => some (.upsert name points)
  | .restart _ => none

namespace CatalogEntry

/-- Points are written to one shard. -/
def write (X : Crates V) (points : List (Point V)) (s : ShardId) (e : CatalogEntry) :
    CatalogEntry :=
  { e with trees := Function.update e.trees s (Segment.putAll X points (e.trees s)) }

/-- A batch is written to some of the shards. -/
def upsertTo (X : Crates V) (points : List (Point V)) (shards : List ShardId) (e : CatalogEntry) :
    CatalogEntry where
  config := e.config
  trees s :=
    if s ∈ shards then Segment.putAll X (shardPoints (homeShard X) points s) (e.trees s)
    else e.trees s

/-- A batch is written, each point to its shard. -/
def upsert (X : Crates V) (points : List (Point V)) (e : CatalogEntry) : CatalogEntry where
  config := e.config
  trees s := Segment.putAll X (shardPoints (homeShard X) points s) (e.trees s)

/-- Everything stored is a point, under the text of its id and in the shard of its id. -/
def Placed (X : Crates V) (e : CatalogEntry) : Prop :=
  ∀ s k v, (e.trees s)[k]? = some v →
    ∃ p : Point V, v = X.encode p ∧ Segment.keyOf p = k ∧ homeShard X p.id = s

@[simp] theorem upsertTo_nil (X : Crates V) (points : List (Point V)) (e : CatalogEntry) :
    e.upsertTo X points [] = e := by
  simp [upsertTo]

theorem write_upsertTo (X : Crates V) (points : List (Point V)) {shards : List ShardId}
    {s : ShardId} (hs : s ∉ shards) (e : CatalogEntry) :
    (e.upsertTo X points shards).write X (shardPoints (homeShard X) points s) s
      = e.upsertTo X points (shards ++ [s]) := by
  rw [write, upsertTo, upsertTo, mk.injEq]
  refine ⟨rfl, ?_⟩
  funext t
  by_cases ht : t = s
  · subst ht
    simp [hs]
  · simp [ht]

/-- The shards that a batch has no points for do not count. -/
theorem upsertTo_eq_upsert {points : List (Point V)} {shards : List ShardId}
    (h : ∀ s, s ∉ shards → shardPoints (homeShard X) points s = []) (e : CatalogEntry) :
    e.upsertTo X points shards = e.upsert X points := by
  rw [upsertTo, upsert, mk.injEq]
  refine ⟨rfl, ?_⟩
  funext s
  split
  · rfl
  · rename_i hs
    rw [h s hs, Segment.putAll_nil]

theorem Placed.write {e : CatalogEntry} (h : e.Placed X) {points : List (Point V)} {s : ShardId}
    (hpoints : ∀ p ∈ points, homeShard X p.id = s) : (e.write X points s).Placed X := by
  intro t k v hv
  rw [CatalogEntry.write] at hv
  by_cases ht : t = s
  · subst ht
    simp only [Function.update_self, Segment.getElem?_putAll] at hv
    cases hl : last Segment.keyOf points k with
    | none =>
      rw [hl, Option.map_none, Option.none_or] at hv
      exact h t k v hv
    | some p =>
      rw [hl, Option.map_some, Option.some_or, Option.some_inj] at hv
      exact ⟨p, hv.symm, key_of_last hl, hpoints p (mem_of_last hl)⟩
  · simp only [Function.update_of_ne ht] at hv
    exact h t k v hv

end CatalogEntry

/-- What a request does to the catalog, and what it returns. -/
def Catalog.perform (X : Crates V) (cat : Catalog) : Request V → Catalog × Except StorageError Bool
  | .metaOp (.createCollection name params) =>
    match cat name with
    | some _ => (cat, .error (.badInput
        s!"Collection path already exists: {(collectionDir name).display}"))
    | none => (Function.update cat name (some ⟨⟨params⟩, fun _ ↦ ∅⟩), .ok true)
  | .metaOp (.deleteCollection name) =>
    match cat name with
    | some _ => (Function.update cat name none, .ok true)
    | none => (cat, .error (.badInput s!"Collection with name '{name}' does not exist"))
  | .upsert name points =>
    match cat name with
    | some e => (Function.update cat name (some (e.upsert X points)), .ok true)
    | none => (cat, .error (.badInput s!"Collection '{name}' does not exist"))

/-- One request after the other. -/
def Catalog.run (X : Crates V) (requests : List (Request V)) (cat : Catalog) : Catalog :=
  requests.foldl (fun cat r ↦ (cat.perform X r).1) cat

/-- What the requests return. -/
def Catalog.answers (X : Crates V) : List (Request V) → Catalog → List Answer
  | [], _ => []
  | r :: rs, cat => some (cat.perform X r).2 :: answers X rs (cat.perform X r).1

/-- A node has the collections of a catalog, in memory and on disk. -/
structure Node.Represents (J : ConfigJson) (peer : PeerId) (node : Node X) (cat : Catalog) :
    Prop where
  proper : cat.Proper
  placed : ∀ name e, cat name = some e → e.Placed X
  disk : Holds J cat node.disk
  memory : node.memory.OpensAll peer cat

/-! ## Collections that have been opened -/

namespace Collection.Opened

variable {c : Collection X} {name : CollectionName} {config : CollectionConfig}
  (h : c.Opened name config)

include h

theorem mem_iff {s : ShardId} : s ∈ c.replicaHolder.shards ↔ s = 0 ∨ s = 1 := by
  rw [← AList.lookup_isSome, h.shards]
  split <;> simp_all

theorem eq_openedShard {s : ShardId} {rs : ReplicaSet}
    (hrs : c.replicaHolder.shards.lookup s = some rs) :
    (s = 0 ∨ s = 1) ∧ rs = openedShard name s := by
  rw [h.shards] at hrs
  split at hrs
  · rename_i hs
    exact ⟨hs, (Option.some.inj hrs).symm⟩
  · exact nomatch hrs

theorem remotes_eq_nil (s : ShardId) (rs : ReplicaSet)
    (hrs : c.replicaHolder.shards.lookup s = some rs) : rs.remotes = [] := by
  rw [(h.eq_openedShard hrs).2]
  rfl

theorem wellFormed : c.WellFormed where
  segment s rs hrs := by
    rw [(h.eq_openedShard hrs).2]
    exact LocalShard.zero_mem_init _ _
  remote s rs hrs r hr := by
    rw [h.remotes_eq_nil s rs hrs] at hr
    exact absurd hr List.not_mem_nil

/-- **The ring is the same however the collection was opened.** -/
theorem shardOf_eq : c.shardOf = homeShard X := by
  funext id
  have hkeys : c.replicaHolder.shards.keys.Perm [0, 1] := by
    rw [List.perm_ext_iff_of_nodup c.replicaHolder.shards.keys_nodup (by decide)]
    intro s
    rw [← AList.mem_keys, h.mem_iff]
    simp
  rw [Collection.shardOf, ReplicaHolder.shardOf, ReplicaHolder.route, c.replicaHolder.ringed,
    HashRing.ofList_perm X.hashShard_injective hkeys, homeShard]

end Collection.Opened

theorem homeShard_eq (X : Crates V) (id : PointId) : homeShard X id = 0 ∨ homeShard X id = 1 := by
  have h := Collection.init_opened (X := X) "" ⟨""⟩ .insertion
  have h0 : 0 ∈ (Collection.init (X := X) "" ⟨""⟩ (collectionDir "")
      .insertion).replicaHolder.shards :=
    h.mem_iff.mpr (Or.inl rfl)
  have hmem := ReplicaHolder.mem_of_route (ReplicaHolder.route_eq h0 id)
  have hshard := congrFun h.shardOf_eq id
  rw [Collection.shardOf] at hshard
  rwa [hshard, h.mem_iff] at hmem

/-! ## Writing through to the disk -/

theorem replicaUpsertOnDisk_oblivious (peer : PeerId) (name : CollectionName) :
    Collection.Oblivious (replicaUpsertOnDisk X peer name) := by
  intro s r points state state'
  obtain ⟨log, result, hW, -⟩ := exists_writes_noRemote (X := X) peer name fun _ ↦ .clean
  have h : ∀ state, (replicaUpsertOnDisk X peer name s r points state).2 = result s r points := by
    intro state
    rw [replicaUpsertOnDisk, hW s r points state.1]
    cases r with
    | localShard shard =>
      simp only
      split <;> rfl
    | remoteShard shard => rfl
  rw [h, h]

section Files

variable (J : ConfigJson) (config : CollectionConfig) (trees : ShardId → Db) {s : ShardId}
  (hs : s = 0 ∨ s = 1)

include hs

theorem collectionFiles_segment :
    collectionFiles J [] config trees (fun _ ↦ none) [shardName s, "segments", "0"]
      = some .dir := by
  rcases hs with rfl | rfl <;> simp [collectionFiles_apply]

theorem withFile_collectionFiles (db : Db) :
    View.withFile [shardName s, "segments", "0", "db"] (.tree db)
        (collectionFiles J [] config trees fun _ ↦ none)
      = collectionFiles J [] config (Function.update trees s db) fun _ ↦ none := by
  funext r
  rw [View.withFile, collectionFiles_apply, collectionFiles_apply]
  rcases hs with rfl | rfl
  · by_cases hr : r = ["0", "segments", "0", "db"]
    · subst hr
      simp
    · simp [hr]
  · by_cases hr : r = ["1", "segments", "0", "db"]
    · subst hr
      simp
    · simp [hr]

end Files

/-- **What is flushed is on the disk.** -/
theorem Holds.flush {J : ConfigJson} {cat : Catalog} {d : Disk} (h : Holds J cat d)
    {name : CollectionName} (hname : Path.IsFileName name) {e : CatalogEntry}
    (he : cat name = some e) {s : ShardId} (hs : s = 0 ∨ s = 1) (db : Db) :
    Holds J (Function.update cat name (some { e with trees := Function.update e.trees s db }))
      (d.flush (collectionDir name ++ [shardName s] ++ ["segments", "0"]) db) := by
  have hpath : Disk.treePath (collectionDir name ++ [shardName s] ++ ["segments", "0"])
      = collectionDir name ++ [shardName s, "segments", "0", "db"] := by
    simp [Disk.treePath]
  have hord : Path.IsOrdinary (collectionDir name ++ [shardName s, "segments", "0", "db"]) := by
    refine (collectionDir_isOrdinary hname).append ?_
    rcases hs with rfl | rfl <;> decide
  have hat := h.some_of he
  have hfree : d.Free (collectionDir name ++ [shardName s, "segments", "0", "db"]) := by
    refine ⟨by simp, ?_, ?_⟩
    · rw [List.dropLast_append_of_ne_nil (by simp)]
      show d.lookup (collectionDir name ++ [shardName s, "segments", "0"]) = _
      rw [hat.lookup_some, collectionFiles_segment J e.config e.trees hs]
    · rw [hat.lookup_some, collectionFiles_tree J e.config e.trees hs]
      simp
  have hview : (d.flush (collectionDir name ++ [shardName s] ++ ["segments", "0"]) db).lookup
      = View.withFile (collectionDir name ++ [shardName s, "segments", "0", "db"]) (.tree db)
          d.lookup := by
    rw [Disk.flush, hpath, FileTree.write_of_free hord hfree, FileTree.lookup_put_file hfree]
  refine ⟨?_, fun n ↦ ?_⟩
  · rw [hview, View.withFile, if_neg (by simp [collectionDir])]
    exact h.dir
  · rw [HoldsAt, hview]
    by_cases hn : n = name
    · subst hn
      rw [View.below_withFile, Function.update_self, CatalogEntry.files,
        ← withFile_collectionFiles J e.config e.trees hs db]
      exact congrArg _ hat
    · rw [View.below_withFile_of_not_prefix _ (collectionDir_apart hn _),
        Function.update_of_ne hn]
      exact h.files n

end Smoldb
