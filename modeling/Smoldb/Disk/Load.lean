import Smoldb.Disk.Layout

/-!
# Loading what is on disk

A collection that is loaded from its directory is the collection that was made there, except for the
order of its hash map: `Collection.Opened` says what that leaves, and it is everything that counts.
The shards are found by the names of their directories, in whatever order the directory is listed,
and `exec_load` says that these are the shards `Collection.init` makes.

There is a loop over the entries of a directory on each of two levels, and each has its invariant,
for the entries that have been visited.

* `LoadedShards`: of a collection, the shards whose directories have been visited are in the map,
  with the trees that the disk has for them, and no other shards are.  The file `config.json` is
  visited as well and is skipped.
* `LoadedCollections`: of a node, the collections whose directories have been visited are in memory,
  as the catalog has them, and no other collections are.

The steps are `LoadedShards.skip` and `insert`, and `LoadedCollections.insert`.  Since an invariant
of this kind does not say in which order the entries came, it holds for every order of the listing;
and as no name is listed twice, nothing is loaded over something else.

The disk does not change when everything that is looked for is there.  What happens when something
is missing is in `Disk/Remnant.lean`.
-/

set_option autoImplicit false

namespace Smoldb

open FileTree (View)

variable {V : Type} {X : Crates V} {ε : Type} {d : Disk} (env : LoadEnv)

/-! ## Shards -/

theorem Segment.exec_load {path : Path} (h : path.IsOrdinary) {db : Db}
    (hdb : d.lookup (Disk.treePath path) = some (.file (.tree db))) :
    Fs.exec env.listing (Segment.load path) d = (d, .ok (⟨path⟩, db)) := by
  have hdir : d.lookup path = some .dir := FileTree.lookup_of_append (by simp) hdb
  rw [Fs.exec, Segment.load, Program.run_bind_of (Fs.exec_pathExists h), hdir, if_neg (by simp),
    Program.run_bind_of (Program.run_expect_of (Fs.exec_openTree h hdb) _)]
  rfl

/-- A directory with one entry is listed in one order. -/
theorem arrange_names_eq_singleton {dir : Path} {s : String}
    (h : ∀ name, d.lookup (dir ++ [name]) ≠ none ↔ name = s) (order : IterOrder String) :
    order.arrange (d.names dir) = [s] := by
  have hnames : (d.names dir).Perm [s] := by
    rw [List.perm_ext_iff_of_nodup (d.names_nodup dir) (List.nodup_singleton s)]
    intro name
    rw [FileTree.mem_names, h, List.mem_singleton]
  exact List.perm_singleton.mp ((order.perm _).trans hnames)

/-- The directory a shard is kept in. -/
def shardName (s : ShardId) : String := Nat.repr s.toNat

@[simp] theorem shardName_zero : shardName 0 = "0" := rfl

@[simp] theorem shardName_one : shardName 1 = "1" := rfl

theorem shardName_injective : Function.Injective shardName := fun _ _ h ↦
  UInt32.toNat_inj.mp (Nat.repr_inj.mp h)

/-- `Collection::init` makes the shards `0` and `1`. -/
theorem shardName_ordinary {s : ShardId} (hs : s = 0 ∨ s = 1) :
    FileTree.Ordinary (shardName s) ∧ shardName s ≠ "config.json" := by
  rcases hs with rfl | rfl <;> decide

theorem idOfPath_shardName (path : Path) {s : ShardId} (hs : s = 0 ∨ s = 1) :
    LocalShard.idOfPath (path ++ [shardName s]) = .ok s := by
  have hparse : Decimal.parse 32 (shardName s) = some s.toNat := Decimal.parse_repr s.toNat_lt
  rw [LocalShard.idOfPath, Path.fileName_append path (shardName_ordinary hs).1, Option.bind_some,
    hparse]
  simp

/-- A shard with one segment is loaded once the segment is. -/
theorem LocalShard.exec_load_of_segment {path : Path} {d₁ d₂ : Disk} {db : Db} {id : ShardId}
    (hmkdir : Fs.exec env.listing (Fs.createDirAll (path ++ ["segments"])) d = (d₁, .ok ()))
    (hread : Fs.exec env.listing (Fs.readDir (path ++ ["segments"])) d₁ = (d₁, .ok [.ok "0"]))
    (hid : LocalShard.idOfPath path = .ok id)
    (hload : Fs.exec env.listing (Segment.load (path ++ ["segments", "0"])) d₁
      = (d₂, .ok (⟨path ++ ["segments", "0"]⟩, db))) :
    Fs.exec env.listing (LocalShard.load env path) d
      = (d₂, .ok (LocalShard.init path id, Function.update (fun _ ↦ ∅) 0 db)) := by
  have hparse : Decimal.parse 64 "0" = some 0 := Decimal.parse_repr (n := 0) (by decide)
  have hpaths : LocalShard.segmentPaths (path ++ ["segments"]) [.ok "0"]
      = AList.singleton 0 (path ++ ["segments", "0"]) := by
    rw [LocalShard.segmentPaths, List.foldl_cons, List.foldl_nil]
    simp only [Except.toOption, Option.bind_some, hparse, Option.map_some, AList.insert_empty,
      List.append_assoc, List.singleton_append]
    rfl
  have harranged : (HashMap.arrangedBy (AList.singleton 0 (path ++ ["segments", "0"]) :
      HashMap SegmentId Path) (env.segmentPaths path)).entries
        = [⟨0, path ++ ["segments", "0"]⟩] :=
    List.perm_singleton.mp ((env.segmentPaths path).perm _)
  have hround : Fs.exec env.listing (LocalShard.loadSegment (∅, fun _ ↦ ∅)
        ⟨0, path ++ ["segments", "0"]⟩) d₁
      = (d₂, .ok (AList.insert 0 ⟨path ++ ["segments", "0"]⟩ ∅,
          Function.update (fun _ ↦ ∅) 0 db)) := by
    rw [Fs.exec, LocalShard.loadSegment, Program.run_bind_of hload]
    rfl
  rw [Fs.exec, LocalShard.load, Program.run_bind_of (Program.run_expect_of hmkdir _),
    Program.run_bind_of (Program.run_expect_of hread _), hid]
  simp only [hpaths, harranged, List.foldlM_cons, List.foldlM_nil]
  rw [Program.run_bind_of (Program.run_ofExcept_ok id d₁),
    Program.run_bind_of (Program.run_bind_of hround pure)]
  rfl

theorem LocalShard.exec_load {path : Path} (h : path.IsOrdinary) {id : ShardId}
    (hid : LocalShard.idOfPath path = .ok id)
    (hsegments : ∀ name, d.lookup (path ++ ["segments", name]) ≠ none ↔ name = "0") {db : Db}
    (hdb : d.lookup (path ++ ["segments", "0", "db"]) = some (.file (.tree db))) :
    Fs.exec env.listing (LocalShard.load env path) d
      = (d, .ok (LocalShard.init path id, Function.update (fun _ ↦ ∅) 0 db)) := by
  have h₁ : Path.IsOrdinary (path ++ ["segments"]) := h.append (by decide)
  have h₂ : Path.IsOrdinary (path ++ ["segments", "0"]) := h.append (by decide)
  have hdir : d.lookup (path ++ ["segments"]) = some .dir :=
    FileTree.lookup_of_append (p := ["0", "db"]) (by simp) (by simpa using hdb)
  have hnames : (env.listing (path ++ ["segments"])).arrange (d.names (path ++ ["segments"]))
      = ["0"] := arrange_names_eq_singleton (by simpa using hsegments) _
  have hread : Fs.exec env.listing _ _ = _ := Fs.exec_readDir h₁ hdir
  rw [hnames] at hread
  exact LocalShard.exec_load_of_segment env (Fs.exec_createDirAll_of_dir h₁ hdir) hread hid
    (Segment.exec_load env h₂ (by simpa [Disk.treePath] using hdb))

/-! ## Collections -/

section Files

variable (J : ConfigJson) (config : CollectionConfig) (trees : ShardId → Db)

/-- What the directory of a collection holds, location by location. -/
theorem collectionFiles_apply (r : Path) :
    collectionFiles J [] config trees (fun _ ↦ none) r =
      if r = ["1", "segments", "0", "db"] then some (.file (.tree (trees 1)))
      else if r <+: ["1", "segments", "0"] then some .dir
      else if r = ["0", "segments", "0", "db"] then some (.file (.tree (trees 0)))
      else if r <+: ["0", "segments", "0"] then some .dir
      else if r = ["config.json"] then some (.file (.text (J.encode config)))
      else none := by
  by_cases hr : r = []
  · subst hr
    simp [collectionFiles, shardFiles_below]
  · simp [collectionFiles, shardFiles, segmentFiles, View.withFile, View.withDirs,
      Disk.treePath, hr]

theorem collectionFiles_config : collectionFiles J [] config trees (fun _ ↦ none) ["config.json"]
    = some (.file (.text (J.encode config))) := by
  simp [collectionFiles_apply]

theorem collectionFiles_entry (name : String) :
    collectionFiles J [] config trees (fun _ ↦ none) [name] ≠ none ↔
      name = "config.json" ∨ ∃ s, (s = 0 ∨ s = 1) ∧ name = shardName s := by
  have hname : (∃ s : ShardId, (s = 0 ∨ s = 1) ∧ name = shardName s) ↔ name = "0" ∨ name = "1" := by
    simp
  rw [hname, collectionFiles_apply]
  by_cases h1 : name = "1"
  · simp [h1]
  · by_cases h0 : name = "0"
    · simp [h0]
    · simp [h0, h1]

variable {s : ShardId} (hs : s = 0 ∨ s = 1)

include hs

theorem collectionFiles_shard :
    collectionFiles J [] config trees (fun _ ↦ none) [shardName s] = some .dir := by
  rcases hs with rfl | rfl <;> simp [collectionFiles_apply]

theorem collectionFiles_segments (name : String) :
    collectionFiles J [] config trees (fun _ ↦ none) [shardName s, "segments", name] ≠ none ↔
      name = "0" := by
  rcases hs with rfl | rfl <;> simp [collectionFiles_apply]

theorem collectionFiles_tree :
    collectionFiles J [] config trees (fun _ ↦ none) [shardName s, "segments", "0", "db"]
      = some (.file (.tree (trees s))) := by
  rcases hs with rfl | rfl <;> simp [collectionFiles_apply]

end Files

/-- A shard as it is opened, whether it was made or loaded. -/
def openedShard (name : CollectionName) (s : ShardId) : ReplicaSet :=
  .new (.init (collectionDir name ++ [shardName s]) s) [] name

/-- The trees of a shard as they are opened. -/
def openedStore (db : Db) : ShardStore := Function.update (fun _ ↦ ∅) 0 db

/-- A collection as it is opened.  Only the order of its hash map is left open. -/
structure Collection.Opened (c : Collection X) (name : CollectionName) (config : CollectionConfig) :
    Prop where
  id : c.id = name
  config : c.config = config
  path : c.path = collectionDir name
  shards : ∀ s, c.replicaHolder.shards.lookup s
    = if s = 0 ∨ s = 1 then some (openedShard name s) else none

theorem Collection.init_opened (name : CollectionName) (config : CollectionConfig)
    (order : IterOrder (Σ _ : ShardId, ReplicaSet)) :
    (Collection.init (X := X) name config (collectionDir name) order).Opened name config := by
  refine ⟨rfl, rfl, rfl, fun s ↦ ?_⟩
  rw [Collection.lookup_init]
  by_cases h0 : s = 0
  · subst h0; rfl
  · by_cases h1 : s = 1
    · subst h1; rfl
    · simp [h0, h1]

section Load

variable {J : ConfigJson} {name : CollectionName} {e : CatalogEntry}

/-- What has been loaded when some of the entries of the directory have been visited. -/
structure LoadedShards (name : CollectionName) (e : CatalogEntry) (done : List String)
    (loaded : HashMap ShardId ReplicaSet × Trees) : Prop where
  lookup : ∀ s, loaded.1.lookup s
    = if (s = 0 ∨ s = 1) ∧ shardName s ∈ done then some (openedShard name s) else none
  trees : ∀ s, loaded.2 s
    = if (s = 0 ∨ s = 1) ∧ shardName s ∈ done then openedStore (e.trees s) else fun _ ↦ ∅

/-- An entry that is not the directory of a shard. -/
theorem LoadedShards.skip {done : List String} {loaded : HashMap ShardId ReplicaSet × Trees}
    (h : LoadedShards name e done loaded) :
    LoadedShards name e (done ++ ["config.json"]) loaded := by
  have hmem : ∀ s, (s = 0 ∨ s = 1) ∧ shardName s ∈ done ++ ["config.json"]
      ↔ (s = 0 ∨ s = 1) ∧ shardName s ∈ done := by
    intro s
    refine and_congr_right fun hs ↦ ?_
    simp [(shardName_ordinary hs).2]
  exact ⟨fun s ↦ by simp only [h.lookup, hmem], fun s ↦ by simp only [h.trees, hmem]⟩

/-- The directory of a shard. -/
theorem LoadedShards.insert {done : List String} {loaded : HashMap ShardId ReplicaSet × Trees}
    (h : LoadedShards name e done loaded) {t : ShardId} (ht : t = 0 ∨ t = 1) :
    LoadedShards name e (done ++ [shardName t])
      (loaded.1.insert t (openedShard name t),
        Function.update loaded.2 t (openedStore (e.trees t))) := by
  have hmem : ∀ s, s ≠ t → (shardName s ∈ done ++ [shardName t] ↔ shardName s ∈ done) := by
    intro s hs
    simp [shardName_injective.ne hs]
  constructor
  · intro s
    by_cases hs : s = t
    · subst hs
      simp [AList.lookup_insert, ht]
    · simp only [AList.lookup_insert_ne hs, h.lookup, hmem s hs]
  · intro s
    by_cases hs : s = t
    · subst hs
      simp [ht]
    · simp only [Function.update_of_ne hs, h.trees, hmem s hs]

/-- A file is not the directory of a shard. -/
theorem Collection.exec_loadShard_file {path : Path} (hord : path.IsOrdinary) (id : CollectionName)
    {entry : String} (hentry : FileTree.Ordinary entry) {a : Contents}
    (hfile : d.lookup (path ++ [entry]) = some (.file a))
    (loaded : HashMap ShardId ReplicaSet × Trees) :
    Fs.exec env.listing (Collection.loadShard env id path loaded (.ok entry)) d
      = (d, .ok loaded) := by
  have hordf : Path.IsOrdinary (path ++ [entry]) := hord.append (by simpa [Path.IsOrdinary])
  rw [Fs.exec, Collection.loadShard,
    Program.run_bind_of (Program.run_expect_of (Program.run_ofExcept_ok entry d) _),
    Program.run_bind_of (Fs.exec_isDir hordf), hfile, if_neg (by simp)]
  rfl

theorem Collection.exec_loadShard (h : HoldsAt J d name (some e)) (hname : Path.IsFileName name)
    {entry : String}
    (hentry : entry ∈ d.names (collectionDir name)) {done : List String}
    {loaded : HashMap ShardId ReplicaSet × Trees} (hdone : LoadedShards name e done loaded) :
    ∃ loaded', Fs.exec env.listing
        (Collection.loadShard env name (collectionDir name) loaded (.ok entry)) d
          = (d, .ok loaded') ∧ LoadedShards name e (done ++ [entry]) loaded' := by
  have hord := collectionDir_isOrdinary hname
  have hlookup := h.lookup_some
  rw [FileTree.mem_names, hlookup, collectionFiles_entry] at hentry
  rcases hentry with rfl | ⟨s, hs, rfl⟩
  · exact ⟨loaded, Collection.exec_loadShard_file env hord name (by decide)
      ((hlookup _).trans (collectionFiles_config J e.config e.trees)) loaded, hdone.skip⟩
  · have hshard : Path.IsOrdinary (collectionDir name ++ [shardName s]) :=
      hord.append fun piece hp ↦ by
        rw [List.mem_singleton.mp hp]
        exact (shardName_ordinary hs).1
    have hload := LocalShard.exec_load env hshard
      (idOfPath_shardName (collectionDir name) hs)
      (fun entry ↦ by
        rw [List.append_assoc, hlookup]
        exact collectionFiles_segments J e.config e.trees hs entry)
      (by
        rw [List.append_assoc, hlookup]
        exact collectionFiles_tree J e.config e.trees hs)
    refine ⟨_, ?_, hdone.insert hs⟩
    rw [Fs.exec, Collection.loadShard,
      Program.run_bind_of (Program.run_expect_of (Program.run_ofExcept_ok (shardName s) d) _),
      Program.run_bind_of (Fs.exec_isDir hshard), hlookup,
      collectionFiles_shard J e.config e.trees hs, if_pos (by simp), Program.run_bind_of hload]
    rfl

/-- The shards of a collection are loaded once its config has been read. -/
theorem Collection.exec_load_of_config {path : Path} (hord : path.IsOrdinary) (id : CollectionName)
    {text : String} {config : CollectionConfig}
    (hconfig : d.lookup (path ++ ["config.json"]) = some (.file (.text text)))
    (hparse : J.fromReader text = .ok config) {d' : Disk}
    {loaded : HashMap ShardId ReplicaSet × Trees}
    (hrun : Fs.exec env.listing (((env.listing path).arrange (d.names path)).foldlM
        (fun loaded entry ↦ Collection.loadShard env id path loaded (.ok entry))
        (∅, fun _ _ ↦ ∅)) d = (d', .ok loaded)) :
    Fs.exec env.listing (Collection.load (X := X) J env id path) d
      = (d', .ok (⟨id, config, .new (loaded.1.arrangedBy (env.shards id)), path⟩, loaded.2)) := by
  have hordc : Path.IsOrdinary (path ++ ["config.json"]) := hord.append (by decide)
  have hdir : d.lookup path = some .dir := FileTree.lookup_of_append (by simp) hconfig
  have hread : Fs.exec env.listing (do
      Program.ofExcept (J.fromReader (← Fs.readFile (path ++ ["config.json"])))) d
        = (d, .ok config) := by
    rw [Fs.exec, Program.run_bind_of (Fs.exec_readFile hordc hconfig), hparse]
    rfl
  rw [Fs.exec, Collection.load, Program.run_bind_of (Fs.exec_pathExists hordc), hconfig,
    if_neg (by simp), Program.run_bind_of (Program.run_mapError_of
      (Fs.exec_openFile hordc hconfig) _),
    Program.run_bind_of (Program.run_mapError_of hread _),
    Program.run_bind_of (Program.run_mapError_of (Fs.exec_readDir hord hdir) _),
    List.foldlM_map, Program.run_bind_of hrun]
  rfl

/-- **A collection is loaded** as it was made, in whatever order its directory is listed. -/
theorem Collection.exec_load (h : HoldsAt J d name (some e)) (hname : Path.IsFileName name)
    (hother : ∀ s, ¬ (s = 0 ∨ s = 1) → e.trees s = ∅) :
    ∃ c : Collection X, c.Opened name e.config ∧
      Fs.exec env.listing (Collection.load J env name (collectionDir name)) d
        = (d, .ok (c, fun s ↦ openedStore (e.trees s))) := by
  have hlookup := h.lookup_some
  have hconfig : d.lookup (collectionDir name ++ ["config.json"])
      = some (.file (.text (J.encode e.config))) :=
    (hlookup _).trans (collectionFiles_config J e.config e.trees)
  -- the directory is listed in some order, which has all shards
  have hmem : ∀ entry, entry ∈ (env.listing (collectionDir name)).arrange
      (d.names (collectionDir name)) ↔ entry ∈ d.names (collectionDir name) :=
    fun entry ↦ ((env.listing _).perm _).mem_iff
  have hempty : LoadedShards name e [] (∅, fun _ _ ↦ ∅) := ⟨fun s ↦ by simp, fun s ↦ by simp⟩
  have hround : ∀ done entry, entry ∈ (env.listing (collectionDir name)).arrange
      (d.names (collectionDir name)) → ∀ loaded d', d' = d ∧ LoadedShards name e done loaded →
      ∃ loaded' d'', Fs.exec env.listing
          (Collection.loadShard env name (collectionDir name) loaded (.ok entry)) d'
            = (d'', .ok loaded') ∧ d'' = d ∧ LoadedShards name e (done ++ [entry]) loaded' := by
    rintro done entry hentry loaded d' ⟨rfl, hdone⟩
    obtain ⟨loaded', hrun, hdone'⟩ :=
      Collection.exec_loadShard env h hname ((hmem entry).mp hentry) hdone
    exact ⟨loaded', d', hrun, rfl, hdone'⟩
  obtain ⟨loaded, d', hrun, rfl, hloaded⟩ := Program.run_foldlM hround ⟨rfl, hempty⟩
  rw [List.nil_append] at hloaded
  have hall : ∀ s, (s = 0 ∨ s = 1) ∧ shardName s ∈ (env.listing (collectionDir name)).arrange
      (FileTree.names d' (collectionDir name)) ↔ s = 0 ∨ s = 1 := by
    intro s
    refine and_iff_left_of_imp fun hs ↦ (hmem _).mpr (FileTree.mem_names.mpr ?_)
    rw [hlookup, collectionFiles_entry]
    exact Or.inr ⟨s, hs, rfl⟩
  have htrees : loaded.2 = fun s ↦ openedStore (e.trees s) := by
    funext s
    rw [hloaded.trees]
    by_cases hs : s = 0 ∨ s = 1
    · rw [if_pos ((hall s).mpr hs)]
    · rw [if_neg fun h ↦ hs h.1, hother s hs]
      exact (Function.update_eq_self 0 _).symm
  have hopen := Collection.exec_load_of_config (X := X) env (collectionDir_isOrdinary hname) name
    hconfig (J.fromReader_encode _) hrun
  rw [htrees] at hopen
  refine ⟨_, ⟨rfl, rfl, rfl, fun s ↦ ?_⟩, hopen⟩
  rw [ReplicaHolder.new, HashMap.lookup_arrangedBy, hloaded.lookup]
  simp only [hall]

end Load

/-! ## The table of contents -/

/-- The memory of a node has a collection open. -/
def Memory.Opens (memory : Memory X) (peer : PeerId) (name : CollectionName) (e : CatalogEntry) :
    Prop :=
  ∃ c : Collection X, memory.toc.collections.lookup name = some c ∧ c.Opened name e.config ∧
    ∀ s, memory.stores ⟨peer, name, s⟩ 0 = e.trees s

/-- The memory of a node has the collections of a catalog open, and no others. -/
def Memory.OpensAll (memory : Memory X) (peer : PeerId) (cat : Catalog) : Prop :=
  ∀ name, match cat name with
    | none => name ∉ memory.toc.collections
    | some e => memory.Opens peer name e

theorem Memory.opens_insert (memory : Memory X) (peer : PeerId) {name : CollectionName}
    {e : CatalogEntry} {c : Collection X} (hc : c.Opened name e.config) {trees : Trees}
    (htrees : ∀ s, trees s 0 = e.trees s) : (memory.insert peer name c trees).Opens peer name e :=
  ⟨c, AList.lookup_insert _, hc, fun s ↦ by simp [Memory.insert, htrees]⟩

theorem Memory.opens_insert_of_ne {memory : Memory X} {peer : PeerId} {name name' : CollectionName}
    (hne : name ≠ name') {e : CatalogEntry} {c : Collection X} {trees : Trees} :
    (memory.insert peer name' c trees).Opens peer name e ↔ memory.Opens peer name e := by
  simp [Memory.Opens, Memory.insert, AList.lookup_insert_ne hne, hne]

theorem Memory.mem_insert {memory : Memory X} {peer : PeerId} {name name' : CollectionName}
    {c : Collection X} {trees : Trees} :
    name ∈ (memory.insert peer name' c trees).toc.collections
      ↔ name = name' ∨ name ∈ memory.toc.collections := AList.mem_insert _

section LoadAll

variable {J : ConfigJson} {cat : Catalog} {peer : PeerId}

/-- The names under which collections are kept, and the shards they have. -/
structure Catalog.Proper (cat : Catalog) : Prop where
  isFileName : ∀ name e, cat name = some e → Path.IsFileName name
  other : ∀ name e, cat name = some e → ∀ s, ¬ (s = 0 ∨ s = 1) → e.trees s = ∅

/-- What has been loaded when some of the directories have been visited. -/
structure LoadedCollections (cat : Catalog) (peer : PeerId) (done : List String)
    (memory : Memory X) : Prop where
  opens : ∀ name e, cat name = some e → name ∈ done → memory.Opens peer name e
  absent : ∀ name, name ∉ done → name ∉ memory.toc.collections

theorem Fs.exec_pathExists_config {name : CollectionName} {listing : Path → IterOrder String}
    (hname : Path.IsFileName name) :
    Fs.exec listing (Fs.pathExists (collectionDir name ++ ["config.json"]) : Fs ε Bool) d
      = (d, .ok (d.lookup (collectionDir name ++ ["config.json"])).isSome) :=
  Fs.exec_pathExists ((collectionDir_isOrdinary hname).append (by decide))

/-- One round of the loop, put together from its parts. -/
theorem TableOfContent.exec_loadCollection_eq {name : CollectionName} (hname : Path.IsFileName name)
    (memory : Memory X) :
    Fs.exec env.listing (loadCollection J env peer memory (.ok name) : Fs ε _) d
      = if (d.lookup (collectionDir name ++ ["config.json"])).isSome then
          Fs.exec env.listing (do
            let (collection, trees) ← (Collection.load J env name (collectionDir name)).expect
              "Failed to load collection from path"
            return memory.insert peer collection.id collection trees) d
        else (d, .ok memory) := by
  rw [Fs.exec, loadCollection,
    Program.run_bind_of (Program.run_expect_of (Program.run_ofExcept_ok name d) _)]
  show Fs.exec env.listing (do
    if ← Fs.pathExists (collectionDir name ++ ["config.json"]) then
      let (collection, trees) ←
        (Collection.load J env name (collectionDir name)).expect
          "Failed to load collection from path"
      return memory.insert peer collection.id collection trees
    else
      return memory) d = _
  rw [Fs.exec, Program.run_bind_of (Fs.exec_pathExists_config hname)]
  split <;> rfl

variable (peer) in
/-- A collection is opened, next to those that are open already. -/
theorem TableOfContent.exec_loadCollection_of_some {name : CollectionName} {e : CatalogEntry}
    (h : HoldsAt J d name (some e)) (hname : Path.IsFileName name)
    (hother : ∀ s, ¬ (s = 0 ∨ s = 1) → e.trees s = ∅) (memory : Memory X) :
    ∃ c : Collection X, c.Opened name e.config ∧ Fs.exec env.listing
        (TableOfContent.loadCollection J env peer memory (.ok name) : Fs ε _) d
      = (d, .ok (memory.insert peer name c fun s ↦ openedStore (e.trees s))) := by
  have hconfig : d.lookup (collectionDir name ++ ["config.json"]) ≠ none := by
    rw [h.lookup_some, collectionFiles_config]
    simp
  obtain ⟨c, hc, hload⟩ := Collection.exec_load (X := X) env h hname hother
  refine ⟨c, hc, ?_⟩
  rw [exec_loadCollection_eq env hname, if_pos (Option.isSome_iff_ne_none.mpr hconfig), Fs.exec,
    Program.run_bind_of (Program.run_expect_of hload _), ← hc.id]
  rfl

/-- One more collection has been visited. -/
theorem LoadedCollections.insert {done : List String} {memory : Memory X}
    (hdone : LoadedCollections cat peer done memory) {name : CollectionName} {e : CatalogEntry}
    (he : cat name = some e) {c : Collection X} (hc : c.Opened name e.config) :
    LoadedCollections cat peer (done ++ [name])
      (memory.insert peer name c fun s ↦ openedStore (e.trees s)) := by
  refine ⟨fun name' e' he' hmem ↦ ?_, fun name' hmem ↦ ?_⟩
  · by_cases hn : name' = name
    · subst hn
      obtain rfl : e' = e := Option.some.inj (he'.symm.trans he)
      exact memory.opens_insert peer hc fun s ↦ by simp [openedStore]
    · rw [Memory.opens_insert_of_ne hn]
      refine hdone.opens name' e' he' ?_
      simpa [hn] using hmem
  · rw [Memory.mem_insert, not_or]
    rw [List.mem_append, List.mem_singleton, not_or] at hmem
    exact ⟨hmem.2, hdone.absent name' hmem.1⟩

theorem TableOfContent.exec_loadCollection (h : Holds J cat d) (hcat : cat.Proper)
    {name : String} (hname : name ∈ d.names TableOfContent.collectionsPath) {done : List String}
    {memory : Memory X} (hdone : LoadedCollections cat peer done memory) :
    ∃ memory' : Memory X, Fs.exec env.listing
        (TableOfContent.loadCollection J env peer memory (.ok name) : Fs ε _) d
          = (d, .ok memory') ∧ LoadedCollections cat peer (done ++ [name]) memory' := by
  obtain ⟨e, he⟩ : ∃ e, cat name = some e := by
    rw [FileTree.mem_names] at hname
    refine Option.ne_none_iff_exists'.mp fun hnone ↦ hname ?_
    have habsent := (h.none_of hnone).lookup_none []
    rwa [List.append_nil] at habsent
  obtain ⟨c, hc, hrun⟩ := exec_loadCollection_of_some (X := X) (ε := ε) env peer
    (h.some_of he) (hcat.isFileName name e he) (hcat.other name e he) memory
  exact ⟨_, hrun, hdone.insert he hc⟩

variable (peer) in
/-- **A restart**: whatever order directories are listed in, the collections on disk are open
again, with the shards and the trees they have there. -/
theorem TableOfContent.exec_load (h : Holds J cat d) (hcat : cat.Proper) :
    ∃ memory : Memory X, Fs.exec env.listing (TableOfContent.load J env peer : Fs ε _) d
        = (d, .ok memory) ∧ memory.OpensAll peer cat := by
  have hord : TableOfContent.collectionsPath.IsOrdinary := by decide
  generalize hl : (env.listing collectionsPath).arrange (d.names collectionsPath) = l
  have hmem : ∀ name, name ∈ l ↔ name ∈ d.names collectionsPath := fun name ↦ by
    rw [← hl]
    exact ((env.listing _).perm _).mem_iff
  have hempty : LoadedCollections cat peer [] (⟨⟨∅⟩, Stores.empty⟩ : Memory X) :=
    ⟨fun _ _ _ h ↦ absurd h List.not_mem_nil, fun _ _ ↦ AList.notMem_empty _⟩
  have hround : ∀ done name, name ∈ l → ∀ (memory : Memory X) (d' : Disk),
      d' = d ∧ LoadedCollections cat peer done memory →
      ∃ (memory' : Memory X) (d'' : Disk), Fs.exec env.listing
          (loadCollection J env peer memory (.ok name) : Fs ε _) d' = (d'', .ok memory') ∧
        d'' = d ∧ LoadedCollections cat peer (done ++ [name]) memory' := by
    rintro done name hname memory d' ⟨rfl, hdone⟩
    obtain ⟨memory', hrun, hdone'⟩ := exec_loadCollection env h hcat ((hmem name).mp hname) hdone
    exact ⟨memory', d', hrun, rfl, hdone'⟩
  obtain ⟨memory, d', hrun, rfl, hloaded⟩ := Program.run_foldlM hround ⟨rfl, hempty⟩
  rw [List.nil_append] at hloaded
  refine ⟨memory, ?_, fun name ↦ ?_⟩
  · rw [Fs.exec, load, Program.run_bind_of (Program.run_expect_of
        (Fs.exec_createDirAll_of_dir hord h.dir) _),
      Program.run_bind_of (Program.run_expect_of (Fs.exec_readDir hord h.dir) _), hl,
      List.foldlM_map, hrun]
  · cases he : cat name with
    | none =>
      refine hloaded.absent name fun hname ↦ ?_
      rw [hmem, FileTree.mem_names] at hname
      have habsent := (h.none_of he).lookup_none []
      rw [List.append_nil] at habsent
      exact hname habsent
    | some e =>
      refine hloaded.opens name e he ((hmem name).mpr (FileTree.mem_names.mpr ?_))
      have hdir := (h.some_of he).lookup_dir
      rw [collectionDir] at hdir
      rw [hdir]
      simp

end LoadAll

end Smoldb
