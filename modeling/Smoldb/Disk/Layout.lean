import Smoldb.Disk.Catalog

/-!
# What collections leave on disk

`collectionFiles` is what the directory of a collection holds, for a config and the trees of its
shards, and `Holds` says that a disk holds a catalog of collections and nothing else where
collections are kept.  A `Catalog` is what the disk is for: which collections there are, with a
config and the trees of each.

There is one lemma for each function that works on the disk: what it returns, and what the disk
looks like afterwards.

* The functions that make something start from a disk that does not have it, and leave what
  `segmentFiles`, `shardFiles` and `collectionFiles` say, each in terms of the one below it.
* `exec_create` and `exec_delete` say that with `Holds` before there is `Holds` after, for the
  catalog with the collection added or taken out, as long as its name is one that a file can have.
* A create for which there is a directory, and a delete for which there is no collection, leave the
  disk as it is (`exec_create_of_some`, `exec_delete_of_none`).
* The functions that load something leave the disk as it is; they are in `Disk/Load.lean`.

What a disk holds is said by its `lookup`, path by path, and not by how the file tree came about, so
these lemmas go together by rewriting.  The directories of two collections are `apart`, and what is
done in one is looked up in the other as if nothing had been done.
-/

set_option autoImplicit false

namespace Smoldb

open FileTree (View)

variable {V : Type} {X : Crates V} {ε : Type} {listing : Path → IterOrder String} {d : Disk}

namespace ConfigJson

/-- The text a config is stored as. -/
def encode (J : ConfigJson) (config : CollectionConfig) : String :=
  ((J.toVec config).toOption).getD ""

theorem toVec_eq (J : ConfigJson) (config : CollectionConfig) :
    J.toVec config = .ok (J.encode config) := by
  obtain ⟨s, hs, -⟩ := J.fromReader_toVec config
  rw [encode, hs]
  rfl

theorem fromReader_encode (J : ConfigJson) (config : CollectionConfig) :
    J.fromReader (J.encode config) = .ok config := by
  obtain ⟨s, hs, hd⟩ := J.fromReader_toVec config
  rw [J.toVec_eq] at hs
  cases hs
  exact hd

end ConfigJson

/-! ## Making -/

/-- The files of a segment. -/
def segmentFiles (path : Path) (db : Db) (v : View Contents) : View Contents :=
  View.withFile (Disk.treePath path) (.tree db) (View.withDirs path v)

/-- The files of a shard. -/
def shardFiles (path : Path) (db : Db) (v : View Contents) : View Contents :=
  segmentFiles (path ++ ["segments", "0"]) db v

theorem shardFiles_below {path q : Path} (hq : q <+: path) (db : Db) (v : View Contents) :
    shardFiles path db v q = some .dir := by
  have hne : q ≠ Disk.treePath (path ++ ["segments", "0"]) := fun heq ↦ by
    have hlen := hq.length_le
    simp [heq, Disk.treePath] at hlen
  rw [shardFiles, segmentFiles, View.withFile, if_neg hne, View.withDirs,
    if_pos (hq.trans (List.prefix_append _ _))]

theorem shardFiles_of_not_prefix {path q : Path}
    (hq : ¬ q <+: path ++ ["segments", "0", "db"]) (db : Db) (v : View Contents) :
    shardFiles path db v q = v q := by
  have hne : q ≠ Disk.treePath (path ++ ["segments", "0"]) := fun heq ↦ by
    rw [heq, Disk.treePath, List.append_assoc] at hq
    exact hq List.prefix_rfl
  have hnot : ¬ q <+: path ++ ["segments", "0"] := fun hp ↦
    hq (hp.trans ((List.prefix_append_right_inj path).mpr (by decide)))
  rw [shardFiles, segmentFiles, View.withFile, if_neg hne, View.withDirs, if_neg hnot]

theorem Segment.exec_create (listing : Path → IterOrder String) {segmentsDir : Path}
    (h : segmentsDir.IsOrdinary) (hdir : d.lookup segmentsDir = some .dir)
    (hnone : d.lookup (segmentsDir ++ ["0"]) = none) :
    ∃ d', Fs.exec listing (Segment.create segmentsDir) d
        = (d', .ok (⟨segmentsDir ++ ["0"]⟩, ∅)) ∧
      d'.lookup = segmentFiles (segmentsDir ++ ["0"]) ∅ d.lookup := by
  have h₀ : Path.IsOrdinary (segmentsDir ++ ["0"]) := h.append (by decide)
  have hdir₀ : d.lookup (segmentsDir ++ ["0"]).dropLast = some .dir := by
    rwa [List.dropLast_concat]
  obtain ⟨d₁, hrun, hview⟩ := Fs.exec_createDirAll h₀ listing fun q a hq ↦
    FileTree.not_file_below (r := []) hdir₀ hnone (by rwa [List.append_nil]) a
  have hdir₁ : d₁.lookup (segmentsDir ++ ["0"]) = some .dir := by
    rw [hview, View.withDirs, if_pos List.prefix_rfl]
  have hnone₁ : d₁.lookup (Disk.treePath (segmentsDir ++ ["0"])) = none := by
    rw [hview, View.withDirs, Disk.treePath, if_neg (FileTree.not_append_prefix (by simp))]
    exact FileTree.lookup_append_eq_none (by rw [hnone]; simp) (by simp)
  have hfree : d₁.Free (Disk.treePath (segmentsDir ++ ["0"])) := by
    refine ⟨by simp [Disk.treePath], ?_, by rw [hnone₁]; simp⟩
    rw [Disk.treePath, List.dropLast_concat]
    exact hdir₁
  refine ⟨_, ?_, (FileTree.lookup_put_file hfree _).trans (by rw [hview]; rfl)⟩
  rw [Fs.exec, Segment.create, Program.run_bind_of (Program.run_expect_of hrun _),
    Program.run_bind_of (Program.run_mapError_of (Fs.exec_openTree_new h₀ hdir₁ hnone₁) _)]
  rfl

theorem LocalShard.exec_initOnDisk (listing : Path → IterOrder String) {path : Path}
    (h : path.IsOrdinary) (hdir : d.lookup path.dropLast = some .dir)
    (hnone : d.lookup path = none) (id : ShardId) :
    ∃ d', Fs.exec listing (LocalShard.initOnDisk path id : Fs ε _) d
        = (d', .ok (LocalShard.init path id, fun _ ↦ ∅)) ∧
      d'.lookup = shardFiles path ∅ d.lookup := by
  have h₁ : Path.IsOrdinary (path ++ ["segments"]) := h.append (by decide)
  obtain ⟨d₁, hrun₁, hview₁⟩ := Fs.exec_createDirAll h₁ listing fun q a hq ↦
    FileTree.not_file_below hdir hnone hq a
  have hdir₁ : d₁.lookup (path ++ ["segments"]) = some .dir := by
    rw [hview₁, View.withDirs, if_pos List.prefix_rfl]
  have hnone₁ : d₁.lookup (path ++ ["segments"] ++ ["0"]) = none := by
    rw [hview₁, View.withDirs, if_neg (FileTree.not_append_prefix (by simp)), List.append_assoc]
    exact FileTree.lookup_append_eq_none (by rw [hnone]; simp) (by simp)
  obtain ⟨d₂, hrun₂, hview₂⟩ := Segment.exec_create listing h₁ hdir₁ hnone₁
  have hstore : Function.update (fun _ ↦ ∅ : ShardStore) 0 ∅ = fun _ ↦ ∅ :=
    Function.update_eq_self 0 _
  refine ⟨d₂, ?_, ?_⟩
  · rw [Fs.exec, LocalShard.initOnDisk, Program.run_bind_of (Program.run_expect_of hrun₁ _),
      Program.run_bind_of (Program.run_expect_of hrun₂ _)]
    simp only [Program.run_pure, hstore, LocalShard.init, List.append_assoc, List.singleton_append]
  · rw [hview₂, hview₁, shardFiles, segmentFiles, segmentFiles,
      View.withDirs_withDirs _ _ _ (List.prefix_append _ _), List.append_assoc]
    rfl

theorem CollectionConfig.exec_save (listing : Path → IterOrder String) (J : ConfigJson)
    (config : CollectionConfig) {path : Path} (h : path.IsOrdinary)
    (hdir : d.lookup path = some .dir)
    (hfree : d.lookup (path ++ ["config.json"]) ≠ some .dir) :
    ∃ d', Fs.exec listing (config.save J path) d = (d', .ok ()) ∧
      d'.lookup = View.withFile (path ++ ["config.json"]) (.text (J.encode config)) d.lookup := by
  have h₁ : Path.IsOrdinary (path ++ ["config.json"]) := h.append (by decide)
  have hfree₁ : d.Free (path ++ ["config.json"]) := by
    refine ⟨by simp, ?_, hfree⟩
    rw [List.dropLast_concat]
    exact hdir
  have hview₁ := FileTree.lookup_put_file hfree₁ (Contents.text "")
  have hne : path ≠ path ++ ["config.json"] := by simp
  have hfree₂ : (d.put (path ++ ["config.json"]) (.file (.text ""))).Free
      (path ++ ["config.json"]) := by
    refine ⟨by simp, ?_, ?_⟩
    · rw [List.dropLast_concat, hview₁, View.withFile, if_neg hne]
      exact hdir
    · rw [hview₁, View.withFile, if_pos rfl]
      simp
  refine ⟨_, ?_, (FileTree.lookup_put_file hfree₂ _).trans (by rw [hview₁, View.withFile_withFile])⟩
  have hbytes : Fs.exec listing (Program.ofExcept (J.toVec config)) d
      = (d, .ok (J.encode config)) := by rw [J.toVec_eq]; rfl
  have hwrite : Fs.exec listing (Fs.writeFile _ _) _ = _ :=
    Fs.exec_writeFile h₁ hfree₂ (J.encode config)
  rw [Fs.exec, CollectionConfig.save, Program.run_bind_of (Program.run_mapError_of hbytes _),
    Program.run_bind_of (Program.run_mapError_of (Fs.exec_createFile h₁ hfree₁) _)]
  split
  · rw [Program.run_bind_of (Program.run_attempt_of hwrite)]
    rfl
  · exact Program.run_mapError_of hwrite _

/-- The files of a collection. -/
def collectionFiles (J : ConfigJson) (path : Path) (config : CollectionConfig)
    (trees : ShardId → Db) (v : View Contents) : View Contents :=
  shardFiles (path ++ ["1"]) (trees 1) (shardFiles (path ++ ["0"]) (trees 0)
    (View.withFile (path ++ ["config.json"]) (.text (J.encode config)) (View.withDirs path v)))

theorem Collection.exec_initOnDisk (listing : Path → IterOrder String) (J : ConfigJson)
    {path : Path} (h : path.IsOrdinary) (hdir : d.lookup path = some .dir)
    (hempty : ∀ r, r ≠ [] → d.lookup (path ++ r) = none)
    (id : CollectionName) (config : CollectionConfig)
    (order : IterOrder (Σ _ : ShardId, ReplicaSet)) :
    ∃ d', Fs.exec listing (Collection.initOnDisk J id config path order) d
        = (d', .ok (Collection.init (X := X) id config path order, fun _ _ ↦ ∅)) ∧
      d'.lookup = collectionFiles J path config (fun _ ↦ ∅) d.lookup := by
  -- no entry of the directory is there before it is made
  have hne : ∀ s : String, s ≠ "config.json" → path ++ [s] ≠ path ++ ["config.json"] := by simp
  have hnot : ∀ (s s' : String) (rest : Path), s ≠ s' → ¬ path ++ [s] <+: path ++ s' :: rest := by
    intro s s' rest hs hp
    exact hs (by simpa using (List.prefix_append_right_inj path).mp hp)
  obtain ⟨d₁, hrun₁, hview₁⟩ := CollectionConfig.exec_save listing J config h hdir
    (by rw [hempty _ (by simp)]; simp)
  have hdir₁ : d₁.lookup path = some .dir := by
    rw [hview₁, View.withFile, if_neg (by simp)]
    exact hdir
  have hnone₁ : ∀ s : String, s ≠ "config.json" → d₁.lookup (path ++ [s]) = none := by
    intro s hs
    rw [hview₁, View.withFile, if_neg (hne s hs)]
    exact hempty _ (by simp)
  have h0 : Path.IsOrdinary (path ++ ["0"]) := h.append (by decide)
  have h1 : Path.IsOrdinary (path ++ ["1"]) := h.append (by decide)
  obtain ⟨d₂, hrun₂, hview₂⟩ := LocalShard.exec_initOnDisk listing h0
    (by rwa [List.dropLast_concat]) (hnone₁ "0" (by decide)) 0
  have hdir₂ : d₂.lookup path = some .dir := by
    rw [hview₂, shardFiles_below (List.prefix_append _ _)]
  have hnone₂ : d₂.lookup (path ++ ["1"]) = none := by
    rw [hview₂, shardFiles_of_not_prefix, hnone₁ "1" (by decide)]
    rw [List.append_assoc]
    exact hnot _ _ _ (by decide)
  obtain ⟨d₃, hrun₃, hview₃⟩ := LocalShard.exec_initOnDisk listing h1
    (by rwa [List.dropLast_concat]) hnone₂ 1
  refine ⟨d₃, ?_, ?_⟩
  · rw [Fs.exec, Collection.initOnDisk, Program.run_bind_of hrun₁, Program.run_bind_of hrun₂,
      Program.run_bind_of hrun₃]
    have htrees : Function.update (Function.update (fun _ _ ↦ ∅ : Trees) 0 fun _ ↦ ∅) 1
        (fun _ ↦ ∅) = fun _ _ ↦ ∅ := by
      rw [Function.update_eq_self 0 (fun _ _ ↦ ∅ : Trees)]
      exact Function.update_eq_self 1 _
    simp only [Program.run_pure, htrees]
    rfl
  · rw [hview₃, hview₂, hview₁, collectionFiles, FileTree.withDirs_lookup hdir]

/-! ## Catalogs -/

/-- The directory of a collection. -/
def collectionDir (name : CollectionName) : Path := TableOfContent.collectionsPath ++ [name]

/-- What is kept of a collection: its config, and the trees of its shards. -/
structure CatalogEntry where
  config : CollectionConfig
  trees : ShardId → Db

/-- The collections of a node by name. -/
abbrev Catalog := CollectionName → Option CatalogEntry

/-- What the directory of a collection holds. -/
def CatalogEntry.files (J : ConfigJson) : Option CatalogEntry → View Contents
  | none => fun _ ↦ none
  | some e => collectionFiles J [] e.config e.trees fun _ ↦ none

/-- A disk holds the files of a collection, or has none of its name. -/
def HoldsAt (J : ConfigJson) (d : Disk) (name : CollectionName) (e : Option CatalogEntry) : Prop :=
  View.below (collectionDir name) d.lookup = CatalogEntry.files J e

/-- A disk holds the files of a catalog, and nothing else next to them. -/
structure Holds (J : ConfigJson) (cat : Catalog) (d : Disk) : Prop where
  dir : d.lookup TableOfContent.collectionsPath = some .dir
  files : ∀ name, HoldsAt J d name (cat name)

theorem collectionDir_isOrdinary {name : CollectionName} (h : Path.IsFileName name) :
    (collectionDir name).IsOrdinary :=
  Path.IsOrdinary.append (by decide) fun piece hpiece ↦ by
    rw [List.mem_singleton.mp hpiece]
    exact h.1

theorem dropLast_collectionDir (name : CollectionName) :
    (collectionDir name).dropLast = TableOfContent.collectionsPath := List.dropLast_concat

/-- The directories of different collections are apart. -/
theorem collectionDir_apart {name name' : CollectionName} (h : name ≠ name') (r : Path) :
    ¬ collectionDir name <+: collectionDir name' ++ r := by
  intro hp
  rw [collectionDir, collectionDir, List.append_assoc, List.prefix_append_right_inj] at hp
  exact h (by simpa using hp)

theorem below_collectionFiles (J : ConfigJson) (path : Path) (config : CollectionConfig)
    (trees : ShardId → Db) (v : View Contents) :
    View.below path (collectionFiles J path config trees v)
      = collectionFiles J [] config trees (View.below path v) := by
  simp only [collectionFiles, shardFiles, segmentFiles, Disk.treePath, List.append_assoc,
    View.below_withFile, View.below_withDirs, View.below_withDirs_self, List.nil_append]

theorem below_collectionFiles_of_ne (J : ConfigJson) {name name' : CollectionName}
    (h : name ≠ name') (config : CollectionConfig) (trees : ShardId → Db) (v : View Contents) :
    View.below (collectionDir name) (collectionFiles J (collectionDir name') config trees v)
      = View.below (collectionDir name) v := by
  have hself : ¬ collectionDir name <+: collectionDir name' := by
    simpa using collectionDir_apart h []
  simp only [collectionFiles, shardFiles, segmentFiles, Disk.treePath, List.append_assoc]
  rw [View.below_withFile_of_not_prefix _ (collectionDir_apart h _),
    View.below_withDirs_of_not_prefix _ (collectionDir_apart h _),
    View.below_withFile_of_not_prefix _ (collectionDir_apart h _),
    View.below_withDirs_of_not_prefix _ (collectionDir_apart h _),
    View.below_withFile_of_not_prefix _ (collectionDir_apart h _),
    View.below_withDirs_of_not_prefix _ hself]

section Make

variable {name : CollectionName} (hdir : d.lookup TableOfContent.collectionsPath = some .dir)
  (hname : Path.IsFileName name) (hnone : d.lookup (collectionDir name) = none)
  (listing : Path → IterOrder String)

include hdir hname hnone

theorem TableOfContent.exec_mkdirCollectionDir :
    ∃ d', Fs.exec listing (TableOfContent.mkdirCollectionDir name) d
        = (d', .ok (collectionDir name)) ∧
      d'.lookup = View.withDirs (collectionDir name) d.lookup := by
  have hpath : TableOfContent.collectionsPath.join name = collectionDir name :=
    Path.join_of_isFileName hname (by decide)
  have hord := collectionDir_isOrdinary hname
  have hparent : d.lookup (collectionDir name).dropLast = some .dir := by
    rw [dropLast_collectionDir]
    exact hdir
  obtain ⟨d', hrun, hview⟩ := Fs.exec_createDirAll hord listing fun q a hq ↦
    FileTree.not_file_below (r := []) hparent hnone (by rwa [List.append_nil]) a
  refine ⟨d', ?_, hview⟩
  rw [Fs.exec, TableOfContent.mkdirCollectionDir, hpath,
    Program.run_bind_of (Fs.exec_pathExists hord), hnone]
  rw [if_neg (by simp), Program.run_bind_of (Program.run_mapError_of hrun _)]
  rfl

/-- **What a create does before it takes the lock**, where nothing has the name. -/
theorem TableOfContent.exec_make (J : ConfigJson) (order : IterOrder (Σ _ : ShardId, ReplicaSet))
    (params : String) :
    ∃ d', Fs.exec listing (do
        let path ← TableOfContent.mkdirCollectionDir name
        Collection.initOnDisk J name ⟨params⟩ path order) d
      = (d', .ok (Collection.init (X := X) name ⟨params⟩ (collectionDir name) order,
          fun _ _ ↦ ∅)) ∧
      d'.lookup = collectionFiles J (collectionDir name) ⟨params⟩ (fun _ ↦ ∅) d.lookup := by
  obtain ⟨d₁, hrun₁, hview₁⟩ := exec_mkdirCollectionDir hdir hname hnone listing
  have hdir₁ : d₁.lookup (collectionDir name) = some .dir := by
    rw [hview₁, View.withDirs, if_pos List.prefix_rfl]
  have hempty₁ : ∀ r, r ≠ [] → d₁.lookup (collectionDir name ++ r) = none := by
    intro r hr
    rw [hview₁, View.withDirs, if_neg (FileTree.not_append_prefix hr)]
    exact FileTree.lookup_append_eq_none (by rw [hnone]; simp) hr
  obtain ⟨d₂, hrun₂, hview₂⟩ := Collection.exec_initOnDisk (X := X) listing J
    (collectionDir_isOrdinary hname) hdir₁ hempty₁ name ⟨params⟩ order
  refine ⟨d₂, (Program.run_bind_of hrun₁ _).trans hrun₂, ?_⟩
  rw [hview₂, hview₁, collectionFiles, collectionFiles,
    View.withDirs_withDirs _ _ _ List.prefix_rfl]

end Make

namespace HoldsAt

variable {J : ConfigJson} {name : CollectionName} {e : CatalogEntry}

theorem lookup {o : Option CatalogEntry} (h : HoldsAt J d name o) (r : Path) :
    d.lookup (collectionDir name ++ r) = CatalogEntry.files J o r :=
  congrFun h r

theorem lookup_some (h : HoldsAt J d name (some e)) (r : Path) :
    d.lookup (collectionDir name ++ r)
      = collectionFiles J [] e.config e.trees (fun _ ↦ none) r := h.lookup r

theorem lookup_none (h : HoldsAt J d name none) (r : Path) :
    d.lookup (collectionDir name ++ r) = none := h.lookup r

theorem lookup_dir (h : HoldsAt J d name (some e)) :
    d.lookup (collectionDir name) = some .dir := by
  have hroot := h.lookup_some []
  rwa [List.append_nil, collectionFiles, shardFiles_below List.nil_prefix] at hroot

end HoldsAt

namespace Holds

variable {J : ConfigJson} {cat : Catalog} {name : CollectionName}

theorem none_of (h : Holds J cat d) (hnone : cat name = none) : HoldsAt J d name none := by
  rw [← hnone]
  exact h.files name

theorem some_of (h : Holds J cat d) {e : CatalogEntry} (he : cat name = some e) :
    HoldsAt J d name (some e) := by
  rw [← he]
  exact h.files name

/-- The files of one more collection. -/
theorem of_lookup {d' : Disk} (h : Holds J cat d) (hnone : cat name = none)
    (config : CollectionConfig) (trees : ShardId → Db)
    (hview : d'.lookup = collectionFiles J (collectionDir name) config trees d.lookup) :
    Holds J (Function.update cat name (some ⟨config, trees⟩)) d' := by
  have hfiles : ∀ n, HoldsAt J d' n (Function.update cat name (some ⟨config, trees⟩) n) := by
    intro n
    rw [HoldsAt, hview]
    by_cases hn : n = name
    · rw [hn, Function.update_self, below_collectionFiles, h.none_of hnone]
      rfl
    · rw [Function.update_of_ne hn, below_collectionFiles_of_ne J hn]
      exact h.files n
  refine ⟨?_, hfiles⟩
  have hname := hfiles name
  rw [Function.update_self] at hname
  rw [← dropLast_collectionDir name]
  exact FileTree.lookup_dropLast hname.lookup_dir

theorem exec_mkdirCollectionDir_of_some (h : Holds J cat d) (hname : Path.IsFileName name)
    {e : CatalogEntry} (he : cat name = some e) :
    Fs.exec listing (TableOfContent.mkdirCollectionDir name) d = (d, .error (.badInput
      s!"Collection path already exists: {(collectionDir name).display}")) := by
  have hpath : TableOfContent.collectionsPath.join name = collectionDir name :=
    Path.join_of_isFileName hname (by decide)
  rw [Fs.exec, TableOfContent.mkdirCollectionDir, hpath,
    Program.run_bind_of (Fs.exec_pathExists (collectionDir_isOrdinary hname)),
      (h.some_of he).lookup_dir]
  rfl

/-- **A collection is created**: it is in the table of contents and its files are on the disk. -/
theorem exec_create (h : Holds J cat d) (listing : Path → IterOrder String)
    (hname : Path.IsFileName name) (hnone : cat name = none)
    (peer : PeerId) (order : IterOrder (Σ _ : ShardId, ReplicaSet)) (params : String)
    {memory : Memory X} (hfresh : name ∉ memory.toc.collections) :
    ∃ d', Fs.exec listing (TableOfContent.performCollectionMetaOp J peer order
          (.createCollection name params) memory : Fs ε _) d
        = (d', .ok (memory.insert peer name
            (Collection.init name ⟨params⟩ (collectionDir name) order) fun _ _ ↦ ∅, .ok true)) ∧
      Holds J (Function.update cat name (some ⟨⟨params⟩, fun _ ↦ ∅⟩)) d' := by
  have hl : d.lookup (collectionDir name) = none := by
    simpa using (h.none_of hnone).lookup_none []
  obtain ⟨d', hmade, hview⟩ :=
    TableOfContent.exec_make (X := X) h.dir hname hl listing J order params
  refine ⟨d', ?_, h.of_lookup hnone _ _ hview⟩
  rw [Fs.exec, TableOfContent.performCollectionMetaOp,
    Program.run_bind_of (Program.run_attempt_of hmade)]
  simp only [if_neg hfresh, Program.run_pure]

/-- A name that is taken stays with the collection that has it. -/
theorem exec_create_of_some (h : Holds J cat d) (hname : Path.IsFileName name)
    {e : CatalogEntry} (he : cat name = some e) (peer : PeerId)
    (order : IterOrder (Σ _ : ShardId, ReplicaSet)) (params : String) (memory : Memory X) :
    Fs.exec listing (TableOfContent.performCollectionMetaOp J peer order
        (.createCollection name params) memory : Fs ε _) d
      = (d, .ok (memory, .error (.badInput
          s!"Collection path already exists: {(collectionDir name).display}"))) := by
  have hmkdir : Fs.exec listing _ d = _ := h.exec_mkdirCollectionDir_of_some hname he
  have hmade : Fs.exec listing (do
      let path ← TableOfContent.mkdirCollectionDir name
      Collection.initOnDisk (X := X) J name ⟨params⟩ path order) d = _ :=
    Program.run_bind_of_error hmkdir _
  rw [Fs.exec, TableOfContent.performCollectionMetaOp,
    Program.run_bind_of (Program.run_attempt_of_error hmade)]
  rfl

/-- **A collection is deleted**: it is gone from the table of contents, and so are its files. -/
theorem exec_delete (h : Holds J cat d) (listing : Path → IterOrder String)
    (hname : Path.IsFileName name) {e : CatalogEntry}
    (he : cat name = some e) (peer : PeerId) (order : IterOrder (Σ _ : ShardId, ReplicaSet))
    {memory : Memory X} {c : Collection X} (hc : memory.toc.collections.lookup name = some c)
    (hpath : c.path = collectionDir name) :
    ∃ d', Fs.exec listing (TableOfContent.performCollectionMetaOp J peer order
          (.deleteCollection name) memory : Fs ε _) d
        = (d', .ok ({ memory with toc := ⟨memory.toc.collections.erase name⟩ }, .ok true)) ∧
      Holds J (Function.update cat name none) d' := by
  have hord := collectionDir_isOrdinary hname
  have hdir := (h.some_of he).lookup_dir
  have hdelete : Fs.exec listing c.delete d = (d.prune (collectionDir name), .ok ()) := by
    rw [Fs.exec, Collection.delete, hpath, Program.run_bind_of (Fs.exec_pathExists hord), hdir]
    exact Program.run_mapError_of (Fs.exec_removeDirAll hord hdir) _
  have hview : (d.prune (collectionDir name)).lookup = View.without (collectionDir name) d.lookup :=
    FileTree.lookup_prune_eq (by simp [collectionDir])
  refine ⟨d.prune (collectionDir name), ?_, ?_, fun n ↦ ?_⟩
  · rw [Fs.exec, TableOfContent.performCollectionMetaOp]
    simp only [hc]
    rw [Program.run_bind_of (Program.run_attempt_of hdelete)]
    rfl
  · rw [hview, View.without, collectionDir, if_neg (FileTree.not_append_prefix (by simp))]
    exact h.dir
  · rw [HoldsAt, hview]
    by_cases hn : n = name
    · rw [hn, View.below_without_self, Function.update_self]
      rfl
    · have hnot : ∀ {a b : CollectionName}, a ≠ b → ¬ collectionDir a <+: collectionDir b := by
        intro a b hab
        simpa using collectionDir_apart hab []
      rw [View.below_without_of_not_prefix _ (hnot hn) (hnot (Ne.symm hn)),
        Function.update_of_ne hn]
      exact h.files n

end Holds

/-- There is nothing to delete under a name that no collection has. -/
theorem TableOfContent.exec_delete_of_none {J : ConfigJson} {name : CollectionName}
    {memory : Memory X} (hc : memory.toc.collections.lookup name = none) (peer : PeerId)
    (order : IterOrder (Σ _ : ShardId, ReplicaSet)) :
    Fs.exec listing (TableOfContent.performCollectionMetaOp J peer order
        (.deleteCollection name) memory : Fs ε _) d
      = (d, .ok (memory, .error (.badInput s!"Collection with name '{name}' does not exist"))) := by
  rw [Fs.exec, TableOfContent.performCollectionMetaOp]
  simp only [hc, Program.run_pure]

end Smoldb
