import Smoldb.Disk.Load
import Smoldb.Disk.Calls

/-!
# Loading what is left of a collection

When a create or a delete is cut short, a part of a collection stays on disk: its directory may be
there without a config, the config without the shards, a shard without its segment.  `Leftover` says
that there is a part of one collection, and the other collections as they were.

A restart loads what it finds.

* Without a config the directory is passed over.
* A config that cannot be read stops the node.
* Otherwise the collection comes back with the shards whose directories are there, and what is
  missing below them is made.

`LoadedFrom` is what a restart adds to the disk: the directory of segments of a shard, and an empty
tree for a segment.  It does not make the segment itself, so a shard that was left without one stays
without one, and `partShard` is what it is loaded as.

## How it goes

The disk changes while it is loaded, so the loops of `Disk/Load.lean` are gone through again with
invariants that allow for it: `LoadedPart` for the shards of the collection, and `LoadedAround` for
the collections of the node, with the others as the catalog has them.  What becomes of the one
collection is a parameter there, its `Fate`, and `LoadsAs` says that a round of the loop has that
fate, whatever was loaded before; so the loop is gone through once for all three cases.
-/

set_option autoImplicit false

namespace Smoldb

open FileTree (View)
open TableOfContent (collectionsPath)

variable {V : Type} {X : Crates V} {ε : Type} {J : ConfigJson} {cat : Catalog}
  {name : CollectionName} {d d' d'' : Disk}

/-! ## Leftovers -/

/-- What there may be at a location in the directory of a collection. -/
def CollectionShape (r : Path) : FileNode Contents → Prop
  | .dir => IsShardPath r
  | .file (.text _) => r = ["config.json"]
  | .file (.tree _) => ∃ s, (s = 0 ∨ s = 1) ∧ r = [shardName s, "segments", "0", "db"]

/-- Where the segment of a shard is kept. -/
def segmentDir (name : CollectionName) (s : ShardId) : Path :=
  collectionDir name ++ [shardName s, "segments", "0"]

/-- A disk holds the collections of a catalog, and of one collection what is left of it. -/
structure Leftover (J : ConfigJson) (cat : Catalog) (name : CollectionName) (d : Disk) : Prop where
  dir : d.lookup collectionsPath = some .dir
  others : ∀ n, n ≠ name → HoldsAt J d n (cat n)
  part : ∀ r n, d.lookup (collectionDir name ++ r) = some n → CollectionShape r n

section ShardPaths

variable {s : ShardId} (hs : s = 0 ∨ s = 1)

include hs

theorem isShardPath_segments : IsShardPath [shardName s, "segments"] := by
  rcases hs with rfl | rfl <;> decide

theorem isShardPath_segment : IsShardPath [shardName s, "segments", "0"] := by
  rcases hs with rfl | rfl <;> decide

end ShardPaths

/-- What a restart may add for a collection: the directory of segments of a shard, and an empty
tree for a segment. -/
def LoadedFrom (name : CollectionName) (d d' : Disk) : Prop :=
  ∀ q, d'.lookup q = d.lookup q ∨ ∃ s, (s = 0 ∨ s = 1) ∧
    (q = collectionDir name ++ [shardName s, "segments"] ∧ d'.lookup q = some .dir ∨
      q = Disk.treePath (segmentDir name s) ∧ d'.lookup q = some (.file (.tree ∅)))

namespace LoadedFrom

theorem refl (name : CollectionName) (d : Disk) : LoadedFrom name d d := fun _ ↦ Or.inl rfl

theorem trans (h : LoadedFrom name d d') (h' : LoadedFrom name d' d'') : LoadedFrom name d d'' := by
  intro q
  rcases h' q with hq' | ⟨s, hs, hq'⟩
  · rcases h q with hq | ⟨s, hs, hq⟩
    · exact Or.inl (hq'.trans hq)
    · exact Or.inr ⟨s, hs, by rwa [hq']⟩
  · exact Or.inr ⟨s, hs, hq'⟩

variable (h : LoadedFrom name d d')

include h

/-- Nothing is added elsewhere. -/
theorem lookup_eq {q : Path} (hsegments : ∀ s, q ≠ collectionDir name ++ [shardName s, "segments"])
    (htree : ∀ s, q ≠ Disk.treePath (segmentDir name s)) : d'.lookup q = d.lookup q := by
  rcases h q with hq | ⟨s, -, ⟨hq, -⟩ | ⟨hq, -⟩⟩
  · exact hq
  · exact absurd hq (hsegments s)
  · exact absurd hq (htree s)

theorem lookup_of_not_prefix {q : Path} (hq : ¬ collectionDir name <+: q) :
    d'.lookup q = d.lookup q := by
  refine h.lookup_eq (fun s heq ↦ hq ?_) fun s heq ↦ hq ?_
  · rw [heq]
    exact List.prefix_append _ _
  · rw [heq, Disk.treePath, segmentDir, List.append_assoc]
    exact List.prefix_append _ _

theorem lookup_entry (entry : String) :
    d'.lookup (collectionDir name ++ [entry]) = d.lookup (collectionDir name ++ [entry]) :=
  h.lookup_eq (fun _ ↦ by simp) fun _ ↦ by simp [Disk.treePath, segmentDir]

theorem lookup_dir : d'.lookup (collectionDir name) = d.lookup (collectionDir name) :=
  h.lookup_eq (fun _ ↦ by simp) fun _ ↦ by simp [Disk.treePath, segmentDir]

theorem lookup_segmentDir (s : ShardId) :
    d'.lookup (segmentDir name s) = d.lookup (segmentDir name s) :=
  h.lookup_eq (fun _ ↦ by simp [segmentDir]) fun _ ↦ by simp [Disk.treePath, segmentDir]

theorem holdsAt {n : CollectionName} (hn : n ≠ name) {e : Option CatalogEntry}
    (he : HoldsAt J d n e) : HoldsAt J d' n e := by
  rw [HoldsAt, ← he]
  funext r
  exact h.lookup_of_not_prefix (collectionDir_apart (Ne.symm hn) r)

theorem leftover (hleft : Leftover J cat name d) : Leftover J cat name d' := by
  refine ⟨?_, fun n hn ↦ h.holdsAt hn (hleft.others n hn), fun r n hn ↦ ?_⟩
  · rw [h.lookup_of_not_prefix]
    · exact hleft.dir
    · rw [collectionDir]
      exact FileTree.not_append_prefix (by simp)
  · rcases h (collectionDir name ++ r) with hq | ⟨s, hs, ⟨hr, hq⟩ | ⟨hr, hq⟩⟩
    · exact hleft.part r n (by rwa [← hq])
    · obtain rfl := Option.some.inj (hn.symm.trans hq)
      rw [List.append_cancel_left hr]
      rcases hs with rfl | rfl
      · exact Or.inl (by decide)
      · exact Or.inr (by decide)
    · obtain rfl := Option.some.inj (hn.symm.trans hq)
      rw [Disk.treePath, segmentDir, List.append_assoc] at hr
      exact ⟨s, hs, List.append_cancel_left hr⟩

end LoadedFrom

namespace Leftover

variable (h : Leftover J cat name d)

include h

/-- The entries of the directory. -/
theorem entry_cases {entry : String} {n : FileNode Contents}
    (hn : d.lookup (collectionDir name ++ [entry]) = some n) :
    (entry = "config.json" ∧ ∃ text, n = .file (.text text)) ∨
      ∃ s, (s = 0 ∨ s = 1) ∧ entry = shardName s ∧ n = .dir := by
  have hshape := h.part [entry] n hn
  match n with
  | .dir =>
    rcases hshape with hshape | hshape
    · exact Or.inr ⟨0, Or.inl rfl, by simpa using hshape, rfl⟩
    · exact Or.inr ⟨1, Or.inr rfl, by simpa using hshape, rfl⟩
  | .file (.text text) => exact Or.inl ⟨List.singleton_inj.mp hshape, text, rfl⟩
  | .file (.tree db) =>
    obtain ⟨s, -, hs⟩ := hshape
    simp at hs

/-- What is at the location of a directory of a shard is a directory. -/
theorem dir_of_isShardPath {r : Path} (hr : IsShardPath r) :
    d.lookup (collectionDir name ++ r) = none ∨ d.lookup (collectionDir name ++ r) = some .dir := by
  cases hn : d.lookup (collectionDir name ++ r) with
  | none => exact Or.inl rfl
  | some n =>
    have hshape := h.part r n hn
    match n with
    | .dir => exact Or.inr rfl
    | .file (.text text) =>
      obtain rfl : r = ["config.json"] := hshape
      exact absurd hr (by decide)
    | .file (.tree db) =>
      obtain ⟨s, hs, rfl⟩ := hshape
      rcases hs with rfl | rfl <;> exact absurd hr (by decide)

theorem isShardPath_of_ne_none {s : ShardId} {entry : String}
    (hentry : d.lookup (collectionDir name ++ [shardName s, "segments", entry]) ≠ none) :
    entry = "0" := by
  obtain ⟨n, hn⟩ := Option.ne_none_iff_exists'.mp hentry
  have hshape := h.part _ n hn
  match n with
  | .dir => rcases hshape with hshape | hshape <;> simp_all
  | .file (.text text) => simp [CollectionShape] at hshape
  | .file (.tree db) =>
    obtain ⟨s', -, hs'⟩ := hshape
    simp at hs'

theorem tree_cases {s : ShardId} {n : FileNode Contents}
    (hn : d.lookup (Disk.treePath (segmentDir name s)) = some n) : ∃ db, n = .file (.tree db) := by
  rw [Disk.treePath, segmentDir, List.append_assoc] at hn
  have hshape := h.part _ n hn
  rcases n with _ | (text | db)
  · rcases hshape with hshape | hshape <;> exact absurd hshape.length_le (by simp)
  · simp [CollectionShape] at hshape
  · exact ⟨db, rfl⟩

/-- The other directories are those of collections. -/
theorem exists_entry {entry : String} (hne : entry ≠ name)
    (hentry : entry ∈ d.names collectionsPath) :
    ∃ e, cat entry = some e ∧ HoldsAt J d entry (some e) := by
  have hholds := h.others entry hne
  cases he : cat entry with
  | some e => exact ⟨e, rfl, by rwa [he] at hholds⟩
  | none =>
    rw [he] at hholds
    have habsent := hholds.lookup_none []
    rw [List.append_nil] at habsent
    exact absurd habsent (FileTree.mem_names.mp hentry)

end Leftover

/-! ## Shards -/

variable (env : LoadEnv)

/-- A segment is opened, and its tree is made if there is none. -/
theorem Segment.exec_load_part {path : Path} (h : path.IsOrdinary)
    (hdir : d.lookup path = some .dir)
    (htree : ∀ n, d.lookup (Disk.treePath path) = some n → ∃ db, n = .file (.tree db)) :
    ∃ d' db, Fs.exec env.listing (Segment.load path) d = (d', .ok (⟨path⟩, db)) ∧
      ∀ q, d'.lookup q = d.lookup q ∨
        q = Disk.treePath path ∧ d'.lookup q = some (.file (.tree ∅)) := by
  cases hl : d.lookup (Disk.treePath path) with
  | some n =>
    obtain ⟨db, rfl⟩ := htree n hl
    exact ⟨d, db, Segment.exec_load env h hl, fun _ ↦ Or.inl rfl⟩
  | none =>
    have hfree : d.Free (Disk.treePath path) := by
      refine ⟨by simp [Disk.treePath], ?_, by simp [hl]⟩
      rw [Disk.treePath, List.dropLast_concat]
      exact hdir
    refine ⟨d.put (Disk.treePath path) (.file (.tree ∅)), ∅, ?_, fun q ↦ ?_⟩
    · rw [Fs.exec, Segment.load, Program.run_bind_of (Fs.exec_pathExists h), hdir,
        if_neg (by simp), Program.run_bind_of (Program.run_expect_of
          (Fs.exec_openTree_new h hdir hl) _)]
      rfl
    · rw [FileTree.lookup_put hfree]
      by_cases hq : q = Disk.treePath path
      · rw [if_pos hq]
        exact Or.inr ⟨hq, rfl⟩
      · rw [if_neg hq]
        exact Or.inl rfl

/-- The segments of a shard that is loaded. -/
def partSegments (d : Disk) (name : CollectionName) (s : ShardId) : HashMap SegmentId Segment :=
  if d.lookup (segmentDir name s) = some .dir then
    (LocalShard.init (collectionDir name ++ [shardName s]) s).segments
  else ∅

/-- A shard that is loaded. -/
def partShard (d : Disk) (name : CollectionName) (s : ShardId) : ReplicaSet :=
  .new ⟨s, collectionDir name ++ [shardName s], partSegments d name s⟩ [] name

/-- With its segment, a shard is as it was made. -/
theorem partShard_of_dir {s : ShardId} (h : d.lookup (segmentDir name s) = some .dir) :
    partShard d name s = openedShard name s := by
  rw [partShard, partSegments, if_pos h]
  rfl

/-- A shard that is as it was made has its segment. -/
theorem dir_of_partShard {s : ShardId} (h : partShard d name s = openedShard name s) :
    d.lookup (segmentDir name s) = some .dir := by
  by_contra hne
  rw [partShard, partSegments, if_neg hne] at h
  have hsegments : (∅ : HashMap SegmentId Segment)
      = (LocalShard.init (collectionDir name ++ [shardName s]) s).segments :=
    congrArg (fun rs ↦ rs.localShard.segments) h
  have hzero := LocalShard.zero_mem_init (collectionDir name ++ [shardName s]) s
  rw [← hsegments] at hzero
  exact AList.notMem_empty _ hzero

/-- An empty directory is listed in one order. -/
theorem arrange_names_eq_nil {dir : Path} (h : ∀ entry, d.lookup (dir ++ [entry]) = none)
    (order : IterOrder String) : order.arrange (d.names dir) = [] := by
  have hnames : d.names dir = [] := List.eq_nil_iff_forall_not_mem.mpr fun entry hentry ↦
    FileTree.mem_names.mp hentry (h entry)
  rw [hnames]
  exact (order.perm []).eq_nil

/-- The directory of segments of a shard is made, if it is not there. -/
theorem Leftover.exec_mkSegments (h : Leftover J cat name d) (hname : Path.IsFileName name)
    (listing : Path → IterOrder String) {s : ShardId} (hs : s = 0 ∨ s = 1)
    (hdir : d.lookup (collectionDir name ++ [shardName s]) = some .dir) :
    ∃ d', Fs.exec listing
        (Fs.createDirAll (collectionDir name ++ [shardName s] ++ ["segments"])) d = (d', .ok ()) ∧
      d'.lookup (collectionDir name ++ [shardName s] ++ ["segments"]) = some .dir ∧
      LoadedFrom name d d' := by
  have hord : Path.IsOrdinary (collectionDir name ++ [shardName s] ++ ["segments"]) := by
    rw [List.append_assoc]
    exact (collectionDir_isOrdinary hname).append (isShardPath_segments hs).ordinary
  have habove : ∀ q, q <+: collectionDir name ++ [shardName s] → d.lookup q = some .dir := by
    intro q hq
    rw [← FileTree.withDirs_lookup hdir, View.withDirs, if_pos hq]
  obtain ⟨d', hrun, hview⟩ := Fs.exec_createDirAll hord listing fun q a hq ↦ by
    rcases List.prefix_concat_iff.mp hq with rfl | hq
    · have hcases := h.dir_of_isShardPath (isShardPath_segments hs)
      rw [List.append_assoc]
      rcases hcases with hn | hn
      · exact fun ha ↦ by cases hn.symm.trans ha
      · exact fun ha ↦ by cases hn.symm.trans ha
    · rw [habove q hq]
      simp
  refine ⟨d', hrun, by rw [hview, View.withDirs, if_pos List.prefix_rfl], fun q ↦ ?_⟩
  by_cases hq : q <+: collectionDir name ++ [shardName s] ++ ["segments"]
  · have hdir' : d'.lookup q = some .dir := by rw [hview, View.withDirs, if_pos hq]
    rcases List.prefix_concat_iff.mp hq with rfl | hq
    · exact Or.inr ⟨s, hs, Or.inl ⟨by rw [List.append_assoc]; rfl, hdir'⟩⟩
    · exact Or.inl (hdir'.trans (habove q hq).symm)
  · rw [hview, View.withDirs, if_neg hq]
    exact Or.inl rfl

/-- **A shard is loaded**, with its segment if the directory of the segment is there. -/
theorem LocalShard.exec_load_part (h : Leftover J cat name d) (hname : Path.IsFileName name)
    {s : ShardId} (hs : s = 0 ∨ s = 1)
    (hdir : d.lookup (collectionDir name ++ [shardName s]) = some .dir) :
    ∃ d' store, Fs.exec env.listing
        (LocalShard.load env (collectionDir name ++ [shardName s])) d
          = (d', .ok ((partShard d name s).localShard, store)) ∧ LoadedFrom name d d' := by
  have hid := idOfPath_shardName (collectionDir name) hs
  have hord₁ : Path.IsOrdinary (collectionDir name ++ [shardName s] ++ ["segments"]) := by
    rw [List.append_assoc]
    exact (collectionDir_isOrdinary hname).append (isShardPath_segments hs).ordinary
  have hord₂ : Path.IsOrdinary (segmentDir name s) :=
    (collectionDir_isOrdinary hname).append (isShardPath_segment hs).ordinary
  obtain ⟨d₁, hmkdir, hdir₁, hfrom₁⟩ := h.exec_mkSegments hname env.listing hs hdir
  have h₁ := hfrom₁.leftover h
  have hread : Fs.exec env.listing _ _ = _ := Fs.exec_readDir hord₁ hdir₁
  -- the one thing there can be in the directory of segments is the segment `0`
  have hpath : ∀ entry, collectionDir name ++ [shardName s] ++ ["segments"] ++ [entry]
      = collectionDir name ++ [shardName s, "segments", entry] := by simp
  have hentry : ∀ entry, d₁.lookup
      (collectionDir name ++ [shardName s] ++ ["segments"] ++ [entry]) ≠ none → entry = "0" := by
    intro entry hne
    rw [hpath] at hne
    exact h₁.isShardPath_of_ne_none hne
  have hcases : d₁.lookup (segmentDir name s) = none ∨ d₁.lookup (segmentDir name s) = some .dir :=
    h₁.dir_of_isShardPath (isShardPath_segment hs)
  rw [partShard, partSegments, ← hfrom₁.lookup_segmentDir]
  rcases hcases with hnone | hsegment
  · have hnames := arrange_names_eq_nil (d := d₁) (fun entry ↦ by
      by_contra hne
      obtain rfl := hentry entry hne
      rw [hpath] at hne
      exact hne hnone) (env.listing (collectionDir name ++ [shardName s] ++ ["segments"]))
    rw [hnames] at hread
    refine ⟨d₁, fun _ ↦ ∅, ?_, hfrom₁⟩
    rw [Fs.exec, LocalShard.load, Program.run_bind_of (Program.run_expect_of hmkdir _),
      Program.run_bind_of (Program.run_expect_of hread _), hid, hnone, if_neg (by simp)]
    have harranged : (HashMap.arrangedBy (∅ : HashMap SegmentId Path)
        (env.segmentPaths (collectionDir name ++ [shardName s]))).entries = [] :=
      ((env.segmentPaths _).perm []).eq_nil
    show Program.run _ (List.foldlM LocalShard.loadSegment (∅, fun _ ↦ ∅)
      (HashMap.arrangedBy (∅ : HashMap SegmentId Path) _).entries >>= _) d₁ = _
    rw [harranged]
    rfl
  · have hnames := arrange_names_eq_singleton (d := d₁) (s := "0") (fun entry ↦ ⟨hentry entry, by
      rintro rfl
      rw [hpath]
      show d₁.lookup (segmentDir name s) ≠ none
      rw [hsegment]
      simp⟩) (env.listing (collectionDir name ++ [shardName s] ++ ["segments"]))
    rw [hnames] at hread
    obtain ⟨d₂, db, hload, hsame⟩ := Segment.exec_load_part env hord₂ hsegment
      fun n hn ↦ h₁.tree_cases hn
    have hfrom₂ : LoadedFrom name d₁ d₂ := fun q ↦
      (hsame q).imp_right fun hq ↦ ⟨s, hs, Or.inr hq⟩
    have hsegmentDir : collectionDir name ++ [shardName s] ++ ["segments", "0"]
        = segmentDir name s := by simp [segmentDir]
    rw [← hsegmentDir] at hload
    refine ⟨d₂, openedStore db, ?_, hfrom₁.trans hfrom₂⟩
    rw [if_pos hsegment]
    exact LocalShard.exec_load_of_segment env hmkdir hread hid hload

/-! ## Collections -/

/-- The shards that have been loaded when some of the entries of the directory have been visited. -/
def LoadedPart (d : Disk) (name : CollectionName) (done : List String)
    (shards : HashMap ShardId ReplicaSet) : Prop :=
  ∀ s, shards.lookup s
    = if (s = 0 ∨ s = 1) ∧ shardName s ∈ done then some (partShard d name s) else none

namespace LoadedPart

variable {done : List String} {shards : HashMap ShardId ReplicaSet}
  (h : LoadedPart d name done shards)

include h

theorem skip : LoadedPart d name (done ++ ["config.json"]) shards := by
  intro s
  have hmem : (s = 0 ∨ s = 1) ∧ shardName s ∈ done ++ ["config.json"]
      ↔ (s = 0 ∨ s = 1) ∧ shardName s ∈ done := by
    refine and_congr_right fun hs ↦ ?_
    simp [(shardName_ordinary hs).2]
  simp only [h s, hmem]

theorem insert {t : ShardId} (ht : t = 0 ∨ t = 1) :
    LoadedPart d name (done ++ [shardName t]) (shards.insert t (partShard d name t)) := by
  intro s
  by_cases hs : s = t
  · subst hs
    simp [AList.lookup_insert, ht]
  · have hmem : shardName s ∈ done ++ [shardName t] ↔ shardName s ∈ done := by
      simp [shardName_injective.ne hs]
    simp only [AList.lookup_insert_ne hs, h s, hmem]

end LoadedPart

/-- What a restart has added makes no difference to a shard. -/
theorem LoadedFrom.partShard_eq (h : LoadedFrom name d d') (s : ShardId) :
    partShard d' name s = partShard d name s := by
  rw [partShard, partShard, partSegments, partSegments, h.lookup_segmentDir]

/-- One entry of the directory of a collection. -/
theorem Collection.exec_loadShard_part (h : Leftover J cat name d) (hname : Path.IsFileName name)
    (hfrom : LoadedFrom name d d') {entry : String}
    (hentry : entry ∈ d.names (collectionDir name)) {done : List String}
    {loaded : HashMap ShardId ReplicaSet × Trees} (hdone : LoadedPart d name done loaded.1) :
    ∃ loaded' d'', Fs.exec env.listing
        (Collection.loadShard env name (collectionDir name) loaded (.ok entry)) d'
          = (d'', .ok loaded') ∧
      LoadedFrom name d d'' ∧ LoadedPart d name (done ++ [entry]) loaded'.1 := by
  have hord := collectionDir_isOrdinary hname
  have h' := hfrom.leftover h
  obtain ⟨n, hn⟩ := Option.ne_none_iff_exists'.mp (FileTree.mem_names.mp hentry)
  rw [← hfrom.lookup_entry] at hn
  rcases h'.entry_cases hn with ⟨rfl, text, rfl⟩ | ⟨s, hs, rfl, rfl⟩
  · refine ⟨loaded, d', ?_, hfrom, hdone.skip⟩
    rw [Fs.exec, Collection.loadShard,
      Program.run_bind_of (Program.run_expect_of (Program.run_ofExcept_ok "config.json" d') _),
      Program.run_bind_of (Fs.exec_isDir (hord.append (by decide))), hn, if_neg (by simp)]
    rfl
  · obtain ⟨d'', store, hload, hfrom'⟩ := LocalShard.exec_load_part env h' hname hs hn
    rw [hfrom.partShard_eq] at hload
    have hshard : Path.IsOrdinary (collectionDir name ++ [shardName s]) :=
      hord.append fun piece hp ↦ by
        rw [List.mem_singleton.mp hp]
        exact (shardName_ordinary hs).1
    refine ⟨(loaded.1.insert s (partShard d name s), Function.update loaded.2 s store), d'', ?_,
      hfrom.trans hfrom', hdone.insert hs⟩
    rw [Fs.exec, Collection.loadShard,
      Program.run_bind_of (Program.run_expect_of (Program.run_ofExcept_ok (shardName s) d') _),
      Program.run_bind_of (Fs.exec_isDir hshard), hn, if_pos (by simp), Program.run_bind_of hload]
    rfl

/-- A collection that has been loaded from what is left of it. -/
structure Collection.OpenedPart (d : Disk) (c : Collection X) (name : CollectionName)
    (config : CollectionConfig) : Prop where
  id : c.id = name
  config : c.config = config
  path : c.path = collectionDir name
  shards : ∀ s, c.replicaHolder.shards.lookup s
    = if (s = 0 ∨ s = 1) ∧ d.lookup (collectionDir name ++ [shardName s]) ≠ none then
        some (partShard d name s)
      else none

section Config

variable {text : String}
  (hconfig : d.lookup (collectionDir name ++ ["config.json"]) = some (.file (.text text)))

include hconfig

/-- **A collection is loaded** with the shards whose directories are there. -/
theorem Collection.exec_load_part (h : Leftover J cat name d) (hname : Path.IsFileName name)
    {config : CollectionConfig} (hparse : J.fromReader text = .ok config) :
    ∃ (c : Collection X) (trees : Trees) (d' : Disk), c.OpenedPart d name config ∧
      Fs.exec env.listing (Collection.load J env name (collectionDir name)) d
        = (d', .ok (c, trees)) ∧ LoadedFrom name d d' := by
  have hmem : ∀ entry, entry ∈ (env.listing (collectionDir name)).arrange
      (d.names (collectionDir name)) ↔ entry ∈ d.names (collectionDir name) :=
    fun entry ↦ ((env.listing _).perm _).mem_iff
  have hempty : LoadedPart d name []
      ((∅, fun _ _ ↦ ∅) : HashMap ShardId ReplicaSet × Trees).1 := fun s ↦ by simp
  have hround : ∀ done entry, entry ∈ (env.listing (collectionDir name)).arrange
      (d.names (collectionDir name)) → ∀ (loaded : HashMap ShardId ReplicaSet × Trees) (d₁ : Disk),
      LoadedFrom name d d₁ ∧ LoadedPart d name done loaded.1 →
      ∃ loaded' d₂, Fs.exec env.listing
          (Collection.loadShard env name (collectionDir name) loaded (.ok entry)) d₁
            = (d₂, .ok loaded') ∧
        LoadedFrom name d d₂ ∧ LoadedPart d name (done ++ [entry]) loaded'.1 :=
    fun done entry hentry loaded d₁ hdone ↦
      Collection.exec_loadShard_part env h hname hdone.1 ((hmem entry).mp hentry) hdone.2
  obtain ⟨loaded, d', hrun, hfrom, hloaded⟩ :=
    Program.run_foldlM hround ⟨.refl name d, hempty⟩
  rw [List.nil_append] at hloaded
  refine ⟨_, _, d', ⟨rfl, rfl, rfl, fun s ↦ ?_⟩,
    Collection.exec_load_of_config env (collectionDir_isOrdinary hname) name hconfig hparse
      hrun, hfrom⟩
  rw [ReplicaHolder.new, HashMap.lookup_arrangedBy, hloaded]
  simp only [hmem, FileTree.mem_names]

/-- A config that cannot be read. -/
theorem Collection.exec_load_unreadable (hname : Path.IsFileName name) {e : String}
    (hparse : J.fromReader text = .error e) :
    Fs.exec env.listing (Collection.load (X := X) J env name (collectionDir name)) d
      = (d, .error (.badInput s!"Failed to parse collection config JSON: {e}")) := by
  have hordc : Path.IsOrdinary (collectionDir name ++ ["config.json"]) :=
    (collectionDir_isOrdinary hname).append (by decide)
  have hread : Fs.exec env.listing (do
      Program.ofExcept (J.fromReader (← Fs.readFile (collectionDir name ++ ["config.json"])))) d
        = (d, .error e) := by
    rw [Fs.exec, Program.run_bind_of (Fs.exec_readFile hordc hconfig), hparse]
    rfl
  rw [Fs.exec, Collection.load, Program.run_bind_of (Fs.exec_pathExists hordc), hconfig,
    if_neg (by simp), Program.run_bind_of (Program.run_mapError_of
      (Fs.exec_openFile hordc hconfig) _),
    Program.run_bind_of_error (Program.run_mapError_of_error hread _)]

end Config

/-- What a restart has added makes no difference to a collection. -/
theorem Collection.OpenedPart.of_loadedFrom {c : Collection X} {config : CollectionConfig}
    (h : LoadedFrom name d d') (hc : c.OpenedPart d' name config) : c.OpenedPart d name config := by
  refine ⟨hc.id, hc.config, hc.path, fun s ↦ ?_⟩
  rw [hc.shards, h.lookup_entry, h.partShard_eq]

/-- **A collection has all its shards** exactly if the directories of their segments are there. -/
theorem Collection.OpenedPart.opened_iff {c : Collection X} {config : CollectionConfig}
    (hc : c.OpenedPart d name config) :
    c.Opened name config ↔ ∀ s, s = 0 ∨ s = 1 → d.lookup (segmentDir name s) = some .dir := by
  constructor
  · intro hopened s hs
    have hshard := hc.shards s
    rw [hopened.shards, if_pos hs] at hshard
    split at hshard
    · exact dir_of_partShard (Option.some.inj hshard).symm
    · exact nomatch hshard
  · intro hsegments
    refine ⟨hc.id, hc.config, hc.path, fun s ↦ ?_⟩
    rw [hc.shards]
    by_cases hs : s = 0 ∨ s = 1
    · have hentry : d.lookup (collectionDir name ++ [shardName s]) ≠ none := by
        have hdir := hsegments s hs
        rw [segmentDir, List.append_cons] at hdir
        rw [FileTree.lookup_of_append (by simp) hdir]
        simp
      rw [if_pos ⟨hs, hentry⟩, if_pos hs, partShard_of_dir (hsegments s hs)]
    · rw [if_neg fun h ↦ hs h.1, if_neg hs]

/-! ## The table of contents -/

section LoadAll

variable {peer : PeerId} (h : Leftover J cat name d)

/-- What has been loaded when some of the directories have been visited. -/
structure LoadedAround (cat : Catalog) (peer : PeerId) (name : CollectionName)
    (Fate : Option (Collection X) → Prop) (done : List String) (memory : Memory X) : Prop where
  opens : ∀ n e, n ≠ name → cat n = some e → n ∈ done → memory.Opens peer n e
  fate : name ∈ done → Fate (memory.toc.collections.lookup name)
  absent : name ∉ done → memory.toc.collections.lookup name = none

variable {env}

/-- What becomes of the collection there is a part of. -/
structure LoadsAs (J : ConfigJson) (env : LoadEnv) (peer : PeerId) (ε : Type) (d : Disk)
    (name : CollectionName) (Fate : Option (Collection X) → Prop) : Prop where
  round : ∀ (memory : Memory X) (d₁ : Disk), LoadedFrom name d d₁ →
    memory.toc.collections.lookup name = none ∨ Fate (memory.toc.collections.lookup name) →
    ∃ (memory' : Memory X) (d₂ : Disk), Fs.exec env.listing
        (TableOfContent.loadCollection J env peer memory (.ok name) : Fs ε _) d₁
          = (d₂, .ok memory') ∧ LoadedFrom name d d₂ ∧
      Fate (memory'.toc.collections.lookup name) ∧
      ∀ n e, n ≠ name → memory.Opens peer n e → memory'.Opens peer n e

include h

theorem TableOfContent.exec_loadCollection_around (hcat : cat.Proper)
    {Fate : Option (Collection X) → Prop} (hfate : LoadsAs J env peer ε d name Fate)
    {entry : String} (hentry : entry ∈ d.names collectionsPath) {done : List String}
    {memory : Memory X} (hfrom : LoadedFrom name d d')
    (hdone : LoadedAround cat peer name Fate done memory) :
    ∃ (memory' : Memory X) (d'' : Disk), Fs.exec env.listing
        (TableOfContent.loadCollection J env peer memory (.ok entry) : Fs ε _) d'
          = (d'', .ok memory') ∧ LoadedFrom name d d'' ∧
      LoadedAround cat peer name Fate (done ++ [entry]) memory' := by
  by_cases hne : entry = name
  · subst hne
    have hbefore : memory.toc.collections.lookup entry = none ∨
        Fate (memory.toc.collections.lookup entry) := by
      by_cases hmem : entry ∈ done
      · exact Or.inr (hdone.fate hmem)
      · exact Or.inl (hdone.absent hmem)
    obtain ⟨memory', d'', hrun, hfrom', hfate', hopens⟩ := hfate.round memory d' hfrom hbefore
    refine ⟨memory', d'', hrun, hfrom', fun n e hn he hmem ↦ ?_, fun _ ↦ hfate', fun hmem ↦ ?_⟩
    · refine hopens n e hn (hdone.opens n e hn he ?_)
      simpa [hn] using hmem
    · exact absurd (by simp) hmem
  · obtain ⟨e, he, hholds⟩ := h.exists_entry hne hentry
    obtain ⟨c, hc, hrun⟩ := exec_loadCollection_of_some (X := X) (ε := ε) env peer
      (hfrom.holdsAt hne hholds) (hcat.isFileName entry e he) (hcat.other entry e he) memory
    have hlookup : (memory.insert peer entry c fun s ↦
        openedStore (e.trees s)).toc.collections.lookup
        name = memory.toc.collections.lookup name := AList.lookup_insert_ne (Ne.symm hne)
    refine ⟨_, d', hrun, hfrom, fun n e' hn he' hmem ↦ ?_, fun hmem ↦ ?_, fun hmem ↦ ?_⟩
    · by_cases hnentry : n = entry
      · subst hnentry
        obtain rfl : e' = e := Option.some.inj (he'.symm.trans he)
        exact memory.opens_insert peer hc fun s ↦ by simp [openedStore]
      · rw [Memory.opens_insert_of_ne hnentry]
        refine hdone.opens n e' hn he' ?_
        simpa [hnentry] using hmem
    · rw [hlookup]
      refine hdone.fate ?_
      simpa [Ne.symm hne] using hmem
    · rw [hlookup]
      refine hdone.absent ?_
      simpa [Ne.symm hne] using hmem

variable (env peer) in
/-- **A restart** next to what is left of a collection. -/
theorem TableOfContent.exec_load_around (hcat : cat.Proper) {Fate : Option (Collection X) → Prop}
    (hfate : LoadsAs J env peer ε d name Fate) :
    ∃ (memory : Memory X) (d' : Disk),
      Fs.exec env.listing (TableOfContent.load J env peer : Fs ε _) d = (d', .ok memory) ∧
      LoadedFrom name d d' ∧ (∀ n e, n ≠ name → cat n = some e → memory.Opens peer n e) ∧
      (d.lookup (collectionDir name) ≠ none → Fate (memory.toc.collections.lookup name)) ∧
      (d.lookup (collectionDir name) = none → memory.toc.collections.lookup name = none) := by
  have hord : collectionsPath.IsOrdinary := by decide
  have hmem : ∀ n, n ∈ (env.listing collectionsPath).arrange (d.names collectionsPath) ↔
      d.lookup (collectionDir n) ≠ none :=
    fun n ↦ ((env.listing _).perm _).mem_iff.trans FileTree.mem_names
  have hempty : LoadedAround cat peer name Fate [] (⟨⟨∅⟩, Stores.empty⟩ : Memory X) :=
    ⟨fun _ _ _ _ h ↦ absurd h List.not_mem_nil, fun h ↦ absurd h List.not_mem_nil,
      fun _ ↦ AList.lookup_empty _⟩
  have hround : ∀ done entry,
      entry ∈ (env.listing collectionsPath).arrange (d.names collectionsPath) →
      ∀ (memory : Memory X) (d₁ : Disk),
      LoadedFrom name d d₁ ∧ LoadedAround cat peer name Fate done memory →
      ∃ (memory' : Memory X) (d₂ : Disk), Fs.exec env.listing
          (loadCollection J env peer memory (.ok entry) : Fs ε _) d₁ = (d₂, .ok memory') ∧
        LoadedFrom name d d₂ ∧ LoadedAround cat peer name Fate (done ++ [entry]) memory' :=
    fun done entry hentry memory d₁ hdone ↦ exec_loadCollection_around h hcat hfate
      (((env.listing _).perm _).mem_iff.mp hentry) hdone.1 hdone.2
  obtain ⟨memory, d', hrun, hfrom, hloaded⟩ := Program.run_foldlM hround ⟨.refl name d, hempty⟩
  rw [List.nil_append] at hloaded
  refine ⟨memory, d', ?_, hfrom, fun n e hn he ↦ hloaded.opens n e hn he ((hmem n).mpr ?_),
    fun hdir ↦ hloaded.fate ((hmem name).mpr hdir),
    fun hnone ↦ hloaded.absent fun hname ↦ (hmem name).mp hname hnone⟩
  · rw [Fs.exec, load, Program.run_bind_of (Program.run_expect_of
        (Fs.exec_createDirAll_of_dir hord h.dir) _),
      Program.run_bind_of (Program.run_expect_of (Fs.exec_readDir hord h.dir) _),
      List.foldlM_map, hrun]
  · have hholds := h.others n hn
    rw [he] at hholds
    rw [hholds.lookup_dir]
    simp

omit h

/-- A directory without a config is passed over. -/
theorem loadsAs_none (hname : Path.IsFileName name)
    (hconfig : d.lookup (collectionDir name ++ ["config.json"]) = none) :
    LoadsAs (X := X) J env peer ε d name (· = none) := by
  refine ⟨fun memory d₁ hfrom hbefore ↦
    ⟨memory, d₁, ?_, hfrom, or_self_iff.mp hbefore, fun _ _ _ hn ↦ hn⟩⟩
  rw [TableOfContent.exec_loadCollection_eq env hname, hfrom.lookup_entry, hconfig,
    if_neg (by simp)]

section Config

variable {text : String}
  (hconfig : d.lookup (collectionDir name ++ ["config.json"]) = some (.file (.text text)))

include hconfig

/-- A directory with a config is loaded. -/
theorem loadsAs_part (h : Leftover J cat name d) (hname : Path.IsFileName name)
    {config : CollectionConfig} (hparse : J.fromReader text = .ok config) :
    LoadsAs (X := X) J env peer ε d name fun o ↦
      ∃ c, o = some c ∧ c.OpenedPart d name config := by
  refine ⟨fun memory d₁ hfrom _ ↦ ?_⟩
  have hconfig₁ := (hfrom.lookup_entry "config.json").trans hconfig
  obtain ⟨c, trees, d₂, hc, hload, hfrom'⟩ :=
    Collection.exec_load_part (X := X) env hconfig₁ (hfrom.leftover h) hname hparse
  refine ⟨memory.insert peer name c trees, d₂, ?_, hfrom.trans hfrom',
    ⟨c, AList.lookup_insert _, hc.of_loadedFrom hfrom⟩, fun n e hn hopens ↦
      (Memory.opens_insert_of_ne hn).mpr hopens⟩
  rw [TableOfContent.exec_loadCollection_eq env hname, hconfig₁, if_pos (by simp), Fs.exec,
    Program.run_bind_of (Program.run_expect_of hload _), ← hc.id]
  rfl

variable (env peer) in
/-- **A config that cannot be read stops the node.** -/
theorem TableOfContent.exec_load_unreadable (h : Leftover J cat name d)
    (hname : Path.IsFileName name) (hcat : cat.Proper) {e : String}
    (hparse : J.fromReader text = .error e) :
    ∃ (d' : Disk) (message : String), Fs.exec env.listing
      (TableOfContent.load J env peer : Fs ε (Memory X)) d = (d', .panicked message) := by
  have hord : collectionsPath.IsOrdinary := by decide
  have hmem : ∀ n, n ∈ (env.listing collectionsPath).arrange (d.names collectionsPath) ↔
      n ∈ d.names collectionsPath := fun n ↦ ((env.listing _).perm _).mem_iff
  have hdir : d.lookup (collectionDir name) = some .dir :=
    FileTree.lookup_of_append (by simp) hconfig
  have hex : ∃ entry ∈ (env.listing collectionsPath).arrange (d.names collectionsPath),
      entry = name := by
    refine ⟨name, (hmem name).mpr (FileTree.mem_names.mpr ?_), rfl⟩
    show d.lookup (collectionDir name) ≠ none
    rw [hdir]
    simp
  -- the other collections are loaded, until it is the turn of this one
  have hok : ∀ entry ∈ (env.listing collectionsPath).arrange (d.names collectionsPath),
      ¬ entry = name → ∀ (memory : Memory X) (d₁ : Disk), d₁ = d →
      ∃ (memory' : Memory X) (d₂ : Disk), Fs.exec env.listing
        (loadCollection J env peer memory (.ok entry) : Fs ε _) d₁ = (d₂, .ok memory') ∧
          d₂ = d := by
    rintro entry hentry hne memory d₁ rfl
    obtain ⟨e', he', hholds⟩ := h.exists_entry hne ((hmem entry).mp hentry)
    obtain ⟨c, -, hrun⟩ := exec_loadCollection_of_some (X := X) (ε := ε) env peer hholds
      (hcat.isFileName entry e' he') (hcat.other entry e' he') memory
    exact ⟨_, d₁, hrun, rfl⟩
  have hpanic : ∀ entry ∈ (env.listing collectionsPath).arrange (d.names collectionsPath),
      entry = name → ∀ (memory : Memory X) (d₁ : Disk), d₁ = d →
      ∃ (d₂ : Disk) (message : String), Fs.exec env.listing
        (loadCollection J env peer memory (.ok entry) : Fs ε _) d₁ = (d₂, .panicked message) := by
    rintro entry - rfl memory d₁ rfl
    refine ⟨d₁, "Failed to load collection from path", ?_⟩
    rw [exec_loadCollection_eq env hname, hconfig, if_pos (by simp)]
    exact Program.run_bind_of_panicked (Program.run_expect_of_error
      (Collection.exec_load_unreadable env hconfig hname hparse) _) _
  obtain ⟨d', message, hrun⟩ : ∃ (d' : Disk) (message : String), Fs.exec env.listing
      (((env.listing collectionsPath).arrange (d.names collectionsPath)).foldlM
        (fun memory entry ↦ loadCollection J env peer memory (.ok entry))
        (⟨⟨∅⟩, Stores.empty⟩ : Memory X) : Fs ε _) d = (d', .panicked message) :=
    Program.run_foldlM_panicked hex hok hpanic rfl
  refine ⟨d', message, ?_⟩
  rw [Fs.exec, load, Program.run_bind_of (Program.run_expect_of
      (Fs.exec_createDirAll_of_dir hord h.dir) _),
    Program.run_bind_of (Program.run_expect_of (Fs.exec_readDir hord h.dir) _),
    List.foldlM_map]
  exact hrun

end Config

end LoadAll

end Smoldb
