import Smoldb.Disk.Isolation
import Smoldb.Disk.Remnant

/-!
# Crashes

A node that is stopped in the middle of a create or a delete leaves a part of the collection on
disk: `Node.crash` is what is there after any number of the calls, with the next one as far as it
gets.  Whatever it is, the other collections are as they were (`leftover_crash`), and it depends on
nothing but what is left whether the next start goes well: `recovers_iff` says when it does.

`Node.Recovers` is what should hold.  The node comes up, with every collection it has had except the
one that was being deleted, and the collection whose operation was cut short is there with all its
shards, or is not in the way of being created.

`Settled` is when it does.  There is nothing left of the collection, or a config that can be read
and the directories of both segments.  In between,

* with a directory but no config, the start passes over it, and a create finds it in its way;
* with a config that cannot be read, the node does not start at all;
* with a config but not all segments, the collection comes back with fewer shards, or with a shard
  that has no segment.

## How it goes

What a crash leaves is an invariant of the calls: `Leftover` (`Disk/Remnant.lean`) holds before the
operation and is kept by each of its calls, also by one that is cut short, since all of them are
local to the directory of the collection and add nothing there but what belongs there
(`addsOnly_answer`, `addsOnly_cut`).  What the next start makes of it is in `Disk/Remnant.lean`, so
`settled_of_start` and `start_of_settled` only have to put it together.
-/

set_option autoImplicit false

namespace Smoldb

open FileTree (View LocalTo AddsOnly)
open TableOfContent (collectionsPath newPath)

variable {V : Type} {X : Crates V} {ε : Type} {J : ConfigJson} {cat : Catalog} {peer : PeerId}
  {name : CollectionName} {d : Disk}

/-! ## What it means to recover -/

/-- What is on disk when a node is stopped in the middle of an operation: after `n` of its calls,
and with the next one as far as it gets. -/
def Node.crash (J : ConfigJson) (peer : PeerId) (listing : Path → IterOrder String)
    (order : IterOrder (Σ _ : ShardId, ReplicaSet)) (operation : CollectionMetaOperation) (n : ℕ)
    (extent : (op : DiskOp) → op.Extent) (node : Node X) : Disk :=
  Program.crash (Disk.answer listing) (fun d op ↦ d.cut op (extent op))
    (TableOfContent.performCollectionMetaOp J peer order operation node.memory : Fs Empty _) n
    node.disk

/-- A node has a collection, with all the shards that `Collection::init` makes. -/
def Node.HasAllShards (node : Node X) (name : CollectionName) : Prop :=
  ∃ c, node.memory.toc.collections.lookup name = some c ∧ ∀ order s,
    c.replicaHolder.shards.lookup s = (Collection.init (X := X) name c.config (collectionDir name)
      order).replicaHolder.shards.lookup s

/-- A node does not have a collection, which can be created. -/
def Node.CanCreate (J : ConfigJson) (peer : PeerId) (node : Node X)
    (name : CollectionName) : Prop :=
  name ∉ node.memory.toc.collections ∧ ∀ listing order params,
    (node.performCollectionMetaOp J peer listing order (.createCollection name params)).2
      = some (.ok true)

/-- What a disk is left with can be started from: the node comes up with the collections it has had,
except for one that was being deleted, and the one whose operation was cut short is there with all
its shards, or can be created. -/
def Node.Recovers (J : ConfigJson) (peer : PeerId) (node : Node X)
    (operation : CollectionMetaOperation) (d : Disk) : Prop :=
  ∀ env, ∃ node' : Node X, Node.start J peer env d = (node', []) ∧
    (∀ name, operation ≠ .deleteCollection name → node.Reopens peer node' name) ∧
    (node'.HasAllShards operation.collectionName ∨ node'.CanCreate J peer operation.collectionName)

/-- A collection is not there at all, or there are a config that can be read and the directories of
its segments. -/
def Settled (J : ConfigJson) (name : CollectionName) (d : Disk) : Prop :=
  d.lookup (collectionDir name) = none ∨
    (∃ text config, d.lookup (collectionDir name ++ ["config.json"]) = some (.file (.text text)) ∧
      J.fromReader text = .ok config) ∧
    ∀ s, s = 0 ∨ s = 1 → d.lookup (segmentDir name s) = some .dir

/-! ## What a crash leaves -/

namespace Disk

variable {dir : Path}

theorem localTo_prune_all (hdir : dir ≠ []) (removed : List Path) :
    LocalTo dir fun d : Disk ↦ (removed.foldl (fun d r ↦ d.prune (dir ++ r)) d, ()) := by
  induction removed with
  | nil => exact .pure ()
  | cons r removed ih =>
    have hne : dir ++ r ≠ [] := by simp [hdir]
    exact (FileTree.localTo_prune (List.prefix_append dir r) hne ()).bind hdir fun _ ↦ ih

/-- **A call that is cut short stays in the directory of the collection.** -/
theorem localTo_cut (h : dir.IsOrdinary) (hdir : dir ≠ []) {op : DiskOp}
    (hop : op.Makes dir ∨ op.Removes dir) (extent : op.Extent) :
    LocalTo dir fun d : Disk ↦ (d.cut op extent, ()) := by
  have hconfig : Path.IsOrdinary (dir ++ ["config.json"]) := h.append (by decide)
  rcases hop with hop | hop
  · cases op with
    | pathExists path => exact .pure ()
    | createFile path => exact .pure ()
    | createDirAll path =>
      obtain ⟨r, hr, rfl⟩ := hop
      exact (FileTree.localTo_createDirAll_take (h.append hr.ordinary) (List.prefix_append _ _)
        hdir extent).map fun _ ↦ ()
    | openTree path =>
      obtain ⟨s, hs, rfl⟩ := hop
      have hshard : IsShardPath [s, "segments", "0"] := by rcases hs with rfl | rfl <;> decide
      exact (FileTree.localTo_createDirAll_take (h.append hshard.ordinary)
        (List.prefix_append _ _) hdir extent).map fun _ ↦ ()
    | writeFile path text =>
      obtain rfl : path = dir ++ ["config.json"] := hop
      exact (FileTree.localTo_write hconfig (List.prefix_append _ _) hdir _).map fun _ ↦ ()
    | _ => exact hop.elim
  · cases op with
    | pathExists path => exact .pure ()
    | removeDirAll path =>
      obtain rfl : path = dir := hop
      have hremove : LocalTo path fun d : Disk ↦
          if d.lookup path = some .dir then
            (extent.foldl (fun d r ↦ d.prune (path ++ r)) d, ()) else (d, ()) :=
        .ite (localTo_prune_all hdir extent) (.pure ()) fun d d' _ _ hsame ↦ by
          rw [FileTree.lookup_congr_below hsame List.prefix_rfl]
      refine hremove.of_eq fun d hd ↦ ?_
      rw [cut, FileTree.resolve_of_ordinary h hd]
      by_cases hl : d.lookup path = some .dir
      · simp only [if_pos hl]
      · simp only [if_neg hl]
    | _ => exact hop.elim

/-- What belongs to a collection, at its place. -/
def Belongs (dir : Path) (q : Path) (n : FileNode Contents) : Prop :=
  ∀ r, q = dir ++ r → CollectionShape r n

theorem belongs_dir {r q : Path} (hr : IsShardPath r) (hq : q <+: dir ++ r) :
    Belongs dir q .dir := by
  rintro r' rfl
  exact hr.of_prefix ((List.prefix_append_right_inj dir).mp hq)

theorem belongs_config (text : String) :
    Belongs dir (dir ++ ["config.json"]) (.file (.text text)) :=
  fun _ hr ↦ (List.append_cancel_left hr).symm

theorem belongs_tree {s : ShardId} (hs : s = 0 ∨ s = 1) (db : Db) :
    Belongs dir (dir ++ [shardName s, "segments", "0", "db"]) (.file (.tree db)) :=
  fun _ hr ↦ ⟨s, hs, (List.append_cancel_left hr).symm⟩

theorem addsOnly_createDirAll (h : dir.IsOrdinary) (d : Disk) {r path : Path} (hr : IsShardPath r)
    (hpath : path <+: dir ++ r) : AddsOnly (Belongs dir) d (d.createDirAll path).1 := by
  have hord : ∀ piece ∈ path, FileTree.Ordinary piece := fun piece hpiece ↦
    (h.append hr.ordinary) piece (hpath.subset hpiece)
  exact FileTree.addsOnly_createDirAll d hord fun q hq ↦ belongs_dir hr (hq.trans hpath)

theorem addsOnly_openFound (h : dir.IsOrdinary) (d : Disk) {s : ShardId} (hs : s = 0 ∨ s = 1)
    (found : Except FileTree.Error Contents) :
    AddsOnly (Belongs dir) d
      (openFound (dir ++ [shardName s, "segments", "0"]) found d).1 := by
  have htree : treePath (dir ++ [shardName s, "segments", "0"])
      = dir ++ [shardName s, "segments", "0", "db"] := by simp [treePath]
  have hord : Path.IsOrdinary (treePath (dir ++ [shardName s, "segments", "0"])) :=
    (h.append (isShardPath_segment hs).ordinary).append (by decide)
  rcases found with e | c
  · cases e with
    | notFound =>
      refine FileTree.addsOnly_write d hord ?_
      rw [htree]
      exact belongs_tree hs ∅
    | _ => exact .refl d
  · cases c <;> exact .refl d

theorem addsOnly_openTree (h : dir.IsOrdinary) (d : Disk) {s : ShardId} (hs : s = 0 ∨ s = 1) :
    AddsOnly (Belongs dir) d (d.openTree (dir ++ [shardName s, "segments", "0"])).1 := by
  have hmade := addsOnly_createDirAll h d (isShardPath_segment hs) List.prefix_rfl
  rw [openTree_eq]
  rcases hmkdir : d.createDirAll (dir ++ [shardName s, "segments", "0"]) with ⟨d₁, e | _⟩
  · rw [hmkdir] at hmade
    exact hmade
  · rw [hmkdir] at hmade
    exact hmade.trans (addsOnly_openFound h d₁ hs _)

/-- **What the calls of the operations add belongs to the collection.** -/
theorem addsOnly_answer (listing : Path → IterOrder String) (h : dir.IsOrdinary) (d : Disk)
    {op : DiskOp} (hop : op.Makes dir ∨ op.Removes dir) :
    AddsOnly (Belongs dir) d (d.answer listing op).1 := by
  have hconfig : Path.IsOrdinary (dir ++ ["config.json"]) := h.append (by decide)
  rcases hop with hop | hop
  · cases op with
    | pathExists path => exact .refl d
    | createDirAll path =>
      obtain ⟨r, hr, rfl⟩ := hop
      exact addsOnly_createDirAll h d hr List.prefix_rfl
    | createFile path =>
      obtain rfl : path = dir ++ ["config.json"] := hop
      exact d.addsOnly_write hconfig (belongs_config "")
    | writeFile path text =>
      obtain rfl : path = dir ++ ["config.json"] := hop
      exact d.addsOnly_write hconfig (belongs_config text)
    | openTree path =>
      obtain ⟨s, hs, rfl⟩ := hop
      have hopen : ∀ t : ShardId, t = 0 ∨ t = 1 → s = shardName t →
          AddsOnly (Belongs dir) d (d.openTree (dir ++ [s, "segments", "0"])).1 := by
        rintro t ht rfl
        exact addsOnly_openTree h d ht
      exact hs.elim (hopen 0 (Or.inl rfl)) (hopen 1 (Or.inr rfl))
    | _ => exact hop.elim
  · cases op with
    | pathExists path => exact .refl d
    | removeDirAll path =>
      show AddsOnly _ d (d.removeDirAll path).1
      rw [FileTree.removeDirAll]
      split
      · exact .refl d
      · split
        · exact .refl d
        · exact .refl d
        · exact d.addsOnly_prune _
    | _ => exact hop.elim

theorem addsOnly_prune_all (d : Disk) (p : Path) (removed : List Path) :
    AddsOnly (Belongs dir) d (removed.foldl (fun d r ↦ d.prune (p ++ r)) d) := by
  induction removed generalizing d with
  | nil => exact .refl d
  | cons r removed ih => exact (d.addsOnly_prune _).trans (ih _)

theorem addsOnly_cut (h : dir.IsOrdinary) (d : Disk) {op : DiskOp}
    (hop : op.Makes dir ∨ op.Removes dir) (extent : op.Extent) :
    AddsOnly (Belongs dir) d (d.cut op extent) := by
  have hconfig : Path.IsOrdinary (dir ++ ["config.json"]) := h.append (by decide)
  rcases hop with hop | hop
  · cases op with
    | pathExists path => exact .refl d
    | createFile path => exact .refl d
    | createDirAll path =>
      obtain ⟨r, hr, rfl⟩ := hop
      exact addsOnly_createDirAll h d hr (List.take_prefix _ _)
    | openTree path =>
      obtain ⟨s, hs, rfl⟩ := hop
      have hshard : IsShardPath [s, "segments", "0"] := by rcases hs with rfl | rfl <;> decide
      exact addsOnly_createDirAll h d hshard (List.take_prefix _ _)
    | writeFile path text =>
      obtain rfl : path = dir ++ ["config.json"] := hop
      exact d.addsOnly_write hconfig (belongs_config _)
    | _ => exact hop.elim
  · cases op with
    | pathExists path => exact .refl d
    | removeDirAll path =>
      rw [cut]
      split
      · split
        · exact addsOnly_prune_all d _ _
        · exact .refl d
      · exact .refl d
    | _ => exact hop.elim

end Disk

namespace Leftover

theorem step {β : Type} {f : Disk → Disk × β} (hlocal : LocalTo (collectionDir name) f)
    (hadds : AddsOnly (Disk.Belongs (collectionDir name)) d (f d).1)
    (h : Leftover J cat name d) : Leftover J cat name (f d).1 := by
  have hparent : d.lookup (collectionDir name).dropLast = some .dir := by
    rw [dropLast_collectionDir]
    exact h.dir
  refine ⟨?_, fun n hn ↦ ?_, fun r n hn ↦ ?_⟩
  · rw [← dropLast_collectionDir name]
    exact hlocal.lookup_dropLast (by simp [collectionDir]) hparent
  · rw [HoldsAt, ← h.others n hn]
    funext r
    exact hlocal.outside d hparent _ (collectionDir_apart (Ne.symm hn) r)
  · exact (hadds _ n hn).elim (h.part r n) fun hshape ↦ hshape r rfl

end Leftover

/-- A disk with all collections has some of one. -/
theorem Holds.leftover (h : Holds J cat d) (name : CollectionName) : Leftover J cat name d := by
  refine ⟨h.dir, fun n _ ↦ h.files n, fun r n hn ↦ ?_⟩
  rw [(h.files name).lookup] at hn
  cases he : cat name with
  | none =>
    rw [he] at hn
    cases hn
  | some e =>
    rw [he, CatalogEntry.files, collectionFiles_apply] at hn
    split at hn
    · rename_i hr
      rw [← Option.some.inj hn, hr]
      exact ⟨1, Or.inr rfl, rfl⟩
    · split at hn
      · rename_i hr
        rw [← Option.some.inj hn]
        exact Or.inr hr
      · split at hn
        · rename_i hr
          rw [← Option.some.inj hn, hr]
          exact ⟨0, Or.inl rfl, rfl⟩
        · split at hn
          · rename_i hr
            rw [← Option.some.inj hn]
            exact Or.inl hr
          · split at hn
            · rename_i hr
              rw [← Option.some.inj hn]
              exact hr
            · cases hn

theorem TableOfContent.calls_createCollection (order : IterOrder (Σ _ : ShardId, ReplicaSet))
    (name params : String) (memory : Memory X) :
    (performCollectionMetaOp J peer order (.createCollection name params) memory :
      Fs ε _).Calls (DiskOp.Makes (newPath name)) := by
  refine Program.Calls.bind (calls_makeCollection J order name params).attempt fun made ↦ ?_
  rcases made with e | ⟨c, trees⟩
  · exact trivial
  · simp only
    split <;> exact trivial

theorem TableOfContent.calls_deleteCollection (order : IterOrder (Σ _ : ShardId, ReplicaSet))
    {memory : Memory X} {c : Collection X} (hc : memory.toc.collections.lookup name = some c) :
    (performCollectionMetaOp J peer order (.deleteCollection name) memory : Fs ε _).Calls
      (DiskOp.Removes c.path) := by
  rw [performCollectionMetaOp]
  simp only [hc]
  refine Program.Calls.bind c.calls_delete.attempt fun removed ↦ ?_
  cases removed <;> exact trivial

namespace Node.Represents

variable {node : Node X} (h : node.Represents J peer cat) {listing : Path → IterOrder String}
  {order : IterOrder (Σ _ : ShardId, ReplicaSet)} {n : ℕ} {extent : (op : DiskOp) → op.Extent}

include h

/-- The calls of an operation are about the directory of its collection. -/
theorem calls {operation : CollectionMetaOperation}
    (hname : Path.IsFileName operation.collectionName) :
    (TableOfContent.performCollectionMetaOp J peer order operation node.memory : Fs ε _).Calls
      fun op ↦ op.Makes (collectionDir operation.collectionName) ∨
        op.Removes (collectionDir operation.collectionName) := by
  cases operation with
  | createCollection name params =>
    have hpath : newPath name = collectionDir name := TableOfContent.newPath_eq hname
    show Program.Calls (fun op : DiskOp ↦ op.Makes (collectionDir name) ∨
        op.Removes (collectionDir name)) _
    rw [← hpath]
    exact (TableOfContent.calls_createCollection order name params node.memory).mono
      fun _ ↦ Or.inl
  | deleteCollection name =>
    cases hc : node.memory.toc.collections.lookup name with
    | none =>
      rw [TableOfContent.performCollectionMetaOp]
      simp only [hc]
      exact trivial
    | some c =>
      show Program.Calls (fun op : DiskOp ↦ op.Makes (collectionDir name) ∨
        op.Removes (collectionDir name)) _
      rw [← (h.path_eq hc).2.1]
      exact (TableOfContent.calls_deleteCollection order hc).mono fun _ ↦ Or.inr

variable (listing order n extent)

/-- **What a crash leaves** is a part of the collection the operation is about, next to the others
as they were. -/
theorem leftover_crash {operation : CollectionMetaOperation}
    (hname : Path.IsFileName operation.collectionName) :
    Leftover J cat operation.collectionName
      (node.crash J peer listing order operation n extent) := by
  have hord := collectionDir_isOrdinary hname
  have hne : collectionDir operation.collectionName ≠ [] := by simp [collectionDir]
  refine (h.calls hname).crash_inv (fun d op hop hd ↦ ?_) (fun d op hop hd ↦ ?_) n
    (h.disk.leftover _)
  · exact hd.step (Disk.localTo_answer listing hord hne hop)
      (Disk.addsOnly_answer listing hord d hop)
  · exact hd.step (Disk.localTo_cut hord hne hop (extent op))
      (Disk.addsOnly_cut hord d hop (extent op))

/-- A create that is turned away leaves the disk as it is. -/
theorem crash_create_of_some (name params : String)
    (hname : Path.IsFileName name) {e : CatalogEntry} (he : cat name = some e) :
    node.crash J peer listing order (.createCollection name params) n extent = node.disk := by
  have hdir : node.disk.lookup (collectionDir name) = some .dir := (h.disk.some_of he).lookup_dir
  have hget : node.disk.get (newPath name) = .ok .dir := by
    rw [TableOfContent.newPath_eq hname,
      FileTree.get_eq_lookup (collectionDir_isOrdinary hname), hdir]
  have hcheck : (node.disk.answer listing (.pathExists (newPath name))).2 = true := by
    rw [Disk.answer, hget]
    rfl
  obtain ⟨next, hcall, result, hnext⟩ : ∃ next, (TableOfContent.performCollectionMetaOp J peer order
      (.createCollection name params) node.memory : Fs Empty _)
        = .call (.pathExists (newPath name)) next ∧ ∃ result, next true = .ok result :=
    ⟨_, rfl, _, rfl⟩
  rw [crash, hcall]
  cases n with
  | zero => rfl
  | succ n =>
    rw [Program.crash, hcheck, hnext]
    rfl

end Node.Represents

/-! ## What the next start makes of it -/

theorem Collection.Opened.hasAllShards {node : Node X} {c : Collection X}
    {config : CollectionConfig}
    (hc : node.memory.toc.collections.lookup name = some c) (hopened : c.Opened name config) :
    node.HasAllShards name := by
  refine ⟨c, hc, fun order s ↦ ?_⟩
  rw [hopened.shards, (Collection.init_opened name c.config order).shards]

/-- A collection is opened if it has been loaded and has all its shards. -/
theorem Node.HasAllShards.opened {node : Node X} {c : Collection X} {config : CollectionConfig}
    (h : node.HasAllShards name) (hc : node.memory.toc.collections.lookup name = some c)
    (hpart : c.OpenedPart d name config) : c.Opened name config := by
  obtain ⟨c', hc', hshards⟩ := h
  obtain rfl : c' = c := Option.some.inj (hc'.symm.trans hc)
  refine ⟨hpart.id, hpart.config, hpart.path, fun s ↦ ?_⟩
  rw [hshards .insertion s, (Collection.init_opened name c'.config .insertion).shards]

/-- A directory is in the way of a create. -/
theorem Node.not_canCreate {node : Node X} (hname : Path.IsFileName name)
    {n : FileNode Contents} (hdir : node.disk.lookup (collectionDir name) = some n) :
    ¬ node.CanCreate J peer name := by
  rintro ⟨-, hcreate⟩
  have hget : node.disk.get (newPath name) = .ok n := by
    rw [TableOfContent.newPath_eq hname,
      FileTree.get_eq_lookup (collectionDir_isOrdinary hname), hdir]
  have hcheck : (node.disk.answer (fun _ ↦ .insertion) (.pathExists (newPath name))).2 = true := by
    rw [Disk.answer, hget]
    rfl
  obtain ⟨-, -, e, he⟩ : _ ∧ _ ∧ ∃ e, (node.performCollectionMetaOp J peer (fun _ ↦ .insertion)
      .insertion (.createCollection name "")).2 = some (.error e) :=
    Node.performCollectionMetaOp_refused (Or.inl hcheck)
  cases he.symm.trans (hcreate (fun _ ↦ .insertion) .insertion "")

/-- A name that nothing has can be created. -/
theorem Holds.canCreate {node : Node X} (h : Holds J cat node.disk) (hname : Path.IsFileName name)
    (hnone : cat name = none) (hfresh : name ∉ node.memory.toc.collections) :
    node.CanCreate J peer name := by
  refine ⟨hfresh, fun listing order params ↦ ?_⟩
  obtain ⟨d', hrun, -⟩ := h.exec_create (ε := Empty) listing hname hnone peer order params hfresh
  rw [Node.performCollectionMetaOp, hrun]

namespace Leftover

variable (h : Leftover J cat name d) (hname : Path.IsFileName name)

include h

/-- Nothing is left. -/
theorem holds (hdir : d.lookup (collectionDir name) = none) :
    Holds J (Function.update cat name none) d := by
  refine ⟨h.dir, fun n ↦ ?_⟩
  by_cases hn : n = name
  · subst hn
    rw [Function.update_self]
    funext r
    show d.lookup (collectionDir n ++ r) = none
    by_cases hr : r = []
    · rw [hr, List.append_nil, hdir]
    · exact Option.eq_none_iff_forall_ne_some.mpr fun x hx ↦ by
        have hdir' := FileTree.lookup_of_append hr hx
        rw [hdir] at hdir'
        exact nomatch hdir'
  · rw [Function.update_of_ne hn]
    exact h.others n hn

/-- In the place of the config there is a text, or nothing. -/
theorem config_cases : d.lookup (collectionDir name ++ ["config.json"]) = none ∨
    ∃ text, d.lookup (collectionDir name ++ ["config.json"]) = some (.file (.text text)) := by
  cases hc : d.lookup (collectionDir name ++ ["config.json"]) with
  | none => exact Or.inl rfl
  | some n =>
    have hshape := h.part _ n hc
    match n with
    | .dir =>
      have hpath : IsShardPath ["config.json"] := hshape
      exact absurd hpath (by decide)
    | .file (.text text) => exact Or.inr ⟨text, rfl⟩
    | .file (.tree db) =>
      obtain ⟨s, -, hs⟩ := hshape
      exact absurd hs (by simp)

include hname

/-- **Only a settled collection** is there again with all its shards, or can be created. -/
theorem settled_of_start (hcat : cat.Proper) {node' : Node X}
    (hrun : Node.start J peer .insertion d = (node', []))
    (hfate : node'.HasAllShards name ∨ node'.CanCreate J peer name) : Settled J name d := by
  cases hdir : d.lookup (collectionDir name) with
  | none => exact Or.inl hdir
  | some n =>
    refine Or.inr ?_
    have hne : d.lookup (collectionDir name) ≠ none := by simp [hdir]
    rcases h.config_cases with hconfig | ⟨text, hconfig⟩
    · -- without a config the directory is passed over, and stays in the way
      obtain ⟨memory, d', hload, hfrom, -, hnone, -⟩ := TableOfContent.exec_load_around
        (X := X) (J := J) (ε := Empty) .insertion peer h hcat
        (loadsAs_none hname hconfig)
      rw [Node.start, hload] at hrun
      obtain rfl := (Prod.ext_iff.mp hrun).1
      rcases hfate with ⟨c, hc, -⟩ | hcreate
      · cases (hnone hne).symm.trans hc
      · exact absurd hcreate (Node.not_canCreate hname (n := n) (by
          rw [← hdir]
          exact hfrom.lookup_dir))
    · cases hparse : J.fromReader text with
      | error e =>
        obtain ⟨d', message, hload⟩ := TableOfContent.exec_load_unreadable (X := X) (J := J)
          (ε := Empty) .insertion peer hconfig h hname hcat hparse
        rw [Node.start, hload] at hrun
        cases (Prod.ext_iff.mp hrun).2
      | ok config =>
        obtain ⟨memory, d', hload, hfrom, -, hpart, -⟩ := TableOfContent.exec_load_around
          (X := X) (J := J) (ε := Empty) .insertion peer h hcat
          (loadsAs_part hconfig h hname hparse)
        rw [Node.start, hload] at hrun
        obtain rfl := (Prod.ext_iff.mp hrun).1
        obtain ⟨c, hc, hopened⟩ := hpart hne
        rcases hfate with hall | hcreate
        · exact ⟨⟨text, config, hconfig, hparse⟩,
            hopened.opened_iff.mp (hall.opened hc hopened)⟩
        · exact absurd (AList.lookup_isSome.mp (by rw [hc]; rfl)) hcreate.1

variable (peer) in
/-- **The next start goes well** if the collection is settled. -/
theorem start_of_settled (hcat : cat.Proper) (hsettled : Settled J name d) (env : LoadEnv) :
    ∃ node' : Node X, Node.start J peer env d = (node', []) ∧
      (∀ n e, n ≠ name → cat n = some e → node'.memory.Opens peer n e) ∧
      (node'.HasAllShards name ∨ node'.CanCreate J peer name) := by
  rcases hsettled with hdir | ⟨⟨text, config, hconfig, hparse⟩, hsegments⟩
  · have hholds := h.holds hdir
    have hproper : Catalog.Proper (Function.update cat name none) := by
      refine ⟨fun n e he ↦ ?_, fun n e he ↦ ?_⟩ <;> by_cases hn : n = name
      · rw [hn, Function.update_self] at he
        exact nomatch he
      · rw [Function.update_of_ne hn] at he
        exact hcat.isFileName n e he
      · rw [hn, Function.update_self] at he
        exact nomatch he
      · rw [Function.update_of_ne hn] at he
        exact hcat.other n e he
    obtain ⟨memory, hload, hopens⟩ := TableOfContent.exec_load (X := X)
      (ε := Empty) env peer hholds hproper
    refine ⟨⟨memory, d⟩, by rw [Node.start, hload], fun n e hn he ↦ ?_, Or.inr ?_⟩
    · exact hopens.of_some (by rwa [Function.update_of_ne hn])
    · exact Holds.canCreate hholds hname (Function.update_self ..)
        (hopens.of_none (Function.update_self ..))
  · obtain ⟨memory, d', hload, -, hopens, hpart, -⟩ := TableOfContent.exec_load_around
      (X := X) (J := J) (ε := Empty) env peer h hcat
      (loadsAs_part hconfig h hname hparse)
    have hdir : d.lookup (collectionDir name) = some .dir :=
      FileTree.lookup_of_append (by simp) hconfig
    obtain ⟨c, hc, hopened⟩ := hpart (by rw [hdir]; simp)
    exact ⟨⟨memory, d'⟩, by rw [Node.start, hload], hopens,
      Or.inl ((hopened.opened_iff.mpr hsegments).hasAllShards hc)⟩

end Leftover

/-! ## Crashes in a run -/

namespace Node.Represents

variable {node : Node X} (h : node.Represents J peer cat)

include h

theorem hasAllShards {e : CatalogEntry} (he : cat name = some e) : node.HasAllShards name := by
  obtain ⟨c, hc, hopened, -⟩ := h.memory.of_some he
  exact hopened.hasAllShards hc

/-- An operation that does nothing can be cut short anywhere. -/
theorem recovers {operation : CollectionMetaOperation}
    (hfate : ∀ node' : Node X, node'.Represents J peer cat →
      node'.HasAllShards operation.collectionName ∨
        node'.CanCreate J peer operation.collectionName) :
    node.Recovers J peer operation node.disk := by
  intro env
  obtain ⟨node', hstart, h'⟩ := h.start env
  exact ⟨node', hstart, fun name _ ↦ h.reopens fun e he ↦ h'.memory.of_some he, hfate node' h'⟩

theorem settled_of_some {e : CatalogEntry} (he : cat name = some e) :
    Settled J name node.disk := by
  have hat := h.disk.some_of he
  refine Or.inr ⟨⟨J.encode e.config, e.config, ?_, J.fromReader_encode e.config⟩, fun s hs ↦ ?_⟩
  · rw [hat.lookup_some]
    simp [collectionFiles_apply]
  · rw [segmentDir, hat.lookup_some, collectionFiles_segment J e.config e.trees hs]

/-- An operation that is cut short on its way. -/
theorem recovers_iff_of_leftover {operation : CollectionMetaOperation}
    (hname : Path.IsFileName operation.collectionName) {d : Disk}
    (hleft : Leftover J cat operation.collectionName d)
    (hopen : operation = .deleteCollection operation.collectionName ∨
      cat operation.collectionName = none) :
    node.Recovers J peer operation d ↔ Settled J operation.collectionName d := by
  constructor
  · intro hrecovers
    obtain ⟨node', hstart, -, hfate⟩ := hrecovers .insertion
    exact hleft.settled_of_start hname h.proper hstart hfate
  · intro hsettled env
    obtain ⟨node', hstart, hopens, hfate⟩ :=
      hleft.start_of_settled (X := X) peer hname h.proper hsettled env
    refine ⟨node', hstart, fun n hn ↦ h.reopens fun e he ↦ hopens n e ?_ he, hfate⟩
    rintro rfl
    rcases hopen with hdelete | hnone
    · exact hn hdelete
    · exact nomatch hnone.symm.trans he

end Node.Represents

/-- **Which crashes a node recovers from.**  Take a run of a node in which every create is for a
name that can be the name of a file, or is turned away before anything is done, and then a create or
a delete of such a name that is cut short anywhere.  Whatever the orders in which directories are
listed, the next start goes well, with every other collection as it was and this one with all its
shards or not in the way, exactly if of this collection there is nothing left, or a config that can
be read and the directories of both segments. -/
theorem recovers_iff (X : Crates V) (J : ConfigJson) (peer : PeerId) (env : LoadEnv)
    (events : List (Node.Event V))
    (hnames : ∀ done event, done ++ [event] <+: events →
      event.NamesFile (Node.run J peer (.restart env :: done) (Node.down : Node X)).1)
    (operation : CollectionMetaOperation) (hname : Path.IsFileName operation.collectionName)
    (listing : Path → IterOrder String) (order : IterOrder (Σ _ : ShardId, ReplicaSet)) (n : ℕ)
    (extent : (op : DiskOp) → op.Extent) {node : Node X}
    (hnode : (Node.run J peer (.restart env :: events) (Node.down : Node X)).1 = node) :
    node.Recovers J peer operation (node.crash J peer listing order operation n extent) ↔
      Settled J operation.collectionName
        (node.crash J peer listing order operation n extent) := by
  obtain ⟨cat, h⟩ := Node.exists_represents X J peer env hnames events List.prefix_rfl
  rw [hnode] at h
  have hleft := h.leftover_crash listing order n extent hname
  cases operation with
  | createCollection name params =>
    cases he : cat name with
    | none => exact h.recovers_iff_of_leftover hname hleft (Or.inr he)
    | some e =>
      have hsame := h.crash_create_of_some listing order n extent name params hname he
      rw [hsame]
      exact iff_of_true (h.recovers fun node' h' ↦ Or.inl (h'.hasAllShards he))
        (h.settled_of_some he)
  | deleteCollection name => exact h.recovers_iff_of_leftover hname hleft (Or.inl rfl)

/-- A call that does not get anywhere. -/
def DiskOp.nothing : (op : DiskOp) → op.Extent
  | .createDirAll _ | .writeFile _ _ | .openTree _ => (0 : ℕ)
  | .removeDirAll _ => ([] : List Path)
  | .pathExists _ | .isDir _ | .readDir _ | .createFile _ | .openFile _ | .readFile _ => ()

/-- What is left of a create that is cut short after so many calls, at a node that has just been
started. -/
def Node.cutShort (n : ℕ) : Disk :=
  Node.fresh.crash .plain 101 (fun _ ↦ .insertion) .insertion (.createCollection "c" "p") n
    DiskOp.nothing

/-- A create that gets to the last of its calls. -/
theorem recovers_iff_last : Node.fresh.Recovers .plain 101 (.createCollection "c" "p")
    (Node.cutShort 9) := by
  refine (recovers_iff Crates.bool .plain 101 .insertion [] (fun done event h ↦ ?_)
    (.createCollection "c" "p") (by decide) _ _ 9 _ rfl).mpr (Or.inr ⟨?_, ?_⟩)
  · simp at h
  · exact ⟨ConfigJson.configText ⟨"p"⟩, ⟨"p"⟩, rfl, ConfigJson.readConfig_configText ⟨"p"⟩⟩
  · rintro s (rfl | rfl)
    · show (Node.cutShort 9).lookup (segmentDir "c" 0) = _
      decide +kernel
    · show (Node.cutShort 9).lookup (segmentDir "c" 1) = _
      decide +kernel

/-- **Not every crash is recovered from.**  A directory without a config is passed over by the next
start, and then it is in the way. -/
theorem not_recovers_withoutConfig : ¬ ∀ (events : List (Node.Event Bool))
    (operation : CollectionMetaOperation), Path.IsFileName operation.collectionName →
    ∀ (listing : Path → IterOrder String) (order : IterOrder (Σ _ : ShardId, ReplicaSet)) (n : ℕ)
      (extent : (op : DiskOp) → op.Extent) (node : Node Crates.bool),
      (Node.run .plain 101 (.restart .insertion :: events) Node.down).1 = node →
        node.Recovers .plain 101 operation
          (node.crash .plain 101 listing order operation n extent) := by
  intro h
  have hrecovers : Node.fresh.Recovers .plain 101 (.createCollection "c" "p") (Node.cutShort 2) :=
    h [] _ (by decide) _ _ 2 _ _ rfl
  obtain ⟨node', hstart, -, hfate⟩ := hrecovers .insertion
  obtain rfl : (Node.start .plain 101 .insertion (Node.cutShort 2)).1 = node' := by rw [hstart]
  have habsent : ((Node.start .plain 101 .insertion (Node.cutShort 2) :
      Node Crates.bool × _).1.memory.toc.collections.lookup "c").isSome = false := by decide +kernel
  have hthere : (Node.start .plain 101 .insertion (Node.cutShort 2) :
      Node Crates.bool × _).1.disk.lookup (collectionDir "c") = some .dir := by decide +kernel
  rcases hfate with ⟨c, hc, -⟩ | hcreate
  · have hsome := congrArg Option.isSome hc
    exact nomatch habsent.symm.trans hsome
  · exact Node.not_canCreate (by decide) hthere hcreate

end Smoldb
