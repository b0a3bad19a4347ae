import Smoldb.Disk.Catalog
import Smoldb.Lib.Locality

/-!
# What the operations on the catalog call

A create makes the directory of the collection and what belongs in it, and a delete removes that
directory; neither calls for anything else.  `DiskOp.Makes` and `DiskOp.Removes` say so, call by
call: which kinds of calls there can be, and that their paths are the directory itself or that of a
shard in it.  `Program.Calls` carries it along the programs, with one lemma for each function.

It is what is needed when the calls do not go as they should, or not one after the other.  Then
there is nothing to say about what a create does as a whole, but every call of it is still local to
the directory of the collection (`localTo_answer`): it depends on what is there only, changes
nothing else, and so commutes with what is done elsewhere.  No call of a create takes away a
directory (`keepsDirs_answer`).

`Disk/Faults.lean`, `Disk/Crash.lean` and `Disk/Tasks.lean` start from here.
-/

set_option autoImplicit false

namespace Smoldb

open FileTree (LocalTo)

variable {V : Type} {X : Crates V} {ε : Type} {dir : Path}

/-- A directory on the way from the directory of a collection to that of a segment. -/
def IsShardPath (r : Path) : Prop := r <+: ["0", "segments", "0"] ∨ r <+: ["1", "segments", "0"]

instance (r : Path) : Decidable (IsShardPath r) := inferInstanceAs (Decidable (_ ∨ _))

theorem IsShardPath.ordinary {r : Path} (h : IsShardPath r) : Path.IsOrdinary r := by
  have hall : ∀ s : Path, s.IsOrdinary → r <+: s → Path.IsOrdinary r :=
    fun s hs hr piece hpiece ↦ hs piece (hr.subset hpiece)
  exact h.elim (hall _ (by decide)) (hall _ (by decide))

theorem IsShardPath.of_prefix {r r' : Path} (h : IsShardPath r) (hr : r' <+: r) : IsShardPath r' :=
  h.imp hr.trans hr.trans

namespace DiskOp

/-- A call of a create. -/
def Makes (dir : Path) : DiskOp → Prop
  | pathExists path => path = dir
  | createDirAll path => ∃ r, IsShardPath r ∧ path = dir ++ r
  | createFile path | writeFile path _ => path = dir ++ ["config.json"]
  | openTree path => ∃ s, (s = "0" ∨ s = "1") ∧ path = dir ++ [s, "segments", "0"]
  | removeDirAll _ | isDir _ | readDir _ | openFile _ | readFile _ => False

/-- A call of a delete. -/
def Removes (dir : Path) : DiskOp → Prop
  | pathExists path | removeDirAll path => path = dir
  | createDirAll _ | createFile _ | writeFile _ _ | openTree _ | isDir _ | readDir _ | openFile _
  | readFile _ => False

end DiskOp

/-! ## Creating -/

namespace Segment

theorem calls_create {s : String} (hs : s = "0" ∨ s = "1") :
    (create (dir ++ [s] ++ ["segments"])).Calls (DiskOp.Makes dir) := by
  have hpath : dir ++ [s] ++ ["segments"] ++ ["0"] = dir ++ [s, "segments", "0"] := by simp
  have hshard : IsShardPath [s, "segments", "0"] := by rcases hs with rfl | rfl <;> decide
  have hmkdir : (Fs.createDirAll (dir ++ [s] ++ ["segments"] ++ ["0"])).Calls
      (DiskOp.Makes dir) := ⟨⟨_, hshard, hpath⟩, Program.calls_ofExcept⟩
  have hopen : (Fs.openTree (dir ++ [s] ++ ["segments"] ++ ["0"])).Calls (DiskOp.Makes dir) :=
    ⟨⟨s, hs, hpath⟩, Program.calls_ofExcept⟩
  refine Program.Calls.bind (hmkdir.expect _) fun _ ↦ ?_
  exact Program.Calls.bind (hopen.mapError _) fun _ ↦ Program.calls_pure _

end Segment

theorem LocalShard.calls_initOnDisk {s : String} (hs : s = "0" ∨ s = "1") (id : ShardId) :
    (initOnDisk (dir ++ [s]) id : Fs ε _).Calls (DiskOp.Makes dir) := by
  have hshard : IsShardPath [s, "segments"] := by rcases hs with rfl | rfl <;> decide
  have hmkdir : (Fs.createDirAll (dir ++ [s] ++ ["segments"])).Calls (DiskOp.Makes dir) :=
    ⟨⟨_, hshard, by simp⟩, Program.calls_ofExcept⟩
  refine Program.Calls.bind (hmkdir.expect _) fun _ ↦ ?_
  exact Program.Calls.bind ((Segment.calls_create hs).expect _) fun _ ↦ Program.calls_pure _

theorem CollectionConfig.calls_save (J : ConfigJson) (config : CollectionConfig) :
    (config.save J dir).Calls (DiskOp.Makes dir) := by
  have hcreate : (Fs.createFile (dir ++ ["config.json"])).Calls (DiskOp.Makes dir) :=
    ⟨rfl, Program.calls_ofExcept⟩
  have hwrite : ∀ text, (Fs.writeFile (dir ++ ["config.json"]) text).Calls (DiskOp.Makes dir) :=
    fun _ ↦ ⟨rfl, Program.calls_ofExcept⟩
  refine Program.Calls.bind (.mapError (Program.calls_ofExcept _) _) fun bytes ↦ ?_
  refine Program.Calls.bind (hcreate.mapError _) fun _ ↦ ?_
  split
  · exact Program.Calls.bind (hwrite bytes).attempt fun _ ↦ Program.calls_pure _
  · exact (hwrite bytes).mapError _

theorem Collection.calls_initOnDisk (J : ConfigJson) (id : CollectionName)
    (config : CollectionConfig) (order : IterOrder (Σ _ : ShardId, ReplicaSet)) :
    (initOnDisk (X := X) J id config dir order).Calls (DiskOp.Makes dir) := by
  refine Program.Calls.bind (config.calls_save J) fun _ ↦ ?_
  refine Program.Calls.bind (LocalShard.calls_initOnDisk (Or.inl rfl) 0) fun _ ↦ ?_
  refine Program.Calls.bind (LocalShard.calls_initOnDisk (Or.inr rfl) 1) fun _ ↦ ?_
  exact Program.calls_pure _

namespace TableOfContent

/-- Where the directory of a new collection is made. -/
def newPath (name : CollectionName) : Path := collectionsPath.join name

/-- What a create does to the disk, before it takes the lock of the table of contents. -/
def makeCollection (X : Crates V) (J : ConfigJson)
    (order : IterOrder (Σ _ : ShardId, ReplicaSet)) (name : CollectionName) (params : String) :
    Fs StorageError (Collection X × Trees) := do
  let path ← mkdirCollectionDir name
  Collection.initOnDisk J name ⟨params⟩ path order

theorem calls_mkdirCollectionDir (name : CollectionName) :
    (mkdirCollectionDir name).Calls (DiskOp.Makes (newPath name)) := by
  have hcheck : (Fs.pathExists (newPath name) : Fs StorageError Bool).Calls
      (DiskOp.Makes (newPath name)) := ⟨rfl, fun _ ↦ trivial⟩
  have hmkdir : (Fs.createDirAll (newPath name)).Calls (DiskOp.Makes (newPath name)) :=
    ⟨⟨[], by decide, (List.append_nil _).symm⟩, Program.calls_ofExcept⟩
  refine Program.Calls.bind hcheck fun found ↦ ?_
  cases found with
  | true => exact trivial
  | false => exact Program.Calls.bind (hmkdir.mapError _) fun _ ↦ Program.calls_pure _

theorem returns_mkdirCollectionDir (name : CollectionName) :
    (mkdirCollectionDir name).Returns (· = newPath name) := by
  refine Program.Returns.bind (Program.returns_true _) fun found _ ↦ ?_
  cases found with
  | true => exact trivial
  | false => exact Program.Returns.bind (Program.returns_true _) fun _ _ ↦ rfl

/-- **The calls of a create** make what belongs to the collection. -/
theorem calls_makeCollection (J : ConfigJson) (order : IterOrder (Σ _ : ShardId, ReplicaSet))
    (name : CollectionName) (params : String) :
    (makeCollection X J order name params).Calls (DiskOp.Makes (newPath name)) := by
  refine (calls_mkdirCollectionDir name).bind_of_returns (returns_mkdirCollectionDir name) ?_
  rintro path rfl
  exact Collection.calls_initOnDisk J name ⟨params⟩ order

end TableOfContent

/-! ## Deleting -/

/-- **The calls of a delete** are about the directory of the collection. -/
theorem Collection.calls_delete (c : Collection X) : c.delete.Calls (DiskOp.Removes c.path) := by
  have hcheck : (Fs.pathExists c.path : Fs StorageError Bool).Calls (DiskOp.Removes c.path) :=
    ⟨rfl, fun _ ↦ trivial⟩
  have hremove : (Fs.removeDirAll c.path).Calls (DiskOp.Removes c.path) :=
    ⟨rfl, Program.calls_ofExcept⟩
  refine Program.Calls.bind hcheck fun found ↦ ?_
  cases found with
  | true => exact hremove.mapError _
  | false => exact trivial

/-! ## Locality -/

namespace Disk

variable {path : Path}

/-- What `sled::open` does when it has looked for the tree. -/
def openFound (path : Path) : Except FileTree.Error Contents → Disk → Disk × Except String Db
  | .ok (.tree db), d => (d, .ok db)
  | .ok (.text _), d => (d, .error "not a database")
  | .error .notFound, d =>
    ((d.write (treePath path) (.tree ∅)).1,
      ((d.write (treePath path) (.tree ∅)).2.mapError osError).map fun _ ↦ ∅)
  | .error e, d => (d, .error (osError e))

/-- What `sled::open` does when it has made the directory. -/
def openMade (path : Path) : Except FileTree.Error Unit → Disk → Disk × Except String Db
  | .error e, d => (d, .error (osError e))
  | .ok _, d => openFound path (d.read (treePath path)) d

theorem openTree_eq (d : Disk) (path : Path) :
    d.openTree path = openMade path (d.createDirAll path).2 (d.createDirAll path).1 := by
  rw [openTree]
  rcases d.createDirAll path with ⟨d₁, e | _⟩
  · rfl
  · simp only [openMade]
    rcases hread : d₁.read (treePath path) with e | c
    · cases e with
      | notFound =>
        simp only [openFound]
        rcases d₁.write (treePath path) (.tree ∅) with ⟨d₂, e | _⟩ <;> rfl
      | _ => rfl
    · cases c <;> rfl

theorem localTo_openFound (h : path.IsOrdinary) (hpath : dir <+: path) (hdir : dir ≠ [])
    (found : Except FileTree.Error Contents) :
    LocalTo dir (openFound path found) := by
  have hpath' : dir <+: treePath path := hpath.trans (List.prefix_append _ _)
  have hord : Path.IsOrdinary (treePath path) := h.append (by decide)
  rcases found with e | c
  · cases e with
    | notFound =>
      exact ((FileTree.localTo_write hord hpath' hdir (Contents.tree ∅)).map
        (·.mapError osError)).map fun r ↦ r.map fun _ ↦ (∅ : Db)
    | _ => exact .pure _
  · cases c <;> exact .pure _

theorem localTo_openTree (h : path.IsOrdinary) (hpath : dir <+: path) (hdir : dir ≠ []) :
    LocalTo dir fun d : Disk ↦ d.openTree path := by
  have hpath' : dir <+: treePath path := hpath.trans (List.prefix_append _ _)
  have hord : Path.IsOrdinary (treePath path) := h.append (by decide)
  simp only [openTree_eq]
  refine (FileTree.localTo_createDirAll h hpath hdir).bind hdir ?_
  rintro (e | _)
  · exact .pure _
  · exact (FileTree.localTo_read hord hpath').bind hdir fun found ↦
      localTo_openFound h hpath hdir found

/-- **The calls of the operations stay in the directory of the collection.** -/
theorem localTo_answer (listing : Path → IterOrder String) (h : dir.IsOrdinary) (hdir : dir ≠ [])
    {op : DiskOp} (hop : op.Makes dir ∨ op.Removes dir) :
    LocalTo dir fun d : Disk ↦ d.answer listing op := by
  have hconfig : Path.IsOrdinary (dir ++ ["config.json"]) := h.append (by decide)
  rcases hop with hop | hop
  · cases op with
    | pathExists path =>
      obtain rfl : path = dir := hop
      exact (FileTree.localTo_get h List.prefix_rfl).map Except.isOk
    | createDirAll path =>
      obtain ⟨r, hr, rfl⟩ := hop
      exact (FileTree.localTo_createDirAll (h.append hr.ordinary) (List.prefix_append _ _)
        hdir).map (·.mapError osError)
    | createFile path =>
      obtain rfl : path = dir ++ ["config.json"] := hop
      exact (FileTree.localTo_write hconfig (List.prefix_append _ _) hdir _).map
        (·.mapError osError)
    | writeFile path text =>
      obtain rfl : path = dir ++ ["config.json"] := hop
      exact (FileTree.localTo_write hconfig (List.prefix_append _ _) hdir _).map
        (·.mapError osError)
    | openTree path =>
      obtain ⟨s, hs, rfl⟩ := hop
      have hshard : IsShardPath [s, "segments", "0"] := by rcases hs with rfl | rfl <;> decide
      exact localTo_openTree (h.append hshard.ordinary) (List.prefix_append _ _) hdir
    | _ => exact hop.elim
  · cases op with
    | pathExists path =>
      obtain rfl : path = dir := hop
      exact (FileTree.localTo_get h List.prefix_rfl).map Except.isOk
    | removeDirAll path =>
      obtain rfl : path = dir := hop
      exact (FileTree.localTo_removeDirAll h List.prefix_rfl hdir).map (·.mapError osError)
    | _ => exact hop.elim

theorem keepsDirs_openTree (d : Disk) (path : Path) : d.KeepsDirs (d.openTree path).1 := by
  have hmade := d.keepsDirs_createDirAll path
  rw [openTree]
  split
  · rename_i heq
    rwa [heq] at hmade
  · rename_i d₁ _ heq
    rw [heq] at hmade
    split
    · exact hmade
    · exact hmade
    · have hwrite := hmade.trans (d₁.keepsDirs_write (treePath path) (.tree ∅))
      split
      · rename_i hw
        rwa [hw] at hwrite
      · rename_i hw
        rwa [hw] at hwrite
    · exact hmade

/-- A create removes no directory. -/
theorem keepsDirs_answer (d : Disk) (listing : Path → IterOrder String) :
    {op : DiskOp} → op.Makes dir → d.KeepsDirs (d.answer listing op).1
  | .createDirAll _, _ => d.keepsDirs_createDirAll _
  | .openTree _, _ => d.keepsDirs_openTree _
  | .createFile _, _ => d.keepsDirs_write _ _
  | .writeFile _ _, _ => d.keepsDirs_write _ _
  | .pathExists _, _ => .refl d

end Disk

end Smoldb
