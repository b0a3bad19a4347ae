import Smoldb.Disk.Restart
import Smoldb.Disk.Calls

/-!
# Catalog operations that fail

A call to the disk may stop half way: the disk is full, a directory must not be written to, or the
node is stopped.  `DiskOp.Extent` is how far a call gets, and `Disk.cut` is what it has done by
then.  On a `Disk.faulty` disk calls fail wherever the faults have it, each as far as it gets.

* `create_dir_all` may have made some of the directories on the way.
* `remove_dir_all` may have removed anything below the directory, in any order.
* A text may have been written up to any place of it, or the file may be there and be empty.
* A tree that is opened may have got the directories on the way to it.

An operation on the catalog that fails should leave everything as it was.  `failed_unchanged_iff`
says when it does: nothing that has been done is ever undone, so it does if nothing has been done,
which is what `Refused` says.  It does not only if the operation could tell at all whether there is
something in its way: `Path::exists` answers `false` when it cannot tell, and then a create may go
on and happen to end where it began.

A create puts the collection into the map after everything on disk is done, so one that fails leaves
its directory behind and no collection.  A delete takes it out of the map before its directory is
removed, so one that fails leaves the directory, and no collection until the next start.
-/

set_option autoImplicit false

namespace Smoldb

variable {V : Type} {X : Crates V} {ε : Type}

/-! ## Calls that stop half way -/

namespace DiskOp

/-- How far a call can get: how many of the pieces of a path have their directories, what has been
removed of a directory, and how much of a text is written. -/
abbrev Extent : DiskOp → Type
  | createDirAll _ | writeFile _ _ | openTree _ => ℕ
  | removeDirAll _ => List Path
  | pathExists _ | isDir _ | readDir _ | createFile _ | openFile _ | readFile _ => Unit

/-- What a call returns that fails.  There is no error for what only asks if something is there. -/
def failure (message : String) : (op : DiskOp) → op.Reply
  | pathExists _ | isDir _ => false
  | createDirAll _ | removeDirAll _ | createFile _ | writeFile _ _ | openFile _ => .error message
  | readDir _ => .error message
  | readFile _ => .error message
  | openTree _ => .error message

end DiskOp

/-- What a call has done when it stops.  Directories are made from the top and a text is written
from its start, and what is in a directory is removed in any order. -/
def Disk.cut (d : Disk) : (op : DiskOp) → op.Extent → Disk
  | .createDirAll path, k | .openTree path, k => (d.createDirAll (path.take k)).1
  | .removeDirAll path, removed =>
    match d.resolve path with
    | some p =>
      if d.lookup p = some .dir then removed.foldl (fun d r ↦ d.prune (p ++ r)) d else d
    | none => d
  | .writeFile path text, k => (d.write path (.text (String.ofList (text.toList.take k)))).1
  | .pathExists _, _ | .isDir _, _ | .readDir _, _ | .createFile _, _ | .openFile _, _
  | .readFile _, _ => d

/-- A call that fails, as far as it gets. -/
structure Fault (op : DiskOp) where
  extent : op.Extent
  message : String

/-- The calls that fail. -/
abbrev Faults := (op : DiskOp) → Option (Fault op)

/-- What a call does and returns if it may fail. -/
def Disk.faulty (faults : Faults) (listing : Path → IterOrder String) (d : Disk) (op : DiskOp) :
    Disk × op.Reply :=
  match faults op with
  | some fault => (d.cut op fault.extent, op.failure fault.message)
  | none => d.answer listing op

namespace Disk

variable (d : Disk)

theorem keepsDirs_cut {dir : Path} : {op : DiskOp} → op.Makes dir → ∀ extent : op.Extent,
    d.KeepsDirs (d.cut op extent)
  | .createDirAll _, _, _ | .openTree _, _, _ => d.keepsDirs_createDirAll _
  | .writeFile _ _, _, _ => d.keepsDirs_write _ _
  | .pathExists _, _, _ | .createFile _, _, _ => .refl d

/-- **Directories stay**, whatever fails. -/
theorem keepsDirs_faulty (faults : Faults) (listing : Path → IterOrder String) {dir : Path}
    {op : DiskOp} (h : op.Makes dir) : d.KeepsDirs (d.faulty faults listing op).1 := by
  rw [faulty]
  split
  · exact d.keepsDirs_cut h _
  · exact d.keepsDirs_answer listing h

end Disk

/-! ## Operations that fail -/

/-- `TableOfContent::perform_collection_meta_op` at a node with a disk where calls may fail. -/
def Node.performFaulty (J : ConfigJson) (peer : PeerId) (listing : Path → IterOrder String)
    (faults : Faults) (order : IterOrder (Σ _ : ShardId, ReplicaSet))
    (operation : CollectionMetaOperation) (node : Node X) : Node X × Answer :=
  match Program.run (Disk.faulty faults listing)
      (TableOfContent.performCollectionMetaOp J peer order operation node.memory : Fs Empty _)
      node.disk with
  | (d, .ok (memory, result)) => (⟨memory, d⟩, some result)
  | (d, .error e) => (⟨node.memory, d⟩, e.elim)
  | (d, .panicked _) => (⟨node.memory, d⟩, none)

/-- Two nodes have the same collections in memory, and the same on disk. -/
structure Node.LooksLike (node node' : Node X) : Prop where
  memory : ∀ name,
    node.memory.toc.collections.lookup name = node'.memory.toc.collections.lookup name
  disk : node.disk.lookup = node'.disk.lookup

namespace CollectionMetaOperation

open TableOfContent (newPath)

/-- An operation does not get as far as doing something: there is something where the collection is
to be made, or its directory cannot be made, and neither can any on the way to it; or there is no
collection to delete. -/
def Refused (faults : Faults) (listing : Path → IterOrder String) (node : Node X) :
    CollectionMetaOperation → Prop
  | createCollection name _ =>
    (node.disk.faulty faults listing (.pathExists (newPath name))).2 = true ∨
      (∃ e, (node.disk.faulty faults listing (.createDirAll (newPath name))).2 = .error e) ∧
        (node.disk.faulty faults listing (.createDirAll (newPath name))).1.lookup = node.disk.lookup
  | deleteCollection name => name ∉ node.memory.toc.collections

/-- An operation can tell whether there is something where the collection is to be made. -/
def Checks (faults : Faults) : CollectionMetaOperation → Prop
  | createCollection name _ => faults (.pathExists (newPath name)) = none
  | deleteCollection _ => True

end CollectionMetaOperation

section Operations

open TableOfContent (newPath)

variable {J : ConfigJson} {peer : PeerId} {listing : Path → IterOrder String} {faults : Faults}
  {order : IterOrder (Σ _ : ShardId, ReplicaSet)} {name : CollectionName} {node node' : Node X}

theorem Disk.faulty_pathExists (d : Disk) (path : Path) :
    (d.faulty faults listing (.pathExists path)).1 = d := by
  rw [faulty]
  split <;> rfl

/-- A directory that has been made is there. -/
theorem Disk.get_of_faulty_createDirAll {d : Disk} {path : Path}
    (h : (d.faulty faults listing (.createDirAll path)).2 = .ok ()) :
    (d.faulty faults listing (.createDirAll path)).1.get path = .ok .dir := by
  rw [faulty] at h ⊢
  split at h
  · cases h
  · refine FileTree.get_of_createDirAll (t := d) (Prod.ext rfl ?_)
    cases hmade : (d.createDirAll path).2 with
    | ok _ => rfl
    | error e =>
      rw [answer, hmade] at h
      cases h

section Mkdir

variable {answer : Disk → (op : DiskOp) → Disk × op.Reply} {d d₁ d₂ : Disk}

theorem TableOfContent.run_mkdirCollectionDir_of_exists
    (h : answer d (.pathExists (newPath name)) = (d₁, true)) :
    (mkdirCollectionDir name).run answer d = (d₁, .error (.badInput
      s!"Collection path already exists: {(newPath name).display}")) := by
  have hcheck : (Fs.pathExists (newPath name) : Fs StorageError Bool).run answer d
      = (d₁, .ok true) := by rw [Fs.pathExists, Program.run_perform, h]
  exact Program.run_bind_of hcheck _

theorem TableOfContent.run_mkdirCollectionDir
    (h : answer d (.pathExists (newPath name)) = (d₁, false)) :
    (mkdirCollectionDir name).run answer d
      = match answer d₁ (.createDirAll (newPath name)) with
        | (d₂, .ok _) => (d₂, .ok (newPath name))
        | (d₂, .error e) =>
          (d₂, .error (.serviceError s!"Can't create directory for collection: {e}")) := by
  have hcheck : (Fs.pathExists (newPath name) : Fs StorageError Bool).run answer d
      = (d₁, .ok false) := by rw [Fs.pathExists, Program.run_perform, h]
  refine (Program.run_bind_of hcheck _).trans ?_
  rw [if_neg (by simp)]
  rcases hmkdir : answer d₁ (.createDirAll (newPath name)) with ⟨d₂, e | _⟩
  · have hmade : (Fs.createDirAll (newPath name)).run answer d₁ = (d₂, .error e) := by
      rw [Fs.createDirAll, Program.run_call, hmkdir]
      rfl
    exact Program.run_bind_of_error (Program.run_mapError_of_error hmade _) _
  · have hmade : (Fs.createDirAll (newPath name)).run answer d₁ = (d₂, .ok ()) := by
      rw [Fs.createDirAll, Program.run_call, hmkdir]
      rfl
    exact Program.run_bind_of (Program.run_mapError_of hmade _) _

end Mkdir

/-- **How far a create gets**: to the path check, to the making of the directory, or further; and
no directory that has been made is removed again. -/
theorem TableOfContent.run_makeCollection (X : Crates V) (J : ConfigJson)
    (order : IterOrder (Σ _ : ShardId, ReplicaSet)) (name : CollectionName) (params : String)
    (d : Disk) {d' : Disk}
    (h : ((makeCollection X J order name params).run (Disk.faulty faults listing) d).1 = d') :
    ((d.faulty faults listing (.pathExists (newPath name))).2 = true ∧ d' = d) ∨
    (d.faulty faults listing (.pathExists (newPath name))).2 = false ∧
      ((∃ e, (d.faulty faults listing (.createDirAll (newPath name))).2 = .error e) ∧
          d' = (d.faulty faults listing (.createDirAll (newPath name))).1 ∨
        (d.faulty faults listing (.createDirAll (newPath name))).2 = .ok () ∧
          (d.faulty faults listing (.createDirAll (newPath name))).1.KeepsDirs d') := by
  have hsame : (d.faulty faults listing (.pathExists (newPath name))).1 = d :=
    Disk.faulty_pathExists d _
  rcases hcheck : d.faulty faults listing (.pathExists (newPath name)) with ⟨d₁, _ | _⟩
  · obtain rfl : d₁ = d := by rwa [hcheck] at hsame
    have hrun := run_mkdirCollectionDir hcheck
    refine Or.inr ⟨rfl, ?_⟩
    rcases hmkdir : d₁.faulty faults listing (.createDirAll (newPath name)) with ⟨d₂, e | _⟩
    · rw [hmkdir] at hrun
      rw [makeCollection, Program.run_bind_of_error hrun] at h
      exact Or.inl ⟨⟨e, rfl⟩, h.symm⟩
    · rw [hmkdir] at hrun
      rw [makeCollection, Program.run_bind_of hrun] at h
      refine Or.inr ⟨rfl, ?_⟩
      rw [← h]
      exact (Collection.calls_initOnDisk J name ⟨params⟩ order).run_inv
        (fun d₃ op hop hd₃ ↦ hd₃.trans (d₃.keepsDirs_faulty faults listing hop)) (.refl d₂)
  · obtain rfl : d₁ = d := by rwa [hcheck] at hsame
    rw [makeCollection, Program.run_bind_of_error (run_mkdirCollectionDir_of_exists hcheck)] at h
    exact Or.inl ⟨rfl, h.symm⟩

/-- A create that fails leaves the memory as it was. -/
theorem Node.performFaulty_create {params : String} {e : StorageError}
    (h : node.performFaulty J peer listing faults order (.createCollection name params)
      = (node', some (.error e))) :
    node'.memory = node.memory ∧
      ((TableOfContent.makeCollection X J order name params).run (Disk.faulty faults listing)
        node.disk).1 = node'.disk := by
  rw [performFaulty, TableOfContent.performCollectionMetaOp] at h
  obtain ⟨⟨d, outcome⟩, hmade⟩ : ∃ r, (TableOfContent.makeCollection X J order name params).run
    (Disk.faulty faults listing) node.disk = r := ⟨_, rfl⟩
  rw [hmade]
  rw [TableOfContent.makeCollection] at hmade
  rcases outcome with ⟨c, trees⟩ | e' | message
  · rw [Program.run_bind_of (Program.run_attempt_of hmade)] at h
    by_cases hname : name ∈ node.memory.toc.collections
    · simp only [if_pos hname, Program.run_pure] at h
      obtain rfl := (Prod.ext_iff.mp h).1
      exact ⟨rfl, rfl⟩
    · simp only [if_neg hname, Program.run_pure] at h
      cases (Prod.ext_iff.mp h).2
  · rw [Program.run_bind_of (Program.run_attempt_of_error hmade)] at h
    simp only [Program.run_pure] at h
    obtain rfl := (Prod.ext_iff.mp h).1
    exact ⟨rfl, rfl⟩
  · rw [Program.run_bind_of_panicked (Program.run_attempt_of_panicked hmade)] at h
    cases (Prod.ext_iff.mp h).2

/-- A delete that fails has taken the collection out of the memory, unless there is none. -/
theorem Node.performFaulty_delete {e : StorageError}
    (h : node.performFaulty J peer listing faults order (.deleteCollection name)
      = (node', some (.error e))) :
    name ∉ node.memory.toc.collections ∧ node' = node ∨
      name ∈ node.memory.toc.collections ∧ name ∉ node'.memory.toc.collections := by
  rw [performFaulty, TableOfContent.performCollectionMetaOp] at h
  cases hc : node.memory.toc.collections.lookup name with
  | none =>
    simp only [hc, Program.run_pure] at h
    exact Or.inl ⟨AList.lookup_eq_none.mp hc, (Prod.ext_iff.mp h).1.symm⟩
  | some c =>
    simp only [hc] at h
    have hgone : name ∉ node.memory.toc.collections.erase name :=
      fun hmem ↦ (AList.mem_erase.mp hmem).1 rfl
    refine Or.inr ⟨AList.lookup_isSome.mp (by rw [hc]; rfl), ?_⟩
    rcases hdelete : c.delete.run (Disk.faulty faults listing) node.disk with ⟨d, _ | e' | message⟩
    · rw [Program.run_bind_of (Program.run_attempt_of hdelete)] at h
      cases (Prod.ext_iff.mp h).2
    · rw [Program.run_bind_of (Program.run_attempt_of_error hdelete)] at h
      simp only [Program.run_pure] at h
      obtain rfl := (Prod.ext_iff.mp h).1
      exact hgone
    · rw [Program.run_bind_of_panicked (Program.run_attempt_of_panicked hdelete)] at h
      cases (Prod.ext_iff.mp h).2

/-- **A failed operation undoes nothing.**  Whatever is in memory and on disk, and whatever calls
fail, each as far as it gets: if an operation returns an error, then everything is as before if the
operation did not get as far as doing something.  It is as before only then, provided that the
operation could tell whether there was something where the collection is to be made. -/
theorem failed_unchanged_iff {operation : CollectionMetaOperation} {e : StorageError}
    (h : node.performFaulty J peer listing faults order operation = (node', some (.error e))) :
    (operation.Refused faults listing node → node'.LooksLike node) ∧
      (operation.Checks faults →
        (node'.LooksLike node ↔ operation.Refused faults listing node)) := by
  cases operation with
  | createCollection name params =>
    obtain ⟨hmemory, hdisk⟩ := Node.performFaulty_create h
    have hcases := TableOfContent.run_makeCollection X J order name params node.disk hdisk
    have hif : CollectionMetaOperation.Refused faults listing node (.createCollection name params) →
        node'.LooksLike node := by
      intro hrefused
      refine ⟨fun n ↦ by rw [hmemory], ?_⟩
      rcases hcases with ⟨-, hdisk⟩ | ⟨hcheck, ⟨-, hdisk⟩ | ⟨hmkdir, -⟩⟩
      · rw [hdisk]
      · rcases hrefused with htrue | ⟨-, hlookup⟩
        · cases hcheck.symm.trans htrue
        · rw [hdisk, hlookup]
      · rcases hrefused with htrue | ⟨⟨e', he'⟩, -⟩
        · cases hcheck.symm.trans htrue
        · cases hmkdir.symm.trans he'
    refine ⟨hif, fun hchecks ↦ ⟨fun hsame ↦ ?_, hif⟩⟩
    rcases hcases with ⟨hcheck, -⟩ | ⟨hcheck, ⟨herror, hdisk⟩ | ⟨hmkdir, hkeeps⟩⟩
    · exact Or.inl hcheck
    · exact Or.inr ⟨herror, by rw [← hdisk, hsame.disk]⟩
    · -- the directory is still there, and it was not there before
      have hdir := hkeeps.get_dir (Disk.get_of_faulty_createDirAll hmkdir)
      rw [FileTree.get_congr hsame.disk] at hdir
      rw [CollectionMetaOperation.Checks] at hchecks
      rw [Disk.faulty, hchecks] at hcheck
      simp only [Disk.answer, hdir] at hcheck
      cases hcheck
  | deleteCollection name =>
    rcases Node.performFaulty_delete h with ⟨hnone, rfl⟩ | ⟨hmem, hgone⟩
    · exact ⟨fun _ ↦ ⟨fun _ ↦ rfl, rfl⟩, fun _ ↦ ⟨fun _ ↦ hnone, fun _ ↦ ⟨fun _ ↦ rfl, rfl⟩⟩⟩
    · refine ⟨fun hrefused ↦ absurd hmem hrefused, fun _ ↦ ⟨fun hsame ↦ ?_, ?_⟩⟩
      · refine absurd (AList.lookup_isSome.mpr hmem) ?_
        rw [← hsame.memory, AList.lookup_eq_none.mpr hgone]
        simp
      · exact fun hrefused ↦ absurd hmem hrefused

end Operations

/-- No file can be made, for there is no space left. -/
def noSpace : Faults
  | .createFile _ => some ⟨(), "No space left on device (os error 28)"⟩
  | _ => none

/-- A node that has just been started for the first time. -/
def Node.fresh : Node Crates.bool := (Node.run .plain 101 [.restart .insertion] .down).1

/-- A create at a new node, with no space left for its config. -/
def Node.fullDisk : Node Crates.bool × Answer :=
  Node.fresh.performFaulty .plain 101 (fun _ ↦ .insertion) noSpace .insertion
    (.createCollection "c" "p")

theorem Node.fullDisk_fails : Node.fullDisk = (Node.fullDisk.1, some (.error (.serviceError
    "Failed to create collection config file: No space left on device (os error 28)"))) :=
  Prod.ext rfl (by decide +kernel)

/-- The create that finds no space left. -/
theorem failed_unchanged_iff_noSpace : Node.fullDisk.1.LooksLike Node.fresh ↔
    CollectionMetaOperation.Refused noSpace (fun _ ↦ .insertion) Node.fresh
      (.createCollection "c" "p") :=
  (failed_unchanged_iff Node.fullDisk_fails).2 rfl

/-- **Not every failed operation leaves the catalog as it was.**  The directory of the collection
stays behind when its config cannot be made. -/
theorem not_unchanged_noSpace : ¬ ∀ (events : List (Node.Event Bool))
    (listing : Path → IterOrder String) (faults : Faults)
    (order : IterOrder (Σ _ : ShardId, ReplicaSet)) (operation : CollectionMetaOperation)
    (node' : Node Crates.bool) (e : StorageError),
    Node.performFaulty .plain 101 listing faults order operation
        (Node.run .plain 101 (.restart .insertion :: events) .down).1 = (node', some (.error e)) →
      node'.LooksLike (Node.run .plain 101 (.restart .insertion :: events) .down).1 := by
  intro h
  have hsame : Node.fullDisk.1.LooksLike Node.fresh := h [] _ _ _ _ _ _ Node.fullDisk_fails
  have hthere : Node.fullDisk.1.disk.lookup (collectionDir "c") = some .dir := by decide +kernel
  have hnone : ¬ Node.fresh.disk.lookup (collectionDir "c") = some .dir := by decide +kernel
  rw [hsame.disk] at hthere
  exact hnone hthere

end Smoldb
