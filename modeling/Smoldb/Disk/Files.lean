import Smoldb.Storage.Collection
import Smoldb.Lib.Program
import Smoldb.Lib.FileTree

/-!
# The disk

What the database keeps on disk is a file tree in the working directory: the config of a collection
is a text file, and what sled keeps in the directory of a segment stands as one entry, `db`, whose
content is the tree.  `Disk` has the tree, and `DiskOp` the calls the code makes to `std::fs` and to
`sled::open`.  A function of the source that works on the disk is a program with these calls, and
`Disk.answer` is what happens when it is run and no call fails for a reason that is not in the tree
itself.  Directories may be listed in any order.

A path is kept as the pieces between its slashes.  `join` is `Path::join`: a name with slashes in it
has several pieces, one that begins with a slash starts from the root, and `..` is a piece as any
other, which `FileTree.resolve` follows.  So what a strange name of a collection leads to is in the
model, and `IsFileName` says which names are not strange: one piece, that is not empty, `.` or `..`,
has no NUL in it and is no longer than a file name can be.

The last section has one lemma for each call, which says what it returns and what is to be looked up
afterwards, under the condition that the code is in when it makes the call.  The proofs about
programs use these and do not look into the file tree.
-/

set_option autoImplicit false

namespace Smoldb

open FileTree (View)

/-! ## Paths -/

namespace Path

/-- The pieces of a text between the slashes. -/
def pieces (text : String) : Path := (text.toList.splitOn '/').map String.ofList

/-- `Path::join`: an absolute path replaces the one it is joined to. -/
def join (path : Path) (text : String) : Path :=
  if text.toList.head? = some '/' then pieces text
  else if path.getLast? = some "" then path.dropLast ++ pieces text
  else path ++ pieces text

/-- `Path::display`. -/
def display (path : Path) : String := "/".intercalate path

/-- `Path::file_name`. -/
def fileName (path : Path) : Option String :=
  (path.reverse.find? fun piece ↦ piece ≠ "" ∧ piece ≠ ".").filter fun piece ↦ piece ≠ ".."

theorem fileName_append (path : Path) {name : String} (h : FileTree.Ordinary name) :
    fileName (path ++ [name]) = some name := by
  rw [fileName, List.reverse_append, List.reverse_singleton, List.singleton_append,
    List.find?_cons_of_pos (by simp [h.1, h.2.1]), Option.filter_some, if_pos (by simp [h.2.2])]

/-- All pieces are names. -/
def IsOrdinary (path : Path) : Prop := ∀ piece ∈ path, FileTree.Ordinary piece

instance (path : Path) : Decidable path.IsOrdinary := inferInstanceAs (Decidable (∀ _ ∈ path, _))

theorem IsOrdinary.append {path rest : Path} (h : path.IsOrdinary) (hrest : rest.IsOrdinary) :
    Path.IsOrdinary (path ++ rest) :=
  fun piece hpiece ↦ (List.mem_append.mp hpiece).elim (h piece) (hrest piece)

/-- A text that is the name of a file: one ordinary piece that the file system takes, which is
without a zero byte and not longer than 255 bytes. -/
def IsFileName (name : String) : Prop :=
  FileTree.Ordinary name ∧ '/' ∉ name.toList ∧ '\x00' ∉ name.toList ∧ name.utf8ByteSize ≤ 255

instance (name : String) : Decidable (IsFileName name) :=
  inferInstanceAs (Decidable (_ ∧ _ ∧ _ ∧ _))

theorem pieces_of_isFileName {name : String} (h : IsFileName name) : pieces name = [name] := by
  have hsplit : name.toList.splitOn '/' = [name.toList] :=
    List.splitOnP_eq_singleton fun c hc ↦ by
      have hne : c ≠ '/' := fun heq ↦ h.2.1 (by rwa [heq] at hc)
      simpa using hne
  rw [pieces, hsplit, List.map_singleton, String.ofList_toList]

theorem join_of_isFileName {name : String} (h : IsFileName name) {path : Path}
    (hpath : path.IsOrdinary) : path.join name = path ++ [name] := by
  have hhead : name.toList.head? ≠ some '/' := fun hh ↦ h.2.1 (List.mem_of_mem_head? hh)
  have hlast : path.getLast? ≠ some "" := fun hl ↦ (hpath "" (List.mem_of_getLast? hl)).1 rfl
  rw [join, if_neg hhead, if_neg hlast, pieces_of_isFileName h]

end Path

/-! ## Calls -/

/-- What a file holds: text, or a sled tree. -/
inductive Contents where
  | text (s : String)
  | tree (db : Db)

/-- The working directory. -/
abbrev Disk := FileTree Contents

/-- The calls of `std::fs`, and `sled::open`. -/
inductive DiskOp where
  | pathExists (path : Path)
  | isDir (path : Path)
  | createDirAll (path : Path)
  | removeDirAll (path : Path)
  | readDir (path : Path)
  | createFile (path : Path)
  | writeFile (path : Path) (text : String)
  | openFile (path : Path)
  | readFile (path : Path)
  | openTree (path : Path)

/-- What a call returns. -/
abbrev DiskOp.Reply : DiskOp → Type
  | pathExists _ | isDir _ => Bool
  | createDirAll _ | removeDirAll _ | createFile _ | writeFile _ _ | openFile _ =>
    Except String Unit
  | readDir _ => Except String (List (Except String String))
  | readFile _ => Except String String
  | openTree _ => Except String Db

/-- A function that works on the disk. -/
abbrev Fs (ε α : Type) := Program DiskOp DiskOp.Reply ε α

namespace Fs

variable {ε : Type}

def pathExists (path : Path) : Fs ε Bool := Program.perform (DiskOp.pathExists path)

def isDir (path : Path) : Fs ε Bool := Program.perform (DiskOp.isDir path)

def createDirAll (path : Path) : Fs String Unit :=
  Program.call (DiskOp.createDirAll path) Program.ofExcept

def removeDirAll (path : Path) : Fs String Unit :=
  Program.call (DiskOp.removeDirAll path) Program.ofExcept

def readDir (path : Path) : Fs String (List (Except String String)) :=
  Program.call (DiskOp.readDir path) Program.ofExcept

def createFile (path : Path) : Fs String Unit :=
  Program.call (DiskOp.createFile path) Program.ofExcept

def writeFile (path : Path) (text : String) : Fs String Unit :=
  Program.call (DiskOp.writeFile path text) Program.ofExcept

def openFile (path : Path) : Fs String Unit :=
  Program.call (DiskOp.openFile path) Program.ofExcept

def readFile (path : Path) : Fs String String :=
  Program.call (DiskOp.readFile path) Program.ofExcept

def openTree (path : Path) : Fs String Db :=
  Program.call (DiskOp.openTree path) Program.ofExcept

end Fs

/-! ## Answers -/

/-- The text of an error of the operating system. -/
def osError : FileTree.Error → String
  | .notFound => "No such file or directory (os error 2)"
  | .alreadyExists => "File exists (os error 17)"
  | .notADirectory => "Not a directory (os error 20)"
  | .isADirectory => "Is a directory (os error 21)"

namespace Disk

/-- Where sled keeps the tree of a directory. -/
def treePath (path : Path) : Path := path ++ ["db"]

/-- `sled::open`: the tree in a directory, and an empty one if there is none. -/
def openTree (d : Disk) (path : Path) : Disk × Except String Db :=
  match d.createDirAll path with
  | (d, .error e) => (d, .error (osError e))
  | (d, .ok _) =>
    match d.read (treePath path) with
    | .ok (.tree db) => (d, .ok db)
    | .ok (.text _) => (d, .error "not a database")
    | .error .notFound =>
      match d.write (treePath path) (.tree ∅) with
      | (d, .error e) => (d, .error (osError e))
      | (d, .ok _) => (d, .ok ∅)
    | .error e => (d, .error (osError e))

/-- Flush the tree of a directory. -/
def flush (d : Disk) (path : Path) (db : Db) : Disk := (d.write (treePath path) (.tree db)).1

/-- What a call does and returns.  A directory is listed in the order `listing` has for it. -/
def answer (listing : Path → IterOrder String) (d : Disk) : (op : DiskOp) → Disk × op.Reply
  | .pathExists path => (d, (d.get path).isOk)
  | .isDir path =>
    match d.get path with
    | .ok .dir => (d, true)
    | _ => (d, false)
  | .createDirAll path => ((d.createDirAll path).1, (d.createDirAll path).2.mapError osError)
  | .removeDirAll path => ((d.removeDirAll path).1, (d.removeDirAll path).2.mapError osError)
  | .readDir path =>
    (d, ((d.readDir path).mapError osError).map fun names ↦
      ((listing path).arrange names).map Except.ok)
  | .createFile path =>
    ((d.write path (.text "")).1, (d.write path (.text "")).2.mapError osError)
  | .writeFile path text =>
    ((d.write path (.text text)).1, (d.write path (.text text)).2.mapError osError)
  | .openFile path => (d, ((d.get path).mapError osError).map fun _ ↦ ())
  | .readFile path =>
    match d.read path with
    | .ok (.text s) => (d, .ok s)
    | .ok (.tree _) => (d, .error "stream did not contain valid UTF-8")
    | .error e => (d, .error (osError e))
  | .openTree path => d.openTree path

end Disk

/-- Run a function on a disk that answers every call. -/
abbrev Fs.exec {ε α : Type} (listing : Path → IterOrder String) (p : Fs ε α) (d : Disk) :
    Disk × Program.Outcome ε α := p.run (Disk.answer listing) d

/-! ## What the calls do -/

namespace Fs

variable {ε : Type} {listing : Path → IterOrder String} {d : Disk} {path : Path}

section Ordinary

variable (h : path.IsOrdinary)

include h

theorem exec_pathExists :
    exec listing (pathExists path : Fs ε Bool) d = (d, .ok (d.lookup path).isSome) := by
  rw [exec, pathExists, Program.run_perform]
  simp only [Disk.answer, FileTree.get_eq_lookup h]
  cases d.lookup path <;> rfl

theorem exec_isDir :
    exec listing (isDir path : Fs ε Bool) d = (d, .ok (decide (d.lookup path = some .dir))) := by
  rw [exec, isDir, Program.run_perform, Disk.answer, FileTree.get_eq_lookup h]
  cases hl : d.lookup path with
  | none => rfl
  | some n => cases n <;> rfl

theorem exec_createDirAll_of_dir (hdir : d.lookup path = some .dir) :
    exec listing (createDirAll path) d = (d, .ok ()) := by
  rw [exec, createDirAll, Program.run_call]
  simp only [Disk.answer, FileTree.createDirAll_of_dir h hdir]
  rfl

/-- **`create_dir_all`** makes the directories on the way to the one it makes. -/
theorem exec_createDirAll (listing : Path → IterOrder String)
    (hfile : ∀ q a, q <+: path → d.lookup q ≠ some (.file a)) :
    ∃ d', exec listing (createDirAll path) d = (d', .ok ()) ∧
      d'.lookup = View.withDirs path d.lookup := by
  obtain ⟨d', hd', hl⟩ := FileTree.createDirAll_spec h hfile
  refine ⟨d', ?_, hl⟩
  rw [exec, createDirAll, Program.run_call]
  simp only [Disk.answer, hd']
  rfl

theorem exec_removeDirAll (hdir : d.lookup path = some .dir) :
    exec listing (removeDirAll path) d = (d.prune path, .ok ()) := by
  rw [exec, removeDirAll, Program.run_call]
  simp only [Disk.answer, FileTree.removeDirAll_of_dir h hdir]
  rfl

theorem exec_readDir (hdir : d.lookup path = some .dir) :
    exec listing (readDir path) d
      = (d, .ok (((listing path).arrange (d.names path)).map .ok)) := by
  rw [exec, readDir, Program.run_call]
  simp only [Disk.answer, FileTree.readDir_of_dir h hdir]
  rfl

theorem exec_createFile (hfree : d.Free path) :
    exec listing (createFile path) d = (d.put path (.file (.text "")), .ok ()) := by
  rw [exec, createFile, Program.run_call]
  simp only [Disk.answer, FileTree.write_of_free h hfree]
  rfl

theorem exec_writeFile (hfree : d.Free path) (text : String) :
    exec listing (writeFile path text) d = (d.put path (.file (.text text)), .ok ()) := by
  rw [exec, writeFile, Program.run_call]
  simp only [Disk.answer, FileTree.write_of_free h hfree]
  rfl

theorem exec_openFile {n : FileNode Contents} (hn : d.lookup path = some n) :
    exec listing (openFile path) d = (d, .ok ()) := by
  rw [exec, openFile, Program.run_call]
  simp only [Disk.answer, FileTree.get_eq_lookup h, hn]
  rfl

theorem exec_readFile {s : String} (hs : d.lookup path = some (.file (.text s))) :
    exec listing (readFile path) d = (d, .ok s) := by
  rw [exec, readFile, Program.run_call]
  simp only [Disk.answer, FileTree.read_of_file h hs]
  rfl

theorem isOrdinary_treePath : (Disk.treePath path).IsOrdinary := h.append (by decide)

/-- **`sled::open` recovers what has been flushed.** -/
theorem exec_openTree {db : Db} (hdb : d.lookup (Disk.treePath path) = some (.file (.tree db))) :
    exec listing (openTree path) d = (d, .ok db) := by
  have hdir : d.lookup path = some .dir := FileTree.lookup_of_append (by simp) hdb
  rw [exec, openTree, Program.run_call]
  simp only [Disk.answer, Disk.openTree, FileTree.createDirAll_of_dir h hdir,
    FileTree.read_of_file (isOrdinary_treePath h) hdb]
  rfl

/-- `sled::open` in a directory that is empty. -/
theorem exec_openTree_new (hdir : d.lookup path = some .dir)
    (hnone : d.lookup (Disk.treePath path) = none) :
    exec listing (openTree path) d = (d.put (Disk.treePath path) (.file (.tree ∅)), .ok ∅) := by
  have hfree : d.Free (Disk.treePath path) := by
    refine ⟨by simp [Disk.treePath], ?_, by simp [hnone]⟩
    rw [Disk.treePath, List.dropLast_concat]
    exact hdir
  rw [exec, openTree, Program.run_call]
  simp only [Disk.answer, Disk.openTree, FileTree.createDirAll_of_dir h hdir, FileTree.read,
    FileTree.get_eq_lookup (isOrdinary_treePath h), hnone,
    FileTree.write_of_free (isOrdinary_treePath h) hfree]
  rfl

end Ordinary

end Fs

end Smoldb
