import Smoldb.Disk.Isolation

/-!
# Operations that are under way

A create looks whether the directory of its collection is there, makes the directory and what
belongs in it, and only then takes the lock of the table of contents; a delete holds the lock from
the beginning to its end.  So any number of both can be under way at a node, and their steps mix.

* `MetaTask` is such an operation, by what it has still to do: a create is a program that makes
  calls to the disk, and a delete waits for the lock before it becomes one.
* `LiveNode` is a node with its tasks.  It knows which directories have a tree open in them, and who
  opened it: sled refuses to open such a directory again, and a tree is closed when what has opened
  it is dropped.
* `LiveNode.step` lets one task take its next step: it makes its next call to the disk, or it gets
  the lock, or it returns.  A task that waits for a lock somebody else holds stays where it is.

`LiveNode.Agrees` and `LiveNode.CreatesOnce` are what is asked of such a node at any time, and
`LiveNode.Races` is the step that spoils it: a create looks for the directory of its collection in
vain, when another one that has looked is about to make it.

The rest is about a single call, which changes the disk and what is open and nothing else, and stays
in the directory of its collection.

A file is written by its path, as elsewhere.  The texts of two creates that write their configs at
the same time are not mixed up, and the later one stands.
-/

set_option autoImplicit false

namespace Smoldb

open FileTree (View LocalTo)
open TableOfContent (collectionsPath newPath makeCollection)

variable {V : Type} {X : Crates V} {J : ConfigJson} {peer : PeerId}

/-! ## Operations that are under way -/

/-- Who has opened a tree: the start of the node, for one of its collections, or a create. -/
inductive Opener where
  | start (name : CollectionName)
  | create (i : ℕ)
  deriving DecidableEq

/-- A create or a delete that is under way. -/
inductive MetaTask {V : Type} (X : Crates V) where
  /-- A create, with what it has still to do before it takes the lock. -/
  | creating (name params : String) (rest : Fs StorageError (Collection X × Trees))
  /-- A delete that waits for the lock. -/
  | waiting (name : CollectionName)
  /-- A delete that holds the lock, with what it has still to do. -/
  | deleting (name : CollectionName) (opener : Opener) (rest : Fs StorageError Unit)
  | done (operation : CollectionMetaOperation) (answer : Answer)

namespace MetaTask

/-- The collection a task is about. -/
def name : MetaTask X → CollectionName
  | creating name _ _ => name
  | waiting name => name
  | deleting name _ _ => name
  | done operation _ => operation.collectionName

/-- An operation before its first step. -/
def start (J : ConfigJson) (order : IterOrder (Σ _ : ShardId, ReplicaSet)) :
    CollectionMetaOperation → MetaTask X
  | .createCollection name params => creating name params (makeCollection X J order name params)
  | .deleteCollection name => waiting name

end MetaTask

/-- A node on which operations are under way. -/
structure LiveNode {V : Type} (X : Crates V) extends Node X where
  /-- Who has the tree of a directory open. -/
  held : Path → Option Opener
  /-- Who has opened the trees of a collection of the map. -/
  opener : CollectionName → Opener
  /-- The delete that holds the lock of the table of contents. -/
  lock : Option ℕ
  tasks : List (MetaTask X)
  /-- What has been returned so far. -/
  returned : List (CollectionMetaOperation × Answer)

/-- The directories of the segments of a collection. -/
def Collection.segmentPaths (self : Collection X) : List Path :=
  self.replicaHolder.shards.entries.flatMap fun e ↦
    e.2.localShard.segments.entries.map fun s ↦ s.2.path

/-- Operations are sent to a node. -/
def Node.begin (J : ConfigJson) (order : ℕ → IterOrder (Σ _ : ShardId, ReplicaSet))
    (operations : List CollectionMetaOperation) (node : Node X) : LiveNode X where
  toNode := node
  held path := (node.memory.toc.collections.entries.find? fun e ↦
    path ∈ e.2.segmentPaths).map fun e ↦ .start e.1
  opener := .start
  lock := none
  tasks := operations.mapIdx fun i operation ↦ .start J (order i) operation
  returned := []

namespace LiveNode

/-- What a call of a task does and returns. -/
def answer (i : ℕ) (node : LiveNode X) : (op : DiskOp) → LiveNode X × op.Reply
  | .openTree path =>
    if (node.held path).isSome then
      (node, .error s!"could not acquire lock on {path.display.quote}")
    else match node.disk.openTree path with
      | (d, .ok db) =>
        ({ node with disk := d, held := Function.update node.held path (some (.create i)) }, .ok db)
      | (d, .error e) => ({ node with disk := d }, .error e)
  | .removeDirAll path =>
    match node.disk.removeDirAll path with
    | (d, .ok _) =>
      -- what is made under the same name later on is not the directory that was open
      ({ node with disk := d, held := fun q ↦ if path <+: q then none else node.held q }, .ok ())
    | (d, .error e) => ({ node with disk := d }, .error (osError e))
  | op => ({ node with disk := (node.disk.answer (fun _ ↦ .insertion) op).1 },
      (node.disk.answer (fun _ ↦ .insertion) op).2)

/-- The trees that somebody has opened are closed. -/
def close (o : Opener) (node : LiveNode X) : LiveNode X :=
  { node with held := fun path ↦ if node.held path = some o then none else node.held path }

def setTask (i : ℕ) (task : MetaTask X) (node : LiveNode X) : LiveNode X :=
  { node with tasks := node.tasks.set i task }

/-- A task returns. -/
def finish (i : ℕ) (operation : CollectionMetaOperation) (answer : Answer) (node : LiveNode X) :
    LiveNode X :=
  { node with
    tasks := node.tasks.set i (.done operation answer)
    returned := node.returned ++ [(operation, answer)] }

/-- A create has made what belongs to its collection, and takes the lock. -/
def insertMade (peer : PeerId) (i : ℕ) (name params : String) (collection : Collection X)
    (trees : Trees) (node : LiveNode X) : LiveNode X :=
  if node.lock.isSome then node
  else if name ∈ node.memory.toc.collections then
    (node.close (.create i)).finish i (.createCollection name params)
      (some (.error (.badInput s!"Collection with name '{name}' already exists")))
  else
    { node with
      memory := node.memory.insert peer name collection trees
      opener := Function.update node.opener name (.create i) }.finish i
        (.createCollection name params) (some (.ok true))

/-- A delete takes the lock. -/
def takeLock (i : ℕ) (name : CollectionName) (node : LiveNode X) : LiveNode X :=
  if node.lock.isSome then node
  else match node.memory.toc.collections.lookup name with
    | none => node.finish i (.deleteCollection name)
        (some (.error (.badInput s!"Collection with name '{name}' does not exist")))
    | some collection =>
      { node with
        memory := { node.memory with toc := ⟨node.memory.toc.collections.erase name⟩ }
        lock := some i }.setTask i (.deleting name (node.opener name) collection.delete)

/-- A delete is over, and with it the lock and the collection. -/
def release (i : ℕ) (name : CollectionName) (opener : Opener) (answer : Answer)
    (node : LiveNode X) : LiveNode X :=
  (close opener { node with lock := none }).finish i (.deleteCollection name) answer

/-- A task takes its next step.  One that waits for the lock stays where it is. -/
def step (peer : PeerId) (node : LiveNode X) (i : ℕ) : LiveNode X :=
  match node.tasks[i]? with
  | some (.creating name params (.call op next)) =>
    (node.answer i op).1.setTask i (.creating name params (next (node.answer i op).2))
  | some (.creating name params (.ok (collection, trees))) =>
    node.insertMade peer i name params collection trees
  | some (.creating name params (.error e)) =>
    (node.close (.create i)).finish i (.createCollection name params) (some (.error e))
  | some (.creating name params (.panicked _)) =>
    (node.close (.create i)).finish i (.createCollection name params) none
  | some (.waiting name) => node.takeLock i name
  | some (.deleting name opener (.call op next)) =>
    (node.answer i op).1.setTask i (.deleting name opener (next (node.answer i op).2))
  | some (.deleting name opener (.ok _)) => node.release i name opener (some (.ok true))
  | some (.deleting name opener (.error e)) => node.release i name opener (some (.error e))
  | some (.deleting name opener (.panicked _)) => node.release i name opener none
  | some (.done _ _) => node
  | none => node

/-! ## What is said about them -/

/-- The collections of the map are on disk, with their configs and the directories of their shards.
-/
def Agrees (J : ConfigJson) (node : LiveNode X) : Prop :=
  ∀ name c, node.memory.toc.collections.lookup name = some c →
    (∃ text, node.disk.lookup (collectionDir name ++ ["config.json"]) = some (.file (.text text)) ∧
      J.fromReader text = .ok c.config) ∧
    ∀ s ∈ c.replicaHolder.shards, node.disk.lookup (collectionDir name ++ [shardName s]) = some .dir

/-- Between two creates of a name that succeeded, a delete of it did. -/
def CreatesOnce (node : LiveNode X) : Prop :=
  ∀ name params params' before between after,
    node.returned = before ++ (.createCollection name params, some (.ok true)) :: between ++
      (.createCollection name params', some (.ok true)) :: after →
    (.deleteCollection name, some (.ok true)) ∈ between

/-- A task is a create that looks next whether the directory of its collection is there. -/
def Looks (node : LiveNode X) (name : CollectionName) (i : ℕ) : Prop :=
  ∃ params next, node.tasks[i]? = some (.creating name params
    (.call (.pathExists (newPath name)) next))

/-- A task is a create that has not found the directory of its collection, and makes it next. -/
def HasLooked (node : LiveNode X) (name : CollectionName) (i : ℕ) : Prop :=
  ∃ params next, node.tasks[i]? = some (.creating name params
    (.call (.createDirAll (newPath name)) next))

/-- A create does not find the directory that another create is about to make. -/
def Races (node : LiveNode X) (i : ℕ) : Prop :=
  ∃ name, node.Looks name i ∧ node.disk.get (newPath name) = .error .notFound ∧
    ∃ j, node.HasLooked name j

end LiveNode

/-! ## Calls -/

namespace Disk

/-- A program that stays in a directory is local to it. -/
theorem localTo_run {ε α : Type} {dir : Path} (h : dir.IsOrdinary) (hdir : dir ≠ [])
    {p : Fs ε α} (hp : p.Calls (DiskOp.Makes dir)) :
    LocalTo dir fun d : Disk ↦ p.run (answer fun _ ↦ .insertion) d := by
  induction p with
  | ok a => exact .pure _
  | error e => exact .pure _
  | panicked message => exact .pure _
  | call op next ih =>
    exact (localTo_answer _ h hdir (Or.inl hp.1)).bind hdir fun r ↦ ih r (hp.2 r)

end Disk

namespace LiveNode

variable {node : LiveNode X} {i : ℕ} {op : DiskOp} {dir : Path}

/-- A call changes what is on disk and what is open. -/
theorem answer_eq (i : ℕ) (node : LiveNode X) (op : DiskOp) :
    (node.answer i op).1 = { node with
      disk := (node.answer i op).1.disk
      held := (node.answer i op).1.held } := by
  cases op with
  | openTree path =>
    rw [answer]
    split
    · rfl
    · split <;> rfl
  | removeDirAll path =>
    rw [answer]
    split <;> rfl
  | _ => rfl

/-- A call that opens nothing that is open is a call to the disk. -/
theorem answer_of_free (hfree : ∀ path, op = .openTree path → node.held path = none) :
    (node.answer i op).1.disk = (node.disk.answer (fun _ ↦ .insertion) op).1 ∧
      (node.answer i op).2 = (node.disk.answer (fun _ ↦ .insertion) op).2 := by
  cases op with
  | openTree path =>
    rw [answer, hfree path rfl, if_neg (by simp), Disk.answer]
    rcases node.disk.openTree path with ⟨d, e | db⟩ <;> exact ⟨rfl, rfl⟩
  | removeDirAll path =>
    rw [answer, Disk.answer]
    rcases node.disk.removeDirAll path with ⟨d, e | _⟩ <;> exact ⟨rfl, rfl⟩
  | _ => exact ⟨rfl, rfl⟩

theorem answer_disk (i : ℕ) (node : LiveNode X) (op : DiskOp) :
    (node.answer i op).1.disk = node.disk ∨
      (node.answer i op).1.disk = (node.disk.answer (fun _ ↦ .insertion) op).1 := by
  by_cases hfree : ∀ path, op = .openTree path → node.held path = none
  · exact Or.inr (answer_of_free hfree).1
  · push Not at hfree
    obtain ⟨path, rfl, hheld⟩ := hfree
    rw [answer, if_pos (Option.isSome_iff_ne_none.mpr hheld)]
    exact Or.inl rfl

/-- What a call opens is open, and nothing else is opened. -/
theorem answer_held (hop : ∀ path, op ≠ .openTree path) {q : Path} (hq : node.held q = none) :
    (node.answer i op).1.held q = none := by
  cases op with
  | openTree path => exact absurd rfl (hop path)
  | removeDirAll path =>
    rw [answer]
    rcases node.disk.removeDirAll path with ⟨d, e | _⟩
    · exact hq
    · show (if path <+: q then none else node.held q) = none
      rw [hq, ite_self]
  | _ => exact hq

theorem answer_openTree_held {path q : Path} (hne : q ≠ path) (hq : node.held q = none) :
    (node.answer i (.openTree path)).1.held q = none := by
  rw [answer]
  split
  · exact hq
  · rcases node.disk.openTree path with ⟨d, e | db⟩
    · exact hq
    · show Function.update node.held path _ q = none
      rw [Function.update_of_ne hne, hq]

/-- The calls of an operation change nothing outside of the directory of its collection. -/
theorem answer_outside (h : dir.IsOrdinary) (hdir : dir ≠ [])
    (hparent : node.disk.lookup dir.dropLast = some .dir) (hop : op.Makes dir ∨ op.Removes dir)
    {q : Path} (hq : ¬ dir <+: q) :
    (node.answer i op).1.disk.lookup q = node.disk.lookup q := by
  rcases node.answer_disk i op with hsame | hsame
  · rw [hsame]
  · rw [hsame]
    exact (Disk.localTo_answer _ h hdir hop).outside node.disk hparent q hq

end LiveNode

end Smoldb
