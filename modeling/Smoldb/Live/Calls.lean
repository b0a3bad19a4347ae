import Smoldb.Lib.History
import Smoldb.Cluster

/-!
# The calls of a request

Elsewhere an upsert or a read is a function on the trees, and nothing happens in between.  Here it
is a program that makes calls, one insert, flush or get of sled at a time, so that other requests
can come in between and the node can stop anywhere.

`PointCall` has the calls that there are, those of sled and the one to another node, and a
`PointProgram` is a `Program` (`Lib/Program.lean`) that makes them: what it does next is a function
of what its last call returned.  Each function of the source has its program, under the same name
with `Steps` behind it, in the same order of calls and with the same early exits: a shard inserts
point by point and then flushes, the first error ends it, and a collection goes on with the next
shard only after all replicas of the last one have been asked.

The programs are written along the functions, and `eval_upsertSteps` and `eval_getSteps` say that
they are the same: run on trees that nobody else works on, a program does and returns what the
function does.  So the functions, which are what is compared with the source, and the programs,
which are what runs in the middle of other things, do not drift apart.  The proofs go function by
function, with a lemma for each loop, by induction over what the loop is over.
-/

set_option autoImplicit false

namespace Smoldb

variable {V : Type} {X : Crates V}

/-- A call that a request to a collection makes. -/
inductive PointCall (V : Type) where
  /-- The `i`-th insert of one `insert_points`. -/
  | insert (s : ShardId) (i : ℕ) (key value : String)
  | flush (s : ShardId)
  /-- The `i`-th get of one `get_points`. -/
  | get (s : ShardId) (i : ℕ) (key : String)
  | upsertRemote (s : ShardId) (shard : RemoteShard) (points : List (Point V))

/-- What a call is answered. -/
abbrev PointCall.Reply : PointCall V → Type
  | insert .. => Except String Unit
  | flush _ => Except String Unit
  | get .. => Except String (Option String)
  | upsertRemote .. => CollectionResult Unit

/-- A program of such calls. -/
abbrev PointProgram (V ε α : Type) := Program (PointCall V) PointCall.Reply ε α

/-! ## The programs -/

namespace Segment

/-- `insertFrom`, as a program. -/
def insertSteps (X : Crates V) (s : ShardId) :
    ℕ → List (Point V) → PointProgram V StorageError Unit
  | _, [] => .call (.flush s) fun
    | .ok _ => .ok ()
    | .error e => .error (.serviceError s!"Failed to flush segment db: {e}")
  | i, p :: ps =>
    match X.pointToString p with
    | .error e => .error (.serviceError s!"Failed to serialize point: {e}")
    | .ok value => .call (.insert s i p.id.intoString value) fun
      | .ok _ => insertSteps X s (i + 1) ps
      | .error e => .error (.serviceError s!"Failed to insert point into segment db: {e}")

/-- `getFrom`, as a program. -/
def getSteps (X : Crates V) (s : ShardId) :
    ℕ → List PointId → PointProgram V StorageError (List (Point V))
  | _, [] => .ok []
  | i, id :: ids => .call (.get s i id.intoString) fun
    | .error e => .error (.serviceError s!"Failed to get point from segment db: {e}")
    | .ok none => getSteps X s (i + 1) ids
    | .ok (some value) =>
      match decode X value with
      | .error e => .error e
      | .ok p => (getSteps X s (i + 1) ids).handle (fun ps ↦ .ok (p :: ps)) .error

end Segment

namespace LocalShard

/-- `LocalShard::upsert_points`, as a program. -/
def upsertSteps (X : Crates V) (self : LocalShard) (s : ShardId) (points : List (Point V)) :
    PointProgram V CollectionError Unit :=
  if 0 ∈ self.segments then (Segment.insertSteps X s 0 points).mapError .storageError
  else .error (.serviceError "No segments available")

/-- `LocalShard::get_points` for some ids, as a program. -/
def getSteps (X : Crates V) (self : LocalShard) (s : ShardId) (ids : List PointId) :
    PointProgram V CollectionError (List (Point V)) :=
  if 0 ∈ self.segments then (Segment.getSteps X s 0 ids).mapError fun e ↦
    .storageError (.serviceError s!"Failed to get points from segment: {e}")
  else .error (.storageError (.serviceError "No segments available"))

end LocalShard

namespace ReplicaSet

variable {ρ : Type}

/-- The loop of `execute_cluster_operation` over the remote shards, as a program. -/
def operateRemotesSteps (operation : Replica → PointProgram V CollectionError ρ) :
    List RemoteShard → PointProgram V CollectionError (List (CollectionResult ρ))
  | [] => pure []
  | r :: rs => do
    let result ← (operation (.remoteShard r)).attempt
    let results ← operateRemotesSteps operation rs
    pure (result :: results)

/-- `ReplicaSet::execute_cluster_operation`, as a program. -/
def operateSteps (self : ReplicaSet) (operation : Replica → PointProgram V CollectionError ρ)
    (localOnly : Bool) : PointProgram V CollectionError (List (CollectionResult ρ)) := do
  let localResult ← (operation (.localShard self.localShard)).attempt
  if localOnly then pure [localResult]
  else do
    let results ← operateRemotesSteps operation self.remotes
    pure (localResult :: results)

end ReplicaSet

namespace Collection

/-- What a loop ends with when it is left early. -/
def exit : Option (Option (CollectionResult Unit)) → PointProgram V CollectionError Unit
  | none => .ok ()
  | some none => .panicked "called `Option::unwrap()` on a `None` value"
  | some (some r) => .ofExcept r

/-- How a replica of a shard is written to, as a program. -/
def replicaSteps (X : Crates V) (s : ShardId) (points : List (Point V)) :
    Replica → PointProgram V CollectionError Unit
  | .localShard shard => shard.upsertSteps X s points
  | .remoteShard shard => .call (.upsertRemote s shard points) .ofExcept

/-- `upsertGroup`, as a program. -/
def groupSteps (self : Collection X) (points : List (Point V)) (localOnly : Bool)
    (group : ShardId × List PointId) : PointProgram V CollectionError Unit :=
  match self.replicaHolder.shards.lookup group.1 with
  | none => .error (.storageError (.badInput s!"Shard {group.1} not found"))
  | some replicaSet => do
    let results ← replicaSet.operateSteps
      (replicaSteps X group.1 (groupPoints points group.2)) localOnly
    exit (acknowledge X group.1 replicaSet localOnly results)

/-- `Collection::upsert_points`, as a program. -/
def upsertSteps (self : Collection X) (order : IterOrder (ShardId × List PointId))
    (points : List (Point V)) (localOnly : Bool) : PointProgram V CollectionError Unit :=
  match self.replicaHolder.selectShards (points.map Point.id) with
  | .error e => .error (.storageError e)
  | .ok groups =>
    (order.arrange groups).foldlM (fun _ group ↦ self.groupSteps points localOnly group) ()

/-- `readGroup`, as a program. -/
def readSteps (self : Collection X) (collected : List (Point V))
    (group : ShardId × List PointId) : PointProgram V CollectionError (List (Point V)) :=
  match self.replicaHolder.getReplicaSet group.1 with
  | .error e => .error (.storageError e)
  | .ok replicaSet => do
    let points ← replicaSet.localShard.getSteps X group.1 group.2
    pure (collected ++ points)

/-- `Collection::get_points` for some ids, as a program. -/
def getSteps (self : Collection X) (order : IterOrder (ShardId × List PointId))
    (ids : List PointId) : PointProgram V CollectionError (List (Point V)) :=
  match self.replicaHolder.selectShards ids with
  | .error e => .error (.storageError e)
  | .ok groups => (order.arrange groups).foldlM self.readSteps []

end Collection

/-! ## Programs that run alone -/

/-- Put the tree of a shard in its place. -/
def Stores.setTree (w : Stores) (pl : Place) (db : Db) : Stores :=
  Function.update w pl (Function.update (w pl) 0 db)

/-- What the calls do when nobody else works on the trees, and sled and the other nodes answer in
such ways. -/
def PointCall.answer (peer : PeerId) (name : CollectionName) (writes : ShardId → SledWrites)
    (reads : ShardId → SledReads)
    (remote : ShardId → RemoteShard → List (Point V) → Stores → Stores × CollectionResult Unit)
    (w : Stores) : (op : PointCall V) → Stores × op.Reply
  | .insert s i key value =>
    match (writes s).insert i with
    | .ok => (w.setTree ⟨peer, name, s⟩ ((w ⟨peer, name, s⟩ 0).insert key value), .ok ())
    | .fails e applied =>
      (if applied then w.setTree ⟨peer, name, s⟩ ((w ⟨peer, name, s⟩ 0).insert key value) else w,
        .error e)
  | .flush s =>
    match (writes s).flush with
    | none => (w, .ok ())
    | some e => (w, .error e)
  | .get s i key =>
    match (reads s).get i with
    | none => (w, .ok (w ⟨peer, name, s⟩ 0)[key]?)
    | some e => (w, .error e)
  | .upsertRemote s shard points => remote s shard points w

namespace Stores

variable (w : Stores) (pl : Place) (db db' : Db)

@[simp] theorem setTree_self : w.setTree pl db pl 0 = db := by
  rw [setTree, Function.update_self, Function.update_self]

@[simp] theorem setTree_setTree : (w.setTree pl db).setTree pl db' = w.setTree pl db' := by
  rw [setTree, setTree, setTree, Function.update_idem, Function.update_self, Function.update_idem]

@[simp] theorem setTree_eq_self : w.setTree pl (w pl 0) = w := by
  rw [setTree, Function.update_eq_self, Function.update_eq_self]

end Stores

section Eval

variable {peer : PeerId} {name : CollectionName} {writes : ShardId → SledWrites}
  {reads : ShardId → SledReads}
  {remote : ShardId → RemoteShard → List (Point V) → Stores → Stores × CollectionResult Unit}

theorem Segment.eval_insertSteps (s : ShardId) (i : ℕ) (points : List (Point V)) (w : Stores) :
    (insertSteps X s i points).eval (PointCall.answer peer name writes reads remote) w
      = (w.setTree ⟨peer, name, s⟩ (insertFrom X (writes s) i points (w ⟨peer, name, s⟩ 0)).1,
          some (insertFrom X (writes s) i points (w ⟨peer, name, s⟩ 0)).2) := by
  induction points generalizing i w with
  | nil =>
    rw [insertSteps, Program.eval_call, PointCall.answer, insertFrom]
    cases (writes s).flush <;> simp
  | cons p ps ih =>
    simp only [insertSteps, insertFrom, X.pointToString_eq, Program.eval_call, PointCall.answer]
    cases (writes s).insert i with
    | ok => simp [ih]
    | fails e applied => cases applied <;> simp

theorem Segment.eval_getSteps (s : ShardId) (i : ℕ) (ids : List PointId) (w : Stores) :
    (getSteps X s i ids).eval (PointCall.answer peer name writes reads remote) w
      = (w, some (getFrom X (reads s) (w ⟨peer, name, s⟩ 0) i ids)) := by
  induction ids generalizing i with
  | nil => rfl
  | cons id ids ih =>
    simp only [getSteps, getFrom, Program.eval_call, PointCall.answer]
    cases (reads s).get i with
    | some e => rfl
    | none =>
      cases (w ⟨peer, name, s⟩ 0)[id.intoString]? with
      | none => exact ih (i + 1)
      | some value =>
        simp only
        cases decode X value with
        | error e => rfl
        | ok p =>
          simp only [Program.eval_handle, ih]
          cases getFrom X (reads s) (w ⟨peer, name, s⟩ 0) (i + 1) ids <;> rfl

theorem Collection.eval_replicaSteps (s : ShardId) (points : List (Point V)) (replica : Replica)
    (w : Stores) :
    (replicaSteps X s points replica).eval (PointCall.answer peer name writes reads remote) w
      = ((replicaUpsert X peer name writes remote s replica points w).1,
          some (replicaUpsert X peer name writes remote s replica points w).2) := by
  cases replica with
  | remoteShard shard =>
    rw [replicaSteps, Program.eval_call, Program.eval_ofExcept]
    rfl
  | localShard shard =>
    rw [replicaSteps, LocalShard.upsertSteps, replicaUpsert, LocalShard.upsertPoints]
    by_cases h0 : 0 ∈ shard.segments
    · rw [if_pos h0, if_pos h0, Program.eval_mapError, Segment.eval_insertSteps,
        Segment.insertPoints]
      rcases Segment.insertFrom X (writes s) 0 points (w ⟨peer, name, s⟩ 0) with ⟨db, _ | _⟩ <;> rfl
    · rw [if_neg h0, if_neg h0, Program.eval_error]
      simp only [Function.update_eq_self]

theorem LocalShard.eval_getSteps (shard : LocalShard) (s : ShardId) (ids : List PointId)
    (w : Stores) :
    (shard.getSteps X s ids).eval (PointCall.answer peer name writes reads remote) w
      = (w, some (shard.getPoints X (reads s) (some ids) (w ⟨peer, name, s⟩))) := by
  rw [getSteps, getPoints]
  by_cases h0 : 0 ∈ shard.segments
  · rw [if_pos h0, if_pos h0, Program.eval_mapError, Segment.eval_getSteps, Segment.getPoints]
    rcases Segment.getFrom X (reads s) (w ⟨peer, name, s⟩ 0) 0 ids with _ | _ <;> rfl
  · rw [if_neg h0, if_neg h0, Program.eval_error]

end Eval

section Operate

variable {σ ρ : Type} {answer : σ → (op : PointCall V) → σ × op.Reply}
  {program : Replica → PointProgram V CollectionError ρ}
  {operation : Replica → σ → σ × Option (CollectionResult ρ)}

theorem ReplicaSet.eval_operateRemotesSteps
    (h : ∀ r w, (program r).eval answer w = operation r w) (rs : List RemoteShard) (w : σ) :
    (operateRemotesSteps program rs).eval answer w
      = ((operateRemotes operation rs w).1, (operateRemotes operation rs w).2.map .ok) := by
  induction rs generalizing w with
  | nil => rfl
  | cons r rs ih =>
    rw [operateRemotesSteps, operateRemotes, Program.eval_bind, Program.eval_attempt, h]
    rcases operation (.remoteShard r) w with ⟨w', _ | result⟩
    · rfl
    · simp only [Option.map_some, Program.eval_bind, ih]
      rcases operateRemotes operation rs w' with ⟨w'', _ | results⟩ <;> rfl

/-- A program for each replica makes up a program for all of them. -/
theorem ReplicaSet.eval_operateSteps (h : ∀ r w, (program r).eval answer w = operation r w)
    (self : ReplicaSet) (localOnly : Bool) (w : σ) :
    (self.operateSteps program localOnly).eval answer w
      = ((self.executeClusterOperation operation localOnly w).1,
          (self.executeClusterOperation operation localOnly w).2.map .ok) := by
  rw [operateSteps, executeClusterOperation, Program.eval_bind, Program.eval_attempt, h]
  rcases operation (.localShard self.localShard) w with ⟨w', _ | result⟩
  · rfl
  · cases localOnly with
    | true => rfl
    | false =>
      simp only [Option.map_some, Bool.false_eq_true, if_false, Program.eval_bind,
        eval_operateRemotesSteps h]
      rcases operateRemotes operation self.remotes w' with ⟨w'', _ | results⟩ <;> rfl

end Operate

section Eval

variable {peer : PeerId} {name : CollectionName} {writes : ShardId → SledWrites}
  {reads : ShardId → SledReads}
  {remote : ShardId → RemoteShard → List (Point V) → Stores → Stores × CollectionResult Unit}

namespace Collection

variable {self : Collection X}

/-- A shard does not end the loop with a success. -/
theorem acknowledge_ne_ok (s : ShardId) (replicaSet : ReplicaSet) (localOnly : Bool)
    (results : List (CollectionResult Unit)) :
    acknowledge X s replicaSet localOnly results ≠ some (some (.ok ())) := by
  intro hr
  rcases results with _ | ⟨result, results⟩
  · simp [acknowledge] at hr
  · obtain ⟨e, he⟩ := acknowledge_ne (List.cons_ne_nil _ _) hr
    simp at he

theorem upsertGroup_ne_ok {upsert : ShardId → Replica → List (Point V) → Stores →
    Stores × CollectionResult Unit} (points : List (Point V)) (localOnly : Bool)
    (group : ShardId × List PointId) (w : Stores) :
    (self.upsertGroup upsert points localOnly group w).2 ≠ some (some (.ok ())) := by
  rw [upsertGroup]
  cases self.replicaHolder.shards.lookup group.1 with
  | none => simp
  | some replicaSet =>
    simp only
    rcases replicaSet.executeClusterOperation _ localOnly w with ⟨w', _ | results⟩
    · simp
    · exact acknowledge_ne_ok _ _ _ _

theorem eval_groupSteps (points : List (Point V)) (localOnly : Bool)
    (group : ShardId × List PointId) (w : Stores) :
    (self.groupSteps points localOnly group).eval
        (PointCall.answer peer name writes reads remote) w
      = ((self.upsertGroup (replicaUpsert X peer name writes remote) points localOnly group w).1,
          (self.upsertGroup (replicaUpsert X peer name writes remote) points localOnly group
            w).2.getD (some (.ok ()))) := by
  rw [groupSteps, upsertGroup]
  cases self.replicaHolder.shards.lookup group.1 with
  | none => rfl
  | some replicaSet =>
    simp only [Program.eval_bind]
    rw [ReplicaSet.eval_operateSteps (eval_replicaSteps group.1 (groupPoints points group.2))]
    rcases replicaSet.executeClusterOperation _ localOnly w with ⟨w', _ | results⟩
    · rfl
    · rcases hack : acknowledge X group.1 replicaSet localOnly results with _ | _ | r
      · simp only [Option.map_some, hack]
        rfl
      · simp only [Option.map_some, hack]
        rfl
      · simp only [Option.map_some, hack, exit, Program.eval_ofExcept, Option.getD_some]

theorem eval_foldlM_groupSteps (points : List (Point V)) (localOnly : Bool)
    (groups : List (ShardId × List PointId)) (w : Stores) :
    (groups.foldlM (fun _ group ↦ self.groupSteps points localOnly group) ()).eval
        (PointCall.answer peer name writes reads remote) w
      = ((Loop.run (self.upsertGroup (replicaUpsert X peer name writes remote) points localOnly)
            groups w).1,
          (Loop.run (self.upsertGroup (replicaUpsert X peer name writes remote) points localOnly)
            groups w).2.getD (some (.ok ()))) := by
  induction groups generalizing w with
  | nil => rfl
  | cons group groups ih =>
    have hne : (self.upsertGroup (replicaUpsert X peer name writes remote) points localOnly group
        w).2 ≠ some (some (.ok ())) := upsertGroup_ne_ok points localOnly group w
    rw [List.foldlM_cons, Program.eval_bind, eval_groupSteps, Loop.run]
    rcases hround : self.upsertGroup (replicaUpsert X peer name writes remote) points localOnly
      group w with ⟨w', _ | _ | e | _⟩
    · exact ih w'
    · rfl
    · rfl
    · exact absurd (congrArg Prod.snd hround) hne

/-- **The program of an upsert** does what the upsert does. -/
theorem eval_upsertSteps (order : IterOrder (ShardId × List PointId)) (points : List (Point V))
    (localOnly : Bool) (w : Stores) :
    (self.upsertSteps order points localOnly).eval
        (PointCall.answer peer name writes reads remote) w
      = self.upsertPoints (replicaUpsert X peer name writes remote) order points localOnly w := by
  rw [upsertSteps, upsertPoints]
  cases self.replicaHolder.selectShards (points.map Point.id) with
  | error e => rfl
  | ok groups =>
    simp only [eval_foldlM_groupSteps]
    rcases Loop.run _ (order.arrange groups) w with ⟨w', _ | _⟩ <;> rfl

variable {remoteGet : ShardId → RemoteShard → Option (List PointId) →
    Option (CollectionResult (List (Point V)))}

theorem eval_foldlM_readSteps (groups : List (ShardId × List PointId))
    (collected : List (Point V)) (w : Stores) :
    (groups.foldlM self.readSteps collected).eval (PointCall.answer peer name writes reads remote)
        w
      = (w, match Loop.run (self.readGroup (replicaGet X peer name reads w remoteGet)) groups
            collected with
          | (points, none) => some (.ok points)
          | (_, some result) => result) := by
  induction groups generalizing collected with
  | nil => rfl
  | cons group groups ih =>
    rw [List.foldlM_cons, Program.eval_bind, readSteps, Loop.run, readGroup]
    cases self.replicaHolder.getReplicaSet group.1 with
    | error e => rfl
    | ok replicaSet =>
      simp only [Program.eval_bind, LocalShard.eval_getSteps, replicaGet]
      cases replicaSet.localShard.getPoints X (reads group.1) (some group.2)
        (w ⟨peer, name, group.1⟩) with
      | error e => rfl
      | ok points => exact ih (collected ++ points)

/-- **The program of a read by id** returns what the read returns. -/
theorem eval_getSteps (order : IterOrder (ShardId × List PointId)) (ids : List PointId)
    (localOnly : Bool) (w : Stores) :
    (self.getSteps order ids).eval (PointCall.answer peer name writes reads remote) w
      = (w, self.getPoints (replicaGet X peer name reads w remoteGet) order (some ids) none
          localOnly) := by
  rw [getSteps, getPoints]
  cases self.replicaHolder.selectShards ids with
  | error e => rfl
  | ok groups => exact eval_foldlM_readSteps _ _ w

end Collection

end Eval

end Smoldb
