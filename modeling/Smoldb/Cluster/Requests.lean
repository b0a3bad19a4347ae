import Smoldb.Handlers
import Smoldb.Lib.Program

/-!
# Requests as programs

`upsert_points` and `get_points` ask replicas for things and wait for what they answer.  Here they
are written as programs, with a call wherever the code awaits a replica, so that something else can
happen in between.  An `Ask` is a call of a method of the trait; whether it leads to another node is
up to the replica.

The programs are written along the functions of `Storage/Upsert.lean` and `Storage/Retrieve.lean`.
Two things are said of each.

* `eval_upsertProgram` and `eval_getProgram`: these are the functions of `Collection`, if every call
  is answered by the method of the trait, whatever the state it works on.  There is a lemma for each
  loop, and the early exits of the loops are the errors of the program.
* `makes_upsertProgram` and `makes_getProgram`: what they ask for, and in which order, is the list
  `upsertAsks` or `getAsks`, or a beginning of it, if there is an answer that makes the function
  return early (`Ask.Stops`).

`Cluster/Operations.lean` has the programs of the handlers in which these are called, and
`Cluster/Workload.lean` runs them side by side.
-/

set_option autoImplicit false

namespace Smoldb

open Program

variable {V : Type} {X : Crates V}

/-- A method of `ShardOperationTrait`, called on a replica of a shard. -/
inductive Ask (V : Type) where
  | upsertPoints (call : Collection.Call V)
  | getPoints (shard : ShardId) (replica : Replica) (ids : Option (List PointId))

namespace Ask

/-- What the method returns.  Reading may panic. -/
def Res : Ask V → Type
  | upsertPoints _ => CollectionResult Unit
  | getPoints .. => Option (CollectionResult (List (Point V)))

/-- The replica that is asked. -/
def replica : Ask V → Replica
  | upsertPoints c => c.replica
  | getPoints _ r _ => r

/-- The shard it is asked for, and the remote shard that stands for it, if it is one. -/
def target : Ask V → Option (ShardId × RemoteShard)
  | upsertPoints ⟨s, .remoteShard shard, _⟩ => some (s, shard)
  | getPoints s (.remoteShard shard) _ => some (s, shard)
  | _ => none

/-- The result is an error. -/
def failed : (a : Ask V) → a.Res → Bool
  | upsertPoints _, (r : CollectionResult Unit) => !r.isOk
  | getPoints .., (r : Option (CollectionResult (List (Point V)))) => r.any fun r ↦ !r.isOk

/-- The result is an error, or there is none. -/
def Stops : (a : Ask V) → a.Res → Prop
  | upsertPoints c, r => failed (upsertPoints c) r = true
  | getPoints s replica ids, r => failed (getPoints s replica ids) r = true ∨ r = none

end Ask

/-- A program that asks replicas. -/
abbrev AskProgram (V ε α : Type) := Program (Ask V) Ask.Res ε α

variable {ε ρ : Type}

/-- `shard.upsert_points(points).await`. -/
def askUpsert (s : ShardId) (points : List (Point V)) (r : Replica) :
    AskProgram V ε (CollectionResult Unit) := perform (Ask.upsertPoints ⟨s, r, points⟩)

/-- `shard.get_points(ids).await`. -/
def askGet (s : ShardId) (ids : Option (List PointId)) (r : Replica) :
    AskProgram V ε (CollectionResult (List (Point V))) :=
  call (.getPoints s r ids) fun
    | some result => ok result
    | none => panicked "called `Result::unwrap()` on an `Err` value"

/-- The loop of `execute_cluster_operation` over the remote shards. -/
def ReplicaSet.remotesProgram (operation : Replica → AskProgram V ε (CollectionResult ρ)) :
    List RemoteShard → AskProgram V ε (List (CollectionResult ρ))
  | [] => pure []
  | r :: rs => do
    let result ← operation (.remoteShard r)
    let results ← remotesProgram operation rs
    pure (result :: results)

/-- `ReplicaSet::execute_cluster_operation`. -/
def ReplicaSet.clusterProgram (self : ReplicaSet)
    (operation : Replica → AskProgram V ε (CollectionResult ρ)) (localOnly : Bool) :
    AskProgram V ε (List (CollectionResult ρ)) := do
  let localResult ← operation (.localShard self.localShard)
  if localOnly then pure [localResult]
  else do
    let results ← remotesProgram operation self.remotes
    pure (localResult :: results)

namespace Collection

variable (self : Collection X)

/-- One round of the loop over the shards. -/
def upsertGroupProgram (points : List (Point V)) (localOnly : Bool)
    (group : ShardId × List PointId) : AskProgram V CollectionError Unit :=
  match self.replicaHolder.shards.lookup group.1 with
  | none => .error (.storageError (.badInput s!"Shard {group.1} not found"))
  | some replicaSet => do
    let results ←
      replicaSet.clusterProgram (askUpsert group.1 (groupPoints points group.2)) localOnly
    match acknowledge X group.1 replicaSet localOnly results with
    | none => pure ()
    | some none => panicked "called `Option::unwrap()` on a `None` value"
    | some (some result) => ofExcept result

/-- `Collection::upsert_points`. -/
def upsertProgram (order : IterOrder (ShardId × List PointId)) (points : List (Point V))
    (localOnly : Bool) : AskProgram V CollectionError Unit :=
  match self.replicaHolder.selectShards (points.map Point.id) with
  | .error e => .error (.storageError e)
  | .ok groups =>
    (order.arrange groups).foldlM (fun _ group ↦ self.upsertGroupProgram points localOnly group) ()

/-- One round of the loop over the shards when all points are asked for. -/
def listProgram (shardId : Option ShardId) (localOnly : Bool)
    (all : Std.ExtTreeMap PointId (Point V)) (entry : Sigma fun _ : ShardId ↦ ReplicaSet) :
    AskProgram V CollectionError (Std.ExtTreeMap PointId (Point V)) :=
  if shardId.any (entry.1 ≠ ·) then pure all
  else do
    let results ← entry.2.clusterProgram (askGet entry.1 none) localOnly
    let lists ← ofExcept (collectResults results)
    pure (insertVacant lists.flatten all)

/-- One round of the loop over the shards when the ids asked for are spread over them. -/
def readProgram (points : List (Point V)) (group : ShardId × List PointId) :
    AskProgram V CollectionError (List (Point V)) :=
  match self.replicaHolder.getReplicaSet group.1 with
  | .error e => .error (.storageError e)
  | .ok replicaSet => do
    let result ← askGet group.1 (some group.2) (.localShard replicaSet.localShard)
    let collected ← ofExcept result
    pure (points ++ collected)

/-- `Collection::get_points`. -/
def getProgram (order : IterOrder (ShardId × List PointId)) (ids : Option (List PointId))
    (shardId : Option ShardId) (localOnly : Bool) : AskProgram V CollectionError (List (Point V)) :=
  match ids with
  | none => do
    let all ← self.replicaHolder.shards.entries.foldlM (listProgram shardId localOnly) ∅
    pure (all.toList.map Prod.snd)
  | some ids =>
    match shardId with
    | some shardId =>
      match self.replicaHolder.getReplicaSet shardId with
      | .error e => .error (.storageError e)
      | .ok replicaSet => do
        let result ← askGet shardId (some ids) (.localShard replicaSet.localShard)
        ofExcept result
    | none =>
      match self.replicaHolder.selectShards ids with
      | .error e => .error (.storageError e)
      | .ok groups => (order.arrange groups).foldlM self.readProgram []

end Collection

/-! ## These are the functions of the collection -/

/-- The methods of the trait answer. -/
def askAnswer {σ : Type}
    (upsert : ShardId → Replica → List (Point V) → σ → σ × CollectionResult Unit)
    (read : ShardId → Replica → Option (List PointId) → Option (CollectionResult (List (Point V))))
    (w : σ) : (a : Ask V) → σ × a.Res
  | .upsertPoints c => upsert c.shard c.replica c.points w
  | .getPoints s r ids => (w, read s r ids)

section Eval

variable {σ : Type} {answer : σ → (a : Ask V) → σ × a.Res}
  {operation : Replica → AskProgram V ε (CollectionResult ρ)}
  {trait : Replica → σ → σ × Option (CollectionResult ρ)}

theorem ReplicaSet.eval_remotesProgram
    (h : ∀ r w, (operation r).eval answer w = ((trait r w).1, (trait r w).2.map .ok))
    (rs : List RemoteShard) (w : σ) :
    (remotesProgram operation rs).eval answer w
      = ((operateRemotes trait rs w).1, (operateRemotes trait rs w).2.map .ok) := by
  induction rs generalizing w with
  | nil => rfl
  | cons r rs ih =>
    rw [remotesProgram, eval_bind, h, operateRemotes]
    rcases trait (.remoteShard r) w with ⟨w', _ | result⟩
    · rfl
    · simp only [Option.map_some, eval_bind, ih]
      rcases operateRemotes trait rs w' with ⟨w'', _ | results⟩ <;> rfl

/-- **The replicas of a shard** are asked as the code does it. -/
theorem ReplicaSet.eval_clusterProgram
    (h : ∀ r w, (operation r).eval answer w = ((trait r w).1, (trait r w).2.map .ok))
    (self : ReplicaSet) (localOnly : Bool) (w : σ) :
    (self.clusterProgram operation localOnly).eval answer w
      = ((self.executeClusterOperation trait localOnly w).1,
        (self.executeClusterOperation trait localOnly w).2.map .ok) := by
  rw [clusterProgram, eval_bind, h, executeClusterOperation]
  rcases trait (.localShard self.localShard) w with ⟨w', _ | result⟩
  · rfl
  · cases localOnly with
    | true => rfl
    | false =>
      simp only [Option.map_some, Bool.false_eq_true, if_false, eval_bind, eval_remotesProgram h]
      rcases operateRemotes trait self.remotes w' with ⟨w'', _ | results⟩ <;> rfl

end Eval

namespace Collection

variable {σ : Type} (self : Collection X)
  (upsert : ShardId → Replica → List (Point V) → σ → σ × CollectionResult Unit)
  (read : ShardId → Replica → Option (List PointId) → Option (CollectionResult (List (Point V))))

theorem eval_askGet (s : ShardId) (ids : Option (List PointId)) (r : Replica) (w : σ) :
    (askGet s ids r : AskProgram V ε _).eval (askAnswer upsert read) w
      = (w, (read s r ids).map .ok) := by
  rw [eval, askGet, run_call]
  simp only [askAnswer]
  cases read s r ids <;> rfl

/-- A round of the loop of `upsert_points`, which is never left with a success. -/
theorem eval_upsertGroupProgram (points : List (Point V)) (localOnly : Bool)
    (group : ShardId × List PointId) (w : σ) :
    (self.upsertGroupProgram points localOnly group).eval (askAnswer upsert read) w
        = ((self.upsertGroup upsert points localOnly group w).1,
          (self.upsertGroup upsert points localOnly group w).2.getD (some (.ok ()))) ∧
      (self.upsertGroup upsert points localOnly group w).2 ≠ some (some (.ok ())) := by
  rw [upsertGroupProgram, upsertGroup]
  cases self.replicaHolder.shards.lookup group.1 with
  | none => exact ⟨rfl, by simp⟩
  | some replicaSet =>
    have hcluster := @ReplicaSet.eval_clusterProgram V CollectionError Unit σ
      (askAnswer upsert read) (askUpsert group.1 (groupPoints points group.2))
      (fun r w ↦ ((upsert group.1 r (groupPoints points group.2) w).1,
        some (upsert group.1 r (groupPoints points group.2) w).2))
      (fun r w ↦ rfl) replicaSet localOnly w
    simp only [eval_bind, hcluster]
    rcases replicaSet.executeClusterOperation _ localOnly w with ⟨w', _ | results⟩
    · exact ⟨rfl, by simp⟩
    · cases hack : acknowledge X group.1 replicaSet localOnly results with
      | none =>
        simp only [Option.map_some, hack]
        exact ⟨rfl, by simp⟩
      | some result =>
        simp only [Option.map_some, hack]
        cases result with
        | none => exact ⟨rfl, by simp⟩
        | some result =>
          refine ⟨eval_ofExcept _ _, ?_⟩
          rintro h
          obtain rfl := Option.some.inj (Option.some.inj h)
          cases results with
          | nil => cases hack
          | cons r rs =>
            obtain ⟨e, he⟩ := acknowledge_ne (List.cons_ne_nil r rs) hack
            cases he

/-- **`upsert_points` is this program.** -/
theorem eval_upsertProgram (order : IterOrder (ShardId × List PointId)) (points : List (Point V))
    (localOnly : Bool) (w : σ) :
    (self.upsertProgram order points localOnly).eval (askAnswer upsert read) w
      = self.upsertPoints upsert order points localOnly w := by
  rw [upsertProgram, upsertPoints]
  cases self.replicaHolder.selectShards (points.map Point.id) with
  | error e => rfl
  | ok groups =>
    simp only
    generalize order.arrange groups = groups
    induction groups generalizing w with
    | nil => rfl
    | cons group groups ih =>
      obtain ⟨hround, hne⟩ :=
        self.eval_upsertGroupProgram upsert read points localOnly group w
      rw [List.foldlM_cons, eval_bind, hround, Loop.run_cons]
      cases hexit : (self.upsertGroup upsert points localOnly group w).2 with
      | none => exact ih _
      | some result =>
        obtain _ | e | u := result
        · rfl
        · rfl
        · exact absurd hexit hne

/-- Reading leaves the state alone. -/
theorem executeClusterOperation_state (replicaSet : ReplicaSet)
    (f : Replica → Option (CollectionResult ρ)) (localOnly : Bool) (w : σ) :
    replicaSet.executeClusterOperation (fun r w ↦ (w, f r)) localOnly w
      = (w, (replicaSet.executeClusterOperation (fun r u ↦ (u, f r)) localOnly ()).2) := by
  have hremotes : ∀ rs : List RemoteShard,
      ReplicaSet.operateRemotes (fun r (w : σ) ↦ (w, f r)) rs w
        = (w, (ReplicaSet.operateRemotes (fun r u ↦ (u, f r)) rs ()).2) := by
    intro rs
    induction rs with
    | nil => rfl
    | cons r rs ih =>
      rw [ReplicaSet.operateRemotes, ReplicaSet.operateRemotes]
      cases f (.remoteShard r) with
      | none => rfl
      | some result =>
        simp only [ih]
        rcases ReplicaSet.operateRemotes (fun r u ↦ (u, f r)) rs () with ⟨u, _ | results⟩ <;> rfl
  rw [ReplicaSet.executeClusterOperation, ReplicaSet.executeClusterOperation]
  cases f (.localShard replicaSet.localShard) with
  | none => rfl
  | some result =>
    cases localOnly with
    | true => rfl
    | false =>
      simp only [Bool.false_eq_true, if_false, hremotes]
      rcases ReplicaSet.operateRemotes (fun r u ↦ (u, f r)) replicaSet.remotes () with
        ⟨u, _ | results⟩ <;> rfl

/-- What a round of a loop of `get_points` amounts to: the loop goes on, or it is left, and then not
with a success. -/
def left {β γ : Type} : β × Option (Option (CollectionResult γ)) → Option (CollectionResult β)
  | (b, none) => some (.ok b)
  | (_, some none) => none
  | (_, some (some (.error e))) => some (.error e)
  | (b, some (some (.ok _))) => some (.ok b)

/-- A loop whose rounds are answered as they should be. -/
theorem eval_foldlM_of_left {α β γ : Type} {answer : σ → (a : Ask V) → σ × a.Res}
    {f : β → α → AskProgram V CollectionError β}
    {body : α → β → β × Option (Option (CollectionResult γ))}
    (h : ∀ b a w, (f b a).eval answer w = (w, left (body a b)))
    (hexit : ∀ a b c, (body a b).2 ≠ some (some (.ok c))) (l : List α) (b : β) (w : σ) :
    (l.foldlM f b).eval answer w = (w, left (Loop.run body l b)) ∧
      ∀ c, (Loop.run body l b).2 ≠ some (some (.ok c)) := by
  induction l generalizing b with
  | nil => exact ⟨rfl, by simp [Loop.run]⟩
  | cons a l ih =>
    have hround := h b a w
    have hne := hexit a b
    rw [List.foldlM_cons, eval_bind, hround, Loop.run]
    rcases hbody : body a b with ⟨b', _ | _ | e | c⟩
    · exact ih b'
    · exact ⟨rfl, by simp⟩
    · exact ⟨rfl, by simp⟩
    · exact absurd (congrArg Prod.snd hbody) (hne c)

/-- The results of reading the replicas of a shard. -/
theorem eval_listProgram (shardId : Option ShardId) (localOnly : Bool)
    (all : Std.ExtTreeMap PointId (Point V)) (entry : Sigma fun _ : ShardId ↦ ReplicaSet) (w : σ) :
    (listProgram shardId localOnly all entry).eval (askAnswer upsert read) w
      = (w, left (listShard read shardId localOnly entry all)) := by
  rw [listProgram, listShard]
  split
  · rfl
  · have hcluster := @ReplicaSet.eval_clusterProgram V CollectionError (List (Point V)) σ
      (askAnswer upsert read) (askGet entry.1 none) (fun r w ↦ (w, read entry.1 r none))
      (eval_askGet upsert read entry.1 none) entry.2 localOnly w
    rw [eval_bind, hcluster, executeClusterOperation_state entry.2 fun r ↦ read entry.1 r none]
    cases (entry.2.executeClusterOperation (fun r u ↦ (u, read entry.1 r none)) localOnly ()).2 with
    | none => rfl
    | some results =>
      simp only [Option.map_some, eval_bind, eval_ofExcept]
      cases collectResults results <;> rfl

theorem listShard_ne_ok (shardId : Option ShardId) (localOnly : Bool)
    (entry : Sigma fun _ : ShardId ↦ ReplicaSet) (all : Std.ExtTreeMap PointId (Point V))
    (points : List (Point V)) :
    (listShard read shardId localOnly entry all).2 ≠ some (some (.ok points)) := by
  rw [listShard]
  split
  · simp
  · split
    · simp
    · split
      · simp
      · simp

theorem eval_readProgram (points : List (Point V)) (group : ShardId × List PointId) (w : σ) :
    (self.readProgram points group).eval (askAnswer upsert read) w
      = (w, left (self.readGroup read group points)) := by
  rw [readProgram, readGroup]
  cases self.replicaHolder.getReplicaSet group.1 with
  | error e => rfl
  | ok replicaSet =>
    simp only [eval_bind, eval_askGet]
    rcases read group.1 (.localShard replicaSet.localShard) (some group.2)
      with _ | e | collected <;>
      rfl

theorem readGroup_ne_ok (group : ShardId × List PointId) (points collected : List (Point V)) :
    (self.readGroup read group points).2 ≠ some (some (.ok collected)) := by
  rw [readGroup]
  split
  · simp
  · split
    · simp
    · simp
    · simp

/-- **`get_points` is this program.** -/
theorem eval_getProgram (order : IterOrder (ShardId × List PointId)) (ids : Option (List PointId))
    (shardId : Option ShardId) (localOnly : Bool) (w : σ) :
    (self.getProgram order ids shardId localOnly).eval (askAnswer upsert read) w
      = (w, self.getPoints read order ids shardId localOnly) := by
  cases ids with
  | none =>
    obtain ⟨hloop, hne⟩ := eval_foldlM_of_left
      (eval_listProgram upsert read shardId localOnly) (listShard_ne_ok read shardId localOnly)
      self.replicaHolder.shards.entries ∅ w
    rw [getProgram, eval_bind, hloop, getPoints]
    rcases hrun : Loop.run (listShard read shardId localOnly) self.replicaHolder.shards.entries ∅
      with
      ⟨all, _ | _ | e | points⟩
    · rfl
    · rfl
    · rfl
    · exact absurd (congrArg Prod.snd hrun) (hne points)
  | some ids =>
    cases shardId with
    | some shardId =>
      simp only [getProgram, getPoints]
      cases self.replicaHolder.getReplicaSet shardId with
      | error e => rfl
      | ok replicaSet =>
        simp only [eval_bind, eval_askGet]
        rcases read shardId (.localShard replicaSet.localShard) (some ids)
          with _ | e | points <;> rfl
    | none =>
      simp only [getProgram, getPoints]
      cases self.replicaHolder.selectShards ids with
      | error e => rfl
      | ok groups =>
        obtain ⟨hloop, hne⟩ := eval_foldlM_of_left (self.eval_readProgram upsert read)
          (self.readGroup_ne_ok read) (order.arrange groups) [] w
        simp only
        rw [hloop]
        rcases hrun : Loop.run (self.readGroup read) (order.arrange groups) [] with
          ⟨all, _ | _ | e | points⟩
        · rfl
        · rfl
        · rfl
        · exact absurd (congrArg Prod.snd hrun) (hne points)

end Collection

/-! ## What they ask for -/

section Makes

theorem makes_askUpsert (s : ShardId) (points : List (Point V)) (r : Replica) (stopped : Prop) :
    (askUpsert s points r : AskProgram V ε _).Makes Ask.Stops
      (fun result stopped ↦ ∀ e, result = .error e → stopped)
      [Ask.upsertPoints ⟨s, r, points⟩] stopped :=
  ⟨[], rfl, fun _ ↦ ⟨rfl, fun _ he ↦ Or.inr (by rw [he]; rfl)⟩⟩

theorem makes_askGet (s : ShardId) (ids : Option (List PointId)) (r : Replica) (stopped : Prop) :
    (askGet s ids r : AskProgram V ε _).Makes Ask.Stops
      (fun result stopped ↦ ∀ e, result = .error e → stopped) [Ask.getPoints s r ids] stopped := by
  refine ⟨[], rfl, fun result ↦ ?_⟩
  cases result with
  | none => exact Or.inr (Or.inr rfl)
  | some result => exact ⟨rfl, fun _ he ↦ Or.inr (Or.inl (by rw [he]; rfl))⟩

variable {operation : Replica → AskProgram V ε (CollectionResult ρ)} {ask : Replica → Ask V}

/-- **All replicas of a shard are asked**, whatever the others answer. -/
theorem ReplicaSet.makes_clusterProgram
    (h : ∀ r s, (operation r).Makes Ask.Stops
      (fun result stopped ↦ ∀ e, result = .error e → stopped) [ask r] s)
    (self : ReplicaSet) (localOnly : Bool) (stopped : Prop) :
    (self.clusterProgram operation localOnly).Makes Ask.Stops
      (fun results stopped ↦ ∀ e, .error e ∈ results → stopped)
      ((self.replicas localOnly).map ask) stopped := by
  have hremotes : ∀ (rs : List RemoteShard) (s : Prop),
      (remotesProgram operation rs).Makes Ask.Stops
        (fun results stopped ↦ ∀ e, .error e ∈ results → stopped)
        ((rs.map .remoteShard).map ask) s := by
    intro rs
    induction rs with
    | nil => exact fun s ↦ ⟨rfl, fun e he ↦ nomatch he⟩
    | cons r rs ih =>
      refine fun s ↦ (h _ s).bind fun result s' _ hresult ↦ ?_
      rw [← List.append_nil (List.map ask _)]
      refine (ih s').bind fun results s'' hle hresults ↦ ⟨rfl, fun e he ↦ ?_⟩
      obtain he | he := List.mem_cons.mp he
      · exact hle (hresult e he.symm)
      · exact hresults e he
  refine (h _ stopped).bind fun result s' _ hresult ↦ ?_
  cases localOnly with
  | true =>
    refine ⟨rfl, fun e he ↦ hresult e ?_⟩
    exact (List.mem_singleton.mp he).symm
  | false =>
    rw [← List.append_nil (List.map ask _)]
    refine (hremotes self.remotes s').bind fun results s'' hle hresults ↦ ⟨rfl, fun e he ↦ ?_⟩
    obtain he | he := List.mem_cons.mp he
    · exact hle (hresult e he.symm)
    · exact hresults e he

end Makes

namespace Collection

variable (self : Collection X)

/-- What `upsert_points` asks for. -/
def upsertAsks (order : IterOrder (ShardId × List PointId)) (points : List (Point V))
    (localOnly : Bool) : List (Ask V) :=
  ((self.shardOrder order points).flatMap (self.shardCalls points localOnly)).map .upsertPoints

/-- What `get_points` asks a shard for when all points are asked for. -/
def listAsks (shardId : Option ShardId) (localOnly : Bool)
    (entry : Sigma fun _ : ShardId ↦ ReplicaSet) : List (Ask V) :=
  if shardId.any (entry.1 ≠ ·) then []
  else (entry.2.replicas localOnly).map fun r ↦ .getPoints entry.1 r none

/-- What `get_points` asks the replica set of a shard for when it is asked for some ids. -/
def readAsks (group : ShardId × List PointId) : List (Ask V) :=
  match self.replicaHolder.getReplicaSet group.1 with
  | .error _ => []
  | .ok replicaSet => [.getPoints group.1 (.localShard replicaSet.localShard) (some group.2)]

/-- What `get_points` asks for. -/
def getAsks (order : IterOrder (ShardId × List PointId)) (ids : Option (List PointId))
    (shardId : Option ShardId) (localOnly : Bool) : List (Ask V) :=
  match ids with
  | none => self.replicaHolder.shards.entries.flatMap (listAsks shardId localOnly)
  | some ids =>
    match shardId with
    | some shardId => self.readAsks (shardId, ids)
    | none =>
      match self.replicaHolder.selectShards ids with
      | .error _ => []
      | .ok groups => (order.arrange groups).flatMap self.readAsks

variable {self}

theorem makes_upsertGroupProgram (points : List (Point V)) (localOnly : Bool)
    (group : ShardId × List PointId) {stopped : Prop} (h : stopped) :
    (self.upsertGroupProgram points localOnly group).Makes Ask.Stops (fun _ _ ↦ True)
      ((self.groupCalls points localOnly group).map .upsertPoints) stopped := by
  rw [upsertGroupProgram, groupCalls]
  cases self.replicaHolder.shards.lookup group.1 with
  | none => exact h
  | some replicaSet =>
    simp only [List.map_map]
    rw [← List.append_nil (List.map _ _)]
    refine (replicaSet.makes_clusterProgram (makes_askUpsert group.1 _) localOnly _).bind
      fun results stopped' hle _ ↦ ?_
    rcases acknowledge X group.1 replicaSet localOnly results with _ | _ | _ | _
    · exact ⟨rfl, trivial⟩
    · exact hle h
    · exact hle h
    · exact ⟨rfl, trivial⟩

/-- The groups are those of the ring, as far as there are any. -/
theorem selectShards_eq_groups {ids : List PointId} {groups : List (ShardId × List PointId)}
    (h : self.replicaHolder.selectShards ids = .ok groups) :
    groups = Grouping.groups self.shardOf ids := by
  rcases hkeys : self.replicaHolder.shards.keys with _ | ⟨s, keys⟩
  · cases ids with
    | nil => exact (Except.ok.inj h).symm
    | cons id ids =>
      rw [ReplicaHolder.selectShards_of_keys_nil hkeys (List.cons_ne_nil id ids)] at h
      exact nomatch h
  · have hs : s ∈ self.replicaHolder.shards := by
      rw [AList.mem_keys, hkeys]
      exact List.mem_cons_self
    rw [ReplicaHolder.selectShards_eq hs] at h
    exact (Except.ok.inj h).symm

/-- **What an upsert asks for**, as far as it gets. -/
theorem makes_upsertProgram (order : IterOrder (ShardId × List PointId)) (points : List (Point V))
    (localOnly : Bool) {stopped : Prop} (h : stopped) :
    (self.upsertProgram order points localOnly).Makes Ask.Stops (fun _ _ ↦ True)
      (self.upsertAsks order points localOnly) stopped := by
  rw [upsertProgram]
  cases hgroups : self.replicaHolder.selectShards (points.map Point.id) with
  | error e => exact h
  | ok groups =>
    have hasks : self.upsertAsks order points localOnly = (order.arrange groups).flatMap
        fun group ↦ (self.groupCalls points localOnly group).map .upsertPoints := by
      rw [upsertAsks, shardOrder, List.flatMap_map, List.map_flatMap,
        selectShards_eq_groups hgroups]
      exact List.flatMap_congr fun group hgroup ↦ by rw [groupCalls_of_mem hgroup]
    rw [hasks]
    exact makes_foldlM
      (fun _ group s hs ↦ makes_upsertGroupProgram points localOnly group (hs h)) _ _

theorem exists_error_of_collectResults {results : List (CollectionResult ρ)} {e : CollectionError}
    (h : collectResults results = .error e) : .error e ∈ results := by
  induction results with
  | nil => exact nomatch h
  | cons result results ih =>
    cases result with
    | error e' =>
      obtain rfl := Except.error.inj h
      exact List.mem_cons_self
    | ok a =>
      rw [collectResults] at h
      cases hrest : collectResults results with
      | ok as => rw [hrest] at h; exact nomatch h
      | error e' =>
        rw [hrest] at h
        obtain rfl := Except.error.inj h
        exact List.mem_cons_of_mem _ (ih hrest)

theorem makes_listProgram (shardId : Option ShardId) (localOnly : Bool)
    (all : Std.ExtTreeMap PointId (Point V)) (entry : Sigma fun _ : ShardId ↦ ReplicaSet)
    (stopped : Prop) : (listProgram shardId localOnly all entry).Makes Ask.Stops (fun _ _ ↦ True)
      (listAsks shardId localOnly entry) stopped := by
  rw [listProgram, listAsks]
  split
  · exact ⟨rfl, trivial⟩
  · rw [← List.append_nil (List.map _ _)]
    refine (entry.2.makes_clusterProgram (makes_askGet entry.1 none) localOnly _).bind
      fun results stopped' _ hresults ↦ ?_
    cases hcollect : collectResults results with
    | error e => exact hresults e (exists_error_of_collectResults hcollect)
    | ok lists => exact ⟨rfl, trivial⟩

theorem makes_readProgram (points : List (Point V)) (group : ShardId × List PointId)
    {stopped : Prop} (h : stopped) : (self.readProgram points group).Makes Ask.Stops
      (fun _ _ ↦ True) (self.readAsks group) stopped := by
  rw [readProgram, readAsks]
  cases self.replicaHolder.getReplicaSet group.1 with
  | error e => exact h
  | ok replicaSet =>
    show Makes _ _ _ ([Ask.getPoints group.1 _ _] ++ []) _
    refine (makes_askGet group.1 _ _ _).bind fun result stopped' hle _ ↦ ?_
    cases result with
    | error e => exact hle h
    | ok collected => exact ⟨rfl, trivial⟩

/-- **A list asks for everything** unless it is stopped by an error. -/
theorem makes_getProgram_list (order : IterOrder (ShardId × List PointId))
    (shardId : Option ShardId)
    (localOnly : Bool) (stopped : Prop) :
    (self.getProgram order none shardId localOnly).Makes Ask.Stops (fun _ _ ↦ True)
      (self.getAsks order none shardId localOnly) stopped := by
  rw [getProgram, getAsks, ← List.append_nil (List.flatMap _ _)]
  refine (makes_foldlM
    (fun all entry s _ ↦ makes_listProgram shardId localOnly all entry s) _ _).bind
    fun all stopped' _ _ ↦ ⟨rfl, trivial⟩

/-- What a read of some ids asks for, as far as it gets. -/
theorem makes_getProgram (order : IterOrder (ShardId × List PointId)) (ids : Option (List PointId))
    (shardId : Option ShardId) (localOnly : Bool) {stopped : Prop} (h : stopped) :
    (self.getProgram order ids shardId localOnly).Makes Ask.Stops (fun _ _ ↦ True)
      (self.getAsks order ids shardId localOnly) stopped := by
  cases ids with
  | none => exact makes_getProgram_list order shardId localOnly stopped
  | some ids =>
    cases shardId with
    | some shardId =>
      simp only [getProgram, getAsks, readAsks]
      cases self.replicaHolder.getReplicaSet shardId with
      | error e => exact h
      | ok replicaSet =>
        show Makes _ _ _ ([Ask.getPoints shardId _ _] ++ []) _
        refine (makes_askGet shardId _ _ _).bind fun result stopped' hle _ ↦ ?_
        cases result with
        | error e => exact hle h
        | ok points => exact ⟨rfl, trivial⟩
    | none =>
      simp only [getProgram, getAsks]
      cases self.replicaHolder.selectShards ids with
      | error e => exact h
      | ok groups => exact makes_foldlM (fun points group s hs ↦
          makes_readProgram points group (hs h)) _ _

end Collection

end Smoldb
