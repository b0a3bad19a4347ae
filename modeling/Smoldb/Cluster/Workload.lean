import Smoldb.Cluster.Operations
import Smoldb.Lib.Runs

/-!
# Everything a cluster is busy with

A `Workload` has all operations of all nodes, from the moment they arrive, and the queue of the lock
of each node.  The lock is tokio's `RwLock`, which is fair: it is granted to the operations in the
order in which they asked for it, and to a writer when nobody else holds it.

An operation reads the table of its node when it gets the lock, and holds the lock until it is
through.  Whenever it asks a remote shard, an operation arrives at some node, and it waits for this
to finish; or the call fails, at any time.  A call that gets lost is one that has arrived and goes
no further.

Nothing is said about what is in the tables, and about what the shards of a node answer, so it can
be anything, and change at any time.

## The machine

An `Activity` is an operation at a node, in one of the phases `arrived`, `queued`, `running`,
`waiting` for another activity, and `finished`.  It keeps what is left of its program, and for a
call which activity made it.  An `Action` is something that happens to one activity, or a new one
that comes in from a client; `Workload.act` says what it does, or that it cannot happen now.

`Workload.Effect` says once what a step can do to the list of activities: one more has come in, one
has made a move, or one has made a call, and so moves while another one comes in.  `Activity.Move`
has the moves.  `Cluster/Forwarding.lean` and `Cluster/Locks.lean` carry their invariants along
these, and do not look at `act` again.
-/

set_option autoImplicit false

namespace Smoldb

open Program

variable {V : Type} {X : Crates V}

/-! ## Calls to other nodes -/

namespace Ask

/-- What the replica is asked for returns a result. -/
def give (result : CollectionResult (List (Point V))) : (a : Ask V) → a.Res
  | upsertPoints _ => result.map fun _ ↦ ()
  | getPoints .. => some result

/-- What a remote shard asks its node for. -/
def message (X : Crates V) (shard : RemoteShard) : Ask V → Operation V
  | upsertPoints c => .upsertPoints ⟨shard.collection, c.points.filterMap (Point.toGrpc X), none⟩
  | getPoints _ _ ids => .getPoints (shard.request ids)

/-- What a remote shard makes of what its node answers. -/
def receive (X : Crates V) (shard : RemoteShard) (response : Except Status (List PointGrpc)) :
    (a : Ask V) → a.Res
  | upsertPoints c =>
    match response with
    | .error status => give (.error (.serviceError
        s!"Failed to execute operation on remote shard {shard.id}: {X.showStatus status}"))
        (upsertPoints c)
    | .ok _ => give (.ok []) (upsertPoints c)
  | getPoints s r ids =>
    match response with
    | .error status => give (.error (.serviceError
        s!"Failed to execute operation on remote shard {shard.id}: {X.showStatus status}"))
        (getPoints s r ids)
    | .ok points => (decodePoints X points).map .ok

/-- What is returned stops a program only if it is an error. -/
theorem stops_give {a : Ask V} {result : CollectionResult (List (Point V))}
    (h : a.Stops (a.give result)) : a.failed (a.give result) = true := by
  cases a with
  | upsertPoints c => exact h
  | getPoints s r ids => exact h.resolve_right fun h ↦ nomatch h

/-- The same is true of what a node answers, if it can be decoded. -/
theorem stops_receive {a : Ask V} {shard : RemoteShard} {response : Except Status (List PointGrpc)}
    (hresponse : ∀ points, response = .ok points → ∃ ps, decodePoints X points = some ps)
    (h : a.Stops (a.receive X shard response)) : a.failed (a.receive X shard response) = true := by
  cases a with
  | upsertPoints c => exact h
  | getPoints s r ids =>
    refine h.resolve_right fun hnone ↦ ?_
    cases response with
    | error status => exact nomatch hnone
    | ok points =>
      obtain ⟨ps, hps⟩ := hresponse points rfl
      simp only [receive, hps] at hnone
      exact nomatch hnone

end Ask

/-! ## Activities -/

/-- How far an operation has got with the lock of its node. -/
inductive Phase where
  | arrived
  | queued
  | holding
  | waiting (callee : ℕ)
  | finished
  deriving DecidableEq

/-- Does it have the lock?  It keeps it while it waits for a call. -/
def Phase.holds : Phase → Bool
  | holding | waiting _ => true
  | _ => false

/-- An operation at a node.  If another one called it, it knows which one, and for which remote of
which shard.  The table that it found when it got the lock, and whether it has been answered with an
error, are recorded but decide nothing. -/
structure Activity {V : Type} (X : Crates V) where
  node : PeerId
  operation : Operation V
  origin : Option (ℕ × ShardId × RemoteShard)
  phase : Phase
  rest : AskProgram V (Option Status) (List PointGrpc)
  view : Option (TableOfContent X × IterOrder (ShardId × List PointId))
  failed : Bool

namespace Activity

/-- An operation that has just arrived. -/
def arrive (node : PeerId) (operation : Operation V) (origin : Option (ℕ × ShardId × RemoteShard)) :
    Activity X := ⟨node, operation, origin, .arrived, .ok [], none, false⟩

/-- It gets the lock. -/
def enter (t : Activity X) (toc : TableOfContent X) (order : IterOrder (ShardId × List PointId)) :
    Activity X :=
  { t with
    phase := .holding
    rest := t.operation.program toc order
    view := some (toc, order) }

/-- It goes on with a result. -/
def goOn (t : Activity X) (a : Ask V) (next : a.Res →
    AskProgram V (Option Status) (List PointGrpc)) (result : a.Res) : Activity X :=
  { t with
    phase := .holding
    rest := next result
    failed := t.failed || a.failed result }

/-- What its caller gets to see, once it has finished. -/
def response (t : Activity X) (aborted : Status) : Except Status (List PointGrpc) :=
  match t.rest with
  | .ok points => .ok points
  | .error (some status) => .error status
  | _ => .error aborted

/-- It is through with its program. -/
def through (t : Activity X) : Bool :=
  match t.rest with
  | .call .. => false
  | _ => true

/-- What it asks for. -/
def asks (t : Activity X) : List (Ask V) :=
  match t.view with
  | none => []
  | some (toc, order) => t.operation.asks toc order

/-- The calls that it may make. -/
def targets (t : Activity X) : List (ShardId × RemoteShard) :=
  match t.view with
  | none => []
  | some (toc, order) => t.operation.targets toc order

theorem filterMap_target_asks (t : Activity X) : t.asks.filterMap Ask.target = t.targets := by
  rw [asks, targets]
  rcases t.view with _ | ⟨toc, order⟩
  · rfl
  · exact t.operation.filterMap_target_asks toc order

/-- An operation that may call nobody does not. -/
theorem targets_eq_nil {t : Activity X}
    (h : ∀ (toc : TableOfContent X) (order : IterOrder (ShardId × List PointId)),
      t.operation.targets toc order = []) : t.targets = [] := by
  rw [targets]
  split
  · rfl
  · exact h _ _

end Activity

/-! ## Steps -/

/-- All operations, and who waits for the lock of which node, in the order in which they asked. -/
structure Workload {V : Type} (X : Crates V) where
  activities : List (Activity X)
  queue : PeerId → List ℕ

namespace Workload

/-- Nothing to do. -/
def idle : Workload X := ⟨[], fun _ ↦ []⟩

/-- Something that happens. -/
inductive Action {V : Type} (X : Crates V) where
  | arrive (node : PeerId) (operation : Operation V)
  | enqueue (i : ℕ)
  | grant (node : PeerId) (toc : TableOfContent X) (order : IterOrder (ShardId × List PointId))
  | answer (i : ℕ) (result : CollectionResult (List (Point V)))
  | send (i : ℕ) (node : PeerId)
  | reply (i : ℕ) (aborted : Status)
  | fail (i : ℕ) (e : CollectionError)
  | finish (i : ℕ)

variable (w : Workload X)

/-- An activity goes on. -/
def set (i : ℕ) (t : Activity X) : Workload X := { w with activities := w.activities.set i t }

/-- An activity calls another node, and waits for the operation that arrives there. -/
def send (i : ℕ) (t : Activity X) (node : PeerId) (operation : Operation V)
    (target : ShardId × RemoteShard) : Workload X :=
  { w with activities := w.activities.set i { t with phase := .waiting w.activities.length } ++
      [.arrive node operation (some (i, target))] }

/-- Can the lock of a node be taken? -/
def free (node : PeerId) (writes : Bool) : Bool :=
  w.activities.all fun t ↦
    decide (t.node ≠ node) || !t.phase.holds || (!writes && !t.operation.writes)

/-- What happens, if it can. -/
def act : Action X → Option (Workload X)
  | .arrive node operation =>
    if operation.internal then none
    else some { w with activities := w.activities ++ [.arrive node operation none] }
  | .enqueue i =>
    w.activities[i]?.bind fun t ↦
      if t.phase = .arrived then
        some
          { activities := w.activities.set i { t with phase := .queued }
            queue := Function.update w.queue t.node (w.queue t.node ++ [i]) }
      else none
  | .grant node toc order =>
    match w.queue node with
    | [] => none
    | i :: queue =>
      w.activities[i]?.bind fun t ↦
        if t.phase = .queued ∧ w.free node t.operation.writes then
          some
            { activities := w.activities.set i (t.enter toc order)
              queue := Function.update w.queue node queue }
        else none
  | .answer i result =>
    w.activities[i]?.bind fun t ↦
      match t.phase, t.rest with
      | .holding, .call a next =>
        if a.target = none then some (w.set i (t.goOn a next (a.give result))) else none
      | _, _ => none
  | .send i node =>
    w.activities[i]?.bind fun t ↦
      match t.phase, t.rest with
      | .holding, .call a _ =>
        a.target.map fun target ↦ w.send i t node (a.message X target.2) target
      | _, _ => none
  | .reply i aborted =>
    w.activities[i]?.bind fun t ↦
      match t.phase, t.rest with
      | .waiting j, .call a next =>
        a.target.bind fun target ↦ w.activities[j]?.bind fun callee ↦
          if callee.phase = .finished then
            some (w.set i (t.goOn a next (a.receive X target.2 (callee.response aborted))))
          else none
      | _, _ => none
  | .fail i e =>
    w.activities[i]?.bind fun t ↦
      match t.rest with
      | .call a next =>
        if t.phase.holds ∧ a.target.isSome then
          some (w.set i (t.goOn a next (a.give (.error e))))
        else none
      | _ => none
  | .finish i =>
    w.activities[i]?.bind fun t ↦
      if t.phase = .holding ∧ t.through then some (w.set i { t with phase := .finished }) else none

/-- A step.  What cannot happen does not. -/
def step (w : Workload X) (a : Action X) : Workload X := (w.act a).getD w

/-! ## What a step can do -/

end Workload

/-- What an activity that has the lock can do without calling anybody. -/
inductive Activity.Move (w : Workload X) (t : Activity X) : Activity X → Prop where
  | answer {a : Ask V} {next : a.Res → AskProgram V (Option Status) (List PointGrpc)}
      (result : CollectionResult (List (Point V))) (hphase : t.phase = .holding)
      (hrest : t.rest = .call a next) (htarget : a.target = none) :
      Move w t (t.goOn a next (a.give result))
  | reply {a : Ask V} {next : a.Res → AskProgram V (Option Status) (List PointGrpc)}
      {target : ShardId × RemoteShard} {j : ℕ} {callee : Activity X} (aborted : Status)
      (hphase : t.phase = .waiting j) (hrest : t.rest = .call a next)
      (htarget : a.target = some target) (hcallee : w.activities[j]? = some callee) :
      Move w t (t.goOn a next (a.receive X target.2 (callee.response aborted)))
  | fail {a : Ask V} {next : a.Res → AskProgram V (Option Status) (List PointGrpc)}
      (e : CollectionError) (hphase : t.phase.holds = true) (hrest : t.rest = .call a next)
      (htarget : a.target ≠ none) : Move w t (t.goOn a next (a.give (.error e)))
  | finish (hphase : t.phase = .holding) (hthrough : t.through = true) :
      Move w t { t with phase := .finished }

/-- It stays what it is. -/
theorem Activity.Move.keeps {w : Workload X} {t t' : Activity X} (h : t.Move w t') :
    t'.origin = t.origin ∧ t'.operation = t.operation := by
  cases h <;> exact ⟨rfl, rfl⟩

/-- It has had the lock. -/
theorem Activity.Move.holds {w : Workload X} {t t' : Activity X} (h : t.Move w t') :
    t.phase.holds = true := by
  cases h with
  | answer _ hphase | reply _ hphase | finish hphase => rw [hphase]; rfl
  | fail _ hphase => exact hphase

/-- It does not wait for anything then. -/
theorem Activity.Move.phase {w : Workload X} {t t' : Activity X} (h : t.Move w t') :
    t'.phase = .holding ∨ t'.phase = .finished := by
  cases h with
  | answer | reply | fail => exact Or.inl rfl
  | finish => exact Or.inr rfl

namespace Workload

/-- What a step can do. -/
inductive Effect (w : Workload X) : Workload X → Prop where
  | arrive (node : PeerId) {operation : Operation V} (h : operation.internal = false) :
      Effect w { w with activities := w.activities ++ [.arrive node operation none] }
  | enqueue {i : ℕ} {t : Activity X} (ht : w.activities[i]? = some t)
      (hphase : t.phase = .arrived) :
      Effect w
        { activities := w.activities.set i { t with phase := .queued }
          queue := Function.update w.queue t.node (w.queue t.node ++ [i]) }
  | grant {node : PeerId} {i : ℕ} {queue : List ℕ} {t : Activity X} (toc : TableOfContent X)
      (order : IterOrder (ShardId × List PointId)) (hqueue : w.queue node = i :: queue)
      (ht : w.activities[i]? = some t) (hphase : t.phase = .queued)
      (hfree : w.free node t.operation.writes = true) :
      Effect w
        { activities := w.activities.set i (t.enter toc order)
          queue := Function.update w.queue node queue }
  | move {i : ℕ} {t t' : Activity X} (ht : w.activities[i]? = some t) (hmove : t.Move w t') :
      Effect w (w.set i t')
  | send {i : ℕ} {t : Activity X} {a : Ask V}
      {next : a.Res → AskProgram V (Option Status) (List PointGrpc)}
      {target : ShardId × RemoteShard}
      (node : PeerId) (ht : w.activities[i]? = some t) (hphase : t.phase = .holding)
      (hrest : t.rest = .call a next) (htarget : a.target = some target) :
      Effect w (w.send i t node (a.message X target.2) target)

/-- **What a step can do.** -/
theorem act_effect {w w' : Workload X} {a : Action X} (h : w.act a = some w') : w.Effect w' := by
  cases a with
  | arrive node operation =>
    rw [act] at h
    split at h
    · exact nomatch h
    · rename_i hinternal
      cases h
      exact .arrive node (Bool.eq_false_iff.mpr hinternal)
  | enqueue i =>
    obtain ⟨t, ht, h⟩ := Option.bind_eq_some_iff.mp h
    split at h
    · rename_i hphase
      cases h
      exact .enqueue ht hphase
    · exact nomatch h
  | grant node toc order =>
    rw [act] at h
    split at h
    · exact nomatch h
    · rename_i i queue hqueue
      obtain ⟨t, ht, h⟩ := Option.bind_eq_some_iff.mp h
      split at h
      · rename_i hcond
        cases h
        exact .grant toc order hqueue ht hcond.1 hcond.2
      · exact nomatch h
  | answer i result =>
    obtain ⟨t, ht, h⟩ := Option.bind_eq_some_iff.mp h
    split at h
    · rename_i a next hphase hrest
      split at h
      · rename_i htarget
        cases h
        exact .move ht (.answer result hphase hrest htarget)
      · exact nomatch h
    · exact nomatch h
  | send i node =>
    obtain ⟨t, ht, h⟩ := Option.bind_eq_some_iff.mp h
    split at h
    · rename_i a next hphase hrest
      obtain ⟨target, htarget, h⟩ := Option.map_eq_some_iff.mp h
      cases h
      exact .send node ht hphase hrest htarget
    · exact nomatch h
  | reply i aborted =>
    obtain ⟨t, ht, h⟩ := Option.bind_eq_some_iff.mp h
    split at h
    · rename_i j a next hphase hrest
      obtain ⟨target, htarget, h⟩ := Option.bind_eq_some_iff.mp h
      obtain ⟨callee, hcallee, h⟩ := Option.bind_eq_some_iff.mp h
      split at h
      · cases h
        exact .move ht (.reply aborted hphase hrest htarget hcallee)
      · exact nomatch h
    · exact nomatch h
  | fail i e =>
    obtain ⟨t, ht, h⟩ := Option.bind_eq_some_iff.mp h
    split at h
    · rename_i a next hrest
      split at h
      · rename_i hcond
        cases h
        exact .move ht (.fail e hcond.1 hrest (Option.isSome_iff_ne_none.mp hcond.2))
      · exact nomatch h
    · exact nomatch h
  | finish i =>
    obtain ⟨t, ht, h⟩ := Option.bind_eq_some_iff.mp h
    split at h
    · rename_i hcond
      cases h
      exact .move ht (.finish hcond.1 hcond.2)
    · exact nomatch h

/-- What every effect keeps, a step keeps. -/
theorem step_inv {Inv : Workload X → Prop} (h : ∀ w w', Inv w → Effect w w' → Inv w')
    (w : Workload X) (a : Action X) (hw : Inv w) : Inv (w.step a) := by
  rw [step]
  cases hact : w.act a with
  | none => exact hw
  | some w' => exact h w w' hw (act_effect hact)

end Workload

end Smoldb
