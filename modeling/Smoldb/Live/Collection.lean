import Smoldb.Live.Histories
import Smoldb.Lib.WriteBehind

/-!
# A collection at work

`LiveCollection` is a collection of a node with any number of upserts and reads by id under way.
`LiveCollection.step` is something that happens to it: a request comes in, a request makes its next
call, which may fail, the node hears of a peer or is started again, or it stops in the middle of it
all.  A call of sled is answered from the tree at that time, so what one request has written another
one reads, and a tree keeps its writes to itself until it is flushed.

## What is in a state

* `requests`, in the order they came in.  A `LiveRequest` is what was asked and what is left of the
  program that answers it (`Live/Calls.lean`).  Nothing is left of it once the node has stopped: the
  request is lost, and its client hears nothing.
* `trees`, one for each shard, with what is stored and what of it is flushed.  When the node stops,
  each is left with what `WriteBehind.Recovers` allows, which is the oracle of the event `stop`.
* `history`, in which everything that happens is recorded: each call with its answer, and each stop
  with what it left.  Nothing reads it, but it is what the theorems about runs are stated with.

How a call ends is the oracle of the event `advance`: a `CallOutcome` says whether sled fails, with
an error and having written or not, and what a call to another node returns.  So a theorem about all
runs is about all ways that the calls can fail and the requests can come in between each other.
-/

set_option autoImplicit false

namespace Smoldb

open Program (Ran)

variable {V : Type} {X : Crates V}

/-! ## The requests -/

/-- What a client asks for. -/
inductive Asked (V : Type) where
  | upsert (points : List (Point V))
  | read (ids : List PointId)

/-- What it gets. -/
inductive Returned (V : Type) where
  | upserted
  | points (points : List (Point V))

/-- The points that are sent with a request. -/
def Asked.points : Asked V → List (Point V)
  | upsert points => points
  | read _ => []

/-- A request, with what is still to do.  There is nothing if it has been lost. -/
structure LiveRequest (V : Type) where
  asked : Asked V
  rest : Option (PointProgram V CollectionError (Returned V))

namespace LiveRequest

/-- An upsert before its first call. -/
def upsert (self : Collection X) (order : IterOrder (ShardId × List PointId))
    (points : List (Point V)) (localOnly : Bool) : LiveRequest V :=
  ⟨.upsert points, some ((self.upsertSteps order points localOnly).handle
    (fun _ ↦ .ok .upserted) .error)⟩

/-- A read by id before its first call. -/
def read (self : Collection X) (order : IterOrder (ShardId × List PointId)) (ids : List PointId) :
    LiveRequest V :=
  ⟨.read ids, some ((self.getSteps order ids).handle (fun ps ↦ .ok (.points ps)) .error)⟩

/-- A request that waits for a call is lost when the node stops. -/
def stop (r : LiveRequest V) : LiveRequest V :=
  match r.rest with
  | some (.call _ _) => ⟨r.asked, none⟩
  | _ => r

/-- A request has still something to do. -/
def UnderWay (r : LiveRequest V) : Prop := ∃ op next, r.rest = some (.call op next)

end LiveRequest

/-! ## What happens -/

/-- What becomes of a call.  A call of sled fails with an error, and takes effect or not; a call to
another node returns something. -/
structure CallOutcome where
  failure : Option (String × Bool)
  remote : CollectionResult Unit

/-- A record of something that happened. -/
inductive Happened (V : Type) where
  /-- A request has made a call; an insert that fails may have taken effect. -/
  | called (i : ℕ) (op : PointCall V) (reply : op.Reply) (applied : Bool)
  | stopped (recovered : ShardId → String → Option String)

/-- What it does to the tree of a shard. -/
def Happened.treeEvent (s : ShardId) : Happened V → Option (WriteBehind.Event String String)
  | called _ (.insert s' _ key value) (.ok _) _ => if s' = s then some (.write key value) else none
  | called _ (.insert s' _ key value) (.error _) applied =>
    if s' = s ∧ applied = true then some (.write key value) else none
  | called _ (.flush s') (.ok _) _ => if s' = s then some .flush else none
  | called _ (.flush _) (.error _) _ => none
  | called _ (.get ..) _ _ => none
  | called _ (.upsertRemote ..) _ _ => none
  | stopped recovered => some (.crash (recovered s))

/-- A collection with the requests that are under way. -/
structure LiveCollection {V : Type} (X : Crates V) where
  collection : Collection X
  trees : ShardId → WriteBehind String String
  requests : List (LiveRequest V)
  /-- What has happened so far. -/
  history : List (Happened V)

/-- Something that happens to a collection. -/
inductive LiveEvent {V : Type} (X : Crates V) where
  | upsert (order : IterOrder (ShardId × List PointId)) (points : List (Point V)) (localOnly : Bool)
  | read (order : IterOrder (ShardId × List PointId)) (ids : List PointId)
  /-- A request makes its next call. -/
  | advance (i : ℕ) (outcome : CallOutcome)
  /-- The node hears of a peer, or loads the collection again. -/
  | become (collection : Collection X)
  /-- The node stops. -/
  | stop (recovered : ShardId → String → Option String)

namespace LiveCollection

/-- A collection that has just been made. -/
def new (collection : Collection X) : LiveCollection X :=
  ⟨collection, fun _ ↦ .empty, [], []⟩

/-- What a call is answered, and whether an insert takes effect. -/
def answer (self : LiveCollection X) (outcome : CallOutcome) : (op : PointCall V) → op.Reply × Bool
  | .insert .. =>
    match outcome.failure with
    | none => (.ok (), true)
    | some (e, applied) => (.error e, applied)
  | .flush _ =>
    match outcome.failure with
    | none => (.ok (), true)
    | some (e, _) => (.error e, false)
  | .get s _ key =>
    match outcome.failure with
    | none => (.ok ((self.trees s).content key), false)
    | some (e, _) => (.error e, false)
  | .upsertRemote .. => (outcome.remote, false)

/-- Something happens, to all trees. -/
def record (self : LiveCollection X) (e : Happened V) : LiveCollection X :=
  { self with
    trees := fun s ↦ (e.treeEvent s).elim (self.trees s) (self.trees s).apply
    history := self.history ++ [e] }

/-- Something happens. -/
def step (self : LiveCollection X) : LiveEvent X → LiveCollection X
  | .upsert order points localOnly =>
    { self with requests := self.requests ++ [.upsert self.collection order points localOnly] }
  | .read order ids =>
    { self with requests := self.requests ++ [.read self.collection order ids] }
  | .advance i outcome =>
    match self.requests[i]? with
    | some ⟨asked, some (.call op next)⟩ =>
      { self.record (.called i op (self.answer outcome op).1 (self.answer outcome op).2) with
        requests := self.requests.set i ⟨asked, some (next (self.answer outcome op).1)⟩ }
    | _ => self
  | .become collection => { self with collection := collection }
  | .stop recovered =>
    { self.record (.stopped recovered) with requests := self.requests.map LiveRequest.stop }

/-- One thing after the other. -/
def run (self : LiveCollection X) (events : List (LiveEvent X)) : LiveCollection X :=
  events.foldl step self

/-- A collection keeps its shards, and a tree is left with what it can be left with. -/
def Proper (self : LiveCollection X) : LiveEvent X → Prop
  | .become collection =>
    ∀ s, s ∈ collection.replicaHolder.shards ↔ s ∈ self.collection.replicaHolder.shards
  | .stop recovered => ∀ s key, (self.trees s).Recovers key (recovered s key)
  | _ => True

/-- Everything that happens is proper. -/
def AllProper : List (LiveEvent X) → LiveCollection X → Prop
  | [], _ => True
  | e :: events, self => self.Proper e ∧ AllProper events (self.step e)

/-! ## Runs -/

variable {self : LiveCollection X}

theorem run_append (A B : List (LiveEvent X)) : self.run (A ++ B) = (self.run A).run B :=
  List.foldl_append

theorem run_cons (e : LiveEvent X) (events : List (LiveEvent X)) :
    self.run (e :: events) = (self.step e).run events := rfl

theorem allProper_append {A B : List (LiveEvent X)} :
    AllProper (A ++ B) self ↔ AllProper A self ∧ AllProper B (self.run A) := by
  induction A generalizing self with
  | nil => exact ⟨fun h ↦ ⟨trivial, h⟩, fun h ↦ h.2⟩
  | cons e A ih => rw [List.cons_append, AllProper, AllProper, ih, run_cons, and_assoc]

/-- **What a step does**: a request comes in, or nothing is recorded, or a request that is under way
makes a call, or the node stops. -/
theorem step_cases (self : LiveCollection X) (e : LiveEvent X) :
    (∃ r, self.step e = { self with requests := self.requests ++ [r] } ∧
      ((∃ order points localOnly, r = .upsert self.collection order points localOnly) ∨
        ∃ order ids, r = .read self.collection order ids)) ∨
    (∃ collection, self.step e = { self with collection := collection } ∧
      (collection = self.collection ∨ e = .become collection)) ∨
    (∃ i asked op next reply applied, self.requests[i]? = some ⟨asked, some (.call op next)⟩ ∧
      (∃ outcome, (reply, applied) = self.answer outcome op) ∧
      self.step e = { self.record (.called i op reply applied) with
        requests := self.requests.set i ⟨asked, some (next reply)⟩ }) ∨
    ∃ recovered, e = .stop recovered ∧
      self.step e = { self.record (.stopped recovered) with
        requests := self.requests.map LiveRequest.stop } := by
  cases e with
  | upsert order points localOnly => exact Or.inl ⟨_, rfl, Or.inl ⟨order, points, localOnly, rfl⟩⟩
  | read order ids => exact Or.inl ⟨_, rfl, Or.inr ⟨order, ids, rfl⟩⟩
  | become collection => exact Or.inr (Or.inl ⟨collection, rfl, Or.inr rfl⟩)
  | stop recovered => exact Or.inr (Or.inr (Or.inr ⟨recovered, rfl, rfl⟩))
  | advance i outcome =>
    rw [step]
    split
    · rename_i asked op next hi
      exact Or.inr (Or.inr (Or.inl ⟨i, asked, op, next, _, _, hi, ⟨outcome, rfl⟩, rfl⟩))
    · exact Or.inr (Or.inl ⟨self.collection, rfl, Or.inl rfl⟩)

end LiveCollection

end Smoldb
