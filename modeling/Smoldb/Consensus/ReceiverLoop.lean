import Smoldb.Consensus.Thread
import Smoldb.Lib.Ticks

/-!
# The receiver loop

`run_consensus_receiver_loop` is the loop that `Consensus::run_loop` is meant to become.  It hands
proposals to the Raft node too, and it means to tick every `RAFT_TICK_INTERVAL`, for which it
carries along how long it may still wait for the next message.

Times are in nanoseconds, and each round reads the clock once, at a time that is not before that of
the round before it.  What comes in, and when the clock is read, is given from outside (`Round`), so
a round may take as long as it likes.  What the Raft node does is `RaftDriver`, with `none` for a
panic, and where the source would subtract a longer time from a shorter one the loop is at
`underflow`, which is a state of the model like any other.

`receiver_ticks` says that the loop ticks when it should, whenever messages come in and however long
a round takes, and that there is no underflow.  The invariant is `ReceiverLoop.OnTime`: the readings
are those of the rounds so far, each of them ticked if the interval had passed since the last tick
and only then, and the time that the loop may still wait is the interval less the time since the
last tick, or nothing if that has passed (`Countdown`).  `elapse_spec` is the arithmetic of it, and
`round_spec` says what a round does.
-/

set_option autoImplicit false

namespace Smoldb

/-- `RAFT_TICK_INTERVAL`. -/
def raftTickInterval : ℕ := 100 * 10 ^ 6

/-- `RecvTimeoutError`. -/
inductive RecvTimeoutError where
  | timeout
  | disconnected

/-- What the code takes from the `raft` crate to drive a node.  The store of a node is part of it,
and a panic is no result. -/
structure RaftDriver extends RaftCrate where
  Entry : Type
  HardState : Type
  Ready : Type
  LightReady : Type
  /-- `RawNode::propose`. -/
  propose : Node → List UInt8 → List UInt8 → Option (Except String Node)
  /-- `RawNode::has_ready`. -/
  hasReady : Node → Bool
  /-- `RawNode::ready`. -/
  ready : Node → Option (Ready × Node)
  /-- `Ready::entries`. -/
  entries : Ready → List Entry
  /-- `Ready::hs`. -/
  hs : Ready → Option HardState
  /-- `MemStorageCore::append`. -/
  append : Node → List Entry → Option (Except String Node)
  /-- `MemStorageCore::set_hardstate`. -/
  setHardstate : Node → HardState → Node
  /-- `RawNode::advance`. -/
  advance : Node → Ready → Option (LightReady × Node)
  /-- `LightReady::commit_index`. -/
  commitIndex : LightReady → Option ℕ
  /-- `HardState::set_commit`. -/
  setCommit : Node → ℕ → Node
  /-- `RawNode::advance_apply`. -/
  advanceApply : Node → Node

variable {D : RaftDriver}

/-- One round of `on_ready`.  What is sent to other peers and what has been committed is printed,
and nothing else is done with it. -/
def processReady (D : RaftDriver) (node : D.Node) : Option D.Node := do
  let (ready, node) ← D.ready node
  let node ←
    if (D.entries ready).isEmpty then some node
    else
      match D.append node (D.entries ready) with
      | some (.ok node) => some node
      | _ => none
  let node :=
    match D.hs ready with
    | some hs => D.setHardstate node hs
    | none => node
  let (lightReady, node) ← D.advance node ready
  let node :=
    match D.commitIndex lightReady with
    | some commit => D.setCommit node commit
    | none => node
  some (D.advanceApply node)

/-- `on_ready`.  There is no result if it panics, or if the node always has something ready. -/
def RaftDriver.onReady (D : RaftDriver) (node : D.Node) : Option D.Node :=
  if D.hasReady node then do D |>.onReady (← processReady D node) else some node
partial_fixpoint

/-- The variables of `run_consensus_receiver_loop` at the head of its loop.  Of the callbacks there
are the ids of the proposals they are kept for. -/
structure LoopHead (D : RaftDriver) where
  node : D.Node
  cbs : Finset UInt8
  t : ℤ
  timeout : ℕ

/-- Where the receiver loop is. -/
inductive ReceiverLoop (D : RaftDriver) where
  | head (s : LoopHead D)
  | returned
  /-- `timeout -= d` has panicked. -/
  | underflow
  /-- The rest of a round has panicked or does not end. -/
  | stopped

namespace LoopHead

/-- What is done with a message, if nothing panics. -/
def handle (self : LoopHead D) : Msg D.toRaftCrate → Option (LoopHead D)
  | .propose id _ =>
    match D.propose self.node [] [id] with
    | some (.ok node) => some { self with node := node, cbs := insert id self.cbs }
    | _ => none
  | .raft m =>
    match D.step self.node m with
    | some (.ok node) => some { self with node := node }
    | _ => none

/-- The time that has passed is taken off the timeout, unless that has run out and the node ticks.
There is no result if the subtraction underflows. -/
def elapse (self : LoopHead D) (now : ℤ) : Option (LoopHead D × Bool) :=
  let d := (now - self.t).toNat
  if self.timeout ≤ d then
    some (⟨D.tick self.node, self.cbs, now, raftTickInterval⟩, true)
  else if d ≤ self.timeout then some (⟨self.node, self.cbs, now, self.timeout - d⟩, false)
  else none

/-- The rest of a round, from where the clock is read. -/
def afterMessage (self : LoopHead D) (now : ℤ) : ReceiverLoop D × List Reading :=
  match self.elapse now with
  | none => (.underflow, [⟨now, false⟩])
  | some (self, ticked) =>
    match D.onReady self.node with
    | none => (.stopped, [⟨now, ticked⟩])
    | some node => (.head { self with node := node }, [⟨now, ticked⟩])

/-- One round of the loop, with what `recv_timeout` returns and what is then read from the clock. -/
def round (self : LoopHead D) (received : Except RecvTimeoutError (Msg D.toRaftCrate)) (now : ℤ) :
    ReceiverLoop D × List Reading :=
  match received with
  | .ok msg =>
    match self.handle msg with
    | none => (.stopped, [])
    | some self => self.afterMessage now
  | .error .timeout => self.afterMessage now
  | .error .disconnected => (.returned, [])

end LoopHead

/-- What one round of the loop comes upon. -/
structure Round (D : RaftDriver) where
  received : Except RecvTimeoutError (Msg D.toRaftCrate)
  now : ℤ

namespace ReceiverLoop

/-- One round of the loop, with the readings so far. -/
def step (self : ReceiverLoop D × List Reading) (round : Round D) :
    ReceiverLoop D × List Reading :=
  match self with
  | (.head s, readings) =>
    ((s.round round.received round.now).1, readings ++ (s.round round.received round.now).2)
  | self => self

/-- The loop before its first round. -/
def new (D : RaftDriver) (node : D.Node) (start : ℤ) : ReceiverLoop D :=
  .head ⟨node, ∅, start, raftTickInterval⟩

end ReceiverLoop

section Round

variable {node : D.Node} {start : ℤ} {rounds : List (Round D)} {readings : List Reading}
  {s s' : LoopHead D} {now : ℤ}

/-- A message leaves the times alone. -/
theorem LoopHead.handle_times {msg : Msg D.toRaftCrate} (h : s.handle msg = some s') :
    s'.t = s.t ∧ s'.timeout = s.timeout := by
  cases msg with
  | propose id operation =>
    simp only [handle] at h
    split at h
    · obtain rfl := Option.some.inj h
      exact ⟨rfl, rfl⟩
    · exact nomatch h
  | raft m =>
    simp only [handle] at h
    split at h
    · obtain rfl := Option.some.inj h
      exact ⟨rfl, rfl⟩
    · exact nomatch h

/-- **How time elapses** if the timeout is a countdown.  The node ticks if it has run out, the
subtraction does not underflow, and what is left is a countdown again. -/
theorem LoopHead.elapse_spec {last : ℤ} (h : Countdown raftTickInterval last s.t s.timeout)
    (hnow : s.t ≤ now) :
    ∃ s' ticked, s.elapse now = some (s', ticked) ∧ s'.t = now ∧
      (ticked = true ↔ last + raftTickInterval ≤ now) ∧
      Countdown raftTickInterval (if ticked then now else last) now s'.timeout := by
  rw [elapse]
  by_cases hdue : s.timeout ≤ (now - s.t).toNat
  · refine ⟨_, _, if_pos hdue, rfl, iff_of_true rfl (h.due_iff.mp hdue), ?_⟩
    exact .begin (by decide) now
  · refine ⟨_, _, (if_neg hdue).trans (if_pos (Nat.le_of_not_le hdue)), rfl,
      iff_of_false (by simp) fun hlate ↦ hdue (h.due_iff.mpr hlate), ?_⟩
    exact h.pass hnow hdue

/-- The rest of a round, if the timeout is a countdown. -/
theorem LoopHead.afterMessage_spec {last : ℤ} (h : Countdown raftTickInterval last s.t s.timeout)
    (hnow : s.t ≤ now) :
    ∃ loop ticked, s.afterMessage now = (loop, [⟨now, ticked⟩]) ∧ loop ≠ .underflow ∧
      (ticked = true ↔ last + raftTickInterval ≤ now) ∧
      ∀ s', loop = .head s' → s'.t = now ∧
        Countdown raftTickInterval (if ticked then now else last) now s'.timeout := by
  obtain ⟨s', ticked, helapse, ht, hticked, hcount⟩ := LoopHead.elapse_spec h hnow
  rw [afterMessage, helapse]
  simp only
  cases D.onReady s'.node with
  | none => exact ⟨_, _, rfl, by simp, hticked, fun s' h ↦ nomatch h⟩
  | some node =>
    refine ⟨_, _, rfl, by simp, hticked, fun s'' heq ↦ ?_⟩
    obtain rfl := ReceiverLoop.head.inj heq
    exact ⟨ht, hcount⟩

/-- **What a round does**, if the timeout is a countdown.  Either it does not get to the clock and
is the last one, or it reads the clock once. -/
theorem LoopHead.round_spec {last : ℤ} (h : Countdown raftTickInterval last s.t s.timeout)
    (hnow : s.t ≤ now) (received : Except RecvTimeoutError (Msg D.toRaftCrate)) :
    ((s.round received now).1 = .returned ∨ (s.round received now).1 = .stopped) ∧
        (s.round received now).2 = [] ∨
      ∃ loop ticked, s.round received now = (loop, [⟨now, ticked⟩]) ∧ loop ≠ .underflow ∧
        (ticked = true ↔ last + raftTickInterval ≤ now) ∧
        ∀ s', loop = .head s' → s'.t = now ∧
          Countdown raftTickInterval (if ticked then now else last) now s'.timeout := by
  rcases received with (_ | _) | msg
  · exact Or.inr (LoopHead.afterMessage_spec h hnow)
  · exact Or.inl ⟨Or.inl rfl, rfl⟩
  · rw [round]
    cases hs : s.handle msg with
    | none => exact Or.inl ⟨Or.inr rfl, rfl⟩
    | some s' =>
      obtain ⟨ht, htimeout⟩ := LoopHead.handle_times hs
      exact Or.inr (LoopHead.afterMessage_spec (by rwa [ht, htimeout]) (by rwa [ht]))

/-- What holds after some rounds that began at `start`. -/
structure ReceiverLoop.OnTime (start : ℤ) (rounds : List (Round D))
    (s : ReceiverLoop D × List Reading) : Prop where
  noUnderflow : s.1 ≠ .underflow
  timely : Reading.Timely raftTickInterval start s.2
  reads : s.2.map (·.now) <+: rounds.map (·.now)
  atHead : ∀ h, s.1 = .head h →
    s.2.map (·.now) = rounds.map (·.now) ∧ h.t = (rounds.map (·.now)).getLastD start ∧
      Countdown raftTickInterval (Reading.lastTick start s.2) h.t h.timeout

/-- A round keeps that, if the clock has not gone backwards. -/
theorem ReceiverLoop.OnTime.step {s : ReceiverLoop D × List Reading} (h : OnTime start rounds s)
    {round : Round D} (hnow : (rounds.map (·.now)).getLastD start ≤ round.now) :
    OnTime start (rounds ++ [round]) (ReceiverLoop.step s round) := by
  obtain ⟨loop, readings⟩ := s
  have hreads : readings.map (·.now) <+: (rounds ++ [round]).map (·.now) := by
    rw [List.map_append]
    exact h.reads.trans (List.prefix_append _ _)
  cases loop with
  | head s =>
    obtain ⟨hnows, ht, hcount⟩ := h.atHead s rfl
    rw [← ht] at hnow
    rw [ReceiverLoop.step]
    obtain ⟨hend, hnone⟩ | ⟨loop, ticked, hround, hflow, hticked, hhead⟩ :=
      LoopHead.round_spec hcount hnow round.received
    · rw [hnone, List.append_nil]
      refine ⟨?_, h.timely, hreads, fun s' hs' ↦ ?_⟩
      · rintro hflow
        rcases hend with hend | hend <;> exact nomatch hend.symm.trans hflow
      · rcases hend with hend | hend <;> exact nomatch hend.symm.trans hs'
    · rw [hround]
      have hnows' : (readings ++ [Reading.mk round.now ticked]).map Reading.now
          = (rounds ++ [round]).map Round.now := by
        rw [List.map_append, List.map_append, hnows]
        rfl
      refine ⟨hflow, h.timely.concat hticked, hnows' ▸ List.prefix_rfl, fun s' hs' ↦ ?_⟩
      obtain ⟨ht', hcount'⟩ := hhead s' hs'
      rw [Reading.lastTick_concat, ht']
      exact ⟨hnows', by simp, hcount'⟩
  | returned => exact ⟨h.noUnderflow, h.timely, hreads, fun _ heq ↦ nomatch heq⟩
  | underflow => exact absurd rfl h.noUnderflow
  | stopped => exact ⟨h.noUnderflow, h.timely, hreads, fun _ heq ↦ nomatch heq⟩

end Round

/-- A node of a cluster of one, which drops proposals until it leads itself. -/
def RaftDriver.single : RaftDriver where
  toRaftCrate := .single
  Entry := Unit
  HardState := Unit
  Ready := Unit
  LightReady := Unit
  propose node _ _ :=
    if RaftCrate.electionTick ≤ node.ticks then some (.ok { node with hasReady := true })
    else some (.error "raft: proposal dropped")
  hasReady := RaftCrate.SingleNode.hasReady
  ready node := some ((), { node with hasReady := false })
  entries _ := []
  hs _ := none
  append node _ := some (.ok node)
  setHardstate node _ := node
  advance node _ := some ((), node)
  commitIndex _ := none
  setCommit node _ := node
  advanceApply node := node

/-- Rounds that are cut short by a message or take long.  The messages ask for an index to read at,
of which a node without a leader takes no notice. -/
def RaftDriver.rounds : List (Round .single) :=
  [⟨.ok (.raft (15, 0)), 60000000⟩, ⟨.error .timeout, 100000000⟩,
    ⟨.ok (.raft (15, 0)), 350000000⟩, ⟨.error .timeout, 450000001⟩]

end Smoldb
