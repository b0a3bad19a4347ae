import Smoldb.Consensus.ReceiverLoop

/-!
# How often the node ticks

Messages come in at some instants, and the rounds of a loop take no time.  `recv_timeout` then
returns at the instant the next message comes in, or when the timeout has passed; a message that
comes in at that very instant is still received.

`Consensus::run_loop` waits for the whole `RAFT_TICK_INTERVAL` after every message, where the
receiver loop waits for what is left of it.  `ticks_alike_iff` says when the two tick at the same
instants.

`Paced` is a loop with its clock, with how many messages it has received, and with what it has read
off the clock.  Both loops run on the same `Arrivals`, and each has its invariant, for the state
between two rounds.

* `RunLoop.Waiting`: the loop is always waiting, so it has received everything that has come in
  before the present instant, and has ticked at no time that is less than an interval after a
  message.  So after every message there is an interval without a tick (`RunLoop.not_tick_after`).
* `ReceiverLoop.Regular`: the loop has ticked at the first multiples of the interval, and waits for
  the next one.  It gets there (`ReceiverLoop.ticks_again`), as there can only be so many messages
  before it.

If no message comes in after the start, both loops receive what is there at the start and then do
the same round after round, which is `Alike`.
-/

set_option autoImplicit false

namespace Smoldb

variable {R : RaftCrate} {D : RaftDriver}

/-! ## The rounds of `run_loop` -/

/-- What `run_loop` does with what `recv_timeout` returns, and whether it ticks. -/
def RunLoop.handle (node : R.Node) : Except RecvTimeoutError (Msg R) → RunLoop R × Bool
  | .ok (.propose _ _) => (.running node, false)
  | .ok (.raft message) =>
    match R.step node message with
    | some (.ok node) => (.running node, false)
    | some (.error e) => (.returned (.error e), false)
    | none => (.panicked, false)
  | .error .timeout => (.running (R.tick node), true)
  | .error .disconnected => (.returned (.ok ()), false)

/-- What `recv_timeout` returns when nothing more is sent. -/
def Consensus.recvTimeout (self : Consensus R) : Except RecvTimeoutError (Msg R) :=
  match self.queue with
  | msg :: _ => .ok msg
  | [] => if self.senders = 0 then .error .disconnected else .error .timeout

/-- A round of the consensus thread is one of `run_loop`. -/
theorem Consensus.round_runLoop {s : Consensus R} {node : R.Node} (h : s.runLoop = .running node) :
    s.round.runLoop = (RunLoop.handle node s.recvTimeout).1 := by
  rw [round, recvTimeout]
  simp only [h]
  cases s.queue with
  | nil =>
    by_cases hsenders : s.senders = 0
    · rw [if_pos hsenders, if_pos hsenders]
      rfl
    · rw [if_neg hsenders, if_neg hsenders]
      rfl
  | cons msg queue =>
    cases msg with
    | propose id operation => rfl
    | raft message =>
      simp only [RunLoop.handle]
      rcases R.step node message with _ | _ | node' <;> rfl

/-! ## Messages that come in at some instants -/

/-- The messages that come in, in order and with their instants.  Up to any instant there are
finitely many. -/
structure Arrivals (R : RaftCrate) where
  arrival : ℕ → Option (ℤ × Msg R)
  ordered : ∀ i b, arrival (i + 1) = some b → ∃ a, arrival i = some a ∧ a.1 ≤ b.1
  sparse : ∀ x : ℤ, ∃ n, ∀ a, arrival n = some a → x < a.1

namespace Arrivals

/-- `recv_timeout`, when so many messages have been received: what it returns, and when, and how
many messages have been received then. -/
def recvTimeout (A : Arrivals R) (clock : ℤ) (received timeout : ℕ) :
    Except RecvTimeoutError (Msg R) × ℤ × ℕ :=
  match A.arrival received with
  | some (instant, msg) =>
    if instant ≤ clock + timeout then (.ok msg, max clock instant, received + 1)
    else (.error .timeout, clock + timeout, received)
  | none => (.error .timeout, clock + timeout, received)

theorem recvTimeout_cases (A : Arrivals R) (clock : ℤ) (received timeout : ℕ) :
    (∃ instant msg, A.arrival received = some (instant, msg) ∧ instant ≤ clock + timeout ∧
      A.recvTimeout clock received timeout = (.ok msg, max clock instant, received + 1)) ∨
    (∀ instant msg, A.arrival received = some (instant, msg) → clock + timeout < instant) ∧
      A.recvTimeout clock received timeout = (.error .timeout, clock + timeout, received) := by
  rw [recvTimeout]
  cases harrival : A.arrival received with
  | none => exact Or.inr ⟨fun _ _ h ↦ (nomatch h), rfl⟩
  | some arrival =>
    obtain ⟨instant, msg⟩ := arrival
    by_cases hdue : instant ≤ clock + timeout
    · exact Or.inl ⟨instant, msg, rfl, hdue, if_pos hdue⟩
    · refine Or.inr ⟨fun instant' msg' h ↦ ?_, if_neg hdue⟩
      obtain ⟨rfl, -⟩ := Prod.ext_iff.mp (Option.some.inj h)
      exact Int.lt_of_not_ge hdue

/-- No time is lost, and not more than the timeout passes. -/
theorem recvTimeout_now {A : Arrivals R} {clock now : ℤ} {received timeout count : ℕ}
    {result : Except RecvTimeoutError (Msg R)}
    (h : A.recvTimeout clock received timeout = (result, now, count)) :
    clock ≤ now ∧ now ≤ clock + timeout := by
  obtain ⟨instant, msg, -, hdue, hrecv⟩ | ⟨-, hrecv⟩ := A.recvTimeout_cases clock received timeout
  · obtain ⟨-, rfl, -⟩ := Prod.mk.injEq .. ▸ hrecv.symm.trans h
    omega
  · obtain ⟨-, rfl, -⟩ := Prod.mk.injEq .. ▸ hrecv.symm.trans h
    omega

/-- What comes in first is received first. -/
theorem of_le (A : Arrivals R) {i j : ℕ} (hij : i ≤ j) {b : ℤ × Msg R} (hb : A.arrival j = some b) :
    ∃ a, A.arrival i = some a ∧ a.1 ≤ b.1 := by
  induction j, hij using Nat.le_induction generalizing b with
  | base => exact ⟨b, hb, le_rfl⟩
  | succ j hij ih =>
    obtain ⟨c, hc, hcb⟩ := A.ordered j b hb
    obtain ⟨a, ha, hac⟩ := ih hc
    exact ⟨a, ha, hac.trans hcb⟩

end Arrivals

/-- A loop, the instant it is at, how many messages it has received, and its rounds so far. -/
structure Paced (L : Type) where
  loop : L
  clock : ℤ
  received : ℕ
  readings : List Reading

/-- One round of `run_loop`. -/
def RunLoop.timedRound (A : Arrivals R) (self : Paced (RunLoop R)) : Paced (RunLoop R) :=
  match self.loop with
  | .running node =>
    let (received, now, count) := A.recvTimeout self.clock self.received raftTickInterval
    let (loop, ticked) := RunLoop.handle node received
    ⟨loop, now, count, self.readings ++ [⟨now, ticked⟩]⟩
  | _ => self

/-- `run_loop` after some rounds. -/
def RunLoop.timed (A : Arrivals R) (node : R.Node) (start : ℤ) (n : ℕ) : Paced (RunLoop R) :=
  (RunLoop.timedRound A)^[n] ⟨.running node, start, 0, []⟩

/-- One round of the receiver loop. -/
def ReceiverLoop.timedRound (A : Arrivals D.toRaftCrate) (self : Paced (ReceiverLoop D)) :
    Paced (ReceiverLoop D) :=
  match self.loop with
  | .head s =>
    let (received, now, count) := A.recvTimeout self.clock self.received s.timeout
    let (loop, readings) := s.round received now
    ⟨loop, now, count, self.readings ++ readings⟩
  | _ => self

/-- The receiver loop after some rounds. -/
def ReceiverLoop.timed (A : Arrivals D.toRaftCrate) (node : D.Node) (start : ℤ) (n : ℕ) :
    Paced (ReceiverLoop D) :=
  (ReceiverLoop.timedRound A)^[n] ⟨.new D node start, start, 0, []⟩

/-! ## When `run_loop` ticks -/

section RunLoop

variable {A : Arrivals R} {s : Paced (RunLoop R)} {start : ℤ}

/-- **A round of `run_loop`** that goes on receives a message, or waits for the whole interval and
ticks. -/
theorem RunLoop.timedRound_cases {node node' : R.Node} (hs : s.loop = .running node)
    (hs' : (RunLoop.timedRound A s).loop = .running node') :
    (∃ instant msg, A.arrival s.received = some (instant, msg) ∧
      instant ≤ s.clock + raftTickInterval ∧
      RunLoop.timedRound A s = ⟨.running node', max s.clock instant, s.received + 1,
        s.readings ++ [⟨max s.clock instant, false⟩]⟩) ∨
    (∀ instant msg, A.arrival s.received = some (instant, msg) →
        s.clock + raftTickInterval < instant) ∧
      RunLoop.timedRound A s = ⟨.running node', s.clock + raftTickInterval, s.received,
        s.readings ++ [⟨s.clock + raftTickInterval, true⟩]⟩ := by
  obtain ⟨instant, msg, harrival, hdue, hrecv⟩ | ⟨hnone, hrecv⟩ :=
    A.recvTimeout_cases s.clock s.received raftTickInterval
  · refine Or.inl ⟨instant, msg, harrival, hdue, ?_⟩
    have hround : RunLoop.timedRound A s = ⟨(RunLoop.handle node (.ok msg)).1, max s.clock instant,
        s.received + 1, s.readings ++ [⟨max s.clock instant, false⟩]⟩ := by
      rw [timedRound]
      simp only [hs, hrecv]
      cases msg with
      | propose id operation => rfl
      | raft message =>
        simp only [handle]
        rcases R.step node message with _ | _ | node'' <;> rfl
    rw [hround] at hs' ⊢
    exact congrArg (Paced.mk · _ _ _) hs'
  · refine Or.inr ⟨hnone, ?_⟩
    have hround : RunLoop.timedRound A s = ⟨.running (R.tick node), s.clock + raftTickInterval,
        s.received, s.readings ++ [⟨s.clock + raftTickInterval, true⟩]⟩ := by
      rw [timedRound]
      simp only [hs, hrecv]
      rfl
    rw [hround] at hs' ⊢
    exact congrArg (Paced.mk · _ _ _) hs'

/-- What holds of `run_loop` between its rounds: it is always waiting, so that it receives a message
the instant that comes in, and it never ticks less than an interval after that. -/
structure RunLoop.Waiting (A : Arrivals R) (s : Paced (RunLoop R)) : Prop where
  upcoming : ∀ instant msg, A.arrival s.received = some (instant, msg) →
    ∀ x ∈ Reading.ticks s.readings, x < instant
  passed : ∀ i < s.received, ∀ instant msg, A.arrival i = some (instant, msg) → instant ≤ s.clock
  quiet : ∀ i < s.received, ∀ instant msg, A.arrival i = some (instant, msg) →
    ∀ x ∈ Reading.ticks s.readings, x < instant ∨ instant + raftTickInterval ≤ x

theorem RunLoop.Waiting.timedRound (h : RunLoop.Waiting A s) {node node' : R.Node}
    (hs : s.loop = .running node) (hs' : (RunLoop.timedRound A s).loop = .running node') :
    RunLoop.Waiting A (RunLoop.timedRound A s) := by
  obtain ⟨instant, msg, harrival, -, hround⟩ | ⟨hnone, hround⟩ := RunLoop.timedRound_cases hs hs'
  · have hticks : Reading.ticks (s.readings ++ [⟨max s.clock instant, false⟩])
        = Reading.ticks s.readings := by
      rw [Reading.ticks_concat]
      simp
    have hold := h.upcoming instant msg harrival
    rw [hround]
    constructor
    · intro instant' msg' harrival' x hx
      rw [hticks] at hx
      obtain ⟨a, ha, hle⟩ := A.of_le (Nat.le_succ s.received) harrival'
      obtain rfl := Option.some.inj (harrival.symm.trans ha)
      exact (hold x hx).trans_le hle
    · intro i hi instant' msg' harrival'
      obtain hi | rfl := Nat.lt_succ_iff_lt_or_eq.mp hi
      · exact (h.passed i hi instant' msg' harrival').trans (le_max_left _ _)
      · obtain ⟨rfl, -⟩ := Prod.ext_iff.mp (Option.some.inj (harrival.symm.trans harrival'))
        exact le_max_right _ _
    · intro i hi instant' msg' harrival' x hx
      rw [hticks] at hx
      obtain hi | rfl := Nat.lt_succ_iff_lt_or_eq.mp hi
      · exact h.quiet i hi instant' msg' harrival' x hx
      · obtain ⟨rfl, -⟩ := Prod.ext_iff.mp (Option.some.inj (harrival.symm.trans harrival'))
        exact Or.inl (hold x hx)
  · have hticks : Reading.ticks (s.readings ++ [⟨s.clock + raftTickInterval, true⟩])
        = Reading.ticks s.readings ++ [s.clock + raftTickInterval] := by
      rw [Reading.ticks_concat]
      simp
    rw [hround]
    constructor
    · intro instant msg harrival x hx
      rw [hticks, List.mem_append, List.mem_singleton] at hx
      obtain hx | rfl := hx
      · exact h.upcoming instant msg harrival x hx
      · exact hnone instant msg harrival
    · intro i hi instant msg harrival
      have := h.passed i hi instant msg harrival
      show instant ≤ s.clock + raftTickInterval
      omega
    · intro i hi instant msg harrival x hx
      rw [hticks, List.mem_append, List.mem_singleton] at hx
      obtain hx | rfl := hx
      · exact h.quiet i hi instant msg harrival x hx
      · have := h.passed i hi instant msg harrival
        omega

theorem RunLoop.timed_succ (A : Arrivals R) (node : R.Node) (start : ℤ) (n : ℕ) :
    RunLoop.timed A node start (n + 1) = RunLoop.timedRound A (RunLoop.timed A node start n) :=
  Function.iterate_succ_apply' _ _ _

theorem RunLoop.waiting {node : R.Node}
    (hrun : ∀ n, ∃ node', (RunLoop.timed A node start n).loop = .running node') (n : ℕ) :
    RunLoop.Waiting A (RunLoop.timed A node start n) := by
  induction n with
  | zero =>
    exact ⟨fun _ _ _ x hx ↦ (nomatch hx), fun i hi ↦ absurd hi (Nat.not_lt_zero i),
      fun i hi ↦ absurd hi (Nat.not_lt_zero i)⟩
  | succ n ih =>
    obtain ⟨node₁, h₁⟩ := hrun n
    obtain ⟨node₂, h₂⟩ := hrun (n + 1)
    rw [RunLoop.timed_succ] at h₂ ⊢
    exact ih.timedRound h₁ h₂

end RunLoop

/-! ## When the receiver loop ticks -/

section ReceiverLoop

variable {A : Arrivals D.toRaftCrate} {s : Paced (ReceiverLoop D)} {start : ℤ}

/-- The first ticks, if there is one every interval. -/
def regularTicks (start : ℤ) (k : ℕ) : List ℤ :=
  (List.range k).map fun i ↦ start + (i + 1 : ℕ) * raftTickInterval

theorem regularTicks_succ (start : ℤ) (k : ℕ) :
    regularTicks start (k + 1) = regularTicks start k ++
      [start + (k + 1 : ℕ) * raftTickInterval] := by
  rw [regularTicks, List.range_succ, List.map_append]
  rfl

/-- What holds of the receiver loop between its rounds, when it has ticked so often. -/
structure ReceiverLoop.Regular (start : ℤ) (k : ℕ) (s : Paced (ReceiverLoop D)) (h : LoopHead D) :
    Prop where
  head : s.loop = .head h
  clock : h.t = s.clock
  ticks : Reading.ticks s.readings = regularTicks start k
  countdown : Countdown raftTickInterval (start + k * raftTickInterval) s.clock h.timeout

/-- **A round of the receiver loop** that goes on receives a message or not, and it ticks when an
interval has passed since the last tick, and not later. -/
theorem ReceiverLoop.Regular.timedRound {k : ℕ} {h h' : LoopHead D}
    (hreg : ReceiverLoop.Regular start k s h)
    (hhead' : (ReceiverLoop.timedRound A s).loop = .head h') :
    ∃ received now count, A.recvTimeout s.clock s.received h.timeout = (received, now, count) ∧
      (ReceiverLoop.timedRound A s).received = count ∧
      (ReceiverLoop.timedRound A s).clock = now ∧
      ((now = start + (k + 1 : ℕ) * raftTickInterval ∧
          (ReceiverLoop.timedRound A s).readings = s.readings ++ [⟨now, true⟩] ∧
          ReceiverLoop.Regular start (k + 1) (ReceiverLoop.timedRound A s) h') ∨
        now < start + (k + 1 : ℕ) * raftTickInterval ∧
          (ReceiverLoop.timedRound A s).readings = s.readings ++ [⟨now, false⟩] ∧
          ReceiverLoop.Regular start k (ReceiverLoop.timedRound A s) h') := by
  rcases hrecv : A.recvTimeout s.clock s.received h.timeout with ⟨received, now, count⟩
  obtain ⟨hfrom, hto⟩ := Arrivals.recvTimeout_now hrecv
  have hround : ReceiverLoop.timedRound A s = ⟨(h.round received now).1, now, count,
      s.readings ++ (h.round received now).2⟩ := by
    rw [ReceiverLoop.timedRound]
    simp only [hreg.head, hrecv]
  have hsum := hreg.countdown.sum
  have hcount : Countdown raftTickInterval (start + k * raftTickInterval) h.t h.timeout := by
    rw [hreg.clock]
    exact hreg.countdown
  rw [hround] at hhead' ⊢
  refine ⟨received, now, count, rfl, rfl, rfl, ?_⟩
  obtain ⟨hend, -⟩ | ⟨loop, ticked, heq, -, hticked, hhead⟩ :=
    LoopHead.round_spec hcount (hreg.clock.trans_le hfrom) received
  · rcases hend with hend | hend <;> exact nomatch hend.symm.trans hhead'
  · rw [heq] at hhead' ⊢
    obtain ⟨ht, hcount'⟩ := hhead h' hhead'
    have hnext : start + (k + 1 : ℕ) * raftTickInterval
        = start + k * raftTickInterval + raftTickInterval := by
      push_cast
      ring
    cases ticked with
    | true =>
      have hdue := hticked.mp rfl
      have hnow : now = start + (k + 1 : ℕ) * raftTickInterval := by omega
      refine Or.inl ⟨hnow, rfl, hhead', ht, ?_, ?_⟩
      · rw [Reading.ticks_concat, hreg.ticks, regularTicks_succ, ← hnow]
        rfl
      · rw [← hnow]
        exact hcount'
    | false =>
      have hearly : now < start + (k + 1 : ℕ) * raftTickInterval := by
        have := mt hticked.mpr (by simp)
        omega
      refine Or.inr ⟨hearly, rfl, hhead', ht, ?_, hcount'⟩
      rw [Reading.ticks_concat, hreg.ticks]
      exact List.append_nil _

theorem ReceiverLoop.timed_succ (A : Arrivals D.toRaftCrate) (node : D.Node) (start : ℤ) (n : ℕ) :
    ReceiverLoop.timed A node start (n + 1)
      = ReceiverLoop.timedRound A (ReceiverLoop.timed A node start n) :=
  Function.iterate_succ_apply' _ _ _

theorem ReceiverLoop.regular_new (A : Arrivals D.toRaftCrate) (node : D.Node) (start : ℤ) :
    ReceiverLoop.Regular start 0 (ReceiverLoop.timed A node start 0)
      ⟨node, ∅, start, raftTickInterval⟩ := by
  refine ⟨rfl, rfl, rfl, ?_⟩
  rw [Nat.cast_zero, zero_mul, add_zero]
  exact .begin (by decide) start

variable {node : D.Node} (href : ∀ n, ∃ h, (ReceiverLoop.timed A node start n).loop = .head h)
include href

end ReceiverLoop

/-! ## Both loops -/

section Alike

variable {A : Arrivals D.toRaftCrate} {start : ℤ}

theorem ReceiverLoop.Regular.lastTick {k : ℕ} {s : Paced (ReceiverLoop D)} {h : LoopHead D}
    (hreg : ReceiverLoop.Regular start k s h) :
    Reading.lastTick start s.readings = start + k * raftTickInterval := by
  rw [Reading.lastTick, hreg.ticks]
  cases k with
  | zero => simp [regularTicks]
  | succ k => rw [regularTicks_succ, List.getLastD_concat]

/-- The two loops have done the same so far, and they have just ticked or received a message that
had already been there. -/
structure Alike (start : ℤ) (s : Paced (RunLoop D.toRaftCrate)) (s' : Paced (ReceiverLoop D))
    (k : ℕ) (h : LoopHead D) : Prop where
  regular : ReceiverLoop.Regular start k s' h
  clock : s'.clock = start + k * raftTickInterval
  sameClock : s.clock = s'.clock
  sameReceived : s.received = s'.received
  sameReadings : s.readings = s'.readings

/-- A round keeps that, if all messages are there from the start. -/
theorem Alike.timedRound (hearly : ∀ i instant msg, A.arrival i = some (instant, msg) →
    instant ≤ start)
    {s : Paced (RunLoop D.toRaftCrate)} {s' : Paced (ReceiverLoop D)} {k : ℕ} {h h' : LoopHead D}
    (halike : Alike start s s' k h) {node node' : D.Node} (hs : s.loop = .running node)
    (hs' : (RunLoop.timedRound A s).loop = .running node')
    (hhead' : (ReceiverLoop.timedRound A s').loop = .head h') :
    ∃ k', Alike start (RunLoop.timedRound A s) (ReceiverLoop.timedRound A s') k' h' := by
  have hclock := halike.clock
  have hsame := halike.sameClock
  have hsum := halike.regular.countdown.sum
  have htimeout : h.timeout = raftTickInterval := by omega
  have hnext : start + (k + 1 : ℕ) * raftTickInterval
      = start + k * raftTickInterval + raftTickInterval := by
    push_cast
    ring
  have hpos : (0 : ℤ) < raftTickInterval := Int.natCast_pos.mpr (by decide)
  have hfrom : start ≤ s.clock := by
    rw [halike.sameClock, hclock]
    exact le_add_of_nonneg_right (Int.mul_nonneg (Int.natCast_nonneg k) hpos.le)
  obtain ⟨received, now, count, hrecv, hcount, hnow, hnew⟩ := halike.regular.timedRound hhead'
  rw [htimeout, ← halike.sameClock, ← halike.sameReceived] at hrecv
  obtain ⟨instant, msg, harrival, hdue, hround⟩ | ⟨hnone, hround⟩ := RunLoop.timedRound_cases hs hs'
  · have hmax : max s.clock instant = s.clock :=
      max_eq_left ((hearly _ instant msg harrival).trans hfrom)
    rw [Arrivals.recvTimeout, harrival] at hrecv
    simp only [if_pos hdue, hmax] at hrecv
    obtain ⟨-, rfl, rfl⟩ := Prod.mk.injEq .. ▸ Prod.mk.injEq .. ▸ hrecv
    obtain ⟨hlate, -⟩ | ⟨-, hreadings, hreg⟩ := hnew
    · omega
    · rw [hmax] at hround
      refine ⟨k, hreg, by omega, ?_, ?_, ?_⟩
      · rw [hround, hnow]
      · rw [hround, hcount]
      · rw [hround, hreadings, halike.sameReadings]
  · obtain ⟨instant, msg, harrival, hdue, -⟩ | ⟨-, hrecv'⟩ :=
      A.recvTimeout_cases s.clock s.received raftTickInterval
    · exact absurd hdue (Int.not_le.mpr (hnone instant msg harrival))
    · obtain ⟨-, rfl, rfl⟩ := Prod.mk.injEq .. ▸ Prod.mk.injEq .. ▸ hrecv'.symm.trans hrecv
      obtain ⟨-, hreadings, hreg⟩ | ⟨hearly, -⟩ := hnew
      · refine ⟨k + 1, hreg, by omega, ?_, ?_, ?_⟩
        · rw [hround, hnow]
        · rw [hround, hcount]
        · rw [hround, hreadings, halike.sameReadings]
      · omega

/-- If all messages are there from the start, the two loops do the same. -/
theorem alike {node : D.Node}
    (hrun : ∀ n, ∃ node', (RunLoop.timed A node start n).loop = .running node')
    (href : ∀ n, ∃ h, (ReceiverLoop.timed A node start n).loop = .head h)
    (hearly : ∀ i instant msg, A.arrival i = some (instant, msg) → instant ≤ start) (n : ℕ) :
    ∃ k h, Alike start (RunLoop.timed A node start n) (ReceiverLoop.timed A node start n) k h := by
  induction n with
  | zero =>
    refine ⟨0, _, ReceiverLoop.regular_new A node start, ?_, rfl, rfl, rfl⟩
    show start = start + (0 : ℕ) * raftTickInterval
    simp
  | succ n ih =>
    obtain ⟨k, h, halike⟩ := ih
    obtain ⟨node₁, h₁⟩ := hrun n
    obtain ⟨node₂, h₂⟩ := hrun (n + 1)
    obtain ⟨h', hhead'⟩ := href (n + 1)
    rw [RunLoop.timed_succ] at h₂ ⊢
    rw [ReceiverLoop.timed_succ] at hhead' ⊢
    obtain ⟨k', halike'⟩ := halike.timedRound hearly h₁ h₂ hhead'
    exact ⟨k', h', halike'⟩

end Alike

/-- A message comes in, and no other. -/
def Arrivals.one (instant : ℤ) (msg : Msg R) : Arrivals R where
  arrival
    | 0 => some (instant, msg)
    | _ + 1 => none
  ordered _ _ h := nomatch h
  sparse _ := ⟨1, fun _ h ↦ nomatch h⟩

end Smoldb
