import Mathlib

/-!
# Ticks of a loop

A loop looks at a clock now and then and ticks after some of these looks.  `Reading.ticks` are the
instants at which it does.  The looks of a loop are `Reading.Timely` if it ticks exactly when an
interval has passed since it did last, and then no two ticks are closer than that.

`Countdown` is how a loop can tell from the last look alone: it carries along what is left of the
interval.
-/

set_option autoImplicit false

/-- A look at the clock, and whether the loop ticks after it. -/
structure Reading where
  now : ℤ
  ticked : Bool
  deriving DecidableEq

namespace Reading

/-- The instants of the ticks. -/
def ticks (readings : List Reading) : List ℤ := (readings.filter (·.ticked)).map (·.now)

/-- The instant of the last tick, or of the start if there is none. -/
def lastTick (start : ℤ) (readings : List Reading) : ℤ := (ticks readings).getLastD start

@[simp] theorem ticks_nil : ticks [] = [] := rfl

@[simp] theorem lastTick_nil (start : ℤ) : lastTick start [] = start := rfl

theorem ticks_concat (readings : List Reading) (r : Reading) :
    ticks (readings ++ [r]) = ticks readings ++ if r.ticked then [r.now] else [] := by
  rw [ticks, List.filter_append, List.map_append, ticks]
  cases h : r.ticked <;> simp [h]

theorem lastTick_concat (start : ℤ) (readings : List Reading) (r : Reading) :
    lastTick start (readings ++ [r]) = if r.ticked then r.now else lastTick start readings := by
  rw [lastTick, ticks_concat]
  cases r.ticked <;> simp [lastTick]

/-- The loop ticks exactly if an interval has passed since the last tick. -/
def Timely (interval : ℕ) (start : ℤ) (readings : List Reading) : Prop :=
  ∀ done r, done ++ [r] <+: readings → (r.ticked = true ↔ lastTick start done + interval ≤ r.now)

variable {interval : ℕ} {start : ℤ} {readings : List Reading}

theorem Timely.concat (h : Timely interval start readings) {r : Reading}
    (hr : r.ticked = true ↔ lastTick start readings + interval ≤ r.now) :
    Timely interval start (readings ++ [r]) := by
  intro done r' hp
  obtain heq | hp := List.prefix_concat_iff.mp hp
  · obtain ⟨rfl, hsame⟩ := List.append_inj' heq rfl
    obtain rfl : r' = r := by simpa using hsame
    exact hr
  · exact h done r' hp

end Reading

/-- What a loop carries along to tick in time, when it has last ticked at `last` and looked at the
clock at `t`: what is left of the interval then. -/
structure Countdown (interval : ℕ) (last t : ℤ) (timeout : ℕ) : Prop where
  pos : 0 < timeout
  le : timeout ≤ interval
  sum : t - last + timeout = interval

namespace Countdown

variable {interval : ℕ} {last t now : ℤ} {timeout : ℕ}

/-- The interval begins. -/
theorem begin (h : 0 < interval) (t : ℤ) : Countdown interval t t interval :=
  ⟨h, le_rfl, by omega⟩

/-- What is left has passed exactly if the interval has. -/
theorem due_iff (h : Countdown interval last t timeout) :
    timeout ≤ (now - t).toNat ↔ last + interval ≤ now := by
  have hpos := h.pos
  have hsum := h.sum
  omega

/-- Time passes, but not all that is left. -/
theorem pass (h : Countdown interval last t timeout) (hnow : t ≤ now)
    (hleft : ¬ timeout ≤ (now - t).toNat) :
    Countdown interval last now (timeout - (now - t).toNat) := by
  have hle := h.le
  have hsum := h.sum
  exact ⟨by omega, by omega, by omega⟩

end Countdown
