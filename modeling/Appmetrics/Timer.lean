/-
lib/timer.js: a timer records the clock when it is made and, once, how long
it ran.
-/
import Mathlib.Data.Rat.Lemmas
import Mathlib.Algebra.Order.Ring.Rat
import Mathlib.Tactic.Positivity

namespace Appmetrics

/-- One reading of both clocks: `process.hrtime()` in nanoseconds and
`Date.now()` in milliseconds. -/
structure Clock where
  hrtime : Nat
  now : Nat
deriving Repr, DecidableEq

/-- `timeDelta` is `-1` until the timer is stopped, then milliseconds. -/
structure Timer where
  startTime : Nat
  startTimeMillis : Nat
  timeDelta : Rat
deriving Repr, DecidableEq

def Timer.start (clock : Clock) : Timer :=
  ⟨clock.hrtime, clock.now, -1⟩

/-- `process.hrtime(startTime)`: the seconds elapsed and the nanoseconds of
the last, incomplete one. -/
def hrtimeSince (clock : Clock) (startTime : Nat) : Int × Int :=
  let diff : Int := clock.hrtime - startTime
  (diff / 1000000000, diff % 1000000000)

def elapsed (clock : Clock) (startTime : Nat) : Rat :=
  let dur := hrtimeSince clock startTime
  dur.1 * 1000 + dur.2 / 1000000

def Timer.stop (clock : Clock) (timer : Timer) : Timer :=
  -- Prevent the timer being stopped twice.
  if timer.timeDelta = -1 then
    { timer with timeDelta := elapsed clock timer.startTime }
  else timer

theorem elapsed_nonneg {clock : Clock} {startTime : Nat}
    (hle : startTime ≤ clock.hrtime) : 0 ≤ elapsed clock startTime := by
  have hdiff : (0 : Int) ≤ clock.hrtime - startTime := by omega
  have hsec : (0 : Rat) ≤ (hrtimeSince clock startTime).1 :=
    Rat.intCast_nonneg.mpr (Int.ediv_nonneg hdiff (by decide))
  have hnsec : (0 : Rat) ≤ (hrtimeSince clock startTime).2 :=
    Rat.intCast_nonneg.mpr (Int.emod_nonneg _ (by decide))
  unfold elapsed
  positivity

@[simp] theorem Timer.start_startTime (clock : Clock) :
    (Timer.start clock).startTime = clock.hrtime := rfl

@[simp] theorem Timer.stop_startTime (clock : Clock) (timer : Timer) :
    (timer.stop clock).startTime = timer.startTime := by
  unfold Timer.stop
  split <;> rfl

@[simp] theorem Timer.stop_startTimeMillis (clock : Clock) (timer : Timer) :
    (timer.stop clock).startTimeMillis = timer.startTimeMillis := by
  unfold Timer.stop
  split <;> rfl

theorem Timer.stop_of_running {clock : Clock} {timer : Timer}
    (hrunning : timer.timeDelta = -1) :
    (timer.stop clock).timeDelta = elapsed clock timer.startTime := by
  simp [Timer.stop, hrunning]

/-- A stopped timer keeps its reading. -/
theorem Timer.stop_of_stopped {clock : Clock} {timer : Timer}
    (hstopped : timer.timeDelta ≠ -1) : timer.stop clock = timer := by
  simp [Timer.stop, hstopped]

/-- With a clock that does not run backwards, stopping leaves the initial
`-1` for good. -/
theorem Timer.stop_timeDelta_ne {clock : Clock} {timer : Timer}
    (hle : timer.startTime ≤ clock.hrtime) :
    (timer.stop clock).timeDelta ≠ -1 := by
  by_cases hrunning : timer.timeDelta = -1
  · rw [Timer.stop_of_running hrunning]
    have hnonneg := elapsed_nonneg hle
    intro heq
    rw [heq] at hnonneg
    exact absurd hnonneg (by decide)
  · rw [Timer.stop_of_stopped hrunning]
    exact hrunning

end Appmetrics
