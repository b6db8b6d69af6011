/-
index.js: the two timers of the event loop latency.  They are set when the
module is loaded, cleared by `disable('eventloop')`, set again by
`enable('eventloop')`, and taken off the loop when the process exits.  A
sample is begun by the one timer and finished by an immediate, which a
`disable` in between does not stop.
-/
import Appmetrics.Latency
import Appmetrics.Machine
import Mathlib.Tactic.Linarith

namespace Appmetrics

open StepMachine Batching

/-- An interval of the event loop; `report` tells which of the two callbacks
it runs, and `refd` whether it keeps the process alive. -/
structure IntervalTimer where
  timer : Nat
  report : Bool
  refd : Bool
deriving Repr, DecidableEq

/-- The variables of index.js that concern the latency, with the timers and
immediates of the event loop.  The last fields are history: whether anything
was ever disabled, the starts of the samples, the samples with the reading
that finished them, and the callbacks in their order. -/
structure LatencySwitch where
  latencyRunning : Bool
  latencyCheckLoop : Nat
  latencyReportLoop : Nat
  intervals : List IntervalTimer
  nextTimer : Nat
  immediates : List Nat
  loop : LatencyLoop
  exited : Bool
  disabled : Bool
  fired : List Nat
  sampled : List (Nat × Nat)
  steps : List LatencyStep

inductive LatencyCall
  /-- `enable('eventloop')` and `disable('eventloop')` -/
  | enable
  | disable
  /-- the event loop runs the callback of a timer or of an immediate -/
  | interval (timer : Nat) (now : Nat)
  | immediate (now : Nat)
  | exit
deriving Repr, DecidableEq

namespace LatencySwitch

def setInterval (report : Bool) (s : LatencySwitch) : LatencySwitch :=
  { s with
    intervals := s.intervals ++ [⟨s.nextTimer, report, true⟩]
    nextTimer := s.nextTimer + 1 }

def clearInterval (timer : Nat) (s : LatencySwitch) : LatencySwitch :=
  { s with intervals := s.intervals.filter (·.timer != timer) }

def unref (timer : Nat) (s : LatencySwitch) : LatencySwitch :=
  { s with intervals := s.intervals.map fun interval =>
      if interval.timer = timer then { interval with refd := false }
      else interval }

/-- `latencyCheckLoop = setInterval(latencyCheck, ..)` and the same for the
reports. -/
def setLoops (s : LatencySwitch) : LatencySwitch :=
  let s := { s.setInterval false with latencyCheckLoop := s.nextTimer }
  { s.setInterval true with latencyReportLoop := s.nextTimer }

def clearLoops (s : LatencySwitch) : LatencySwitch :=
  (s.clearInterval s.latencyCheckLoop).clearInterval s.latencyReportLoop

/-- The state after `require('appmetrics')`. -/
def initial : LatencySwitch :=
  let s : LatencySwitch :=
    { latencyRunning := true
      latencyCheckLoop := 0
      latencyReportLoop := 0
      intervals := []
      nextTimer := 0
      immediates := []
      loop := .initial
      exited := false
      disabled := false
      fired := []
      sampled := []
      steps := [] }
  let s := s.setLoops
  (s.unref s.latencyCheckLoop).unref s.latencyReportLoop

def enable (s : LatencySwitch) : LatencySwitch :=
  if s.latencyRunning then s
  else { s with latencyRunning := true }.setLoops

def disable (s : LatencySwitch) : LatencySwitch :=
  if s.latencyRunning then
    { s with latencyRunning := false, disabled := true }.clearLoops
  else s

/-- The listener for `exit` that `start` adds; it leaves `latencyRunning`. -/
def exit (s : LatencySwitch) : LatencySwitch :=
  let s := if s.latencyRunning then s.clearLoops else s
  { s with exited := true }

/-- `latencyCheck`, as far as its immediate. -/
def latencyCheck (now : Nat) (s : LatencySwitch) : LatencySwitch :=
  { s with
    immediates := s.immediates ++ [now]
    fired := s.fired ++ [now] }

def callback (e : LatencyStep) (s : LatencySwitch) : LatencySwitch :=
  { s with loop := s.loop.step e, steps := s.steps ++ [e] }

/-- `process.hrtime(start)`. -/
def hrtimeDelta (start now : Nat) : Nat × Nat :=
  ((now - start) / 1000000000, (now - start) % 1000000000)

def step (s : LatencySwitch) : LatencyCall → Option LatencySwitch
  | .enable => some s.enable
  | .disable => some s.disable
  | .exit => some s.exit
  | .interval timer now =>
      if s.exited then none
      else
        (s.intervals.find? (·.timer = timer)).map fun interval =>
          if interval.report then s.callback (.report now)
          else s.latencyCheck now
  | .immediate now =>
      match s.immediates with
      | [] => none
      | start :: rest =>
          if s.exited = false ∧ start ≤ now then
            some
              ({ s with
                  immediates := rest
                  sampled := s.sampled ++ [(start, now)] }.callback
                (Appmetrics.latencyCheck (hrtimeDelta start now)))
          else none

end LatencySwitch

def latencyMachine : Machine LatencySwitch LatencyCall where
  init := LatencySwitch.initial
  step := LatencySwitch.step

namespace LatencySwitch

/-- The two timers that are set while the latency is watched. -/
def loops (s : LatencySwitch) : List IntervalTimer :=
  if s.latencyRunning then
    [⟨s.latencyCheckLoop, false, s.disabled⟩,
      ⟨s.latencyReportLoop, true, s.disabled⟩]
  else []

/-- The length of a sample in milliseconds. -/
def latencyOf (sample : Nat × Nat) : Rat :=
  ((sample.2 - sample.1 : Nat) : Rat) / 1000000

/-- The timers are those the switch says; nothing that was begun is lost or
counted twice; and the data is what the callbacks alone make of it. -/
structure Consistent (s : LatencySwitch) : Prop where
  timers : s.latencyCheckLoop < s.latencyReportLoop ∧
    s.latencyReportLoop < s.nextTimer
  intervals : s.exited = false → s.intervals = s.loops
  toggled : s.latencyRunning = false → s.disabled = true
  begun : s.fired = s.sampled.map Prod.fst ++ s.immediates
  finished : samples (s.steps.map LatencyStep.event) =
    s.sampled.map latencyOf
  data : s.loop = LatencyLoop.run s.steps

theorem initial_consistent : initial.Consistent where
  timers := by decide
  intervals _ := by decide
  toggled h := by cases h
  begun := rfl
  finished := rfl
  data := rfl

/-- The two parts of the reading are put together again. -/
theorem latencyCheck_event {start now : Nat} :
    (Appmetrics.latencyCheck (hrtimeDelta start now)).event =
      .sample (latencyOf (start, now)) := by
  have hdivmod := Nat.div_add_mod (now - start) 1000000000
  have hcast := congrArg (fun n : Nat => (n : Rat)) hdivmod
  push_cast at hcast
  simp only [Appmetrics.latencyCheck, hrtimeDelta, LatencyStep.event,
    latencyOf, Event.sample.injEq]
  linarith

section Switch

variable {s : LatencySwitch} (hs : s.Consistent)

include hs

theorem Consistent.enable : s.enable.Consistent := by
  unfold LatencySwitch.enable
  cases hrunning : s.latencyRunning with
  | true => exact hs
  | false =>
      have hintervals := hs.intervals
      simp only [loops, hrunning, Bool.false_eq_true, if_false]
        at hintervals
      rw [if_neg Bool.false_ne_true]
      constructor
      case timers => exact ⟨Nat.lt_succ_self _, Nat.lt_succ_self _⟩
      case intervals =>
        intro hexited
        simp [setLoops, setInterval, loops, hintervals hexited,
          hs.toggled hrunning]
      case toggled => exact fun h => nomatch h
      case begun => exact hs.begun
      case finished => exact hs.finished
      case data => exact hs.data

/-- Both timers are cleared, by the handles that were kept. -/
theorem Consistent.clearLoops (hexited : s.exited = false) :
    s.clearLoops.intervals = [] := by
  have hne : s.latencyCheckLoop ≠ s.latencyReportLoop :=
    Nat.ne_of_lt hs.timers.1
  simp only [LatencySwitch.clearLoops, clearInterval, hs.intervals hexited,
    loops]
  split <;> simp

theorem Consistent.disable : s.disable.Consistent := by
  unfold LatencySwitch.disable
  cases hrunning : s.latencyRunning with
  | false => exact hs
  | true =>
      have hcleared := hs.clearLoops
      rw [if_pos rfl]
      exact
        { timers := hs.timers
          intervals := hcleared
          toggled := fun _ => rfl
          begun := hs.begun
          finished := hs.finished
          data := hs.data }

theorem Consistent.exit : s.exit.Consistent := by
  unfold LatencySwitch.exit
  dsimp only
  split
  all_goals
    exact
      { timers := hs.timers
        intervals := fun h => nomatch h
        toggled := hs.toggled
        begun := hs.begun
        finished := hs.finished
        data := hs.data }

theorem Consistent.interval {timer now : Nat} {s' : LatencySwitch}
    (hstep : s.step (.interval timer now) = some s') : s'.Consistent := by
  obtain ⟨_, hfire⟩ := Option.ite_none_left_eq_some.mp hstep
  obtain ⟨interval, _, rfl⟩ := Option.map_eq_some_iff.mp hfire
  cases interval.report with
  | true =>
      exact
        { timers := hs.timers
          intervals := hs.intervals
          toggled := hs.toggled
          begun := hs.begun
          finished := by
            have hfinished := hs.finished
            simpa [callback, samples, LatencyStep.event] using hfinished
          data := by
            simp [callback, hs.data, LatencyLoop.run] }
  | false =>
      exact
        { timers := hs.timers
          intervals := hs.intervals
          toggled := hs.toggled
          begun := by simp [LatencySwitch.latencyCheck, hs.begun]
          finished := hs.finished
          data := hs.data }

theorem Consistent.immediate {now : Nat} {s' : LatencySwitch}
    (hstep : s.step (.immediate now) = some s') : s'.Consistent := by
  unfold LatencySwitch.step at hstep
  dsimp only at hstep
  split at hstep
  · cases hstep
  · next start rest himmediates =>
      obtain ⟨_, heq⟩ := Option.ite_none_right_eq_some.mp hstep
      rw [← Option.some.inj heq]
      have hfinished := hs.finished
      exact
        { timers := hs.timers
          intervals := hs.intervals
          toggled := hs.toggled
          begun := by simp [callback, hs.begun, himmediates]
          finished := by
            simp only [samples] at hfinished
            simp [callback, samples, hfinished, latencyCheck_event]
          data := by simp [callback, hs.data, LatencyLoop.run] }

end Switch

theorem consistent : latencyMachine.Inductive (fun _ _ => True)
    Consistent where
  init := initial_consistent
  step := by
    intro s call s' hs _ hstep
    cases call with
    | enable =>
        cases hstep
        exact hs.enable
    | disable =>
        cases hstep
        exact hs.disable
    | exit =>
        cases hstep
        exact hs.exit
    | interval timer now => exact hs.interval hstep
    | immediate now => exact hs.immediate hstep

end LatencySwitch

/-- Over every run of switching, timers, immediates and the exit: until the
exit the loop has the two timers exactly while the latency is watched, and
they keep the process alive exactly if it was disabled before; a sample that
was begun is finished once, in order, also when its timer has been cleared in
the meantime; and the events are those of the callbacks alone, whatever the
switches do in between. -/
theorem latency_switch {calls : List LatencyCall} {s : LatencySwitch}
    (hrun : latencyMachine.run latencyMachine.init calls = some s) :
    (s.exited = false → s.intervals = if s.latencyRunning then
        [⟨s.latencyCheckLoop, false, s.disabled⟩,
          ⟨s.latencyReportLoop, true, s.disabled⟩]
      else []) ∧
    s.fired = s.sampled.map Prod.fst ++ s.immediates ∧
    s.loop = LatencyLoop.run s.steps ∧
    (latencyBatches s.steps).flatten ++
        waiting [] (s.steps.map LatencyStep.event) =
      s.sampled.map LatencySwitch.latencyOf := by
  have hs := LatencySwitch.consistent.run (guarded_true _ _) hrun
  refine ⟨hs.intervals, hs.begun, hs.data, ?_⟩
  rw [latencyBatches, flatten_batches]
  exact hs.finished

namespace LatencySwitchWitness

/-- A sample is open when the latency is disabled; after enabling it again
the first report tells of it. -/
def reenabled : List LatencyCall :=
  [.interval 0 5, .disable, .immediate 7, .enable, .interval 3 9]

theorem reenabled_runs :
    (latencyMachine.run latencyMachine.init reenabled).isSome := by
  decide +kernel

theorem latency_switch_reenabled :
    ∃ s, latencyMachine.run latencyMachine.init reenabled = some s ∧
      (s.exited = false → s.intervals = if s.latencyRunning then
          [⟨s.latencyCheckLoop, false, s.disabled⟩,
            ⟨s.latencyReportLoop, true, s.disabled⟩]
        else []) ∧
      s.fired = s.sampled.map Prod.fst ++ s.immediates := by
  obtain ⟨s, hrun⟩ := Option.isSome_iff_exists.mp reenabled_runs
  obtain ⟨hintervals, hfired, _⟩ := latency_switch hrun
  exact ⟨s, hrun, hintervals, hfired⟩

end LatencySwitchWitness

end Appmetrics
