/-
src/plugins/node/prof/watchdog.h: the profiler thread and the two signals
that suspend and resume it.  The main thread starts and stops the profiler and
passes every `epoll_wait` through `Syscall`; a timer wakes the profiler thread
when the event loop stalls.  Each kernel call of the main thread and each turn
of the profiler thread is a step.
-/
import Appmetrics.Machine
import Mathlib.Data.List.Infix

namespace Appmetrics

open StepMachine

/-- `kSuspendSignal` has the lower number of the two. -/
inductive Signal
  | kSuspendSignal
  | kResumeSignal
deriving Repr, DecidableEq

/-- The program points of the profiler thread: its own code, and `OnSignal`,
during which both signals are blocked. -/
inductive ProfilerPoint
  | running
  | onSignal (signo : Signal)
  | sigwaitinfo
  /-- after the loop -/
  | resumed
deriving Repr, DecidableEq

/-- The profiler thread with the signals that are pending for it. -/
structure ProfilerThread where
  point : ProfilerPoint
  suspends : Nat
  resumes : Nat
deriving Repr, DecidableEq

namespace ProfilerThread

/-- The kernel queues every signal. -/
def queue (t : ProfilerThread) : Signal → ProfilerThread
  | .kSuspendSignal => { t with suspends := t.suspends + 1 }
  | .kResumeSignal => { t with resumes := t.resumes + 1 }

/-- The pending signal with the lowest number is taken first. -/
def take (t : ProfilerThread) : Option (Signal × ProfilerThread) :=
  if 0 < t.suspends then
    some (.kSuspendSignal, { t with suspends := t.suspends - 1 })
  else if 0 < t.resumes then
    some (.kResumeSignal, { t with resumes := t.resumes - 1 })
  else none

/-- The next step that signals make the thread do; `none` while it waits for
a signal, or runs without any. -/
def step (t : ProfilerThread) : Option ProfilerThread :=
  match t.point with
  | .running =>
      t.take.map fun (signo, t) => { t with point := .onSignal signo }
  | .onSignal .kResumeSignal => some { t with point := .running }
  | .onSignal .kSuspendSignal => some { t with point := .sigwaitinfo }
  | .sigwaitinfo =>
      t.take.map fun (signo, t) =>
        match signo with
        | .kSuspendSignal => t
        | .kResumeSignal => { t with point := .resumed }
  | .resumed => some { t with point := .running }

/-- In `OnSignal`, before a resume signal has been taken. -/
def Suspended (t : ProfilerThread) : Prop :=
  t.point = .onSignal .kSuspendSignal ∨ t.point = .sigwaitinfo

instance (t : ProfilerThread) : Decidable t.Suspended := instDecidableOr

/-- A thread that is suspended, or is about to be, has a resume signal to
come. -/
def Resumable (t : ProfilerThread) : Prop :=
  t.Suspended ∨ 0 < t.suspends → 0 < t.resumes

/-- How many steps of the thread the pending signals can cause. -/
def weight (t : ProfilerThread) : Nat :=
  3 * (t.suspends + t.resumes) +
    match t.point with
    | .running => 0
    | .onSignal .kSuspendSignal => 2
    | _ => 1

/-- The thread is in its own code and no signal is pending. -/
def Free (t : ProfilerThread) : Prop :=
  t.point = .running ∧ t.suspends = 0 ∧ t.resumes = 0

end ProfilerThread

/-- The kernel and V8 calls that the functions of the main thread make. -/
inductive WatchdogCall
  | startV8
  | findProfilerTid
  | tgkill (signo : Signal)
  | timerCreate
  /-- `timer_settime` with `timeout` or with `no_timeout` -/
  | timerSettime (arm : Bool)
  | timerDelete
  | clearProfilerTid
  | stopV8
  /-- the system call itself -/
  | sleep
deriving Repr, DecidableEq

inductive TimerCall
  | create
  | delete
deriving Repr, DecidableEq

/-- The variables of the main thread, the timer, which may be armed, and the
profiler thread, if there is one.  `calls` is what the current function of
the main thread still has to do.  `stopped` tells whether `StopCpuProfiling`
has sent its signal since the watchdog was last started, and `timerCalls` is
the history of the timer. -/
structure Watchdog where
  profilerTid : Nat
  timeout : Nat
  timer : Option Bool
  profiler : Option ProfilerThread
  activationCount : Nat
  calls : List WatchdogCall
  stopped : Bool
  timerCalls : List TimerCall
deriving Repr, DecidableEq

inductive WatchdogStep
  | startCpuProfiling (timeoutInMs : Nat)
  | stopCpuProfiling
  | epollWait
  /-- the next call of the main thread; `tid` is what `FindProfilerTid`
  finds -/
  | main (tid : Nat)
  | expire
  | profiler
  /-- `sigwaitinfo` fails with `EINTR` -/
  | interrupt
deriving Repr, DecidableEq

namespace Watchdog

def initial : Watchdog where
  profilerTid := 0
  timeout := 0
  timer := none
  profiler := none
  activationCount := 0
  calls := []
  stopped := false
  timerCalls := []

/-- The calls of `StartCpuProfiling`, once it has found that the watchdog is
to be started. -/
def startCalls : List WatchdogCall :=
  [.startV8, .findProfilerTid, .tgkill .kSuspendSignal, .timerCreate,
    .timerSettime true]

/-- The calls of `Syscall` around `epoll_wait`, when it is enabled. -/
def syscallCalls : List WatchdogCall :=
  [.tgkill .kSuspendSignal, .timerSettime false, .sleep, .timerSettime true]

/-- The calls of `StopCpuProfiling` when the watchdog is on. -/
def stopCalls : List WatchdogCall :=
  [.tgkill .kResumeSignal, .timerSettime false, .timerDelete,
    .clearProfilerTid, .stopV8]

def startCpuProfiling (timeoutInMs : Nat) (w : Watchdog) : Watchdog :=
  if timeoutInMs = 0 ∨ w.profilerTid ≠ 0 then { w with calls := [.startV8] }
  else
    { w with
      timeout := timeoutInMs
      activationCount := 0
      calls := startCalls
      stopped := false }

def stopCpuProfiling (w : Watchdog) : Watchdog :=
  { w with calls := if 0 < w.profilerTid then stopCalls else [.stopV8] }

/-- `Syscall` on the main thread. -/
def epollWait (w : Watchdog) : Watchdog :=
  { w with calls := if 0 < w.profilerTid then syscallCalls else [.sleep] }

/-- One call; `none` where a `CHECK` fails or V8 still waits for its
thread. -/
def perform (tid : Nat) (w : Watchdog) : WatchdogCall → Option Watchdog
  | .startV8 =>
      some { w with profiler := w.profiler.or (some ⟨.running, 0, 0⟩) }
  | .findProfilerTid =>
      if 0 < tid ∧ w.profiler.isSome then some { w with profilerTid := tid }
      else none
  | .tgkill signo =>
      w.profiler.map fun t =>
        { w with
          profiler := some (t.queue signo)
          stopped := w.stopped || signo = .kResumeSignal }
  | .timerCreate =>
      some { w with
        timer := some false
        timerCalls := w.timerCalls ++ [.create] }
  | .timerSettime arm =>
      w.timer.map fun _ => { w with timer := some (arm && w.timeout ≠ 0) }
  | .timerDelete =>
      w.timer.map fun _ =>
        { w with timer := none, timerCalls := w.timerCalls ++ [.delete] }
  | .clearProfilerTid => some { w with profilerTid := 0 }
  | .stopV8 =>
      match w.profiler with
      | none => some w
      | some t =>
          -- `pthread_join` returns when the thread has come to its end
          if t.point = .running then some { w with profiler := none } else none
  | .sleep => some w

def step (w : Watchdog) : WatchdogStep → Option Watchdog
  | .startCpuProfiling timeoutInMs =>
      if w.calls = [] then some (w.startCpuProfiling timeoutInMs) else none
  | .stopCpuProfiling =>
      if w.calls = [] then some w.stopCpuProfiling else none
  | .epollWait => if w.calls = [] then some w.epollWait else none
  | .main tid =>
      match w.calls with
      | [] => none
      | call :: calls => { w with calls := calls }.perform tid call
  | .expire =>
      -- the interval of the timer is zero, so it expires once
      match w.timer, w.profiler with
      | some true, some t =>
          some { w with
            timer := some false
            profiler := some (t.queue .kResumeSignal) }
      | _, _ => none
  | .profiler =>
      w.profiler.bind fun t => t.step.map fun t' =>
        { w with
          profiler := some t'
          activationCount :=
            if t.point = .resumed then w.activationCount + 1
            else w.activationCount }
  | .interrupt =>
      w.profiler.bind fun t =>
        if t.point = .sigwaitinfo then some w else none

end Watchdog

def watchdogMachine : Machine Watchdog WatchdogStep where
  init := Watchdog.initial
  step := Watchdog.step

/-! ## The profiler thread on its own -/

namespace ProfilerThread

/-- The cases of taking a signal. -/
theorem take_cases {t t' : ProfilerThread} {signo : Signal}
    (h : t.take = some (signo, t')) :
    (signo = .kSuspendSignal ∧ 0 < t.suspends ∧
      t' = { t with suspends := t.suspends - 1 }) ∨
    (signo = .kResumeSignal ∧ t.suspends = 0 ∧ 0 < t.resumes ∧
      t' = { t with resumes := t.resumes - 1 }) := by
  unfold take at h
  split at h
  · next hsuspends =>
      cases h
      exact Or.inl ⟨rfl, hsuspends, rfl⟩
  · next hsuspends =>
      split at h
      · next hresumes =>
          cases h
          exact Or.inr ⟨rfl, by omega, hresumes, rfl⟩
      · cases h

theorem take_eq_none {t : ProfilerThread} (h : t.take = none) :
    t.suspends = 0 ∧ t.resumes = 0 := by
  unfold take at h
  split at h
  · cases h
  · split at h
    · cases h
    · omega

/-- A step of the thread keeps it resumable, and brings it closer to the end
of what is pending. -/
theorem step_spec {t t' : ProfilerThread} (h : t.step = some t') :
    (t.Resumable → t'.Resumable) ∧ t'.weight < t.weight := by
  obtain ⟨point, suspends, resumes⟩ := t
  cases point with
  | running =>
      obtain ⟨⟨signo, u⟩, htake, rfl⟩ := Option.map_eq_some_iff.mp h
      obtain ⟨rfl, hpos, rfl⟩ | ⟨rfl, hzero, hpos, rfl⟩ := take_cases htake
      · refine ⟨fun ht _ => ht (Or.inr hpos), ?_⟩
        simp only [weight] at hpos ⊢
        omega
      · refine ⟨fun _ hsuspended => ?_, ?_⟩
        · obtain rfl : suspends = 0 := hzero
          simp [Suspended] at hsuspended
        · simp only [weight] at hpos ⊢
          omega
  | onSignal signo =>
      cases signo with
      | kSuspendSignal =>
          cases h
          exact ⟨fun ht _ => ht (Or.inl (Or.inl rfl)), by simp [weight]⟩
      | kResumeSignal =>
          cases h
          refine ⟨fun ht hsuspended => ?_, by simp [weight]⟩
          obtain hpoint | hpos := hsuspended
          · simp [Suspended] at hpoint
          · exact ht (Or.inr hpos)
  | sigwaitinfo =>
      obtain ⟨⟨signo, u⟩, htake, rfl⟩ := Option.map_eq_some_iff.mp h
      obtain ⟨rfl, hpos, rfl⟩ | ⟨rfl, hzero, hpos, rfl⟩ := take_cases htake
      · refine ⟨fun ht _ => ht (Or.inr hpos), ?_⟩
        simp only [weight] at hpos ⊢
        omega
      · refine ⟨fun _ hsuspended => ?_, ?_⟩
        · obtain rfl : suspends = 0 := hzero
          simp [Suspended] at hsuspended
        · simp only [weight] at hpos ⊢
          omega
  | resumed =>
      cases h
      refine ⟨fun ht hsuspended => ?_, by simp [weight]⟩
      obtain hpoint | hpos := hsuspended
      · simp [Suspended] at hpoint
      · exact ht (Or.inr hpos)

/-- A resumable thread stops only when it runs and nothing is pending. -/
theorem free_of_step_none {t : ProfilerThread} (ht : t.Resumable)
    (h : t.step = none) : t.Free := by
  obtain ⟨point, suspends, resumes⟩ := t
  cases point with
  | running =>
      have hzero := take_eq_none (Option.map_eq_none_iff.mp h)
      exact ⟨rfl, hzero⟩
  | onSignal signo => cases signo <;> cases h
  | sigwaitinfo =>
      have hzero := take_eq_none (Option.map_eq_none_iff.mp h)
      have hpos := ht (Or.inl (Or.inr rfl))
      omega
  | resumed => cases h

theorem queue_resume (t : ProfilerThread) :
    (t.queue .kResumeSignal).Resumable := fun _ => Nat.succ_pos _

end ProfilerThread

/-! ## The main thread and the timer -/

namespace Watchdog

/-- Whether `profiler_tid` is set and whether the timer exists. -/
def switches (w : Watchdog) : Bool × Bool :=
  (decide (w.profilerTid ≠ 0), w.timer.isSome)

/-- The program points of the main thread: what is still to be done, and the
switches there. -/
def points : List (List WatchdogCall × Bool × Bool) :=
  -- the watchdog is off
  [([], false, false), ([.startV8], false, false), ([.sleep], false, false),
    ([.stopV8], false, false), (startCalls, false, false),
    (startCalls.drop 1, false, false), (startCalls.drop 2, true, false),
    (startCalls.drop 3, true, false),
    -- it is on
    ([], true, true), ([.startV8], true, true),
    ([.timerSettime true], true, true), (syscallCalls, true, true),
    (syscallCalls.drop 1, true, true), (syscallCalls.drop 2, true, true),
    (stopCalls, true, true), (stopCalls.drop 1, true, true),
    (stopCalls.drop 2, true, true), (stopCalls.drop 3, true, false)]

/-- The points between the signal of `StopCpuProfiling` and the next start of
the watchdog. -/
def stoppedPoints : List (List WatchdogCall × Bool × Bool) :=
  [(stopCalls.drop 1, true, true), (stopCalls.drop 2, true, true),
    (stopCalls.drop 3, true, false), ([.stopV8], false, false),
    ([], false, false), ([.startV8], false, false), ([.sleep], false, false)]

/-- What a call does to the switches. -/
def afterCall : WatchdogCall → Bool × Bool → Bool × Bool
  | .findProfilerTid, (_, timer) => (true, timer)
  | .clearProfilerTid, (_, timer) => (false, timer)
  | .timerCreate, (tid, _) => (tid, true)
  | .timerDelete, (tid, _) => (tid, false)
  | _, switches => switches

/-- Whether a call sends this signal. -/
def sends (call : WatchdogCall) (signo : Signal) : Bool :=
  call = .tgkill signo

/-- What a call does to the rest. -/
structure Performed (call : WatchdogCall) (w w' : Watchdog) : Prop where
  calls : w'.calls = w.calls
  switches : w'.switches = afterCall call w.switches
  stopped : w'.stopped = (w.stopped || sends call .kResumeSignal)
  timerCalls : w'.timerCalls = w.timerCalls ++
    match call with
    | .timerCreate => [.create]
    | .timerDelete => [.delete]
    | _ => []
  deletes : call = .timerDelete → w.timer.isSome = true
  /-- the profiler thread is left resumable, unless it is suspended -/
  resumable : sends call .kSuspendSignal = false →
    (∀ t ∈ w.profiler, t.Resumable) → ∀ t ∈ w'.profiler, t.Resumable
  resumed : sends call .kResumeSignal = true →
    ∀ t ∈ w'.profiler, t.Resumable

theorem perform_spec {tid : Nat} {w w' : Watchdog} {call : WatchdogCall}
    (h : w.perform tid call = some w') : Performed call w w' := by
  cases call with
  | startV8 =>
      cases h
      refine ⟨rfl, rfl, ?_, ?_, nofun, fun _ hold t ht => ?_, nofun⟩
      · exact (Bool.or_false _).symm
      · exact (List.append_nil _).symm
      · cases hprofiler : w.profiler with
        | none =>
            simp only [hprofiler, Option.none_or, Option.mem_def,
              Option.some.injEq] at ht
            subst ht
            rintro (hs | hs)
            · exact absurd hs (by decide)
            · exact absurd hs (Nat.lt_irrefl 0)
        | some u =>
            simp only [hprofiler, Option.some_or] at ht
            exact hold t (hprofiler ▸ ht)
  | findProfilerTid =>
      simp only [perform] at h
      split at h
      · next hfound =>
          cases h
          refine ⟨rfl, ?_, ?_, ?_, nofun, fun _ hold => hold, nofun⟩
          · simp [switches, afterCall, Nat.ne_of_gt hfound.1]
          · exact (Bool.or_false _).symm
          · exact (List.append_nil _).symm
      · cases h
  | tgkill signo =>
      obtain ⟨t, ht, rfl⟩ := Option.map_eq_some_iff.mp h
      refine ⟨rfl, rfl, ?_, (List.append_nil _).symm, nofun, ?_, ?_⟩
      · cases signo <;> rfl
      · intro hsignal _ u hu
        cases hu
        cases signo with
        | kSuspendSignal => cases hsignal
        | kResumeSignal => exact t.queue_resume
      · intro hsignal u hu
        cases hu
        cases signo with
        | kSuspendSignal => cases hsignal
        | kResumeSignal => exact t.queue_resume
  | timerCreate =>
      cases h
      exact ⟨rfl, rfl, (Bool.or_false _).symm, rfl, nofun,
        fun _ hold => hold, nofun⟩
  | timerSettime arm =>
      obtain ⟨armed, harmed, rfl⟩ := Option.map_eq_some_iff.mp h
      refine ⟨rfl, ?_, (Bool.or_false _).symm, (List.append_nil _).symm,
        nofun, fun _ hold => hold, nofun⟩
      simp [switches, afterCall, harmed]
  | timerDelete =>
      obtain ⟨armed, harmed, rfl⟩ := Option.map_eq_some_iff.mp h
      refine ⟨rfl, rfl, (Bool.or_false _).symm, rfl, fun _ => ?_,
        fun _ hold => hold, nofun⟩
      rw [harmed]
      rfl
  | clearProfilerTid =>
      cases h
      exact ⟨rfl, rfl, (Bool.or_false _).symm, (List.append_nil _).symm,
        nofun, fun _ hold => hold, nofun⟩
  | stopV8 =>
      simp only [perform] at h
      split at h
      · cases h
        exact ⟨rfl, rfl, (Bool.or_false _).symm, (List.append_nil _).symm,
          nofun, fun _ hold => hold, nofun⟩
      · split at h
        · cases h
          exact ⟨rfl, rfl, (Bool.or_false _).symm, (List.append_nil _).symm,
            nofun, fun _ _ => nofun, nofun⟩
        · cases h
  | sleep =>
      cases h
      exact ⟨rfl, rfl, (Bool.or_false _).symm, (List.append_nil _).symm,
        nofun, fun _ hold => hold, nofun⟩

/-! ### The program points -/

/-- Each call of the main thread leads from one of the points to another. -/
theorem points_closed : ∀ p ∈ points, ∀ call ∈ p.1.head?,
    (p.1.tail, afterCall call p.2) ∈ points := by decide

/-- Nothing suspends the profiler thread once it has been told to resume for
good. -/
theorem stoppedPoints_closed : ∀ p ∈ stoppedPoints, ∀ call ∈ p.1.head?,
    (p.1.tail, afterCall call p.2) ∈ stoppedPoints ∧
      sends call .kSuspendSignal = false := by decide

theorem points_resume : ∀ p ∈ points, ∀ call ∈ p.1.head?,
    sends call .kResumeSignal = true →
      (p.1.tail, afterCall call p.2) ∈ stoppedPoints := by decide

/-- A timer is created only where there is none, and deleted only where there
is one. -/
theorem points_timer : ∀ p ∈ points, ∀ call ∈ p.1.head?,
    call = .timerCreate → p.2.2 = false := by decide

/-- The calls of the functions of the main thread. -/
theorem points_enter : ∀ p ∈ points, p.1 = [] →
    ([.startV8], p.2) ∈ points ∧
    (p.2.1 = false → (startCalls, p.2) ∈ points) ∧
    (if p.2.1 then stopCalls else [.stopV8], p.2) ∈ points ∧
    (if p.2.1 then syscallCalls else [.sleep], p.2) ∈ points := by
  decide

theorem stoppedPoints_enter : ∀ p ∈ stoppedPoints, p.1 = [] →
    ([.startV8], p.2) ∈ stoppedPoints ∧
    (if p.2.1 then stopCalls else [.stopV8], p.2) ∈ stoppedPoints ∧
    (if p.2.1 then syscallCalls else [.sleep], p.2) ∈ stoppedPoints := by
  decide

/-! ### The invariant -/

/-- The calls of the timer so far, if creating and deleting it alternate. -/
def alternating (n : Nat) : List TimerCall :=
  (List.range n).map fun i => if i % 2 = 0 then .create else .delete

theorem alternating_succ (n : Nat) :
    alternating (n + 1) =
      alternating n ++ [if n % 2 = 0 then .create else .delete] := by
  rw [alternating, List.range_succ, List.map_append, alternating,
    List.map_singleton]

/-- The timer was created and deleted in turns, and `left` says whether it is
there now. -/
structure Alternates (timerCalls : List TimerCall) (left : Bool) : Prop where
  calls : timerCalls = alternating timerCalls.length
  left : left = decide (timerCalls.length % 2 = 1)

theorem Alternates.create {timerCalls : List TimerCall}
    (h : Alternates timerCalls false) :
    Alternates (timerCalls ++ [.create]) true := by
  have heven : timerCalls.length % 2 = 0 := by
    have hleft := h.left.symm
    simp only [decide_eq_false_iff_not] at hleft
    omega
  constructor
  case calls =>
    rw [List.length_append, List.length_singleton, alternating_succ,
      if_pos heven, ← h.calls]
  case left =>
    rw [List.length_append, List.length_singleton, eq_comm, decide_eq_true_eq]
    omega

theorem Alternates.delete {timerCalls : List TimerCall}
    (h : Alternates timerCalls true) :
    Alternates (timerCalls ++ [.delete]) false := by
  have hodd : timerCalls.length % 2 = 1 := of_decide_eq_true h.left.symm
  constructor
  case calls =>
    rw [List.length_append, List.length_singleton, alternating_succ,
      if_neg (by omega), ← h.calls]
  case left =>
    rw [List.length_append, List.length_singleton, eq_comm,
      decide_eq_false_iff_not]
    omega

/-- The main thread is at one of its points, the profiler thread is resumable
after `StopCpuProfiling`, and the timer exists after every other call. -/
structure Inv (w : Watchdog) : Prop where
  point : (w.calls, w.switches) ∈ points
  stoppedPoint : w.stopped = true → (w.calls, w.switches) ∈ stoppedPoints
  resumable : w.stopped = true → ∀ t ∈ w.profiler, t.Resumable
  timer : Alternates w.timerCalls w.timer.isSome

theorem initial_inv : initial.Inv where
  point := by decide
  stoppedPoint := nofun
  resumable := nofun
  timer := ⟨rfl, rfl⟩

/-- A function of the main thread is called. -/
theorem Inv.enter {w : Watchdog} (hw : w.Inv) {calls : List WatchdogCall}
    (hpoint : (calls, w.switches) ∈ points)
    (hstopped : w.stopped = true → (calls, w.switches) ∈ stoppedPoints) :
    Inv { w with calls := calls } where
  point := hpoint
  stoppedPoint := hstopped
  resumable := hw.resumable
  timer := hw.timer

/-- The profiler thread makes a step, or gets a signal. -/
theorem Inv.setProfiler {w : Watchdog} (hw : w.Inv) {t : ProfilerThread}
    (ht : w.stopped = true → t.Resumable) (count : Nat) :
    Inv { w with profiler := some t, activationCount := count } where
  point := hw.point
  stoppedPoint := hw.stoppedPoint
  resumable hstopped u hu := by
    cases hu
    exact ht hstopped
  timer := hw.timer

theorem Inv.perform {w w' : Watchdog} {tid : Nat} {call : WatchdogCall}
    {calls : List WatchdogCall} (hw : w.Inv) (hcalls : w.calls = call :: calls)
    (hstep : { w with calls := calls }.perform tid call = some w') :
    w'.Inv := by
  have hspec := perform_spec hstep
  have hhead : call ∈ w.calls.head? := by rw [hcalls]; rfl
  have htail : w.calls.tail = calls := by rw [hcalls]; rfl
  have hpoint : (w'.calls, w'.switches) = (calls, afterCall call w.switches) :=
    Prod.ext hspec.calls hspec.switches
  have hclosed := points_closed _ hw.point call hhead
  have hstopped (hstopped : w.stopped = true) :=
    stoppedPoints_closed _ (hw.stoppedPoint hstopped) call hhead
  rw [htail] at hclosed
  constructor
  case point => rw [hpoint]; exact hclosed
  case stoppedPoint =>
    rw [hspec.stopped, Bool.or_eq_true, hpoint]
    rintro (hbefore | hsends)
    · have h := (hstopped hbefore).1
      rw [htail] at h
      exact h
    · have h := points_resume _ hw.point call hhead hsends
      rw [htail] at h
      exact h
  case resumable =>
    rw [hspec.stopped, Bool.or_eq_true]
    rintro (hbefore | hsends)
    · exact hspec.resumable (hstopped hbefore).2 (hw.resumable hbefore)
    · exact hspec.resumed hsends
  case timer =>
    have hleft : w'.timer.isSome = (afterCall call w.switches).2 :=
      congrArg Prod.snd hspec.switches
    rw [hspec.timerCalls, hleft]
    cases call with
    | timerCreate =>
        have hnone : w.timer.isSome = false :=
          points_timer _ hw.point _ hhead rfl
        exact Alternates.create (hnone ▸ hw.timer)
    | timerDelete =>
        have hsome : w.timer.isSome = true := hspec.deletes rfl
        exact Alternates.delete (hsome ▸ hw.timer)
    | _ =>
        rw [List.append_nil]
        exact hw.timer

theorem Inv.step {w w' : Watchdog} {e : WatchdogStep} (hw : w.Inv)
    (hstep : w.step e = some w') : w'.Inv := by
  have hpoint (hcalls : w.calls = []) := points_enter _ hw.point hcalls
  have hstopped (hcalls : w.calls = []) (h : w.stopped = true) :=
    stoppedPoints_enter _ (hw.stoppedPoint h) hcalls
  have htid : w.switches.1 = decide (0 < w.profilerTid) :=
    decide_eq_decide.mpr Nat.pos_iff_ne_zero.symm
  cases e with
  | startCpuProfiling timeoutInMs =>
      simp only [Watchdog.step, Option.ite_none_right_eq_some] at hstep
      obtain ⟨hcalls, hstep⟩ := hstep
      unfold startCpuProfiling at hstep
      split at hstep
      · cases hstep
        exact hw.enter (hpoint hcalls).1 fun h => (hstopped hcalls h).1
      · next hstart =>
          rw [not_or, not_not] at hstart
          have hoff : w.switches.1 = false := by
            rw [htid, hstart.2]
            rfl
          cases hstep
          exact ⟨(hpoint hcalls).2.1 hoff, nofun, nofun, hw.timer⟩
  | stopCpuProfiling =>
      simp only [Watchdog.step, Option.ite_none_right_eq_some] at hstep
      obtain ⟨hcalls, hstep⟩ := hstep
      cases hstep
      refine hw.enter ?_ fun h => ?_
      · simpa [htid] using (hpoint hcalls).2.2.1
      · simpa [htid] using (hstopped hcalls h).2.1
  | epollWait =>
      simp only [Watchdog.step, Option.ite_none_right_eq_some] at hstep
      obtain ⟨hcalls, hstep⟩ := hstep
      cases hstep
      refine hw.enter ?_ fun h => ?_
      · simpa [htid] using (hpoint hcalls).2.2.2
      · simpa [htid] using (hstopped hcalls h).2.2
  | main tid =>
      simp only [Watchdog.step] at hstep
      split at hstep
      · cases hstep
      · next call calls hcalls => exact hw.perform hcalls hstep
  | expire =>
      simp only [Watchdog.step] at hstep
      split at hstep
      · next t hexpires ht =>
          cases hstep
          have hleft : w.timer.isSome = true := by rw [hexpires]; rfl
          have hswitches : w.switches = (decide (w.profilerTid ≠ 0), true) :=
            Prod.ext rfl hleft
          have hpoints := hw.point
          have hstoppedPoint := hw.stoppedPoint
          have htimer := hw.timer
          rw [hswitches] at hpoints hstoppedPoint
          rw [hleft] at htimer
          refine ⟨hpoints, hstoppedPoint, fun _ u hu => ?_, htimer⟩
          cases hu
          exact t.queue_resume
      · cases hstep
  | profiler =>
      obtain ⟨t, ht, hstep⟩ := Option.bind_eq_some_iff.mp hstep
      obtain ⟨t', ht', rfl⟩ := Option.map_eq_some_iff.mp hstep
      exact hw.setProfiler (fun h => (t.step_spec ht').1 (hw.resumable h t ht)) _
  | interrupt =>
      obtain ⟨t, ht, hstep⟩ := Option.bind_eq_some_iff.mp hstep
      split at hstep
      · cases hstep
        exact hw
      · cases hstep

theorem inv_inductive :
    watchdogMachine.Inductive (fun _ _ => True) Inv where
  init := initial_inv
  step hw _ hstep := hw.step hstep

/-- Left to itself, a resumable thread comes back to its own code and takes
every signal that is pending. -/
theorem profiler_freed {w : Watchdog} {t : ProfilerThread}
    (ht : w.profiler = some t) (hresumable : t.Resumable) :
    ∃ n w' t', watchdogMachine.run w (List.replicate n .profiler) = some w' ∧
      w'.profiler = some t' ∧ t'.Free := by
  induction hweight : t.weight using Nat.strong_induction_on
      generalizing w t with
  | h weight ih =>
      cases hstep : t.step with
      | none =>
          exact ⟨0, w, t, rfl, ht, t.free_of_step_none hresumable hstep⟩
      | some u =>
          obtain ⟨hkeeps, hless⟩ := t.step_spec hstep
          let v : Watchdog :=
            { w with
              profiler := some u
              activationCount :=
                if t.point = .resumed then w.activationCount + 1
                else w.activationCount }
          have hv : w.step .profiler = some v := by
            simp only [Watchdog.step, ht, Option.bind_some, hstep,
              Option.map_some]
            rfl
          obtain ⟨n, w', t', hrun, ht', hfree⟩ :=
            ih u.weight (hweight ▸ hless) (w := v) rfl (hkeeps hresumable) rfl
          exact ⟨n + 1, w', t', run_cons_eq_some.mpr ⟨v, hv, hrun⟩, ht', hfree⟩

/-- Once `StopCpuProfiling` has sent its signal, the profiler thread is never
left suspended without a resume signal to come, and with its pending signals
it gets back to its own code, where V8 can join it.  The timer is created and
deleted in turns. -/
theorem profiler_released {w : Watchdog} {es : List WatchdogStep}
    (hrun : watchdogMachine.run initial es = some w) :
    (w.stopped = true → ∀ t ∈ w.profiler,
      (t.Suspended ∨ 0 < t.suspends → 0 < t.resumes) ∧
      ∃ n w' t',
        watchdogMachine.run w (List.replicate n .profiler) = some w' ∧
        w'.profiler = some t' ∧ t'.Free) ∧
    w.timerCalls = alternating w.timerCalls.length := by
  have hinv : w.Inv :=
    inv_inductive.run (guarded_true _ _) hrun
  refine ⟨fun hstopped t ht => ?_, hinv.timer.calls⟩
  have hresumable := hinv.resumable hstopped t ht
  exact ⟨hresumable, profiler_freed ht hresumable⟩

end Watchdog

namespace WatchdogWitness

open Watchdog

/-- The watchdog is started, the loop sleeps once, and the watchdog is
stopped before the profiler thread has run. -/
def schedule : List WatchdogStep :=
  [.startCpuProfiling 50] ++ List.replicate 5 (.main 7) ++ [.epollWait] ++
    List.replicate 4 (.main 7) ++ [.profiler, .expire, .stopCpuProfiling] ++
    List.replicate 4 (.main 7)

/-- One suspend signal taken, one pending, and two resume signals to come. -/
def stoppedState : Watchdog where
  profilerTid := 0
  timeout := 50
  timer := none
  profiler := some ⟨.onSignal .kSuspendSignal, 1, 2⟩
  activationCount := 0
  calls := [.stopV8]
  stopped := true
  timerCalls := [.create, .delete]

theorem stopped_while_suspended :
    (stoppedState.stopped = true → ∀ t ∈ stoppedState.profiler,
      (t.Suspended ∨ 0 < t.suspends → 0 < t.resumes) ∧
      ∃ n w' t',
        watchdogMachine.run stoppedState (List.replicate n .profiler) =
          some w' ∧
        w'.profiler = some t' ∧ t'.Free) ∧
    stoppedState.timerCalls = alternating stoppedState.timerCalls.length :=
  @profiler_released _ schedule (by decide)

end WatchdogWitness

end Appmetrics
