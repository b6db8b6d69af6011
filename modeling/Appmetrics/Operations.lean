/-
Instrumented operations: what the start and end hooks of a probe do with
`probeData`.  An operation stores a timer when metrics are on and, in most
probes, hands it to the request that is started when requests are on; its
callback ends first the metrics and then the request.
-/
import Appmetrics.RequestEvents
import Mathlib.Data.List.GetD

namespace Appmetrics

/-- `probeData` of one call, with the clock at its `metricsProbeStart`. -/
structure Operation where
  timer : Option Nat
  req : Option Nat
  issued : Clock
  finished : Bool
deriving Repr, DecidableEq

/-- What a metrics event carries, and the operation that raised it. -/
structure MetricsEvent where
  operation : Nat
  time : Nat
  duration : Rat
deriving Repr, DecidableEq

/-- `createDomain` is the application's own.  An operation that is not
`measured` is a traced function: it has a request but no metrics.  The timer
is `shared` when the probe passes it to `startRequest`, as all do but for
loopback-probe.js. -/
inductive OperationCall
  | createDomain
  | issue (type : Option String) (name : String)
      (root measured shared : Bool)
  | finish (operation : Nat)
deriving Repr, DecidableEq

/-- One turn of the event loop; `clock` is read by the metrics hook and
`requestClock` by the request hook. -/
structure OperationTurn where
  stack : List Nat
  clock : Clock
  requestClock : Clock
  call : OperationCall
deriving Repr, DecidableEq

structure Application where
  history : History
  operations : List Operation
  metrics : List MetricsEvent

namespace Application

def initial : Application := ⟨History.initial, [], []⟩

/-- `probeData.timer = timer.start()`. -/
def metricsStart (h : History) (clock : Clock) (measured : Bool) :
    Option (History × Option Nat) :=
  if measured then
    (h.step ⟨[], clock, .startTimer⟩).map (·, some h.tracker.timerCount)
  else some (h, none)

/-- `probeData.req = request.startRequest(.., probeData.timer)`, or without
the timer when it is not shared; the stub of a probe with requests off does
nothing. -/
def requestStart (tracking : Bool) (h : History) (turn : OperationTurn)
    (type : Option String) (name : String) (root shared : Bool)
    (timer : Option Nat) : Option (History × Option Nat) :=
  if tracking then
    (h.step ⟨turn.stack, turn.requestClock,
      .startRequest type name root (if shared then timer else none)⟩).map
        (·, some h.tracker.requestCount)
  else some (h, none)

/-- `probeData.timer.stop()`, then the event is emitted. -/
def metricsEnd (h : History) (clock : Clock) (o : Nat) (p : Operation) :
    Option (History × List MetricsEvent) :=
  match p.timer with
  | some t =>
      (h.step ⟨[], clock, .stopTimer t⟩).map fun h =>
        let timer := h.tracker.timers t
        (h, [⟨o, timer.startTimeMillis, timer.timeDelta⟩])
  | none => some (h, [])

/-- `probeData.req.stop(context)`. -/
def requestEnd (h : History) (turn : OperationTurn) (p : Operation) :
    Option History :=
  match p.req with
  | some q => h.step ⟨turn.stack, turn.requestClock, .stop q⟩
  | none => some h

def issue (tracking : Bool) (a : Application) (turn : OperationTurn)
    (type : Option String) (name : String) (root measured shared : Bool) :
    Option Application :=
  (metricsStart a.history turn.clock measured).bind fun (h, timer) =>
    (requestStart tracking h turn type name root shared timer).map
      fun (h, req) =>
        { history := h
          operations := a.operations ++ [⟨timer, req, turn.clock, false⟩]
          metrics := a.metrics }

def finish (a : Application) (turn : OperationTurn) (o : Nat)
    (p : Operation) : Option Application :=
  (metricsEnd a.history turn.clock o p).bind fun (h, events) =>
    (requestEnd h turn p).map fun h =>
      { history := h
        operations := a.operations.set o { p with finished := true }
        metrics := a.metrics ++ events }

/-- An operation finishes once. -/
def step (tracking : Bool) (a : Application) (turn : OperationTurn) :
    Option Application :=
  match turn.call with
  | .createDomain =>
      (a.history.step ⟨[], turn.clock, .createDomain⟩).map fun h =>
        { a with history := h }
  | .issue type name root measured shared =>
      issue tracking a turn type name root measured shared
  | .finish o =>
      match a.operations[o]? with
      | some p => if p.finished then none else finish a turn o p
      | none => none

end Application

/-- The application with request tracking on or off throughout. -/
def applicationMachine (tracking : Bool) :
    StepMachine.Machine Application OperationTurn where
  init := Application.initial
  step := Application.step tracking

/-! ## What metrics are for -/

/-- An operation as its user sees it. -/
structure Meter where
  measured : Bool
  issued : Clock
  finished : Bool
deriving Repr, DecidableEq

/-- The meters of all operations and the events their ends have raised. -/
structure Stopwatch where
  meters : List Meter
  metrics : List MetricsEvent
deriving Repr, DecidableEq

namespace Stopwatch

/-- The event of an operation that ends when the clock reads `clock`: its
own start and its own duration. -/
def event (clock : Clock) (o : Nat) (m : Meter) : MetricsEvent :=
  ⟨o, m.issued.now, elapsed clock m.issued.hrtime⟩

def events (clock : Clock) (o : Nat) (m : Meter) : List MetricsEvent :=
  if m.measured then [event clock o m] else []

/-- Every operation is timed on its own. -/
def step (w : Stopwatch) (turn : OperationTurn) : Option Stopwatch :=
  match turn.call with
  | .createDomain => some w
  | .issue _ _ _ measured _ =>
      some { w with meters := w.meters ++ [⟨measured, turn.clock, false⟩] }
  | .finish o =>
      match w.meters[o]? with
      | some m =>
          if m.finished then none
          else
            some
              { meters := w.meters.set o { m with finished := true }
                metrics := w.metrics ++ events turn.clock o m }
      | none => none

end Stopwatch

def stopwatchMachine : StepMachine.Machine Stopwatch OperationTurn where
  init := ⟨[], []⟩
  step := Stopwatch.step

def Operation.meter (p : Operation) : Meter :=
  ⟨p.timer.isSome, p.issued, p.finished⟩

/-- The part of the application that metrics should depend on. -/
def Application.stopwatch (a : Application) : Stopwatch :=
  ⟨a.operations.map Operation.meter, a.metrics⟩

end Appmetrics
