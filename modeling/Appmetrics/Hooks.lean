/-
The hooks of lib/probe.js as the probes fill them in: the start hooks set the
timer and the request of `probeData`, the end hooks read them again.  Either
pair may have been switched on or off in between.
-/
import Appmetrics.Effect
import Appmetrics.JsValue
import Appmetrics.Probe
import Appmetrics.Request

namespace Appmetrics

open Effect

/-- What an advice leaves on the context object of a call. -/
structure ProbeData where
  timer : Option Nat
  req : Option Nat
deriving Repr, DecidableEq

namespace ProbeData

/-- `var context = {}`. -/
def empty : ProbeData := ⟨none, none⟩

end ProbeData

/-- A property of the data given to `am.emit` or `req.stop`: a value, or the
text `JSON.stringify(value)`. -/
inductive Field
  | value (v : JsValue)
  | json (v : JsValue)

abbrev Fields := List (String × Field)

/-- One call of `am.emit`. -/
structure Emission where
  topic : String
  time : Nat
  duration : Rat
  fields : Fields

/-- What the hooks of one instrumented call can read and change. -/
structure HookState where
  tracker : Tracker
  flags : ProbeFlags
  probe : Probe
  probeData : ProbeData
  emitted : List Emission
  /-- the requests that the hooks have called `stop` on -/
  stopped : List Nat

abbrev Js := Comp JsError HookState

/-- A call as its hooks are told of it. -/
structure Call where
  target : JsValue
  methodName : JsValue
  methodArgs : List JsValue

namespace Call

/-- `methodArgs[i]`. -/
def arg (c : Call) (i : Nat) : JsValue := c.methodArgs.getD i .undefined

/-- `methodName === name`. -/
def named (c : Call) (name : String) : Bool := c.methodName.isText name

end Call

/-- What `requestStart` gives to `request.startRequest`. -/
structure RequestSpec where
  type : String
  name : JsValue
  root : Bool
  /-- whether `probeData.timer` is passed on -/
  timed : Bool

/-- How a probe fills in its hooks.  The list of values is what a call of an
end hook has besides the call itself. -/
structure Instrument where
  topic : String
  request : Call → Except JsError RequestSpec
  /-- whether the request is stored in `probeData.req` -/
  assigns : Bool
  metrics : Call → List JsValue → Except JsError (Option Fields)
  context : Call → List JsValue → Except JsError Fields
  /-- whether `requestEnd` tests `probeData.req` before it uses it -/
  tests : Bool

namespace Field

def stringifies : Field → Bool
  | value v => v.stringifies
  | json _ => true

end Field

/-- `JSON.stringify(v)` as a property. -/
def jsonField (v : JsValue) : Except JsError Field :=
  if v.stringifies then .ok (.json v)
  else .error (.typeError "cannot convert value to JSON")

/-- The topics that `emit` also hands to the native agent, as JSON. -/
def nativeTopics : List String := ["http", "mqlight", "mongo", "mysql"]

/-- Whether `emit` returns; its listeners have then been called in any
case. -/
def publishes (topic : String) (fields : Fields) : Bool :=
  topic ∉ nativeTopics || fields.all fun f => f.2.stringifies

namespace Js

def emit (e : Emission) : Js Unit := do
  Comp.modify fun s => { s with emitted := s.emitted ++ [e] }
  if publishes e.topic e.fields then pure ()
  else Comp.throw (.typeError "cannot convert value to JSON")

end Js

namespace Instrument

variable (i : Instrument) (c : Call) (extra : List JsValue) (clock : Clock)

/-- `probeData.timer = timer.start()`. -/
def metricsStart : Js Unit :=
  Comp.modify fun s =>
    { s with
      tracker := s.tracker.startTimer clock
      probeData := { s.probeData with timer := some s.tracker.timerCount } }

/-- `probeData.req = request.startRequest(..)`. -/
def requestStart : Js Unit := do
  let spec ← Comp.eval (i.request c)
  let s ← Comp.get
  Comp.modify fun s =>
    { s with
      tracker := s.tracker.startRequest clock (some spec.type)
        spec.name.asName spec.root
        (if spec.timed then s.probeData.timer else none) }
  if i.assigns then
    Comp.modify fun s' =>
      { s' with
        probeData := { s'.probeData with req := some s.tracker.requestCount } }
  else Comp.throw (.referenceError "req")

/-- `if (probeData && probeData.timer) ..`. -/
def metricsEnd : Js Unit := do
  let s ← Comp.get
  match s.probeData.timer with
  | none => pure ()
  | some t => do
      Comp.modify fun s => { s with tracker := s.tracker.stopTimer clock t }
      let s ← Comp.get
      match ← Comp.eval (i.metrics c extra) with
      | none => pure ()
      | some fields =>
          let timer := s.tracker.timers t
          Js.emit ⟨i.topic, timer.startTimeMillis, timer.timeDelta, fields⟩

/-- `if (probeData && probeData.req) probeData.req.stop(..)`. -/
def requestEnd : Js Unit := do
  let s ← Comp.get
  match s.probeData.req with
  | some r => do
      let _ ← Comp.eval (i.context c extra)
      if i.assigns then
        Comp.modify fun s =>
          { s with
            tracker := s.tracker.stop clock r
            stopped := s.stopped ++ [r] }
      else Comp.throw (.referenceError "req")
  | none =>
      if i.tests then pure ()
      else Comp.throw (.typeError "cannot read property of a nullish value")

def metricsProbeStart : Js Unit := do
  let s ← Comp.get
  match s.probe.metricsProbeStart with
  | .live => metricsStart clock
  | .stub => pure ()

def requestProbeStart : Js Unit := do
  let s ← Comp.get
  match s.probe.requestProbeStart with
  | .live => i.requestStart c clock
  | .stub => pure ()

def metricsProbeEnd : Js Unit := do
  let s ← Comp.get
  match s.probe.metricsProbeEnd with
  | .live => i.metricsEnd c extra clock
  | .stub => pure ()

def requestProbeEnd : Js Unit := do
  let s ← Comp.get
  match s.probe.requestProbeEnd with
  | .live => i.requestEnd c extra clock
  | .stub => pure ()

/-- The start hooks, in the order every advice calls them. -/
def startHooks : Js Unit := do
  metricsProbeStart clock
  i.requestProbeStart c clock

/-- The end hooks, in the order every advice calls them. -/
def endHooks : Js Unit := do
  i.metricsProbeEnd c extra clock
  i.requestProbeEnd c extra clock

end Instrument

end Appmetrics
