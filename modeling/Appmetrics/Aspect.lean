/-
lib/aspect.js: what a wrapped method does around the original one.  A call is
a machine: the application enters the wrapped method, the library and the
application go on as they like, the original leaves, and a callback that was
replaced may be invoked before and after that.
-/
import Appmetrics.Hooks
import Appmetrics.RequestRuns

namespace Appmetrics

open Effect

/-- How a method or a callback ends. -/
inductive Outcome
  | returned (v : JsValue)
  | threw (e : JsError)

namespace Aspect

/-- `exports.findCallbackArg`. -/
def findCallbackArg (args : List JsValue) : Option Nat :=
  args.findIdx? JsValue.isFunction

/-- `args[position] = function() { .. }`. -/
def replaceAt (args : List JsValue) : Option Nat → List JsValue
  | none => args
  | some position => args.modify position JsValue.forwarder

/-- `exports.aroundCallback`, up to the hooks of the function that replaces
the callback. -/
def aroundCallback (args : List JsValue) : List JsValue :=
  replaceAt args (findCallbackArg args)

/-- `before`, `around` and `after` read each of the methods on their target;
one that is missing is left alone. -/
def attach (target : JsValue) : List String → Except JsError Unit
  | [] => .ok ()
  | meth :: meths => do
      let _ ← target.get meth
      attach target meths

end Aspect

namespace Call

/-- The call after its callback has been replaced in `arguments`. -/
def advised (c : Call) : Call :=
  { c with methodArgs := Aspect.aroundCallback c.methodArgs }

end Call

/-- One application of `before`, `around` or `after`. -/
structure Advice where
  /-- whether each call gets a context object of its own -/
  fresh : Bool
  /-- what the original method is applied to -/
  receiver : Call → JsValue := Call.target
  before : Call → Clock → Js Unit
  /-- the argument that is replaced after `before` has run -/
  callback : Call → Option Nat
  /-- the two hooks of `aroundCallback`, on the invocation's own `this` and
  arguments -/
  hookBefore : Call → JsValue → List JsValue → Clock → Js Unit
  hookAfter : Call → JsValue → List JsValue → Clock → Js Unit
  /-- the result of `hookAfter` in `around` and `after` -/
  after : Option (Call → JsValue → Clock → Js JsValue)

namespace Advice

/-- The arguments that the original method gets. -/
def passed (a : Advice) (c : Call) : List JsValue :=
  Aspect.replaceAt c.methodArgs (a.callback c)

end Advice

/-- What the application or the library gets to see of a step. -/
inductive Observation
  /-- the original or the callback is called with this receiver and these
  arguments -/
  | called (target : JsValue) (args : List JsValue)
  | finished (outcome : Outcome)
  | hookThrew (e : JsError)

inductive Phase
  | idle
  | running
  | returned
  | threw
  /-- a hook threw before the original was called -/
  | aborted
deriving Repr, DecidableEq

structure CallState where
  hooks : HookState
  phase : Phase
  /-- invocations of the callback that have not completed, innermost first -/
  pending : List (JsValue × List JsValue)
  invocations : Nat
  seen : Option Observation

/-- A call of a probe's switches. -/
inductive SwitchCall
  | enable
  | disable
  | enableRequests
  | disableRequests
  | start
  | stop
deriving Repr, DecidableEq

def SwitchCall.apply : SwitchCall → ProbeFlags → Probe → ProbeFlags × Probe
  | enable => Probe.enable
  | disable => Probe.disable
  | enableRequests => Probe.enableRequests
  | disableRequests => Probe.disableRequests
  | start => Probe.start
  | stop => Probe.stop

/-- `switch` calls a switch of this probe or, if `own` is false, of another
one, which shares only the flags; `turn` is anything else that is done to
requests. -/
inductive CallEvent
  | enter
  | invoke (target : JsValue) (args : List JsValue)
  | complete (outcome : Outcome)
  | leave (outcome : Outcome)
  | switch (call : SwitchCall) (own : Bool)
  | turn (call : RequestCall)

structure CallTurn where
  stack : List Nat
  clock : Clock
  event : CallEvent

namespace CallState

variable (a : Advice) (c : Call)

/-- `var context = {}`. -/
def opened (h : HookState) : HookState :=
  if a.fresh then { h with probeData := .empty } else h

def enter (clock : Clock) (s : CallState) : CallState :=
  match a.before c clock (opened a s.hooks) with
  | (.ok _, h) =>
      { s with
        hooks := h
        phase := .running
        seen := some (.called (a.receiver c) (a.passed c)) }
  | (.error e, h) =>
      { s with hooks := h, phase := .aborted, seen := some (.hookThrew e) }

def invoke (clock : Clock) (target : JsValue) (args : List JsValue)
    (s : CallState) : CallState :=
  match a.hookBefore c target args clock s.hooks with
  | (.ok _, h) =>
      { s with
        hooks := h
        pending := (target, args) :: s.pending
        invocations := s.invocations + 1
        seen := some (.called target args) }
  | (.error e, h) =>
      { s with
        hooks := h
        invocations := s.invocations + 1
        seen := some (.hookThrew e) }

/-- The callback itself has returned or thrown. -/
def complete (clock : Clock) (outcome : Outcome) (target : JsValue)
    (args : List JsValue) (s : CallState) : CallState :=
  match outcome with
  | .threw _ => { s with seen := some (.finished outcome) }
  | .returned _ =>
      match a.hookAfter c target args clock s.hooks with
      | (.ok _, h) =>
          { s with hooks := h, seen := some (.finished outcome) }
      | (.error e, h) => { s with hooks := h, seen := some (.hookThrew e) }

/-- The original has returned or thrown. -/
def leave (clock : Clock) (outcome : Outcome) (s : CallState) : CallState :=
  match outcome with
  | .threw _ =>
      { s with phase := .threw, seen := some (.finished outcome) }
  | .returned rc =>
      match a.after with
      | none =>
          { s with phase := .returned, seen := some (.finished outcome) }
      | some hook =>
          match hook c rc clock s.hooks with
          | (.ok v, h) =>
              { s with
                hooks := h
                phase := .returned
                seen := some (.finished (.returned v)) }
          | (.error e, h) =>
              { s with
                hooks := h
                phase := .returned
                seen := some (.hookThrew e) }

def switch (call : SwitchCall) (own : Bool) (s : CallState) : CallState :=
  let (flags, probe) := call.apply s.hooks.flags s.hooks.probe
  { s with
    hooks := { s.hooks with
      flags := flags
      probe := if own then probe else s.hooks.probe }
    seen := none }

/-- Continue with the domain stack of this turn. -/
def resume (stack : List Nat) (s : CallState) : CallState :=
  { s with hooks := { s.hooks with tracker := s.hooks.tracker.resume stack } }

/-- The original has been called, so it has the forwarder. -/
def Called (s : CallState) : Prop :=
  s.phase ≠ .idle ∧ s.phase ≠ .aborted

instance (s : CallState) : Decidable s.Called := instDecidableAnd

def step (s : CallState) (t : CallTurn) : Option CallState :=
  if ∀ d ∈ t.stack, d < s.hooks.tracker.domainCount then
    let s := s.resume t.stack
    match t.event with
    | .enter =>
        if s.phase = .idle then some (s.enter a c t.clock) else none
    | .invoke target args =>
        if (a.callback c).isSome ∧ s.Called then
          some (s.invoke a c t.clock target args)
        else none
    | .complete outcome =>
        match s.pending with
        | [] => none
        | (target, args) :: pending =>
            some ({ s with pending := pending }.complete a c t.clock outcome
              target args)
    | .leave outcome =>
        if s.phase = .running then some (s.leave a c t.clock outcome)
        else none
    | .switch call own => some (s.switch call own)
    | .turn call =>
        if call.Valid s.hooks.tracker then
          some { s with
            hooks := { s.hooks with
              tracker := call.perform t.clock s.hooks.tracker }
            seen := none }
        else none
  else none

end CallState

/-- A call `c` of a method with the advice `a`, from any state of the rest. -/
def callMachine (a : Advice) (c : Call) (init : HookState) :
    StepMachine.Machine CallState CallTurn where
  init := ⟨init, .idle, [], 0, none⟩
  step := CallState.step a c

end Appmetrics
