/-
lib/request.js: requests, the domain each one is started in, and the events
raised when a root request ends.  JavaScript objects (requests, timers and
domains) are numbers into the heaps of a `Tracker`; `process.domain` is the
top of node's domain stack.
-/
import Appmetrics.Timer
import Mathlib.Logic.Function.Basic

namespace Appmetrics

/-- A `Request` object.  `type` is null for traced methods; `timer` is unset
between the constructor and `start`. -/
structure Request where
  children : List Nat
  name : String
  type : Option String
  parent : Option Nat
  id : Nat
  top : Nat
  active : Bool
  timer : Option Nat
  tracedStart : Bool
  traceStopped : Bool
  stack : Bool
deriving Repr, DecidableEq

/-- What `am.emit('request', ..)` is given. -/
structure RequestEvent where
  time : Nat
  type : Option String
  name : String
  duration : Rat
  request : Nat
deriving Repr, DecidableEq

/-- The thresholds of `config` that decide tracing; `-1` switches one off. -/
structure RequestConfig where
  minClockTrace : Rat
  minClockStack : Rat
deriving Repr, DecidableEq

/-- The module's variables together with the heaps its objects live in. -/
structure Tracker where
  requests : Nat → Request
  requestCount : Nat
  timers : Nat → Timer
  timerCount : Nat
  /-- `domain.currentRequest`, for every domain object -/
  currentRequest : Nat → Option Nat
  domainCount : Nat
  /-- node's domain stack; its head is `process.domain` -/
  domainStack : List Nat
  nextRequestId : Nat
  nextEventId : Nat
  config : RequestConfig
  emitted : List RequestEvent

namespace Tracker

def blankRequest : Request :=
  ⟨[], "", none, none, 0, 0, false, none, false, false, false⟩

def blankTimer : Timer := ⟨0, 0, -1⟩

/-- The state after `require('./request.js')`. -/
def initial : Tracker where
  requests := fun _ => blankRequest
  requestCount := 0
  timers := fun _ => blankTimer
  timerCount := 0
  currentRequest := fun _ => none
  domainCount := 0
  domainStack := []
  nextRequestId := 1
  nextEventId := 1
  config := ⟨0, -1⟩
  emitted := []

/-- `process.domain`. -/
def processDomain (s : Tracker) : Option Nat := s.domainStack.head?

/-- `domain.create()`; the new object has no `currentRequest` yet. -/
def createDomain (s : Tracker) : Tracker :=
  { s with
    currentRequest := Function.update s.currentRequest s.domainCount none
    domainCount := s.domainCount + 1 }

def enterDomain (s : Tracker) (d : Nat) : Tracker :=
  { s with domainStack := d :: s.domainStack }

/-- `d.exit()` leaves `d` and every domain entered after it. -/
def exitDomain (s : Tracker) (d : Nat) : Tracker :=
  if d ∈ s.domainStack then
    { s with domainStack := (s.domainStack.dropWhile (· != d)).tail }
  else s

/-- Allocate a running timer; its reference is `s.timerCount`. -/
def startTimer (s : Tracker) (clock : Clock) : Tracker :=
  { s with
    timers := Function.update s.timers s.timerCount (Timer.start clock)
    timerCount := s.timerCount + 1 }

def stopTimer (s : Tracker) (clock : Clock) (t : Nat) : Tracker :=
  { s with timers := Function.update s.timers t ((s.timers t).stop clock) }

def modify (s : Tracker) (r : Nat) (f : Request → Request) : Tracker :=
  { s with requests := Function.update s.requests r (f (s.requests r)) }

def setCurrent (s : Tracker) (d : Nat) (r : Option Nat) : Tracker :=
  { s with currentRequest := Function.update s.currentRequest d r }

/-- `if (this.type)`: neither null nor the empty string. -/
def isTyped (type : Option String) : Bool :=
  match type with
  | none => false
  | some t => t != ""

/-- `new Request(type, name, root)`; its reference is `s.requestCount`. -/
def create (s : Tracker) (type : Option String) (name : String)
    (root : Bool) : Tracker :=
  let s := if root then s.createDomain.enterDomain s.domainCount else s
  let r := s.requestCount
  let eventId := s.nextEventId
  let parent := s.processDomain.bind s.currentRequest
  let s := { s with requestCount := r + 1, nextEventId := eventId + 1 }
  match parent with
  | some p =>
      let top := (s.requests p).top
      let s := s.modify r fun _ =>
        { blankRequest with
          name := name, type := type, parent := some p, id := eventId,
          top := top }
      s.modify p fun q => { q with children := q.children ++ [r] }
  | none =>
      let id := if isTyped type then s.nextRequestId else eventId
      let s := s.modify r fun _ =>
        { blankRequest with name := name, type := type, id := id, top := r }
      { s with nextRequestId :=
          if isTyped type then s.nextRequestId + 1 else s.nextRequestId }

/-- `Request.prototype.start`. -/
def start (s : Tracker) (clock : Clock) (r : Nat) : Tracker :=
  let s := s.modify r fun q => { q with active := true }
  let s :=
    match (s.requests r).timer with
    | some _ => s
    | none =>
        let t := s.timerCount
        (s.startTimer clock).modify r fun q => { q with timer := some t }
  match s.processDomain with
  | some d => s.setCurrent d (some r)
  | none => s

/-- `exports.startRequest`, up to its return value `s.requestCount`. -/
def startRequest (s : Tracker) (clock : Clock) (type : Option String)
    (name : String) (root : Bool) (eventTimer : Option Nat) : Tracker :=
  let r := s.requestCount
  let s := s.create type name root
  let s :=
    match eventTimer with
    | some t => s.modify r fun q => { q with timer := some t }
    | none => s
  s.start clock r

/-- `exports.startMethod`: a request without a type. -/
def startMethod (s : Tracker) (clock : Clock) (name : String)
    (eventTimer : Option Nat) : Tracker :=
  s.startRequest clock none name false eventTimer

/-- `this.timer.timeDelta`; `none` stands for a request without a timer,
which `start` excludes. -/
def timeDelta (s : Tracker) (r : Nat) : Option Rat :=
  (s.requests r).timer.map fun t => (s.timers t).timeDelta

/-- `Request.prototype.traceStart`, which also traces the parents.  `fuel`
bounds the walk up; `none` is a walk that did not end. -/
def traceStart : Nat → Tracker → Nat → Option Tracker
  | 0, _, _ => none
  | fuel + 1, s, r =>
      if (s.requests r).tracedStart then some s
      else
        let s := s.modify r fun q => { q with tracedStart := true }
        match (s.requests r).parent with
        | some p => traceStart fuel s p
        | none => some s

/-- `threshold != -1 && this.timer.timeDelta >= threshold`. -/
def exceeds (s : Tracker) (r : Nat) (threshold : Rat) : Bool :=
  match s.timeDelta r with
  | some delta => threshold ≠ -1 ∧ threshold ≤ delta
  | none => false

def traceStop (s : Tracker) (r : Nat) : Tracker :=
  if (s.requests r).traceStopped then s
  else
    s.modify r fun q =>
      { q with traceStopped := true,
               stack := q.stack || s.exceeds r s.config.minClockStack }

/-- Delayed start tracing of a request that ran long enough. -/
def trace (s : Tracker) (r : Nat) : Option Tracker :=
  if s.exceeds r s.config.minClockTrace then
    (traceStart (s.requestCount + 1) s r).map (·.traceStop r)
  else some s

def requestEvent (s : Tracker) (r : Nat) : RequestEvent :=
  let q := s.requests r
  let timer := (q.timer.map s.timers).getD blankTimer
  ⟨timer.startTimeMillis, q.type, q.name, timer.timeDelta, r⟩

/-- The end of `stop`: the parent becomes `process.domain.currentRequest`,
and a request without one leaves the domain and raises its event. -/
def leave (s : Tracker) (r : Nat) : Tracker :=
  match s.processDomain with
  | none => s
  | some d =>
      let s := s.setCurrent d (s.requests r).parent
      match (s.requests r).parent with
      | some _ => s
      | none =>
          let s := s.exitDomain d
          { s with emitted := s.emitted ++ [s.requestEvent r] }

/-- `this.active = false; this.timer.stop()`. -/
def deactivate (s : Tracker) (clock : Clock) (r : Nat) : Tracker :=
  let s := s.modify r fun q => { q with active := false }
  match (s.requests r).timer with
  | some t => s.stopTimer clock t
  | none => s

/-- `Request.prototype.stop`, with the depth of the recursion over the
children bounded by `fuel`; `none` is a recursion that did not end. -/
def stopFuel (clock : Clock) : Nat → Tracker → Nat → Option Tracker
  | 0, _, _ => none
  | fuel + 1, s, r =>
      if (s.requests r).active then
        ((s.requests r).children.foldlM (stopFuel clock fuel)
          (s.deactivate clock r)).bind fun s =>
        (s.trace r).map fun s => s.leave r
      else some s

/-- `r.stop()`.  The recursion always ends within this bound, see
`stopFuel_isSome`. -/
def stop (s : Tracker) (clock : Clock) (r : Nat) : Tracker :=
  (stopFuel clock (s.requestCount + 1) s r).getD s

/-- `exports.setConfig`: only the properties that are given change. -/
def setConfig (s : Tracker) (minClockTrace minClockStack : Option Rat) :
    Tracker :=
  { s with config :=
      ⟨minClockTrace.getD s.config.minClockTrace,
        minClockStack.getD s.config.minClockStack⟩ }

end Tracker

end Appmetrics
