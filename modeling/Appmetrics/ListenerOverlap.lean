/-
probes/axon-probe.js, mqtt-probe.js, socketio-probe.js and strong-mq-probe.js:
a listener has one context object for all its invocations.  An invocation that
begins while another is pending puts its own timer and request in the place of
those of the other.  Where `on` has been wrapped more than once, the listener
has a context object from each wrapper.
-/
import Appmetrics.OperationEnds

namespace Appmetrics

open Effect Forest StepMachine

namespace Tracker

/-- No request but `req` has the timer. -/
structure Sole (s : Tracker) (timer req : Nat) : Prop where
  timer_lt : timer < s.timerCount
  req_lt : req < s.requestCount
  owner : ∀ {x}, (s.requests x).timer = some timer → x = req

end Tracker

/-- The call stops neither the timer nor the request, hands the timer to no
other request, and stops no active request above. -/
def RequestCall.Spares (s : Tracker) (timer req : Nat) : RequestCall → Prop
  | stopTimer t => t ≠ timer
  | startRequest _ _ _ eventTimer => eventTimer ≠ some timer
  | startMethod _ eventTimer => eventTimer ≠ some timer
  | stop r => s.IsActive r → ¬Ancestor s.parentOf req r
  | _ => True

namespace Tracker

variable {s s' : Tracker} {timer req : Nat} {clock : Clock}

/-- The timer is as it was, and still of this request only. -/
structure Untouched (s : Tracker) (timer req : Nat) (s' : Tracker) : Prop where
  sole : s'.Sole timer req
  timers : s'.timers timer = s.timers timer

theorem Sole.other (h : s.Sole timer req) (hother : OtherEffect clock s s')
    (htimers : s'.timers timer = s.timers timer) :
    Untouched s timer req s' where
  sole :=
    { timer_lt := h.timer_lt.trans_le hother.timerCount
      req_lt := hother.requestCount ▸ h.req_lt
      owner := fun hx => h.owner (hother.requests ▸ hx) }
  timers := htimers

theorem Sole.startRequest (h : s.Sole timer req) (hwf : s.WellFormed)
    (clock : Clock) (type : Option String) (name : String) (root : Bool)
    {eventTimer : Option Nat} (hother : eventTimer ≠ some timer) :
    Untouched s timer req
      (s.startRequest clock type name root eventTimer) where
  sole := by
    constructor
    case timer_lt =>
      have hlt := h.timer_lt
      rw [startRequest_timerCount _ _ _ _ _ _ hwf]
      split <;> omega
    case req_lt =>
      rw [startRequest_requestCount]
      exact h.req_lt.trans (Nat.lt_succ_self _)
    case owner =>
      intro x hx
      rw [startRequest_timer hwf] at hx
      split at hx
      · cases eventTimer with
        | none => exact absurd (Option.some.inj hx).symm h.timer_lt.ne
        | some t => exact absurd hx hother
      · exact h.owner hx
  timers := by
    rw [startRequest_timers _ _ _ _ _ _ hwf]
    split
    · exact Function.update_of_ne h.timer_lt.ne _ _
    · rfl

/-- What is not above the request does not stop its timer. -/
theorem Sole.stop (h : s.Sole timer req) (hwf : s.WellFormed) (clock : Clock)
    {r : Nat} (habove : s.IsActive r → ¬Ancestor s.parentOf req r) :
    Untouched s timer req (s.stop clock r) := by
  have heffect := stop_effect hwf clock r
  constructor
  case sole =>
    constructor
    case timer_lt => exact heffect.stops.frame.timerCount ▸ h.timer_lt
    case req_lt => exact heffect.stops.frame.requestCount ▸ h.req_lt
    case owner =>
      intro x hx
      exact h.owner ((heffect.stops.frame.timer x).symm.trans hx)
  case timers =>
    by_cases hactive : s.IsActive r
    · rcases heffect.stops.timer_cause timer with hkept | ⟨_, x, hx, hx', ht⟩
      · exact hkept
      · obtain ⟨_, hr, hanc⟩ := heffect.stops.below hx hx'
        rw [List.mem_singleton.mp hr, h.owner ht] at hanc
        exact absurd hanc (habove hactive)
    · rw [heffect.idle hactive]

theorem Sole.perform (h : s.Sole timer req) (hwf : s.WellFormed)
    (clock : Clock) {call : RequestCall}
    (hspares : call.Spares s timer req) :
    Untouched s timer req (call.perform clock s) := by
  cases call with
  | createDomain => exact h.other (createDomain_other s clock) rfl
  | startTimer =>
      exact h.other (startTimer_other s clock)
        (Function.update_of_ne h.timer_lt.ne _ _)
  | stopTimer t =>
      exact h.other (stopTimer_other s clock t)
        (Function.update_of_ne (Ne.symm hspares) _ _)
  | setConfig trace stack => exact h.other (setConfig_other s clock _ _) rfl
  | startRequest type name root eventTimer =>
      exact h.startRequest hwf clock type name root hspares
  | startMethod name eventTimer =>
      exact h.startRequest hwf clock none name false hspares
  | stop r => exact h.stop hwf clock hspares

end Tracker

/-! ## What the hooks of a listener do -/

namespace Instrument

/-- After the end hooks with these fields of the event. -/
def measured (i : Instrument) (clock : Clock) (timer r : Nat)
    (fields : Fields) (s : HookState) : HookState :=
  let tracker := s.tracker.stopTimer clock timer
  { s with
    tracker := tracker.stop clock r
    emitted := s.emitted ++
      [⟨i.topic, (tracker.timers timer).startTimeMillis,
        (tracker.timers timer).timeDelta, fields⟩]
    stopped := s.stopped ++ [r] }

/-- Ending an operation keeps the heap, and the request is stopped. -/
theorem measured_tracker (i : Instrument) (clock : Clock) (timer r : Nat)
    (fields : Fields) {s : HookState} (hwf : s.tracker.WellFormed) :
    (i.measured clock timer r fields s).tracker.WellFormed ∧
      (i.measured clock timer r fields s).tracker.requestCount =
        s.tracker.requestCount ∧
      ¬(i.measured clock timer r fields s).tracker.IsActive r := by
  have hstopped := (Tracker.stopTimer_other s.tracker clock timer).wellFormed
    hwf
  have hstops := (Tracker.stop_effect hstopped clock r).stops
  exact ⟨hstops.wellFormed hstopped, hstops.frame.requestCount,
    hstops.inactive r (List.mem_singleton_self r)⟩

/-- The end hooks of an instrument that takes anything and has an event for
any call. -/
theorem endHooks_measured {i : Instrument} (hi : i.Harmless)
    (htests : i.tests = true) {c : Call} (htells : i.Tells c)
    {extra : List JsValue} {clock : Clock} {s : HookState} {timer r : Nat}
    (hlive : s.probe.Live) (hdata : s.probeData = ⟨some timer, some r⟩) :
    ∃ fields, i.endHooks c extra clock s =
      (.ok (), i.measured clock timer r fields s) := by
  have hsafely : i.EndsSafely c extra s.probe s.probeData :=
    (hi.reads.ends c extra _ _).mpr (htests ▸ Reads.free_ends c extra _ _)
  obtain ⟨⟨⟩, s', hruns⟩ := (i.endHooks_returns c extra clock s).mpr hsafely
  obtain ⟨hstate, event, hshown⟩ := endHooks_state hlive hdata hruns
  cases event with
  | none => exact absurd hshown (htells extra)
  | some fields =>
      rw [requestEnded, metered, hshown] at hstate
      exact ⟨fields, hruns.trans (congrArg _ hstate)⟩

/-- The timer that has been started is running and of the new request only. -/
theorem Begun.sole {clock : Clock} {s s' : HookState}
    (hbegun : Begun clock s s') (hwf : s.tracker.WellFormed) :
    s'.tracker.Sole s.tracker.timerCount s.tracker.requestCount ∧
      s'.tracker.timers s.tracker.timerCount = Timer.start clock := by
  obtain ⟨_, _, _, eventTimer, _, htracker⟩ := hbegun.tracker
  have htimed : (s.tracker.startTimer clock).WellFormed :=
    (Tracker.startTimer_other s.tracker clock).wellFormed hwf
  have hnew : (s.tracker.startTimer clock).timers s.tracker.timerCount =
      Timer.start clock := Function.update_self _ _ _
  rw [htracker]
  constructor
  · constructor
    case timer_lt =>
      rw [Tracker.startRequest_timerCount _ _ _ _ _ _ htimed]
      split
      · exact Nat.lt_succ_of_lt (Nat.lt_succ_self _)
      · exact Nat.lt_succ_self _
    case req_lt =>
      rw [Tracker.startRequest_requestCount]
      exact Nat.lt_succ_self _
    case owner =>
      intro x hx
      rw [Tracker.startRequest_timer htimed] at hx
      split at hx
      · assumption
      · exact absurd (hwf.timer_lt hx) (Nat.lt_irrefl _)
  · rw [Tracker.startRequest_timers _ _ _ _ _ _ htimed]
    split
    · exact (Function.update_of_ne (Nat.lt_succ_self _).ne _ _).trans hnew
    · exact hnew

end Instrument

/-- The hooks of a method whose listener is wrapped: an operation of `i` is
begun before each invocation of the listener and ended after it. -/
structure Advice.Listens (a : Advice) (i : Instrument) (c : Call) : Prop where
  before : ∀ clock s, a.before c clock s = (.ok (), s)
  hookBefore : ∀ {target args clock s s'}, s.probe.Live →
    a.hookBefore c target args clock s = (.ok (), s') →
    Instrument.Begun clock s s'
  hookAfter : ∀ {target args clock s timer r}, s.probe.Live →
    s.probeData = ⟨some timer, some r⟩ →
    ∃ fields, a.hookAfter c target args clock s =
      (.ok (), i.measured clock timer r fields s)
  after : a.after = none

theorem Advice.listener_listens {i : Instrument} (hi : i.Harmless)
    (htests : i.tests = true) (htelling : Site.Telling i)
    (applies : Call → Bool) (reads : Call → Except JsError Unit)
    (started ended : Call → List JsValue → Call) (extra : List JsValue)
    (c : Call) :
    (Advice.listener i applies reads started ended extra).Listens i c where
  before _ _ := rfl
  hookBefore hlive hruns := by
    obtain ⟨_, hruns⟩ := Comp.eval_bind_eq_ok.mp hruns
    exact Instrument.startHooks_begun hlive hruns.2
  hookAfter hlive hdata :=
    Instrument.endHooks_measured hi htests (htelling _) hlive hdata
  after := rfl

namespace Site

/-- The methods that register a listener whose invocations are measured. -/
def listener? : Site → Option Instrument
  | axonListen _ => some Axon.instrument
  | mqttListen => some Mqtt.instrument
  | socketioListen => some Socketio.instrument
  | strongMqListen _ => some StrongMq.instrument
  | _ => none

theorem listens {site : Site} {i : Instrument} (hi : site.listener? = some i)
    (c : Call) : site.advice.Listens i c := by
  cases site with
  | axonListen socketType =>
      cases hi
      change (Axon.listen socketType).Listens _ c
      exact Advice.listener_listens Axon.harmless rfl
        (fun _ _ => some_ne_none _) _ _ _ _ _ c
  | mqttListen =>
      cases hi
      change Mqtt.listen.Listens _ c
      exact Advice.listener_listens Mqtt.harmless rfl mqtt_telling _ _ _ _ _ c
  | socketioListen =>
      cases hi
      change Socketio.listen.Listens _ c
      exact Advice.listener_listens Socketio.harmless rfl
        (fun _ _ => some_ne_none _) _ _ _ _ _ c
  | strongMqListen socketType =>
      cases hi
      change (StrongMq.listen socketType).Listens _ c
      exact Advice.listener_listens StrongMq.harmless rfl
        (fun _ _ => some_ne_none _) _ _ _ _ _ c
  | _ => cases hi

end Site

/-! ## Invocations of one listener -/

/-- An invocation of a listener that has not ended: the clock at its start,
the timer and the request that its start hooks make, and which one it is. -/
structure Handling where
  started : Clock
  timer : Nat
  req : Nat
  number : Nat

/-- A registration of a listener with the invocations that are pending,
innermost first.  The method that it was registered with may have been wrapped
several times; `contexts` are the context objects of all the wrappers but the
innermost one, which `call` is about, from the outermost one on. -/
structure ListenerState where
  call : CallState
  contexts : List ProbeData
  handlings : List Handling

/-- Run a hook with each of the context objects, until it throws. -/
def onContexts (hook : Js Unit) :
    List ProbeData → HookState → Option JsError × List ProbeData × HookState
  | [], h => (none, [], h)
  | d :: ds, h =>
      match hook { h with probeData := d } with
      | (.error e, h') =>
          (some e, h'.probeData :: ds, { h' with probeData := h.probeData })
      | (.ok _, h') =>
          let (error, ds, h'') :=
            onContexts hook ds { h' with probeData := h.probeData }
          (error, h'.probeData :: ds, h'')

namespace ListenerState

/-- The record of an invocation that begins in this state. -/
def begun (s : ListenerState) (clock : Clock) (call : CallState) : Handling :=
  ⟨clock, s.call.hooks.tracker.timerCount, s.call.hooks.tracker.requestCount,
    call.invocations⟩

section Machine

variable (a : Advice) (c : Call)

/-- An invocation is pending once the listener itself has been called. -/
def invoke (clock : Clock) (target : JsValue) (args : List JsValue)
    (s : ListenerState) : ListenerState :=
  match onContexts (a.hookBefore c target args clock) s.contexts
      s.call.hooks with
  | (some e, contexts, h) =>
      { s with
        call := { s.call with
          hooks := h
          invocations := s.call.invocations + 1
          seen := some (.hookThrew e) }
        contexts := contexts }
  | (none, contexts, h) =>
      let call := { s.call with hooks := h }.invoke a c clock target args
      { call := call
        contexts := contexts
        handlings :=
          if call.pending.length = s.call.pending.length then s.handlings
          else s.begun clock call :: s.handlings }

/-- The wrappers go on from the inside out, unless one before them threw. -/
def complete (clock : Clock) (outcome : Outcome) (target : JsValue)
    (args : List JsValue) (s : ListenerState) : ListenerState :=
  let call := s.call.complete a c clock outcome target args
  match call.seen with
  | some (.finished (.returned _)) =>
      let (error, contexts, h) := onContexts
        (a.hookAfter c target args clock) s.contexts.reverse call.hooks
      { call := { call with
          hooks := h
          seen := (error.map Observation.hookThrew).or call.seen }
        contexts := contexts.reverse
        handlings := s.handlings.tail }
  | _ => { s with call := call, handlings := s.handlings.tail }

/-- Every wrapper makes its context object when the method is called; what it
does before that is nothing for a listener. -/
def step (s : ListenerState) (t : CallTurn) : Option ListenerState :=
  match t.event with
  | .enter =>
      (CallState.step a c s.call t).map fun call =>
        { s with call := call, contexts := s.contexts.map fun _ => .empty }
  | .invoke target args =>
      if (∀ d ∈ t.stack, d < s.call.hooks.tracker.domainCount) ∧
          (a.callback c).isSome ∧ s.call.Called then
        some ({ s with call := s.call.resume t.stack }.invoke a c t.clock
          target args)
      else none
  | .complete outcome =>
      match s.call.pending with
      | [] => none
      | (target, args) :: pending =>
          if ∀ d ∈ t.stack, d < s.call.hooks.tracker.domainCount then
            some ({ s with
              call := { s.call.resume t.stack with pending := pending }
              }.complete a c t.clock outcome target args)
          else none
  | _ => (CallState.step a c s.call t).map fun call => { s with call := call }

end Machine

end ListenerState

/-- A call of a method with the advice `a` and `others` more wrappers that
have the same advice. -/
def listenerMachine (a : Advice) (c : Call) (others : Nat)
    (init : HookState) : Machine ListenerState CallTurn where
  init := ⟨(callMachine a c init).init, List.replicate others .empty, []⟩
  step := ListenerState.step a c

/-- The end of an invocation raises one event, which goes by the clock at its
own start, and stops its own request. -/
structure Handling.Measured (i : Instrument) (m : Handling) (clock : Clock)
    (h h' : HookState) : Prop where
  event : ∃ fields, h'.emitted = h.emitted ++
    [⟨i.topic, m.started.now, elapsed clock m.started.hrtime, fields⟩]
  stopped : h'.stopped = h.stopped ++ [m.req]
  inactive : ¬h'.tracker.IsActive m.req

/-- The context object is that of the invocation, whose timer is running. -/
structure Handling.Running (m : Handling) (h : HookState) : Prop where
  probeData : h.probeData = ⟨some m.timer, some m.req⟩
  timer : h.tracker.timers m.timer = Timer.start m.started
  sole : h.tracker.Sole m.timer m.req

namespace ListenerState

/-- What a step is to do: an invocation begins an operation, and its end ends
that operation. -/
def MeasuredStep (i : Instrument) (s : ListenerState) (t : CallTurn)
    (s' : ListenerState) : Prop :=
  match t.event with
  | .invoke target args =>
      s'.call.seen = some (.called target args) ∧
        Instrument.Begun t.clock (s.call.resume t.stack).hooks s'.call.hooks
  | .complete _ =>
      ∀ m ∈ s.handlings.head?,
        m.Measured i t.clock (s.call.resume t.stack).hooks s'.call.hooks
  | _ =>
      s'.call.hooks.emitted = s.call.hooks.emitted ∧
        s'.call.hooks.stopped = s.call.hooks.stopped

/-- There is one wrapper, and its start hooks have what they need; an
invocation ends normally, and none has begun since it began. -/
def Unshared (n : Needs) (c : Call) (s : ListenerState) (t : CallTurn) :
    Prop :=
  match t.event with
  | .invoke _ args =>
      s.contexts = [] ∧
        n.hookBefore c args s.call.hooks.probe s.call.hooks.probeData
  | .complete outcome =>
      (∃ v, outcome = .returned v) ∧
        ∀ m ∈ s.handlings.head?, m.number = s.call.invocations
  | _ => True

/-- Nothing else stops the timer of the last invocation while it is pending. -/
def Spared (s : ListenerState) (t : CallTurn) : Prop :=
  match t.event with
  | .turn call =>
      ∀ m ∈ s.handlings, m.number = s.call.invocations →
        call.Spares s.call.hooks.tracker m.timer m.req
  | _ => True

/-- What holds between the context object and the invocations that are
pending. -/
structure Tracked (s : ListenerState) : Prop where
  wellFormed : s.call.hooks.tracker.WellFormed
  alone : s.handlings ≠ [] → s.contexts = []
  idle : s.call.phase = .idle → s.handlings = []
  paired : s.handlings.length = s.call.pending.length
  number_le : ∀ m ∈ s.handlings, m.number ≤ s.call.invocations
  number_lt : ∀ m ∈ s.handlings.tail, m.number < s.call.invocations
  known : ∀ m ∈ s.handlings, m.req < s.call.hooks.tracker.requestCount
  context : s.handlings ≠ [] → ∃ timer r,
    s.call.hooks.probeData = ⟨some timer, some r⟩ ∧
      ∀ m ∈ s.handlings, m.number < s.call.invocations → m.req ≠ r
  running : ∀ m ∈ s.handlings, m.number = s.call.invocations →
    m.Running s.call.hooks

theorem tracked_nil {call : CallState} (contexts : List ProbeData)
    (hwf : call.hooks.tracker.WellFormed) (hpending : call.pending = []) :
    Tracked ⟨call, contexts, []⟩ where
  wellFormed := hwf
  alone h := absurd rfl h
  idle _ := rfl
  paired := (congrArg List.length hpending).symm
  number_le := nofun
  number_lt := nofun
  known := nofun
  context h := absurd rfl h
  running := nofun

/-- A step that leaves the invocations and the context object as they are. -/
theorem Tracked.kept {s : ListenerState} (hs : s.Tracked) {call : CallState}
    {contexts : List ProbeData} (halone : s.contexts = [] → contexts = [])
    (hphase : call.phase = .idle → s.call.phase = .idle)
    (hpending : call.pending = s.call.pending)
    (hinvocations : call.invocations = s.call.invocations)
    (hdata : call.hooks.probeData = s.call.hooks.probeData)
    (hwf : call.hooks.tracker.WellFormed)
    (hcount : s.call.hooks.tracker.requestCount ≤
      call.hooks.tracker.requestCount)
    (huntouched : ∀ m ∈ s.handlings, m.number = s.call.invocations →
      s.call.hooks.tracker.Untouched m.timer m.req call.hooks.tracker) :
    Tracked ⟨call, contexts, s.handlings⟩ where
  wellFormed := hwf
  alone h := halone (hs.alone h)
  idle h := hs.idle (hphase h)
  paired := hpending ▸ hs.paired
  number_le := hinvocations ▸ hs.number_le
  number_lt := hinvocations ▸ hs.number_lt
  known m hm := (hs.known m hm).trans_le hcount
  context := by
    rw [hdata, hinvocations]
    exact hs.context
  running m hm hlast := by
    have hlast : m.number = s.call.invocations := hinvocations ▸ hlast
    have hrunning := hs.running m hm hlast
    have hkept := huntouched m hm hlast
    exact ⟨hdata.trans hrunning.probeData, hkept.timers.trans hrunning.timer,
      hkept.sole⟩

/-- Another domain stack changes nothing of this. -/
theorem Tracked.resumed {s : ListenerState} (hs : s.Tracked)
    (stack : List Nat) :
    Tracked ⟨s.call.resume stack, s.contexts, s.handlings⟩ := by
  refine hs.kept id id rfl rfl rfl
    (Tracker.resume_wellFormed hs.wellFormed stack) (Nat.le_refl _) ?_
  intro m hm hlast
  have hsole := (hs.running m hm hlast).sole
  exact ⟨⟨hsole.timer_lt, hsole.req_lt, hsole.owner⟩, rfl⟩

/-- An invocation begins; those that were pending are no longer the last. -/
theorem Tracked.invoked {s : ListenerState} (hs : s.Tracked)
    (halone : s.contexts = []) (hcalled : s.call.phase ≠ .idle) {clock : Clock} {h : HookState}
    (hbegun : Instrument.Begun clock s.call.hooks h)
    {call : CallState} {entry : JsValue × List JsValue}
    (hhooks : call.hooks = h) (hphase : call.phase = s.call.phase)
    (hpending : call.pending = entry :: s.call.pending)
    (hinvocations : call.invocations = s.call.invocations + 1) :
    Tracked ⟨call, s.contexts, s.begun clock call :: s.handlings⟩ := by
  subst hhooks
  obtain ⟨hsole, htimer⟩ := hbegun.sole hs.wellFormed
  have hold {m : Handling} (hm : m ∈ s.handlings) :
      m.number < call.invocations := by
    rw [hinvocations]
    exact Nat.lt_succ_of_le (hs.number_le m hm)
  constructor
  case wellFormed => exact hbegun.wellFormed hs.wellFormed
  case alone => exact fun _ => halone
  case idle => exact fun h => absurd (hphase ▸ h) hcalled
  case paired =>
    rw [hpending, List.length_cons, List.length_cons, hs.paired]
  case number_le =>
    rw [List.forall_mem_cons]
    exact ⟨Nat.le_refl _, fun m hm => (hold hm).le⟩
  case number_lt => exact fun m hm => hold hm
  case known =>
    rw [List.forall_mem_cons]
    exact ⟨hsole.req_lt, fun m hm => (hs.known m hm).trans hsole.req_lt⟩
  case context =>
    refine fun _ => ⟨_, _, hbegun.probeData, ?_⟩
    rw [List.forall_mem_cons]
    exact ⟨fun h => absurd h (Nat.lt_irrefl _),
      fun m hm _ => (hs.known m hm).ne⟩
  case running =>
    rw [List.forall_mem_cons]
    exact ⟨fun _ => ⟨hbegun.probeData, htimer, hsole⟩,
      fun m hm hlast => absurd hlast (hold hm).ne⟩

/-- The innermost invocation ends; none of the others is the last. -/
theorem Tracked.completed {s : ListenerState} (hs : s.Tracked)
    {m : Handling} {rest : List Handling}
    (hhandlings : s.handlings = m :: rest)
    {entry : JsValue × List JsValue} {call : CallState}
    (hpending : s.call.pending = entry :: call.pending)
    (hphase : call.phase = s.call.phase)
    (hinvocations : call.invocations = s.call.invocations)
    (hdata : call.hooks.probeData = s.call.hooks.probeData)
    (hwf : call.hooks.tracker.WellFormed)
    (hcount : call.hooks.tracker.requestCount =
      s.call.hooks.tracker.requestCount) :
    Tracked ⟨call, s.contexts, rest⟩ := by
  have hmem {m' : Handling} (hm : m' ∈ rest) : m' ∈ s.handlings := by
    rw [hhandlings]
    exact List.mem_cons_of_mem m hm
  have hold {m' : Handling} (hm : m' ∈ rest) :
      m'.number < s.call.invocations := by
    refine hs.number_lt m' ?_
    rw [hhandlings]
    exact hm
  constructor
  case wellFormed => exact hwf
  case alone =>
    exact fun _ => hs.alone (hhandlings ▸ List.cons_ne_nil m rest)
  case idle =>
    intro h
    have hnil := hs.idle (hphase ▸ h)
    rw [hhandlings] at hnil
    cases hnil
  case paired =>
    have hpaired := hs.paired
    rw [hhandlings, hpending] at hpaired
    exact Nat.succ.inj hpaired
  case number_le =>
    rw [hinvocations]
    exact fun m' hm => (hold hm).le
  case number_lt =>
    rw [hinvocations]
    exact fun m' hm => hold (List.mem_of_mem_tail hm)
  case known =>
    rw [hcount]
    exact fun m' hm => hs.known m' (hmem hm)
  case context =>
    intro _
    rw [hdata, hinvocations]
    obtain ⟨timer, r, hcontext, hother⟩ :=
      hs.context (hhandlings ▸ List.cons_ne_nil m rest)
    exact ⟨timer, r, hcontext, fun m' hm => hother m' (hmem hm)⟩
  case running =>
    rw [hinvocations]
    exact fun m' hm hlast => absurd hlast (hold hm).ne

/-- Ending with the context object ends the operation of an invocation exactly
when that is the last one. -/
theorem Tracked.measured_iff {s : ListenerState} (hs : s.Tracked)
    {m : Handling} (hm : m ∈ s.handlings) {timer r : Nat}
    (hdata : s.call.hooks.probeData = ⟨some timer, some r⟩)
    (i : Instrument) (clock : Clock) (fields : Fields) :
    m.Measured i clock s.call.hooks
        (i.measured clock timer r fields s.call.hooks) ↔
      m.number = s.call.invocations := by
  constructor
  · intro hmeasured
    have hreq : r = m.req := by
      have hstopped := List.append_cancel_left hmeasured.stopped
      exact (List.cons.inj hstopped).1
    obtain ⟨timer', r', hcontext, hother⟩ :=
      hs.context (List.ne_nil_of_mem hm)
    rw [hdata] at hcontext
    cases hcontext
    by_contra hlast
    exact hother m hm (Nat.lt_of_le_of_ne (hs.number_le m hm) hlast) hreq.symm
  · intro hlast
    have hrunning := hs.running m hm hlast
    rw [hrunning.probeData] at hdata
    cases hdata
    have htimer : ((s.call.hooks.tracker.stopTimer clock m.timer).timers
        m.timer) = (Timer.start m.started).stop clock := by
      rw [← hrunning.timer]
      exact Function.update_self _ _ _
    have hduration : ((Timer.start m.started).stop clock).timeDelta =
        elapsed clock (Timer.start m.started).startTime :=
      Timer.stop_of_running rfl
    constructor
    case event =>
      refine ⟨fields, ?_⟩
      simp only [Instrument.measured, htimer, Timer.stop_startTimeMillis,
        hduration]
      rfl
    case stopped => rfl
    case inactive =>
      exact (i.measured_tracker clock _ _ fields hs.wellFormed).2.2

section Steps

variable {a : Advice} {i : Instrument} {c : Call} {n : Needs}

/-- The listener is called after the start hooks, or not at all. -/
theorem invoke_cases (hn : n.Exact a) (hlistens : a.Listens i c)
    (call : CallState) (hcallback : (a.callback c).isSome = true)
    (hlive : call.hooks.probe.Live) (clock : Clock) (target : JsValue)
    (args : List JsValue) :
    (n.hookBefore c args call.hooks.probe call.hooks.probeData ∧
      ∃ h, Instrument.Begun clock call.hooks h ∧
        call.invoke a c clock target args =
          { call with
            hooks := h
            pending := (target, args) :: call.pending
            invocations := call.invocations + 1
            seen := some (.called target args) }) ∨
    ¬n.hookBefore c args call.hooks.probe call.hooks.probeData ∧
      (call.invoke a c clock target args).seen ≠
        some (.called target args) := by
  have hreturns := hn.hookBefore c hcallback target args clock call.hooks
  by_cases hneeds : n.hookBefore c args call.hooks.probe call.hooks.probeData
  · obtain ⟨⟨⟩, h, hruns⟩ := hreturns.mpr hneeds
    refine Or.inl ⟨hneeds, h, hlistens.hookBefore hlive hruns, ?_⟩
    rw [CallState.invoke, hruns]
  · refine Or.inr ⟨hneeds, fun hseen => hneeds (hreturns.mp ?_)⟩
    exact CallState.invoke_seen.mp hseen

theorem complete_returned (hlistens : a.Listens i c) (call : CallState)
    (hlive : call.hooks.probe.Live) {timer r : Nat}
    (hdata : call.hooks.probeData = ⟨some timer, some r⟩) (clock : Clock)
    (v target : JsValue) (args : List JsValue) :
    ∃ fields, call.complete a c clock (.returned v) target args =
      { call with
        hooks := i.measured clock timer r fields call.hooks
        seen := some (.finished (.returned v)) } := by
  obtain ⟨fields, hruns⟩ : ∃ fields,
      a.hookAfter c target args clock call.hooks =
        (.ok (), i.measured clock timer r fields call.hooks) :=
    hlistens.hookAfter hlive hdata
  refine ⟨fields, ?_⟩
  rw [CallState.complete]
  simp only [hruns]

/-- Each wrapper whose start hooks return starts a request. -/
theorem onContexts_begun (hlistens : a.Listens i c) {clock : Clock}
    {target : JsValue} {args : List JsValue} {contexts contexts' : List ProbeData}
    {h h' : HookState} (hlive : h.probe.Live)
    (hruns : onContexts (a.hookBefore c target args clock) contexts h =
      (none, contexts', h')) :
    h'.tracker.requestCount = h.tracker.requestCount + contexts.length ∧
      h'.probe = h.probe := by
  induction contexts generalizing h h' contexts' with
  | nil =>
      cases hruns
      exact ⟨rfl, rfl⟩
  | cons d ds ih =>
      rw [onContexts] at hruns
      rcases hhook : a.hookBefore c target args clock
        { h with probeData := d } with ⟨e | ⟨⟩, h₁⟩
      · rw [hhook] at hruns
        cases hruns
      · rw [hhook] at hruns
        have hbegun := hlistens.hookBefore (s := { h with probeData := d })
          hlive hhook
        have hprobe : h₁.probe = h.probe := hbegun.probe
        have hcount : h₁.tracker.requestCount =
            h.tracker.requestCount + 1 := hbegun.requestCount
        rcases hrest : onContexts (a.hookBefore c target args clock) ds
          { h₁ with probeData := h.probeData } with ⟨error, ds', h₂⟩
        simp only [hrest] at hruns
        cases hruns
        obtain ⟨hcount', hprobe'⟩ := ih
          (h := { h₁ with probeData := h.probeData })
          (show h₁.probe.Live from hprobe ▸ hlive) hrest
        dsimp only at hcount' hprobe'
        rw [List.length_cons, hcount', hprobe']
        exact ⟨by omega, hprobe⟩

/-- With more than one wrapper an invocation begins more than one operation,
or none at all. -/
theorem not_begun_of_others (hlistens : a.Listens i c) {s : ListenerState}
    (hlive : s.call.hooks.probe.Live) (hothers : s.contexts ≠ [])
    (clock : Clock) (target : JsValue) (args : List JsValue) :
    ¬((s.invoke a c clock target args).call.seen =
        some (.called target args) ∧
      Instrument.Begun clock s.call.hooks
        (s.invoke a c clock target args).call.hooks) := by
  rintro ⟨hseen, hbegun⟩
  rcases hruns : onContexts (a.hookBefore c target args clock) s.contexts
    s.call.hooks with ⟨_ | e, contexts, h⟩
  · simp only [invoke, hruns] at hseen hbegun
    obtain ⟨hcount, hprobe⟩ := onContexts_begun hlistens hlive hruns
    obtain ⟨⟨⟩, h', hhook⟩ := CallState.invoke_seen.mp hseen
    rw [CallState.invoke, hhook] at hbegun
    have hall : h'.tracker.requestCount = s.call.hooks.tracker.requestCount + 1 :=
      hbegun.requestCount
    have hlast : h'.tracker.requestCount = h.tracker.requestCount + 1 :=
      (hlistens.hookBefore (show h.probe.Live from hprobe ▸ hlive)
        hhook).requestCount
    exact hothers (List.eq_nil_of_length_eq_zero (by omega))
  · simp only [invoke, hruns] at hseen
    cases hseen

theorem invoke_alone (clock : Clock) (target : JsValue)
    (args : List JsValue) (call : CallState) (handlings : List Handling) :
    invoke a c clock target args ⟨call, [], handlings⟩ =
      { call := call.invoke a c clock target args
        contexts := []
        handlings :=
          if (call.invoke a c clock target args).pending.length =
              call.pending.length then handlings
          else begun ⟨call, [], handlings⟩ clock
            (call.invoke a c clock target args) :: handlings } :=
  rfl

theorem complete_alone (clock : Clock) (outcome : Outcome) (target : JsValue)
    (args : List JsValue) (call : CallState) (handlings : List Handling) :
    complete a c clock outcome target args ⟨call, [], handlings⟩ =
      ⟨call.complete a c clock outcome target args, [], handlings.tail⟩ := by
  simp only [complete, List.reverse_nil, onContexts]
  split <;> rfl

/-- What a step does, where there is but one wrapper if a listener has been
invoked. -/
theorem Tracked.step_cases {s s' : ListenerState} {t : CallTurn}
    (hs : s.Tracked) (hstep : step a c s t = some s') :
    match t.event with
    | .invoke target args =>
        ((a.callback c).isSome = true ∧ s.call.Called) ∧
          s' = { s with call := s.call.resume t.stack }.invoke a c t.clock
            target args
    | .complete outcome =>
        s.contexts = [] ∧ ∃ target args pending m rest,
          s.call.pending = (target, args) :: pending ∧
          s.handlings = m :: rest ∧
          s' = { s with
            call := ({ s.call.resume t.stack with pending := pending } :
              CallState).complete a c t.clock outcome target args
            handlings := rest }
    | _ => ∃ call contexts, CallState.step a c s.call t = some call ∧
        s' = { s with call := call, contexts := contexts } ∧
          (s.contexts = [] → contexts = []) := by
  rcases t with ⟨stack, clock, event⟩
  cases event with
  | enter =>
      obtain ⟨call, hcall, rfl⟩ := Option.map_eq_some_iff.mp hstep
      exact ⟨call, _, hcall, rfl, fun h => by rw [h]; rfl⟩
  | invoke target args =>
      obtain ⟨⟨_, hcallback, hcalled⟩, heq⟩ :=
        Option.ite_none_right_eq_some.mp hstep
      exact ⟨⟨hcallback, hcalled⟩, (Option.some.inj heq).symm⟩
  | complete outcome =>
      rcases hpending : s.call.pending with _ | ⟨⟨target, args⟩, pending⟩
      · simp only [step, hpending] at hstep
        cases hstep
      · simp only [step, hpending] at hstep
        obtain ⟨_, heq⟩ := Option.ite_none_right_eq_some.mp hstep
        have hpaired := hs.paired
        rw [hpending] at hpaired
        obtain ⟨m, rest, hhandlings⟩ :=
          List.exists_cons_of_length_eq_add_one hpaired
        have halone := hs.alone (hhandlings ▸ List.cons_ne_nil m rest)
        rw [halone, complete_alone, hhandlings] at heq
        refine ⟨halone, target, args, pending, m, rest, rfl, hhandlings, ?_⟩
        rw [halone]
        exact (Option.some.inj heq).symm
  | leave outcome =>
      obtain ⟨call, hcall, rfl⟩ := Option.map_eq_some_iff.mp hstep
      exact ⟨call, _, hcall, rfl, id⟩
  | switch switched own =>
      obtain ⟨call, hcall, rfl⟩ := Option.map_eq_some_iff.mp hstep
      exact ⟨call, _, hcall, rfl, id⟩
  | turn other =>
      obtain ⟨call, hcall, rfl⟩ := Option.map_eq_some_iff.mp hstep
      exact ⟨call, _, hcall, rfl, id⟩

/-- A step does what it is to do if and only if it keeps to the condition. -/
theorem Tracked.step_iff (hn : n.Exact a) (hlistens : a.Listens i c)
    {s s' : ListenerState} {t : CallTurn} (hs : s.Tracked)
    (hlive : s.call.hooks.probe.Live)
    (hstep : step a c s t = some s') :
    Unshared n c s t ↔ MeasuredStep i s t s' := by
  have hcases := hs.step_cases hstep
  rcases t with ⟨stack, clock, event⟩
  cases event with
  | enter =>
      obtain ⟨call, contexts, hcall, rfl, _⟩ := hcases
      obtain ⟨_, rfl⟩ := CallState.step_eq_some hcall
      refine iff_of_true trivial ?_
      simp only [MeasuredStep, CallState.enter, hlistens.before]
      unfold CallState.opened
      split <;> exact ⟨rfl, rfl⟩
  | invoke target args =>
      obtain ⟨⟨hcallback, _⟩, rfl⟩ := hcases
      by_cases halone : s.contexts = []
      · rw [halone, invoke_alone]
        simp only [Unshared, halone, true_and]
        rcases invoke_cases hn hlistens (s.call.resume stack) hcallback
          hlive clock target args with ⟨hneeds, h, hbegun, hstate⟩ |
            ⟨hneeds, hseen⟩
        · refine iff_of_true hneeds ?_
          simp only [MeasuredStep, hstate]
          exact ⟨trivial, hbegun⟩
        · exact iff_of_false hneeds fun h => hseen h.1
      · exact iff_of_false (fun h => halone h.1) (not_begun_of_others
          (s := { s with call := s.call.resume stack }) hlistens hlive halone
          clock target args)
  | complete outcome =>
      obtain ⟨halone, target, args, pending, m, rest, hpending, hhandlings,
        rfl⟩ := hcases
      simp only [Unshared, MeasuredStep, hhandlings, List.head?_cons,
        Option.mem_def, Option.some.injEq, forall_eq']
      cases outcome with
      | threw e =>
          refine iff_of_false ?_ ?_
          · rintro ⟨⟨v, hv⟩, _⟩
            cases hv
          · intro hmeasured
            have hlength := congrArg List.length hmeasured.stopped
            simp [CallState.complete, CallState.resume] at hlength
      | returned v =>
          obtain ⟨timer, r, hdata, _⟩ :=
            hs.context (hhandlings ▸ List.cons_ne_nil m rest)
          obtain ⟨fields, hstate⟩ := complete_returned hlistens
            { s.call.resume stack with pending := pending } hlive
            hdata clock v target args
          rw [hstate, and_iff_right ⟨v, rfl⟩]
          have hm : m ∈ s.handlings := by simp [hhandlings]
          exact ((hs.resumed stack).measured_iff hm hdata i clock
            fields).symm
  | leave outcome =>
      obtain ⟨call, contexts, hcall, rfl, _⟩ := hcases
      obtain ⟨_, rfl⟩ := CallState.step_eq_some hcall
      refine iff_of_true trivial ?_
      cases outcome with
      | threw e => exact ⟨rfl, rfl⟩
      | returned v =>
          simp only [MeasuredStep, CallState.leave, hlistens.after]
          exact ⟨rfl, rfl⟩
  | switch switched own =>
      obtain ⟨call, contexts, hcall, rfl, _⟩ := hcases
      cases CallState.step_eq_some hcall
      exact iff_of_true trivial ⟨rfl, rfl⟩
  | turn other =>
      obtain ⟨call, contexts, hcall, rfl, _⟩ := hcases
      obtain ⟨_, rfl⟩ := CallState.step_eq_some hcall
      exact iff_of_true trivial ⟨rfl, rfl⟩

/-- Steps that keep to the conditions keep track of the invocations. -/
theorem Tracked.step (hn : n.Exact a) (hlistens : a.Listens i c)
    {s s' : ListenerState} {t : CallTurn} (hs : s.Tracked)
    (hlive : s.call.hooks.probe.Live) (hspared : s.Spared t)
    (hunshared : Unshared n c s t) (hstep : step a c s t = some s') :
    s'.Tracked := by
  have hcases := hs.step_cases hstep
  rcases t with ⟨stack, clock, event⟩
  have hresumed := hs.resumed stack
  have huntouched : ∀ m ∈ s.handlings, m.number = s.call.invocations →
      (s.call.resume stack).hooks.tracker.Untouched m.timer m.req
        (s.call.resume stack).hooks.tracker :=
    fun m hm hlast => ⟨(hresumed.running m hm hlast).sole, rfl⟩
  cases event with
  | enter =>
      obtain ⟨call, contexts, hcall, rfl, _⟩ := hcases
      obtain ⟨hidle, rfl⟩ := CallState.step_eq_some hcall
      have hnil := hs.idle hidle
      have hpending : s.call.pending = [] := by
        have hpaired := hs.paired
        rw [hnil] at hpaired
        exact List.eq_nil_of_length_eq_zero hpaired.symm
      simp only [hnil, CallState.enter, hlistens.before]
      refine tracked_nil contexts ?_ hpending
      unfold CallState.opened
      split <;> exact hresumed.wellFormed
  | invoke target args =>
      obtain ⟨⟨hcallback, hcalled⟩, rfl⟩ := hcases
      obtain ⟨halone, hneeds⟩ := hunshared
      rcases invoke_cases hn hlistens (s.call.resume stack) hcallback
        hlive clock target args with ⟨_, h, hbegun, hstate⟩ | ⟨hnot, _⟩
      · have hlength : ((s.call.resume stack).invoke a c clock target
            args).pending.length ≠
              (s.call.resume stack).pending.length := by
          rw [hstate]
          exact Nat.succ_ne_self _
        rw [halone] at hresumed ⊢
        rw [invoke_alone]
        dsimp only
        rw [if_neg hlength, hstate]
        exact hresumed.invoked rfl hcalled.1 hbegun rfl rfl rfl rfl
      · exact absurd hneeds hnot
  | complete outcome =>
      obtain ⟨halone, target, args, pending, m, rest, hpending, hhandlings,
        rfl⟩ := hcases
      obtain ⟨⟨v, rfl⟩, _⟩ := hunshared
      obtain ⟨timer, r, hdata, _⟩ :=
        hs.context (hhandlings ▸ List.cons_ne_nil m rest)
      obtain ⟨fields, hstate⟩ := complete_returned hlistens
        { s.call.resume stack with pending := pending } hlive
        hdata clock v target args
      obtain ⟨hwf, hcount, _⟩ :=
        i.measured_tracker clock timer r fields hresumed.wellFormed
      rw [hstate]
      exact hresumed.completed hhandlings hpending rfl rfl rfl hwf hcount
  | leave outcome =>
      obtain ⟨call, contexts, hcall, rfl, halone⟩ := hcases
      obtain ⟨hrunning, rfl⟩ := CallState.step_eq_some hcall
      have hthrew : Phase.threw ≠ .idle := by decide
      have hreturned : Phase.returned ≠ .idle := by decide
      cases outcome with
      | threw e =>
          exact hresumed.kept halone (fun h => absurd h hthrew) rfl rfl rfl
            hresumed.wellFormed (Nat.le_refl _) huntouched
      | returned v =>
          simp only [CallState.leave, hlistens.after]
          exact hresumed.kept halone (fun h => absurd h hreturned) rfl rfl rfl
            hresumed.wellFormed (Nat.le_refl _) huntouched
  | switch switched own =>
      obtain ⟨call, contexts, hcall, rfl, halone⟩ := hcases
      cases CallState.step_eq_some hcall
      exact hresumed.kept halone id rfl rfl rfl hresumed.wellFormed
        (Nat.le_refl _) huntouched
  | turn other =>
      obtain ⟨call, contexts, hcall, rfl, halone⟩ := hcases
      obtain ⟨hvalid, rfl⟩ := CallState.step_eq_some hcall
      have hlater := Tracker.perform_later hresumed.wellFormed clock hvalid
      refine hresumed.kept halone id rfl rfl rfl hlater.wellFormed
        hlater.requestCount fun m hm hlast => ?_
      exact (hresumed.running m hm hlast).sole.perform hresumed.wellFormed
        clock (hspared m hm hlast)

end Steps

end ListenerState

/-- Over every run of a registered listener, with metrics and requests on and
no other party stopping the timer of the last invocation while that is
pending: each invocation begins an operation, and its end raises one event
with the duration of that invocation and stops its request, if and only if
the method was wrapped once, the start hooks have what they need and every
invocation ends normally and before another one begins. -/
theorem listener_measures_iff {site : Site} {i : Instrument}
    (hsite : site.listener? = some i) (c : Call) (others : Nat) {init : HookState}
    (hwf : init.tracker.WellFormed) {run : List CallTurn} {t : ListenerState}
    (hrun : (listenerMachine site.advice c others init).run
      (listenerMachine site.advice c others init).init run = some t)
    (hlive : (listenerMachine site.advice c others init).Guarded
      (fun s _ => s.call.hooks.probe.Live)
      (listenerMachine site.advice c others init).init run)
    (hspared : (listenerMachine site.advice c others init).Guarded
      ListenerState.Spared (listenerMachine site.advice c others init).init run) :
    (listenerMachine site.advice c others init).Guarded
        (ListenerState.Unshared site.needs c)
        (listenerMachine site.advice c others init).init run ↔
      (listenerMachine site.advice c others init).Each
        (ListenerState.MeasuredStep i)
        (listenerMachine site.advice c others init).init run := by
  have hlistens := Site.listens hsite c
  have hinductive : (listenerMachine site.advice c others init).Inductive
      (fun s t => (s.call.hooks.probe.Live ∧ s.Spared t) ∧
        ListenerState.Unshared site.needs c s t) ListenerState.Tracked := by
    constructor
    case init => exact ListenerState.tracked_nil _ hwf rfl
    case step =>
      intro s t s' hs hC hstep
      exact hs.step (Site.needs_exact site) hlistens hC.1.1 hC.1.2 hC.2 hstep
  refine hinductive.guarded_iff_each ?_ hinductive.init (hlive.and hspared)
    hrun
  intro s t s' hs hB hstep
  exact hs.step_iff (Site.needs_exact site) hlistens hB.1 hstep

namespace ListenerWitness

open HookWitness OperationWitness

def onMachine : Machine ListenerState CallTurn :=
  listenerMachine Site.mqttListen.advice on 0 (inDomain "mqtt")

/-- Two messages, one after the other. -/
theorem measured_in_turn :
    onMachine.Each (ListenerState.MeasuredStep Mqtt.instrument)
      onMachine.init listened := by
  have hwf : (inDomain "mqtt").tracker.WellFormed :=
    (Tracker.createDomain_other _ (clock 0)).wellFormed
      Tracker.initial_wellFormed
  have hlive : onMachine.Guarded (fun s _ => s.call.hooks.probe.Live)
      onMachine.init listened := by
    decide +kernel
  have hspared : onMachine.Guarded ListenerState.Spared onMachine.init
      listened := by
    refine guarded_of_forall fun s e he => ?_
    simp only [listened, List.mem_cons, List.not_mem_nil, or_false] at he
    rcases he with rfl | rfl | rfl | rfl | rfl | rfl <;> trivial
  have hlast : onMachine.Guarded
      (fun s _ => ∀ m ∈ s.handlings.head?, m.number = s.call.invocations)
      onMachine.init listened := by
    decide +kernel
  have hnormal : onMachine.Guarded
      (fun _ e => ∀ outcome, e.event = .complete outcome →
        ∃ v, outcome = .returned v) onMachine.init listened := by
    refine guarded_of_forall fun s e he => ?_
    simp only [listened, List.mem_cons, List.not_mem_nil, or_false] at he
    rcases he with rfl | rfl | rfl | rfl | rfl | rfl <;> rintro _ ⟨⟩ <;>
      exact ⟨_, rfl⟩
  have hsingle : onMachine.Guarded (fun s _ => s.contexts = [])
      onMachine.init listened := by
    decide +kernel
  obtain ⟨t, hrun⟩ := Option.isSome_iff_exists.mp
    (show (onMachine.run onMachine.init listened).isSome = true by
      decide +kernel)
  have hsite : Site.mqttListen.listener? = some Mqtt.instrument := rfl
  refine (listener_measures_iff hsite on 0 hwf hrun hlive hspared).mp
    ((hsingle.and (hlast.and hnormal)).mono ?_)
  rintro s ⟨stack, now, event⟩ ⟨hsingle, hlast, hnormal⟩
  cases event with
  | invoke target args => exact ⟨hsingle, trivial⟩
  | complete outcome => exact ⟨hnormal outcome rfl, hlast⟩
  | _ => trivial

/-- A message that arrives while another is handled. -/
def overlapping : List CallTurn :=
  [⟨[0], clock 1, .enter⟩, ⟨[0], clock 2, .leave (.returned .undefined)⟩,
    ⟨[0], clock 3, .invoke .undefined message⟩,
    ⟨[0], clock 4, .invoke .undefined message⟩,
    ⟨[0], clock 5, .complete (.returned .undefined)⟩]

/-- The end of the first message. -/
def ends : CallTurn := ⟨[0], clock 6, .complete (.returned .undefined)⟩

/-- The requests of the invocations that are pending, and those that have
been stopped. -/
def requests (s : ListenerState) : List Nat × List Nat :=
  (s.handlings.map Handling.req, s.call.hooks.stopped)

/-- The end of the first message stops the request of the second one again. -/
theorem overlapping_shares :
    onMachine.Guarded (fun s _ => s.call.hooks.probe.Live) onMachine.init
      (overlapping ++ [ends]) ∧
    ¬onMachine.Each (ListenerState.MeasuredStep Mqtt.instrument)
      onMachine.init (overlapping ++ [ends]) := by
  refine ⟨by decide +kernel, fun h => ?_⟩
  obtain ⟨s, hs, hbefore⟩ := Option.map_eq_some_iff.mp
    (show (onMachine.run onMachine.init overlapping).map requests =
      some ([0], [1]) by decide +kernel)
  obtain ⟨s', hs', hafter⟩ := Option.map_eq_some_iff.mp
    (show (onMachine.run onMachine.init (overlapping ++ [ends])).map requests =
      some ([], [1, 1]) by decide +kernel)
  obtain ⟨hreqs, hstopped⟩ := Prod.mk.inj hbefore
  obtain ⟨m, hm, hreq⟩ := List.map_eq_singleton_iff.mp hreqs
  have hmeasured := h.last hs hs' m (by rw [hm]; rfl)
  have hends := hmeasured.stopped
  rw [(Prod.mk.inj hafter).2, hreq] at hends
  change [1, 1] = s.call.hooks.stopped ++ [0] at hends
  rw [hstopped] at hends
  cases hends

/-- The same socket has two connection listeners, so `on` is wrapped twice. -/
def twiceMachine : Machine ListenerState CallTurn :=
  listenerMachine Site.socketioListen.advice on 1 (inDomain "socket.io")

def registered : List CallTurn :=
  [⟨[0], clock 1, .enter⟩, ⟨[0], clock 2, .leave (.returned .undefined)⟩]

def arrives : CallTurn := ⟨[0], clock 3, .invoke .undefined message⟩

/-- One message starts two requests. -/
theorem wrapped_twice :
    twiceMachine.Guarded (fun s _ => s.call.hooks.probe.Live)
      twiceMachine.init (registered ++ [arrives]) ∧
    ¬twiceMachine.Each (ListenerState.MeasuredStep Socketio.instrument)
      twiceMachine.init (registered ++ [arrives]) := by
  refine ⟨by decide +kernel, fun h => ?_⟩
  let requestCount (s : ListenerState) := s.call.hooks.tracker.requestCount
  obtain ⟨s, hs, hbefore⟩ := Option.map_eq_some_iff.mp
    (show (twiceMachine.run twiceMachine.init registered).map requestCount =
      some 0 by decide +kernel)
  obtain ⟨s', hs', hafter⟩ := Option.map_eq_some_iff.mp
    (show (twiceMachine.run twiceMachine.init
      (registered ++ [arrives])).map requestCount = some 2 by decide +kernel)
  have hcount : requestCount s' = requestCount s + 1 :=
    (h.last hs hs').2.requestCount
  rw [hbefore, hafter] at hcount
  cases hcount

/-- Neither with overlapping messages nor with two wrappers. -/
theorem not_measured :
    ¬onMachine.Each (ListenerState.MeasuredStep Mqtt.instrument)
        onMachine.init (overlapping ++ [ends]) ∧
      ¬twiceMachine.Each (ListenerState.MeasuredStep Socketio.instrument)
        twiceMachine.init (registered ++ [arrives]) :=
  ⟨overlapping_shares.2, wrapped_twice.2⟩

end ListenerWitness

end Appmetrics
