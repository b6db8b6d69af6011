/-
What starts in a call ends: with the hooks live throughout, each invocation
of the callback and, without a callback, each normal return makes one end, in
every run of a call.
-/
import Appmetrics.SiteNeeds

namespace Appmetrics

open Effect StepMachine

namespace Tracker

/-- A later state of the same heap, in which no request has been revived. -/
structure Later (s s' : Tracker) : Prop where
  wellFormed : s'.WellFormed
  requestCount : s.requestCount ≤ s'.requestCount
  active : ∀ {r}, r < s.requestCount → s'.IsActive r → s.IsActive r

variable {clock : Clock} {s s' s'' : Tracker} {r : Nat}

theorem Later.trans (h : Later s s') (h' : Later s' s'') : Later s s'' where
  wellFormed := h'.wellFormed
  requestCount := h.requestCount.trans h'.requestCount
  active hr hactive :=
    h.active hr (h'.active (hr.trans_le h.requestCount) hactive)

theorem OtherEffect.later (h : OtherEffect clock s s')
    (hwf : s.WellFormed) : Later s s' where
  wellFormed := h.wellFormed hwf
  requestCount := h.requestCount.ge
  active _ hactive := by
    rw [IsActive, h.requests] at hactive
    exact hactive

theorem StopEffect.later (h : StopEffect clock s r s')
    (hwf : s.WellFormed) : Later s s' where
  wellFormed := h.stops.wellFormed hwf
  requestCount := h.stops.frame.requestCount.ge
  active _ hactive := h.stops.active_mono hactive

theorem startRequest_later (hwf : s.WellFormed) (clock : Clock)
    (type : Option String) (name : String) (root : Bool)
    {eventTimer : Option Nat}
    (htimer : ∀ t, eventTimer = some t → t < s.timerCount) :
    Later s (s.startRequest clock type name root eventTimer) where
  wellFormed := hwf.startRequest clock type name root eventTimer htimer
  requestCount := by
    rw [startRequest_requestCount]
    exact Nat.le_succ _
  active hr hactive := by
    rw [IsActive, startRequest_active hwf, if_neg (Nat.ne_of_lt hr)]
      at hactive
    exact hactive

theorem resume_later (hwf : s.WellFormed) (stack : List Nat) :
    Later s (s.resume stack) where
  wellFormed := resume_wellFormed hwf stack
  requestCount := Nat.le_refl _
  active _ hactive := hactive

theorem perform_later (hwf : s.WellFormed) (clock : Clock)
    {call : RequestCall} (hvalid : call.Valid s) :
    Later s (call.perform clock s) := by
  cases call with
  | createDomain => exact (createDomain_other s clock).later hwf
  | startTimer => exact (startTimer_other s clock).later hwf
  | stopTimer t => exact (stopTimer_other s clock t).later hwf
  | setConfig trace stack =>
      exact (setConfig_other s clock trace stack).later hwf
  | startRequest type name root eventTimer =>
      exact startRequest_later hwf clock type name root hvalid
  | startMethod name eventTimer =>
      exact startRequest_later hwf clock none name false hvalid
  | stop r => exact (stop_effect hwf clock r).later hwf

end Tracker

/-- Metrics and requests are on. -/
def Probe.Live (p : Probe) : Prop :=
  (p.metricsProbeStart = .live ∧ p.metricsProbeEnd = .live) ∧
    p.requestProbeStart = .live ∧ p.requestProbeEnd = .live

instance (p : Probe) : Decidable p.Live := instDecidableAnd

namespace Instrument

variable {i : Instrument} {c : Call} {clock : Clock} {s s' : HookState}

/-- A timer and a request have been started. -/
def Begun (clock : Clock) (s s' : HookState) : Prop :=
  ∃ spec, s' = requested clock (timed clock s) spec

/-- One event has been emitted and `stop` called on the request. -/
def Ended (i : Instrument) (clock : Clock) (timer r : Nat)
    (s s' : HookState) : Prop :=
  ∃ e : Emission, e.topic = i.topic ∧
    s' = { s with
      tracker := (s.tracker.stopTimer clock timer).stop clock r
      emitted := s.emitted ++ [e]
      stopped := s.stopped ++ [r] }

/-- The end hook has an event for this call. -/
def Tells (i : Instrument) (c : Call) : Prop :=
  ∀ extra, i.metrics c extra ≠ .ok none

theorem startHooks_begun (hlive : s.probe.Live)
    (hruns : i.startHooks c clock s = (.ok (), s')) : Begun clock s s' := by
  obtain ⟨⟨hmetrics, _⟩, hrequests, _⟩ := hlive
  have hstarts := (i.startHooks_returns c clock s).mp ⟨(), s', hruns⟩
  obtain ⟨⟨spec, hspec⟩, hassigns⟩ := hstarts hrequests
  rw [i.startHooks_ok c clock s hmetrics hrequests hspec hassigns] at hruns
  exact ⟨spec, (Prod.mk.inj hruns).2.symm⟩

/-- The request runs on the timer that has been started, or on one of its
own. -/
theorem Begun.tracker (hbegun : Begun clock s s') :
    ∃ type name root eventTimer,
      (∀ t, eventTimer = some t → t = s.tracker.timerCount) ∧
      s'.tracker = (s.tracker.startTimer clock).startRequest clock type name
        root eventTimer := by
  obtain ⟨spec, rfl⟩ := hbegun
  refine ⟨_, _, _, _, fun t ht => ?_, rfl⟩
  split at ht
  · exact (Option.some.inj ht).symm
  · cases ht

theorem Begun.probeData (hbegun : Begun clock s s') :
    s'.probeData =
      ⟨some s.tracker.timerCount, some s.tracker.requestCount⟩ := by
  obtain ⟨spec, rfl⟩ := hbegun
  rfl

theorem Begun.probe (hbegun : Begun clock s s') : s'.probe = s.probe := by
  obtain ⟨spec, rfl⟩ := hbegun
  rfl

theorem Begun.wellFormed (hbegun : Begun clock s s')
    (hwf : s.tracker.WellFormed) : s'.tracker.WellFormed := by
  obtain ⟨_, _, _, eventTimer, htimer, htracker⟩ := hbegun.tracker
  rw [htracker]
  have htimed := (Tracker.startTimer_other s.tracker clock).wellFormed hwf
  refine htimed.startRequest _ _ _ _ _ fun t ht => ?_
  rw [htimer t ht]
  exact Nat.lt_succ_self _

theorem Begun.requestCount (hbegun : Begun clock s s') :
    s'.tracker.requestCount = s.tracker.requestCount + 1 := by
  obtain ⟨_, _, _, eventTimer, _, htracker⟩ := hbegun.tracker
  rw [htracker, Tracker.startRequest_requestCount]
  rfl

/-- With both hooks live, on a set timer and a set request. -/
theorem endHooks_state {extra : List JsValue} {timer r : Nat}
    (hlive : s.probe.Live) (hdata : s.probeData = ⟨some timer, some r⟩)
    (hruns : i.endHooks c extra clock s = (.ok (), s')) :
    s' = requestEnded clock (i.metered c extra clock s timer) r ∧
      ∃ event, i.metrics c extra = .ok event := by
  obtain ⟨⟨_, hmetrics⟩, _, hrequests⟩ := hlive
  obtain ⟨hevent, hrequest⟩ :=
    (i.endHooks_returns c extra clock s).mp ⟨(), s', hruns⟩
  have hends : i.EndsMetrics c extra := hevent hmetrics (by simp [hdata])
  have hstops : i.EndsRequest c extra := by
    have h := hrequest hrequests
    rwa [if_neg (by simp [hdata])] at h
  obtain ⟨hprobe, hcontext, _⟩ := i.metricsEnd_frame c extra clock s
  have hmetered : (i.metricsEnd c extra clock s).2 =
      i.metered c extra clock s timer := by
    rw [metricsEnd_state, hdata]
  rw [hmetered] at hprobe hcontext
  have hfirst : i.metricsProbeEnd c extra clock s =
      (.ok (), i.metered c extra clock s timer) := by
    rw [metricsProbeEnd_eq, hmetrics, ← hmetered]
    exact i.metricsEnd_ok c extra clock s
      ((i.metricsEnd_returns c extra clock s).mpr fun _ => hends)
  have hsecond : i.requestProbeEnd c extra clock
      (i.metered c extra clock s timer) =
        (.ok (), requestEnded clock (i.metered c extra clock s timer) r) := by
    rw [requestProbeEnd_eq, hprobe, hrequests]
    exact i.requestEnd_ok c extra clock _ (by rw [hcontext, hdata]) hstops
  rw [endHooks, Comp.bind_ok hfirst, hsecond] at hruns
  obtain ⟨event, hshown, _⟩ := hends
  exact ⟨(Prod.mk.inj hruns).2.symm, event, hshown⟩

theorem endHooks_ended {extra : List JsValue} {timer r : Nat}
    (hlive : s.probe.Live) (hdata : s.probeData = ⟨some timer, some r⟩)
    (htells : i.Tells c)
    (hruns : i.endHooks c extra clock s = (.ok (), s')) :
    i.Ended clock timer r s s' := by
  obtain ⟨hstate, event, hshown⟩ := endHooks_state hlive hdata hruns
  cases event with
  | none => exact absurd hshown (htells extra)
  | some fields =>
      rw [requestEnded, metered, hshown] at hstate
      exact ⟨⟨i.topic, _, _, fields⟩, rfl, hstate⟩

end Instrument

namespace Advice

/-- The hooks of a method whose calls are operations of `i`: what is started
before the call is ended in the callback or, without one, after the call. -/
structure Operates (a : Advice) (i : Instrument) (c : Call) : Prop where
  fresh : a.fresh = true
  callback : a.callback c = Aspect.findCallbackArg c.methodArgs
  before : ∀ {clock s s'}, s.probe.Live →
    a.before c clock s = (.ok (), s') → Instrument.Begun clock s s'
  hookBefore : ∀ {target args clock s s' timer r}, s.probe.Live →
    s.probeData = ⟨some timer, some r⟩ →
    a.hookBefore c target args clock s = (.ok (), s') →
    i.Ended clock timer r s s'
  hookAfter : ∀ {target args clock s},
    a.hookAfter c target args clock s = (.ok (), s)
  after : ∀ hook ∈ a.after, ∀ {rc clock s v s'},
    hook c rc clock s = (.ok v, s') →
    if Aspect.findCallbackArg c.methodArgs = none then
      s.probe.Live → ∀ timer r, s.probeData = ⟨some timer, some r⟩ →
        i.Ended clock timer r s s'
    else s' = s

theorem endWithoutCallback_cases {c : Call} {ends : Js Unit}
    {s s' : HookState} {P : Prop}
    (hruns : endWithoutCallback c ends s = (.ok (), s'))
    (hends : ends s = (.ok (), s') → P) :
    if Aspect.findCallbackArg c.methodArgs = none then P else s' = s := by
  rw [endWithoutCallback] at hruns
  split at hruns
  · next hcallback =>
      rw [if_pos hcallback]
      exact hends hruns
  · next hcallback =>
      rw [if_neg hcallback]
      exact (Prod.mk.inj hruns).2.symm

theorem operation_operates {i : Instrument} {c : Call}
    {reads : Call → Except JsError Unit}
    {extra : Call → Option (List JsValue) → Except JsError (List JsValue)}
    (around passes : Bool) (htells : i.Tells c)
    (htold : i.Tells c.advised) :
    (operation i around passes reads extra).Operates i c where
  fresh := rfl
  callback := rfl
  before hlive hruns := by
    obtain ⟨_, hruns⟩ := Comp.eval_bind_eq_ok.mp hruns
    exact Instrument.startHooks_begun hlive hruns.2
  hookBefore hlive hdata hruns := by
    obtain ⟨more, _, hruns⟩ := Comp.eval_bind_eq_ok.mp hruns
    exact Instrument.endHooks_ended hlive hdata htold hruns
  hookAfter := rfl
  after hook hhook := by
    cases around with
    | false => cases hhook
    | true =>
        cases hhook
        intro rc clock s v s' hruns
        obtain ⟨_, _, hruns⟩ := Comp.eval_bind_eq_ok.mp hruns
        obtain ⟨_, hruns, _⟩ := Comp.bind_pure_eq_ok.mp hruns
        apply endWithoutCallback_cases hruns
        intro hends hlive timer r hdata
        obtain ⟨more, _, hends⟩ := Comp.eval_bind_eq_ok.mp hends
        exact Instrument.endHooks_ended hlive hdata htells hends

end Advice

theorem Redis.operation_operates {told : Call → Call} {c : Call} :
    (operation told).Operates instrument c where
  fresh := rfl
  callback := rfl
  before hlive hruns := Instrument.startHooks_begun hlive hruns
  hookBefore hlive hdata hruns :=
    Instrument.endHooks_ended hlive hdata (fun _ => nofun) hruns
  hookAfter := rfl
  after hook hhook := by
    cases hhook
    intro rc clock s v s' hruns
    obtain ⟨_, hruns, _⟩ := Comp.bind_pure_eq_ok.mp hruns
    apply Advice.endWithoutCallback_cases hruns
    intro hends hlive timer r hdata
    exact Instrument.endHooks_ended hlive hdata (fun _ => nofun) hends

namespace Site

/-- What the hooks of a method do that starts before the call what it ends in
the callback or after the call. -/
def instrument? : Site → Option Instrument
  | axonSend _ => some Axon.instrument
  | riak => some Riak.instrument
  | outbound https _ => some (Outbound.instrument (Outbound.topic https))
  | leveldown => some Leveldown.instrument
  | loopback => some Loopback.instrument
  | memcached => some Memcached.instrument
  | mongoCollection => some Mongo.instrument
  | mqlightSend _ => some Mqlight.instrument
  | mqttPublish => some Mqtt.instrument
  | mysqlQuery => some Mysql.instrument
  | oracleExecute => some Oracle.instrument
  | oracledbExecute => some (Oracledb.instrument "oracledb")
  | strongOracleExecute => some (Oracledb.instrument "strong-oracle")
  | postgresQuery => some Postgres.instrument
  | redisCommand => some Redis.instrument
  | redisExec _ => some Redis.instrument
  | strongMqPublish _ => some StrongMq.instrument
  | _ => none

/-- The call is one of a method that the probe instruments, where the events
differ from method to method. -/
def Named (site : Site) (c : Call) : Prop :=
  match site with
  | leveldown => ∃ name ∈ ["put", "get", "del", "batch"], c.named name = true
  | mqlightSend _ => c.named "send" = true
  | _ => True

theorem bind_ne_none {A : Type} {x : Except JsError A}
    {f : A → Except JsError (Option Fields)} (hf : ∀ a, f a ≠ .ok none) :
    (x >>= f) ≠ .ok none := by
  cases x with
  | error e => nofun
  | ok a => exact hf a

theorem some_ne_none (fields : Fields) :
    (.ok (some fields) : Except JsError (Option Fields)) ≠ .ok none := nofun

/-- Every probe but leveldown's and mqlight's has an event for any call. -/
def Telling (i : Instrument) : Prop := ∀ c, i.Tells c

theorem outbound_telling (topic : String) :
    Telling (Outbound.instrument topic) :=
  fun _ _ => bind_ne_none fun _ => bind_ne_none fun _ => some_ne_none _

theorem mongo_telling : Telling Mongo.instrument :=
  fun _ _ => bind_ne_none fun _ => some_ne_none _

theorem mqtt_telling : Telling Mqtt.instrument :=
  fun _ _ => bind_ne_none fun _ => some_ne_none _

theorem mysql_telling : Telling Mysql.instrument :=
  fun _ _ => bind_ne_none fun _ => some_ne_none _

theorem leveldown_tells {c : Call} (hnamed : leveldown.Named c) :
    Leveldown.instrument.Tells c := by
  obtain ⟨name, hname, hc⟩ := hnamed
  intro extra
  simp only [Leveldown.instrument]
  split
  · exact some_ne_none _
  · next hput =>
      split
      · exact some_ne_none _
      · next hget =>
          split
          · exact bind_ne_none fun _ => some_ne_none _
          · next hbatch =>
              rw [Bool.or_eq_true] at hget
              simp only [List.mem_cons, List.not_mem_nil, or_false] at hname
              rcases hname with rfl | rfl | rfl | rfl
              · exact absurd hc hput
              · exact absurd (Or.inr hc) hget
              · exact absurd (Or.inl hc) hget
              · exact absurd hc hbatch

theorem mqlightSend_tells {c : Call} (hsend : c.named "send" = true) :
    Mqlight.instrument.Tells c := by
  intro extra
  simp only [Mqlight.instrument, if_pos hsend]
  split
  · exact bind_ne_none fun _ => bind_ne_none fun _ => bind_ne_none fun _ =>
      bind_ne_none fun _ => some_ne_none _
  · exact bind_ne_none fun _ => bind_ne_none fun _ => bind_ne_none fun _ =>
      some_ne_none _

theorem operates {site : Site} {i : Instrument} {c : Call}
    (hi : site.instrument? = some i) (hnamed : site.Named c) :
    site.advice.Operates i c := by
  have hplain {i : Instrument} {around passes : Bool} (h : Telling i) :
      (Advice.plain i around passes).Operates i c :=
    Advice.operation_operates around passes (h c) (h c.advised)
  cases site with
  | axonSend socketType =>
      cases hi
      change (Axon.send socketType).Operates Axon.instrument c
      exact Advice.operation_operates true true (fun _ => some_ne_none _)
        fun _ => some_ne_none _
  | leveldown =>
      cases hi
      change (Advice.plain Leveldown.instrument false true).Operates _ c
      exact Advice.operation_operates false true (leveldown_tells hnamed)
        (leveldown_tells (c := c.advised) hnamed)
  | mqlightSend client =>
      cases hi
      change (Mqlight.send client).Operates _ c
      exact Advice.operation_operates true true (mqlightSend_tells hnamed)
        (mqlightSend_tells (c := c.advised) hnamed)
  | strongMqPublish socketType =>
      cases hi
      change (StrongMq.publish socketType).Operates _ c
      exact Advice.operation_operates true true (fun _ => some_ne_none _)
        fun _ => some_ne_none _
  | redisCommand =>
      cases hi
      exact Redis.operation_operates
  | redisExec eventName =>
      cases hi
      exact Redis.operation_operates
  | outbound https urlParses =>
      cases hi
      change (Outbound.request https urlParses).Operates _ c
      exact Advice.operation_operates true true (outbound_telling _ c)
        (outbound_telling _ c.advised)
  | mongoCollection =>
      cases hi
      change Mongo.collectionMethod.Operates _ c
      exact Advice.operation_operates true true (mongo_telling c)
        (mongo_telling c.advised)
  | mqttPublish =>
      cases hi
      exact hplain mqtt_telling
  | mysqlQuery =>
      cases hi
      exact hplain mysql_telling
  | _ =>
      cases hi
      all_goals exact hplain fun _ _ => some_ne_none _

end Site

/-- `n` ends since `init`: as many events of the instrument and as many calls
of `stop` on the request, after the first of which it stays stopped. -/
structure EndedTimes (i : Instrument) (init : HookState) (timer r n : Nat)
    (s : HookState) : Prop where
  wellFormed : s.tracker.WellFormed
  started : r < s.tracker.requestCount
  probeData : s.probeData = ⟨some timer, some r⟩
  emitted : ∃ events : List Emission, s.emitted = init.emitted ++ events ∧
    events.length = n ∧ ∀ e ∈ events, e.topic = i.topic
  stopped : s.stopped = init.stopped ++ List.replicate n r
  inactive : 0 < n → ¬s.tracker.IsActive r

namespace EndedTimes

variable {i : Instrument} {init s s' : HookState} {timer r n : Nat}
  {clock : Clock}

theorem of_begun (hwf : s.tracker.WellFormed)
    (hemitted : s.emitted = init.emitted) (hstopped : s.stopped = init.stopped)
    (hbegun : Instrument.Begun clock s s') :
    EndedTimes i init s.tracker.timerCount s.tracker.requestCount 0 s' := by
  constructor
  case wellFormed => exact hbegun.wellFormed hwf
  case started =>
    rw [hbegun.requestCount]
    exact Nat.lt_succ_self s.tracker.requestCount
  case probeData => exact hbegun.probeData
  case emitted =>
    refine ⟨[], ?_, rfl, nofun⟩
    obtain ⟨spec, rfl⟩ := hbegun
    exact hemitted.trans (List.append_nil _).symm
  case stopped =>
    obtain ⟨spec, rfl⟩ := hbegun
    exact hstopped.trans (List.append_nil _).symm
  case inactive => exact fun h => absurd h (Nat.lt_irrefl 0)

theorem later (h : EndedTimes i init timer r n s)
    (hlater : Tracker.Later s.tracker s'.tracker)
    (hdata : s'.probeData = s.probeData) (hemitted : s'.emitted = s.emitted)
    (hstopped : s'.stopped = s.stopped) :
    EndedTimes i init timer r n s' where
  wellFormed := hlater.wellFormed
  started := h.started.trans_le hlater.requestCount
  probeData := hdata.trans h.probeData
  emitted := by
    rw [hemitted]
    exact h.emitted
  stopped := hstopped.trans h.stopped
  inactive hn hactive := h.inactive hn (hlater.active h.started hactive)

theorem ended (h : EndedTimes i init timer r n s)
    (hended : i.Ended clock timer r s s') :
    EndedTimes i init timer r (n + 1) s' := by
  obtain ⟨e, htopic, rfl⟩ := hended
  have htimer := (Tracker.stopTimer_other s.tracker clock timer).later
    h.wellFormed
  have heffect := Tracker.stop_effect htimer.wellFormed clock r
  have hlater := htimer.trans (heffect.later htimer.wellFormed)
  constructor
  case wellFormed => exact hlater.wellFormed
  case started => exact h.started.trans_le hlater.requestCount
  case probeData => exact h.probeData
  case emitted =>
    obtain ⟨events, hevents, hlength, htopics⟩ := h.emitted
    refine ⟨events ++ [e], ?_, ?_, ?_⟩
    · rw [← List.append_assoc, ← hevents]
    · rw [List.length_append, hlength, List.length_singleton]
    · rw [List.forall_mem_append, List.forall_mem_singleton]
      exact ⟨htopics, htopic⟩
  case stopped =>
    rw [List.replicate_succ', ← List.append_assoc, ← h.stopped]
  case inactive =>
    exact fun _ => heffect.stops.inactive r (List.mem_singleton_self r)

end EndedTimes

/-- A request that is still active when it ends is not left current in the
domain that the hook runs in. -/
theorem Instrument.Ended.not_current {i : Instrument} {clock : Clock}
    {timer r : Nat} {s s' : HookState} (hended : i.Ended clock timer r s s')
    (hwf : s.tracker.WellFormed) (hactive : s.tracker.IsActive r) {d : Nat}
    (hd : s.tracker.processDomain = some d) :
    s'.tracker.currentRequest d ≠ some r := by
  obtain ⟨_, _, rfl⟩ := hended
  have hother := Tracker.stopTimer_other s.tracker clock timer
  have heffect := Tracker.stop_effect (hother.wellFormed hwf) clock r
  have hcurrent := heffect.current hactive d hd
  intro hr
  rw [hcurrent, hother.parentOf] at hr
  exact Nat.lt_irrefl r (hwf.parent_lt hr)

namespace CallState

variable {a : Advice} {i : Instrument} {c : Call} {init : HookState}

/-- The ends that are due: one for each invocation of the callback, and one
for a normal return without a callback. -/
def ends (c : Call) (s : CallState) : Nat :=
  s.invocations +
    if s.phase = .returned ∧ Aspect.findCallbackArg c.methodArgs = none then
      1
    else 0

/-- What a step does when its hooks are live and get through. -/
inductive StepEffect (a : Advice) (i : Instrument) (c : Call) (t : CallTurn)
    (s s' : CallState) : Prop
  | begins (hidle : s.phase = .idle) (hbegun : s'.phase ≠ .idle)
      (hstarts : Instrument.Begun t.clock
        (opened a (s.resume t.stack).hooks) s'.hooks)
      (hcount : s'.ends c = s.ends c)
  | ends (hbegun : s.phase ≠ .idle) (hbegun' : s'.phase ≠ .idle)
      (hended : ∀ timer r, s.hooks.probeData = ⟨some timer, some r⟩ →
        i.Ended t.clock timer r (s.resume t.stack).hooks s'.hooks)
      (hcount : s'.ends c = s.ends c + 1)
  | other (hphase : s'.phase = .idle ↔ s.phase = .idle)
      (hlater : s.hooks.tracker.WellFormed →
        Tracker.Later s.hooks.tracker s'.hooks.tracker)
      (hdata : s'.hooks.probeData = s.hooks.probeData)
      (hemitted : s'.hooks.emitted = s.hooks.emitted)
      (hstopped : s'.hooks.stopped = s.hooks.stopped)
      (hcount : s'.ends c = s.ends c)

section Steps

variable (hoperates : a.Operates i c) {s : CallState} {t : CallTurn}

/-- Only the phase of a call without hooks of its own changes. -/
theorem StepEffect.of_resume {s' : CallState}
    (hphase : s'.phase = .idle ↔ s.phase = .idle)
    (hhooks : s'.hooks = (s.resume t.stack).hooks)
    (hcount : s'.ends c = s.ends c) : StepEffect a i c t s s' := by
  apply StepEffect.other hphase _ _ _ _ hcount
  · intro hwf
    rw [hhooks]
    exact Tracker.resume_later hwf t.stack
  · rw [hhooks]
    rfl
  · rw [hhooks]
    rfl
  · rw [hhooks]
    rfl

include hoperates

theorem enter_effect (hlive : s.hooks.probe.Live) (hidle : s.phase = .idle)
    (hruns : ((s.resume t.stack).enter a c t.clock).seen =
      some (.called (a.receiver c) (a.passed c))) :
    StepEffect a i c t s ((s.resume t.stack).enter a c t.clock) := by
  obtain ⟨⟨⟩, h, hbefore⟩ := enter_seen.mp hruns
  have hstarts := hoperates.before
    (by rw [opened_probe]; exact hlive) hbefore
  rw [enter, hbefore]
  have hrunning : Phase.running ≠ .idle := by decide
  refine StepEffect.begins hidle hrunning hstarts ?_
  simp [CallState.ends, resume, hidle]

theorem invoke_effect (hlive : s.hooks.probe.Live) (hcalled : s.Called)
    {target : JsValue} {args : List JsValue}
    (hruns : ((s.resume t.stack).invoke a c t.clock target args).seen =
      some (.called target args)) :
    StepEffect a i c t s
      ((s.resume t.stack).invoke a c t.clock target args) := by
  obtain ⟨⟨⟩, h, hbefore⟩ := invoke_seen.mp hruns
  rw [invoke, hbefore]
  refine StepEffect.ends hcalled.1 hcalled.1 ?_ ?_
  · intro timer r hdata
    exact hoperates.hookBefore hlive hdata hbefore
  · exact Nat.add_right_comm _ _ _

theorem complete_effect {target : JsValue} {args : List JsValue}
    {pending : List (JsValue × List JsValue)} (outcome : Outcome) :
    StepEffect a i c t s
      (({ s.resume t.stack with pending := pending } :
        CallState).complete a c t.clock outcome target args) := by
  cases outcome with
  | threw e => exact .of_resume Iff.rfl rfl rfl
  | returned v =>
      rw [complete]
      simp only [hoperates.hookAfter]
      exact .of_resume Iff.rfl rfl rfl

theorem leave_effect (hlive : s.hooks.probe.Live)
    (hrunning : s.phase = .running)
    (hafter : Aspect.findCallbackArg c.methodArgs = none →
      a.after.isSome = true) {outcome : Outcome}
    (hruns : ∀ e, ((s.resume t.stack).leave a c t.clock outcome).seen ≠
      some (.hookThrew e)) :
    StepEffect a i c t s
      ((s.resume t.stack).leave a c t.clock outcome) := by
  have hbegun : s.phase ≠ .idle := by simp [hrunning]
  have hthrew : Phase.threw ≠ .idle := by decide
  have hreturned : Phase.returned ≠ .idle := by decide
  cases outcome with
  | threw e =>
      refine .of_resume (iff_of_false hthrew hbegun) rfl ?_
      simp [CallState.ends, leave, resume, hrunning]
  | returned rc =>
      cases hhook : a.after with
      | none =>
          have hcallback : Aspect.findCallbackArg c.methodArgs ≠ none := by
            intro hnone
            rw [hhook] at hafter
            cases hafter hnone
          rw [leave]
          simp only [hhook]
          refine .of_resume (iff_of_false hreturned hbegun) rfl ?_
          simp [CallState.ends, resume, hcallback]
      | some hook =>
          obtain ⟨v, h, hreturns⟩ := (leave_returns hhook).mp hruns
          have hended := hoperates.after hook hhook hreturns
          rw [leave]
          simp only [hhook, hreturns]
          split at hended
          · next hcallback =>
              refine .ends hbegun hreturned (hended hlive) ?_
              simp [CallState.ends, resume, hrunning, hcallback]
          · next hcallback =>
              subst hended
              refine .of_resume (iff_of_false hreturned hbegun)
                rfl ?_
              simp [CallState.ends, resume, hcallback]

/-- Everything a step of an operation can do. -/
theorem step_effect {s' : CallState} (hlive : s.hooks.probe.Live)
    (hafter : Aspect.findCallbackArg c.methodArgs = none →
      a.after.isSome = true)
    (hruns : Runs a c t s') (hstep : step a c s t = some s') :
    StepEffect a i c t s s' := by
  have hcases := step_eq_some hstep
  rcases t with ⟨stack, clock, event⟩
  cases event with
  | enter =>
      obtain ⟨hidle, rfl⟩ := hcases
      exact enter_effect hoperates (t := ⟨stack, clock, .enter⟩) hlive hidle
        hruns
  | invoke target args =>
      obtain ⟨⟨_, hcalled⟩, rfl⟩ := hcases
      exact invoke_effect hoperates (t := ⟨stack, clock, .invoke target args⟩)
        hlive hcalled hruns
  | complete outcome =>
      obtain ⟨target, args, pending, _, rfl⟩ := hcases
      exact complete_effect hoperates (t := ⟨stack, clock, .complete outcome⟩)
        outcome
  | leave outcome =>
      obtain ⟨hrunning, rfl⟩ := hcases
      exact leave_effect hoperates (t := ⟨stack, clock, .leave outcome⟩) hlive
        hrunning hafter hruns
  | switch call own =>
      cases hcases
      exact .other Iff.rfl (Tracker.resume_later · stack) rfl rfl rfl rfl
  | turn call =>
      obtain ⟨hvalid, rfl⟩ := hcases
      refine .other Iff.rfl (fun hwf => ?_) rfl rfl rfl rfl
      have hresume := Tracker.resume_later hwf stack
      exact hresume.trans
        (Tracker.perform_later hresume.wellFormed clock hvalid)

end Steps

/-- Before the call nothing has been made and nothing is due; from then on
every end that is due has been made. -/
def EndsDue (i : Instrument) (c : Call) (init : HookState)
    (s : CallState) : Prop :=
  if s.phase = .idle then
    s.ends c = 0 ∧ s.hooks.tracker.WellFormed ∧
      s.hooks.emitted = init.emitted ∧ s.hooks.stopped = init.stopped
  else ∃ timer r, EndedTimes i init timer r (s.ends c) s.hooks

theorem EndsDue.wellFormed {s : CallState} (h : s.EndsDue i c init) :
    s.hooks.tracker.WellFormed := by
  rw [EndsDue] at h
  split at h
  · exact h.2.1
  · obtain ⟨_, _, htimes⟩ := h
    exact htimes.wellFormed

theorem StepEffect.endsDue {s s' : CallState} {t : CallTurn}
    (heffect : StepEffect a i c t s s') (hdue : s.EndsDue i c init) :
    s'.EndsDue i c init := by
  have hwf := hdue.wellFormed
  unfold EndsDue at hdue ⊢
  cases heffect with
  | begins hidle hbegun hstarts hcount =>
      rw [if_pos hidle] at hdue
      obtain ⟨hzero, _, hemitted, hstopped⟩ := hdue
      rw [if_neg hbegun, hcount, hzero]
      have hopened : (opened a (s.resume t.stack).hooks).tracker =
          (s.resume t.stack).hooks.tracker ∧
          (opened a (s.resume t.stack).hooks).emitted = s.hooks.emitted ∧
          (opened a (s.resume t.stack).hooks).stopped = s.hooks.stopped := by
        unfold opened
        split <;> exact ⟨rfl, rfl, rfl⟩
      have hresume : (opened a (s.resume t.stack).hooks).tracker.WellFormed :=
        hopened.1 ▸ Tracker.resume_wellFormed hwf t.stack
      exact ⟨_, _, .of_begun hresume (hopened.2.1.trans hemitted)
        (hopened.2.2.trans hstopped) hstarts⟩
  | ends hbegun hbegun' hended hcount =>
      rw [if_neg hbegun] at hdue
      obtain ⟨timer, r, htimes⟩ := hdue
      rw [if_neg hbegun', hcount]
      have hresumed : EndedTimes i init timer r (s.ends c)
          (s.resume t.stack).hooks :=
        htimes.later (Tracker.resume_later hwf t.stack) rfl rfl rfl
      exact ⟨timer, r, hresumed.ended (hended timer r htimes.probeData)⟩
  | other hphase hlater hdata hemitted hstopped hcount =>
      simp only [hphase, hcount]
      split at hdue
      · next hidle =>
          rw [if_pos hidle, hemitted, hstopped]
          exact ⟨hdue.1, (hlater hwf).wellFormed, hdue.2.2⟩
      · next hbegun =>
          obtain ⟨timer, r, htimes⟩ := hdue
          rw [if_neg hbegun]
          exact ⟨timer, r, htimes.later (hlater hwf) hdata hemitted hstopped⟩

/-- Where the step makes an end of a request that is still active. -/
theorem StepEffect.not_current {s s' : CallState} {t : CallTurn}
    (heffect : StepEffect a i c t s s') (hdue : s.EndsDue i c init)
    (hends : s.ends c < s'.ends c) {r d : Nat}
    (hr : s.hooks.probeData.req = some r)
    (hactive : s.hooks.tracker.IsActive r) (hd : t.stack.head? = some d) :
    s'.hooks.tracker.currentRequest d ≠ some r := by
  cases heffect with
  | begins _ _ _ hcount => exact absurd hcount (Nat.ne_of_gt hends)
  | other _ _ _ _ _ hcount => exact absurd hcount (Nat.ne_of_gt hends)
  | ends hbegun _ hended _ =>
      have hwf := hdue.wellFormed
      rw [EndsDue, if_neg hbegun] at hdue
      obtain ⟨timer, r', htimes⟩ := hdue
      rw [htimes.probeData] at hr
      cases hr
      exact (hended timer r htimes.probeData).not_current
        (Tracker.resume_wellFormed hwf t.stack) hactive hd

end CallState

/-- Over every run of every call of an operation, from any state: while
metrics and requests are on and the hooks get through, each invocation of the
callback and, without one, the normal return emits one event and stops the
request.  Nothing else does, so a call that throws ends nothing by that. -/
theorem operation_ends (site : Site) (i : Instrument)
    (hi : site.instrument? = some i) (c : Call) (hnamed : site.Named c)
    (hafter : Aspect.findCallbackArg c.methodArgs = none →
      site.advice.after.isSome = true)
    (init : HookState) (hinit : init.tracker.WellFormed)
    {run : List CallTurn} {t : CallState}
    (hrun : (callMachine site.advice c init).run
      (callMachine site.advice c init).init run = some t)
    (hruns : (callMachine site.advice c init).Guarded
      (fun s t => site.needs.Met site.advice c s t ∧ s.hooks.probe.Live)
      (callMachine site.advice c init).init run) :
    (t.phase ≠ .idle → ∃ timer r, EndedTimes i init timer r (t.ends c)
      t.hooks) ∧
    (callMachine site.advice c init).Each
      (fun s t s' => s.ends c < s'.ends c →
        ∀ r ∈ s.hooks.probeData.req, s.hooks.tracker.IsActive r →
          ∀ d ∈ t.stack.head?, s'.hooks.tracker.currentRequest d ≠ some r)
      (callMachine site.advice c init).init run := by
  have heffect {s s' : CallState} {t : CallTurn}
      (hC : site.needs.Met site.advice c s t ∧ s.hooks.probe.Live)
      (hstep : (callMachine site.advice c init).step s t = some s') :
      CallState.StepEffect site.advice i c t s s' :=
    CallState.step_effect (Site.operates hi hnamed) hC.2 hafter
      ((CallState.met_iff_runs site.needs_exact hstep).mp hC.1) hstep
  have hinductive : (callMachine site.advice c init).Inductive
      (fun s t => site.needs.Met site.advice c s t ∧ s.hooks.probe.Live)
      (CallState.EndsDue i c init) := by
    constructor
    case init => exact ⟨rfl, hinit, rfl, rfl⟩
    case step =>
      intro s t s' hdue hC hstep
      exact (heffect hC hstep).endsDue hdue
  constructor
  · intro hbegun
    have hdue := hinductive.run hruns hrun
    rw [CallState.EndsDue, if_neg hbegun] at hdue
    exact hdue
  · apply hinductive.each _ hruns
    intro s t s' hdue hC hstep hends r hr hactive d hd
    exact (heffect hC hstep).not_current hdue hends hr hactive hd

namespace OperationWitness

open HookWitness

/-- Everything on, in a process with one domain. -/
def inDomain (name : String) : HookState :=
  { allOn name with tracker := Tracker.initial.createDomain }

def get : Call := ⟨object, .string "get", [.string "key", callback]⟩

/-- One answer, in the domain of the call. -/
def answered : List CallTurn :=
  [⟨[0], clock 1, .enter⟩, ⟨[0], clock 2, .leave (.returned .undefined)⟩,
    ⟨[0], clock 3, .invoke .undefined []⟩]

def getMachine : Machine CallState CallTurn :=
  callMachine Site.memcached.advice get (inDomain "memcached")

/-- A subscription. -/
def on : Call := ⟨object, .string "on", [.string "message", callback]⟩

def message : List JsValue := [.string "topic", .string "text"]

def listened : List CallTurn :=
  [⟨[0], clock 1, .enter⟩, ⟨[0], clock 2, .leave (.returned .undefined)⟩,
    ⟨[0], clock 3, .invoke .undefined message⟩,
    ⟨[0], clock 4, .complete (.returned .undefined)⟩,
    ⟨[0], clock 5, .invoke .undefined message⟩,
    ⟨[0], clock 6, .complete (.returned .undefined)⟩]

/-- The original throws; the callback is invoked twice, or outside the domain
of the call; a listener makes an operation of each message. -/
theorem not_ended_once :
    (getMachine.run getMachine.init
        [⟨[0], clock 1, .enter⟩,
          ⟨[0], clock 2, .leave (.threw (.typeError "no server"))⟩]).map
      (fun s => (s.phase, s.hooks.emitted.length, s.hooks.stopped,
        s.hooks.tracker.currentRequest 0)) =
        some (.threw, 0, [], some 0) ∧
    (getMachine.run getMachine.init
        (answered ++ [⟨[0], clock 4, .invoke .undefined []⟩])).map
      (fun s => (s.invocations, s.hooks.emitted.length)) = some (2, 2) ∧
    (getMachine.run getMachine.init
        [⟨[0], clock 1, .enter⟩,
          ⟨[0], clock 2, .leave (.returned .undefined)⟩,
          ⟨[], clock 3, .invoke .undefined []⟩]).map
      (fun s => (s.hooks.stopped, (s.hooks.tracker.requests 0).active,
        s.hooks.tracker.currentRequest 0)) = some ([0], false, some 0) ∧
    ((callMachine Site.mqttListen.advice on (inDomain "mqtt")).run
        (callMachine Site.mqttListen.advice on (inDomain "mqtt")).init
        listened).map
      (fun s => (s.invocations, s.hooks.emitted.length)) = some (2, 2) := by
  decide +kernel

theorem operation_ends_get :
    ∃ t timer r, getMachine.run getMachine.init answered = some t ∧
      EndedTimes Memcached.instrument (inDomain "memcached") timer r 1
        t.hooks := by
  have hguard : getMachine.Guarded
      (fun s t => Site.memcached.needs.Met Site.memcached.advice get s t ∧
        s.hooks.probe.Live) getMachine.init answered := by
    refine ⟨⟨trivial, by decide⟩, ?_⟩
    rintro _ ⟨⟩
    refine ⟨⟨fun _ => trivial, by decide⟩, ?_⟩
    rintro _ ⟨⟩
    refine ⟨⟨trivial, by decide⟩, ?_⟩
    rintro _ ⟨⟩
    trivial
  obtain ⟨hends, _⟩ := operation_ends Site.memcached _ rfl get trivial nofun
    (inDomain "memcached")
    ((Tracker.createDomain_other _ (clock 0)).wellFormed
      Tracker.initial_wellFormed) rfl hguard
  obtain ⟨timer, r, htimes⟩ := hends nofun
  exact ⟨_, timer, r, rfl, htimes⟩

end OperationWitness

end Appmetrics
