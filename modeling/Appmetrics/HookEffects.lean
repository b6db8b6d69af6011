/-
What the hooks do, and exactly when they return.
-/
import Appmetrics.Hooks
import Appmetrics.RequestStop

namespace Appmetrics

open Effect

namespace Instrument

variable (i : Instrument) (c : Call) (extra : List JsValue) (clock : Clock)
  (s : HookState)

/-! ## Start hooks -/

/-- `requestStart` gets through. -/
def StartsRequest : Prop :=
  (∃ spec, i.request c = .ok spec) ∧ i.assigns = true

/-- The state after `metricsStart`. -/
def timed : HookState :=
  { s with
    tracker := s.tracker.startTimer clock
    probeData := { s.probeData with timer := some s.tracker.timerCount } }

/-- The state after `requestStart`. -/
def requested (spec : RequestSpec) : HookState :=
  { s with
    tracker := s.tracker.startRequest clock (some spec.type)
      spec.name.asName spec.root
      (if spec.timed then s.probeData.timer else none)
    probeData := { s.probeData with req := some s.tracker.requestCount } }

theorem requestStart_ok {spec : RequestSpec} (hspec : i.request c = .ok spec)
    (hassigns : i.assigns = true) :
    i.requestStart c clock s = (.ok (), requested clock s spec) := by
  simp only [requestStart, Comp.bind_apply, Comp.eval_apply, hspec,
    Comp.get_apply, Comp.modify_apply, hassigns, ↓reduceIte]
  rfl

theorem requestStart_returns :
    (i.requestStart c clock).Returns s ↔ i.StartsRequest c := by
  constructor
  · intro h
    rcases hspec : i.request c with _ | spec
    · rw [requestStart, Comp.Returns, Comp.bind_error (by rw [
        Comp.eval_apply, hspec])] at h
      simp at h
    · cases hassigns : i.assigns with
      | true => exact ⟨⟨spec, hspec⟩, hassigns⟩
      | false =>
          simp [Comp.Returns, requestStart, Comp.bind_apply, hspec,
            hassigns] at h
  · rintro ⟨⟨spec, hspec⟩, hassigns⟩
    exact ⟨(), _, i.requestStart_ok c clock s hspec hassigns⟩

theorem metricsProbeStart_eq :
    metricsProbeStart clock s =
      (.ok (), match s.probe.metricsProbeStart with
        | .live => timed clock s
        | .stub => s) := by
  rw [metricsProbeStart, Comp.bind_ok (Comp.get_apply s)]
  cases s.probe.metricsProbeStart <;> rfl

/-- The start hooks return unless the request hook is live and fails. -/
theorem startHooks_returns :
    (i.startHooks c clock).Returns s ↔
      (s.probe.requestProbeStart = .live → i.StartsRequest c) := by
  rw [startHooks, Comp.returns_bind_of_ok (metricsProbeStart_eq clock s)]
  have hprobe : (match s.probe.metricsProbeStart with
      | .live => timed clock s
      | .stub => s).probe = s.probe := by
    cases s.probe.metricsProbeStart <;> rfl
  rw [requestProbeStart, Comp.returns_bind_of_ok (Comp.get_apply _), hprobe]
  cases s.probe.requestProbeStart with
  | live => simp [requestStart_returns]
  | stub => simp [Comp.returns_pure]

/-- With both hooks live. -/
theorem startHooks_ok {spec : RequestSpec}
    (hmetrics : s.probe.metricsProbeStart = .live)
    (hrequests : s.probe.requestProbeStart = .live)
    (hspec : i.request c = .ok spec) (hassigns : i.assigns = true) :
    i.startHooks c clock s =
      (.ok (), requested clock (timed clock s) spec) := by
  rw [startHooks, Comp.bind_ok (metricsProbeStart_eq clock s), hmetrics,
    requestProbeStart, Comp.bind_ok (Comp.get_apply _)]
  have hlive : (timed clock s).probe.requestProbeStart = .live := hrequests
  simp only [hlive]
  exact i.requestStart_ok c clock _ hspec hassigns

/-! ## End hooks -/

/-- `metricsEnd` gets through on a set timer. -/
def EndsMetrics : Prop :=
  ∃ event, i.metrics c extra = .ok event ∧
    ∀ fields ∈ event, publishes i.topic fields = true

/-- `requestEnd` gets through on a set request. -/
def EndsRequest : Prop :=
  (∃ context, i.context c extra = .ok context) ∧ i.assigns = true

/-- The end hooks get through with these switches and this context object. -/
def EndsSafely (p : Probe) (d : ProbeData) : Prop :=
  (p.metricsProbeEnd = .live → d.timer ≠ none → i.EndsMetrics c extra) ∧
    (p.requestProbeEnd = .live →
      if d.req = none then i.tests = true else i.EndsRequest c extra)

/-- The state after `metricsEnd` with a timer, as far as it gets. -/
def metered (t : Nat) : HookState :=
  let tracker := s.tracker.stopTimer clock t
  { s with
    tracker := tracker
    emitted := s.emitted ++
      match i.metrics c extra with
      | .ok (some fields) =>
          [⟨i.topic, (tracker.timers t).startTimeMillis,
            (tracker.timers t).timeDelta, fields⟩]
      | _ => [] }

/-- The state after `requestEnd` with a request. -/
def requestEnded (r : Nat) : HookState :=
  { s with
    tracker := s.tracker.stop clock r
    stopped := s.stopped ++ [r] }

/-- However it ends, `metricsEnd` does the same to the state. -/
theorem metricsEnd_state :
    (i.metricsEnd c extra clock s).2 =
      match s.probeData.timer with
      | some t => i.metered c extra clock s t
      | none => s := by
  rw [metricsEnd, Comp.bind_ok (Comp.get_apply s)]
  cases s.probeData.timer with
  | none => rfl
  | some t =>
      simp only [Comp.bind_apply, Comp.modify_apply, Comp.get_apply,
        Comp.eval_apply]
      rcases hevent : i.metrics c extra with _ | _ | fields
      · simp [metered, hevent]
      · simp [metered, hevent]
      · simp only [Js.emit, Comp.bind_apply, Comp.modify_apply]
        cases publishes i.topic fields <;> simp [metered, hevent]

theorem metricsEnd_returns :
    (i.metricsEnd c extra clock).Returns s ↔
      (s.probeData.timer ≠ none → i.EndsMetrics c extra) := by
  rw [metricsEnd, Comp.returns_bind_of_ok (Comp.get_apply s)]
  cases s.probeData.timer with
  | none => simp [Comp.returns_pure]
  | some t =>
      rw [Comp.returns_bind_of_ok (Comp.modify_apply _ s),
        Comp.returns_bind_of_ok (Comp.get_apply _), EndsMetrics]
      rcases hevent : i.metrics c extra with e | _ | fields
      · simp [Comp.Returns, Comp.bind_apply]
      · simp [Comp.Returns, Comp.bind_apply]
      · cases hpublishes : publishes i.topic fields <;>
          simp [Comp.Returns, Comp.bind_apply, Js.emit, hpublishes]

theorem metricsEnd_ok (h : (i.metricsEnd c extra clock).Returns s) :
    i.metricsEnd c extra clock s =
      (.ok (), (i.metricsEnd c extra clock s).2) := by
  obtain ⟨⟨⟩, s', h⟩ := h
  rw [h]

theorem requestEnd_ok {r : Nat} (hr : s.probeData.req = some r)
    (hends : i.EndsRequest c extra) :
    i.requestEnd c extra clock s = (.ok (), requestEnded clock s r) := by
  obtain ⟨⟨context, hcontext⟩, hassigns⟩ := hends
  rw [requestEnd, Comp.bind_ok (Comp.get_apply s)]
  simp [hr, Comp.bind_apply, hcontext, hassigns, requestEnded]

theorem requestEnd_returns :
    (i.requestEnd c extra clock).Returns s ↔
      if s.probeData.req = none then i.tests = true
      else i.EndsRequest c extra := by
  cases hr : s.probeData.req with
  | none =>
      rw [requestEnd, Comp.returns_bind_of_ok (Comp.get_apply s)]
      cases i.tests <;> simp [hr, Comp.Returns]
  | some r =>
      rw [if_neg (by simp)]
      constructor
      · intro h
        rw [requestEnd, Comp.returns_bind_of_ok (Comp.get_apply s), hr] at h
        rcases hcontext : i.context c extra with e | context
        · simp [Comp.Returns, Comp.bind_apply, hcontext] at h
        · cases hassigns : i.assigns with
          | true => exact ⟨⟨context, hcontext⟩, hassigns⟩
          | false =>
              simp [Comp.Returns, Comp.bind_apply, hcontext, hassigns] at h
      · intro hends
        exact ⟨(), _, i.requestEnd_ok c extra clock s hr hends⟩

/-- `metricsEnd` touches neither the hooks nor the context object. -/
theorem metricsEnd_frame :
    (i.metricsEnd c extra clock s).2.probe = s.probe ∧
      (i.metricsEnd c extra clock s).2.probeData = s.probeData ∧
      (i.metricsEnd c extra clock s).2.stopped = s.stopped := by
  rw [metricsEnd_state]
  cases s.probeData.timer <;> exact ⟨rfl, rfl, rfl⟩

theorem metricsProbeEnd_eq :
    i.metricsProbeEnd c extra clock s =
      match s.probe.metricsProbeEnd with
      | .live => i.metricsEnd c extra clock s
      | .stub => (.ok (), s) := by
  rw [metricsProbeEnd, Comp.bind_ok (Comp.get_apply s)]
  cases s.probe.metricsProbeEnd <;> rfl

theorem requestProbeEnd_eq :
    i.requestProbeEnd c extra clock s =
      match s.probe.requestProbeEnd with
      | .live => i.requestEnd c extra clock s
      | .stub => (.ok (), s) := by
  rw [requestProbeEnd, Comp.bind_ok (Comp.get_apply s)]
  cases s.probe.requestProbeEnd <;> rfl

/-- The end hooks return exactly when they are safe on the state they find. -/
theorem endHooks_returns :
    (i.endHooks c extra clock).Returns s ↔
      i.EndsSafely c extra s.probe s.probeData := by
  have hrequest (s' : HookState) (hprobe : s'.probe = s.probe)
      (hdata : s'.probeData = s.probeData) :
      (i.requestProbeEnd c extra clock).Returns s' ↔
        (s.probe.requestProbeEnd = .live →
          if s.probeData.req = none then i.tests = true
          else i.EndsRequest c extra) := by
    rw [Comp.Returns, requestProbeEnd_eq, hprobe, ← hdata]
    cases s.probe.requestProbeEnd with
    | live =>
        rw [← i.requestEnd_returns c extra clock s']
        exact ⟨fun h _ => h, fun h => h rfl⟩
    | stub => simp
  rw [endHooks, Comp.returns_bind, EndsSafely]
  constructor
  · rintro ⟨⟨⟩, s', hmetrics, hrest⟩
    rw [metricsProbeEnd_eq] at hmetrics
    cases hlive : s.probe.metricsProbeEnd with
    | live =>
        obtain ⟨hprobe, hdata, _⟩ := i.metricsEnd_frame c extra clock s
        simp only [hlive] at hmetrics
        rw [hmetrics] at hprobe hdata
        exact ⟨fun _ => (i.metricsEnd_returns c extra clock s).mp
          ⟨(), s', hmetrics⟩, (hrequest s' hprobe hdata).mp hrest⟩
    | stub =>
        rw [hlive] at hmetrics
        cases hmetrics
        exact ⟨by simp, (hrequest s rfl rfl).mp hrest⟩
  · rintro ⟨hmetrics, hrest⟩
    cases hlive : s.probe.metricsProbeEnd with
    | live =>
        have hreturns := (i.metricsEnd_returns c extra clock s).mpr
          (hmetrics hlive)
        obtain ⟨hprobe, hdata, _⟩ := i.metricsEnd_frame c extra clock s
        refine ⟨(), (i.metricsEnd c extra clock s).2, ?_,
          (hrequest _ hprobe hdata).mpr hrest⟩
        rw [metricsProbeEnd_eq, hlive]
        exact i.metricsEnd_ok c extra clock s hreturns
    | stub =>
        refine ⟨(), s, ?_, (hrequest s rfl rfl).mpr hrest⟩
        rw [metricsProbeEnd_eq, hlive]

end Instrument

end Appmetrics
