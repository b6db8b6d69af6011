/-
What the metrics switches mean, over every sequence of calls.  `disable`
leaves `_enabled` set, so a call that starts the agent switches every probe
on again; as long as no such call comes while some probe is meant to be off,
each probe's metrics hooks are what was last said about it.
-/
import Appmetrics.Probe
import Mathlib.Data.List.Basic
import Mathlib.Logic.Function.Basic

namespace Appmetrics

open StepMachine

/-- The words that `enable` and `disable` treat specially. -/
def reservedNames : List String :=
  ["profiling", "requests", "trace", "eventloop"]

/-- The names of the probes other than trace. -/
structure ProbeNames where
  names : List String
  ordinary : ∀ n ∈ names, n ∉ reservedNames

theorem forEachProbe_eq {g : ProbeFlags → Probe → ProbeFlags × Probe}
    {h : Probe → Probe} {K : ProbeFlags → Prop}
    (hg : ∀ f p, K f → K (g f p).1 ∧ (g f p).2 = h p) {f : ProbeFlags}
    (ps : List Probe) (hf : K f) :
    K (forEachProbe g f ps).1 ∧ (forEachProbe g f ps).2 = ps.map h := by
  induction ps generalizing f with
  | nil => exact ⟨hf, rfl⟩
  | cons p ps ih =>
      obtain ⟨hf', hp⟩ := hg f p hf
      obtain ⟨hrest, hps⟩ := ih hf'
      refine ⟨hrest, ?_⟩
      rw [List.map_cons, ← hp, ← hps]
      rfl

namespace Probe

/-- Both metrics hooks hold the same thing. -/
def MetricsAre (p : Probe) (hook : Hook) : Prop :=
  p.metricsProbeStart = hook ∧ p.metricsProbeEnd = hook

@[simp] theorem setMetrics_metricsAre (p : Probe) (hook hook' : Hook) :
    (p.setMetrics hook).MetricsAre hook' ↔ hook = hook' := and_self_iff

@[simp] theorem setRequests_metricsAre (p : Probe) (hook hook' : Hook) :
    (p.setRequests hook).MetricsAre hook' ↔ p.MetricsAre hook' := Iff.rfl

/-- Not the trace probe, nor named like one of the special words. -/
def Ordinary (p : Probe) : Prop := p.name ∉ reservedNames

theorem Ordinary.not_isTrace {p : Probe} (hp : p.Ordinary) :
    p.isTrace = false := by
  rw [isTrace, beq_eq_false_iff_ne]
  rintro htrace
  exact hp (by rw [htrace]; decide)

end Probe

/-- What a call does to the probes that were there before it. -/
structure MetricsEffect (a : Agent) (c : AgentCall) (h : Probe → Probe) :
    Prop where
  name : ∀ p, (h p).name = p.name
  started : a.starts c = true → ∀ p, (h p).MetricsAre .live
  enabled : ∀ {p}, p.Ordinary → c = .enable p.name →
    a.flags.started = true → (h p).MetricsAre .live
  disabled : ∀ {p}, p.Ordinary → c = .disable p.name →
    (h p).MetricsAre .stub
  same : ∀ {p}, p.Ordinary → a.starts c = false →
    (c = .enable p.name → a.flags.started = false) →
      c ≠ .disable p.name →
        ∀ hook, (h p).MetricsAre hook ↔ p.MetricsAre hook
  others : ∀ {p n}, n ∉ reservedNames → c = .enable n ∨ c = .disable n →
    p.name ≠ n → h p = p

/-- `a'` is `a` after the call, and `h` is what happened to each probe; only
the trace probe can be new. -/
structure CallEffect (a : Agent) (c : AgentCall) (h : Probe → Probe)
    (a' : Agent) : Prop where
  probes : ∃ extra, a'.probes = a.probes.map h ++ extra ∧
    ∀ p ∈ extra, ¬ p.Ordinary
  enabled : a'.flags.enabled = true
  running : a'.flags.started =
    (a.flags.started || (a.starts c && !a.probes.isEmpty))
  metrics : MetricsEffect a c h

namespace Agent

/-- What `Probe.prototype.start` makes of a probe. -/
def startedProbe (requests : Bool) (p : Probe) : Probe :=
  if requests then (p.setMetrics .live).setRequests .live
  else p.setMetrics .live

theorem start_effect {a : Agent} {c : AgentCall}
    (henabled : a.flags.enabled = true) (hstarts : a.starts c = true) :
    CallEffect a c (startedProbe a.flags.requestsEnabled) a.start := by
  have hloop := forEachProbe_eq (g := Probe.start)
    (h := startedProbe a.flags.requestsEnabled)
    (K := fun f => f.enabled = true ∧
      f.requestsEnabled = a.flags.requestsEnabled)
    (fun f p hf => ⟨hf, by
      cases hr : a.flags.requestsEnabled <;>
        simp [Probe.start, startedProbe, hf.1, hf.2, hr]⟩)
    a.probes ⟨henabled, rfl⟩
  have hrunning (f : ProbeFlags) (ps : List Probe) :
      (forEachProbe Probe.start f ps).1.started =
        (f.started || !ps.isEmpty) := by
    induction ps generalizing f with
    | nil => simp [forEachProbe]
    | cons p ps ih => simp [forEachProbe, ih, Probe.start]
  have hlive (p : Probe) :
      (startedProbe a.flags.requestsEnabled p).MetricsAre .live := by
    unfold startedProbe
    split <;> simp
  have hquiet {d : String} : a.starts (.enable d) ≠ true ∧
      a.starts (.disable d) ≠ true := by simp [starts]
  constructor
  case probes => exact ⟨[], by rw [List.append_nil]; exact hloop.2, nofun⟩
  case enabled => exact hloop.1.1
  case running =>
    rw [hstarts, Bool.true_and]
    exact hrunning a.flags a.probes
  case metrics =>
    constructor
    case name =>
      intro p
      unfold startedProbe
      split <;> rfl
    case started => exact fun _ p => hlive p
    case enabled => exact fun _ _ _ => hlive _
    case disabled =>
      rintro p _ rfl
      exact absurd hstarts hquiet.2
    case same =>
      intro p _ hno
      rw [hstarts] at hno
      cases hno
    case others =>
      rintro p n _ (rfl | rfl) _
      · exact absurd hstarts hquiet.1
      · exact absurd hstarts hquiet.2

/-- A loop over the probes that keeps the two flags metrics depend on. -/
theorem forEach_effect {a : Agent} {c : AgentCall}
    {g : ProbeFlags → Probe → ProbeFlags × Probe} {h : Probe → Probe}
    (henabled : a.flags.enabled = true) (hstarts : a.starts c = false)
    (hg : ∀ f p, f.enabled = true → f.started = a.flags.started →
      (g f p).1.enabled = true ∧ (g f p).1.started = a.flags.started ∧
        (g f p).2 = h p)
    (hmetrics : MetricsEffect a c h) : CallEffect a c h (a.forEach g) := by
  have hloop := forEachProbe_eq (g := g) (h := h)
    (K := fun f => f.enabled = true ∧ f.started = a.flags.started)
    (fun f p hf => by
      obtain ⟨h₁, h₂, h₃⟩ := hg f p hf.1 hf.2
      exact ⟨⟨h₁, h₂⟩, h₃⟩) a.probes ⟨henabled, rfl⟩
  constructor
  case probes => exact ⟨[], by rw [List.append_nil]; exact hloop.2, nofun⟩
  case enabled => exact hloop.1.1
  case running =>
    rw [hstarts, Bool.false_and, Bool.or_false]
    exact hloop.1.2
  case metrics => exact hmetrics

/-- A call that concerns no metrics of an ordinary probe. -/
theorem metricsEffect_id {a : Agent} {c : AgentCall}
    (hstarts : a.starts c = false)
    (hnames : ∀ n, c = .enable n ∨ c = .disable n → n ∈ reservedNames)
    {h : Probe → Probe} (hname : ∀ p, (h p).name = p.name)
    (hsame : ∀ p hook, (h p).MetricsAre hook ↔ p.MetricsAre hook) :
    MetricsEffect a c h where
  name := hname
  started hyes := by
    rw [hstarts] at hyes
    cases hyes
  enabled hp hc := absurd (hnames _ (Or.inl hc)) hp
  disabled hp hc := absurd (hnames _ (Or.inr hc)) hp
  same _ _ _ _ hook := hsame _ hook
  others hn hc := absurd (hnames _ hc) hn

/-- A call that changes nothing that matters to metrics. -/
theorem callEffect_of_frame {a a' : Agent} {c : AgentCall}
    (henabled : a.flags.enabled = true) (hstarts : a.starts c = false)
    (hnames : ∀ n, c = .enable n ∨ c = .disable n → n ∈ reservedNames)
    (hprobes : ∃ extra, a'.probes = a.probes ++ extra ∧
      ∀ p ∈ extra, ¬ p.Ordinary)
    (hflags : a'.flags = a.flags) : CallEffect a c id a' where
  probes := by
    rw [List.map_id]
    exact hprobes
  enabled := by
    rw [hflags]
    exact henabled
  running := by rw [hflags, hstarts, Bool.false_and, Bool.or_false]
  metrics := metricsEffect_id hstarts hnames (fun _ => rfl)
    (fun _ _ => Iff.rfl)

theorem callEffect_of_same_probes {a a' : Agent} {c : AgentCall}
    (henabled : a.flags.enabled = true) (hstarts : a.starts c = false)
    (hnames : ∀ n, c = .enable n ∨ c = .disable n → n ∈ reservedNames)
    (hprobes : a'.probes = a.probes) (hflags : a'.flags = a.flags) :
    CallEffect a c id a' :=
  callEffect_of_frame henabled hstarts hnames
    ⟨[], hprobes.trans (List.append_nil _).symm, nofun⟩ hflags

theorem enable_names {d n : String} (hd : d ∈ reservedNames)
    (hn : AgentCall.enable d = .enable n ∨ AgentCall.enable d = .disable n) :
    n ∈ reservedNames := by
  rcases hn with heq | heq
  · cases heq
    exact hd
  · cases heq

theorem disable_names {d n : String} (hd : d ∈ reservedNames)
    (hn : AgentCall.disable d = .enable n ∨
      AgentCall.disable d = .disable n) : n ∈ reservedNames := by
  rcases hn with heq | heq
  · cases heq
  · cases heq
    exact hd

def enabledProbe (data : String) (running : Bool) (p : Probe) : Probe :=
  if p.name = data ∧ p.isTrace = false ∧ running = true then
    p.setMetrics .live
  else p

theorem enabledProbe_effect (a : Agent) (data : String) :
    MetricsEffect a (.enable data) (enabledProbe data a.flags.started) := by
  constructor
  case name =>
    intro p
    unfold enabledProbe
    split <;> rfl
  case started => intro h; cases h
  case enabled =>
    intro p hp hc hstarted
    have hname : p.name = data := (AgentCall.enable.inj hc).symm
    rw [enabledProbe, if_pos ⟨hname, hp.not_isTrace, hstarted⟩]
    simp
  case disabled => intro p _ hc; cases hc
  case same =>
    intro p _ _ hstopped _ hook
    unfold enabledProbe
    split
    · next hyes =>
        have hno := hstopped (by rw [hyes.1])
        rw [hno] at hyes
        cases hyes.2.2
    · rfl
  case others =>
    intro p n _ hc hne
    have hn : data = n := by
      rcases hc with hc | hc
      · exact AgentCall.enable.inj hc
      · cases hc
    rw [enabledProbe, if_neg fun hyes => hne (hyes.1.trans hn)]

theorem enable_effect {a : Agent} (henabled : a.flags.enabled = true)
    (data : String) :
    ∃ h, CallEffect a (.enable data) h (a.enable data) := by
  by_cases hprofiling : data = "profiling"
  · refine ⟨id, ?_⟩
    subst hprofiling
    exact callEffect_of_same_probes henabled rfl
      (fun _ => enable_names (by decide)) rfl rfl
  by_cases hrequests : data = "requests"
  · subst hrequests
    have heq : a.enable "requests" = a.forEach Probe.enableRequests := by
      simp [enable]
    rw [heq]
    refine ⟨fun p => if p.isTrace = false ∧ a.flags.started = true then
      p.setRequests .live else p, forEach_effect henabled rfl ?_ ?_⟩
    · intro f p hf hstarted
      unfold Probe.enableRequests
      cases htrace : p.isTrace <;> simp [hf, hstarted]
    · refine metricsEffect_id rfl (fun _ => enable_names (by decide)) ?_ ?_
      · intro p
        split <;> rfl
      · intro p hook
        split <;> simp
  by_cases htrace : data = "trace"
  · refine ⟨id, ?_⟩
    subst htrace
    have heq : a.enable "trace" = a.pushTrace := by simp [enable]
    rw [heq]
    unfold pushTrace
    split
    · exact callEffect_of_same_probes henabled rfl
        (fun _ => enable_names (by decide)) rfl rfl
    · refine callEffect_of_frame henabled rfl
        (fun _ => enable_names (by decide)) ⟨_, rfl, ?_⟩ rfl
      intro p hp
      rw [List.mem_singleton.mp hp]
      exact fun h => h (by decide)
  by_cases hloop : data = "eventloop"
  · refine ⟨id, ?_⟩
    subst hloop
    have heq : a.enable "eventloop" = { a with latencyRunning := true } := by
      simp [enable]
    rw [heq]
    exact callEffect_of_same_probes henabled rfl
      (fun _ => enable_names (by decide)) rfl rfl
  have heq : a.enable data = a.forEach (ifNamed data Probe.enable) := by
    simp [enable, hprofiling, hrequests, htrace, hloop]
  rw [heq]
  refine ⟨enabledProbe data a.flags.started,
    forEach_effect henabled rfl ?_ ?_⟩
  · intro f p hf hstarted
    unfold ifNamed Probe.enable enabledProbe
    by_cases hname : p.name = data <;> cases htrace : p.isTrace <;>
      simp [hname, hf, hstarted]
  · exact enabledProbe_effect a data

def disabledProbe (data : String) (p : Probe) : Probe :=
  if p.name = data then p.setMetrics .stub else p

theorem disabledProbe_effect (a : Agent) (data : String) :
    MetricsEffect a (.disable data) (disabledProbe data) := by
  constructor
  case name =>
    intro p
    unfold disabledProbe
    split <;> rfl
  case started => intro h; cases h
  case enabled => intro p _ hc; cases hc
  case disabled =>
    intro p _ hc
    have hname : p.name = data := (AgentCall.disable.inj hc).symm
    rw [disabledProbe, if_pos hname]
    simp
  case same =>
    intro p _ _ _ hne hook
    unfold disabledProbe
    split
    · next hyes => exact absurd (by rw [hyes]) hne
    · rfl
  case others =>
    intro p n _ hc hne
    have hn : data = n := by
      rcases hc with hc | hc
      · cases hc
      · exact AgentCall.disable.inj hc
    rw [disabledProbe, if_neg fun hyes => hne (hyes.trans hn)]

theorem disable_effect {a : Agent} (henabled : a.flags.enabled = true)
    (data : String) :
    ∃ h, CallEffect a (.disable data) h (a.disable data) := by
  by_cases hprofiling : data = "profiling"
  · refine ⟨id, ?_⟩
    subst hprofiling
    exact callEffect_of_same_probes henabled rfl
      (fun _ => disable_names (by decide)) rfl rfl
  by_cases hrequests : data = "requests"
  · subst hrequests
    have heq : a.disable "requests" = a.forEach Probe.disableRequests := by
      simp [disable]
    rw [heq]
    exact ⟨fun p => p.setRequests .stub, forEach_effect henabled rfl
      (fun f p hf hstarted => ⟨hf, hstarted, rfl⟩)
      (metricsEffect_id rfl (fun _ => disable_names (by decide))
        (fun _ => rfl) (fun _ _ => Iff.rfl))⟩
  by_cases hloop : data = "eventloop"
  · refine ⟨id, ?_⟩
    subst hloop
    have heq : a.disable "eventloop" =
        { a with latencyRunning := false } := by simp [disable]
    rw [heq]
    exact callEffect_of_same_probes henabled rfl
      (fun _ => disable_names (by decide)) rfl rfl
  have heq : a.disable data = a.forEach (ifNamed data Probe.disable) := by
    simp [disable, hprofiling, hrequests, hloop]
  rw [heq]
  refine ⟨disabledProbe data, forEach_effect henabled rfl ?_ ?_⟩
  · intro f p hf hstarted
    unfold ifNamed Probe.disable disabledProbe
    by_cases hname : p.name = data <;> simp [hname, hf, hstarted]
  · exact disabledProbe_effect a data

theorem call_effect {a : Agent} (henabled : a.flags.enabled = true)
    (c : AgentCall) : ∃ h, CallEffect a c h (a.call c) := by
  cases c with
  | start => exact ⟨_, start_effect henabled rfl⟩
  | monitor =>
      cases hapi : a.api with
      | true =>
          have heq : a.call .monitor = a := by simp [call, monitor, hapi]
          rw [heq]
          refine ⟨id, callEffect_of_same_probes henabled
            (by simp [starts, hapi]) ?_ rfl rfl⟩
          rintro n (h | h) <;> cases h
      | false =>
          have hstarts : a.starts .monitor = true := by simp [starts, hapi]
          have hstart := start_effect henabled hstarts
          have heq : a.call .monitor = { a.start with api := true } := by
            simp [call, monitor, hapi]
          rw [heq]
          exact ⟨_, { hstart with }⟩
  | enable data => exact enable_effect henabled data
  | disable data => exact disable_effect henabled data

end Agent

/-- The agent with the history of its calls: whether it has been started,
and what was last said about each name. -/
structure Session where
  agent : Agent
  begun : Bool
  said : String → Option Bool

namespace Session

def initial (probes : ProbeNames) : Session :=
  ⟨Agent.load probes.names, false, fun _ => none⟩

def step (s : Session) (c : AgentCall) : Option Session :=
  some
    { agent := s.agent.call c
      begun :=
        match c with
        | .start => true
        | .monitor => true
        | _ => s.begun
      said :=
        match c with
        | .enable data => Function.update s.said data (some true)
        | .disable data => Function.update s.said data (some false)
        | _ => s.said }

/-- The hook that a probe should have: its own when the agent has been
started, unless it was last disabled. -/
def expected (s : Session) (name : String) : Hook :=
  if s.begun = true ∧ s.said name ≠ some false then .live else .stub

/-- Every probe's metrics hooks are what was last said about it. -/
def Obeys (s : Session) : Prop :=
  ∀ p ∈ s.agent.probes, p.Ordinary → p.MetricsAre (s.expected p.name)

/-- No call starts the agent while a probe was last disabled. -/
def StartsNoDisabled (s : Session) (c : AgentCall) : Prop :=
  s.agent.starts c = true → ∀ p ∈ s.agent.probes, p.name ∉ reservedNames →
    s.said p.name ≠ some false

instance (s : Session) (c : AgentCall) :
    Decidable (s.StartsNoDisabled c) := by
  unfold StartsNoDisabled
  infer_instance

/-- A call that names a probe leaves the probes of other names alone. -/
def LeavesOthers (s : Session) (c : AgentCall) (s' : Session) : Prop :=
  ∀ n, n ∉ reservedNames → c = .enable n ∨ c = .disable n →
    ∀ (i : Nat) (p : Probe), s.agent.probes[i]? = some p → p.name ≠ n →
      s'.agent.probes[i]? = some p

/-- `_enabled` is never cleared, and `_started` says whether the agent has
been started, if there is a probe to start. -/
structure Consistent (s : Session) : Prop where
  enabled : s.agent.flags.enabled = true
  begun : s.agent.api = true → s.begun = true
  running : s.agent.flags.started = s.begun ∨
    ∀ p ∈ s.agent.probes, ¬ p.Ordinary

theorem initial_consistent (probes : ProbeNames) :
    (initial probes).Consistent :=
  ⟨rfl, fun h => (by cases h), Or.inl rfl⟩

theorem initial_obeys (probes : ProbeNames) : (initial probes).Obeys := by
  intro p hp _
  obtain ⟨n, _, rfl⟩ := List.mem_map.mp hp
  exact ⟨rfl, rfl⟩

theorem starts_begins {s s' : Session} {c : AgentCall}
    (hstep : s.step c = some s') (hstarts : s.agent.starts c = true) :
    s'.begun = true := by
  cases hstep
  cases c with
  | start => rfl
  | monitor => rfl
  | enable data => cases hstarts
  | disable data => cases hstarts

/-- A call that does not start the agent says nothing new about that. -/
theorem begun_same {s s' : Session} {c : AgentCall} (hs : s.Consistent)
    (hstep : s.step c = some s') (hstarts : s.agent.starts c = false) :
    s'.begun = s.begun := by
  cases hstep
  cases c with
  | start => cases hstarts
  | monitor =>
      have hapi : s.agent.api = true := by simpa [Agent.starts] using hstarts
      exact (hs.begun hapi).symm
  | enable data => rfl
  | disable data => rfl

theorem said_same {s s' : Session} {c : AgentCall}
    (hstep : s.step c = some s') {n : String} (henable : c ≠ .enable n)
    (hdisable : c ≠ .disable n) : s'.said n = s.said n := by
  cases hstep
  cases c with
  | start => rfl
  | monitor => rfl
  | enable data =>
      exact Function.update_of_ne (fun h => henable (by rw [h])) _ _
  | disable data =>
      exact Function.update_of_ne (fun h => hdisable (by rw [h])) _ _

theorem step_api {s s' : Session} {c : AgentCall} (hs : s.Consistent)
    (hstep : s.step c = some s') : s'.agent.api = true → s'.begun = true := by
  have hloop (a : Agent) (g : ProbeFlags → Probe → ProbeFlags × Probe) :
      (a.forEach g).api = a.api := rfl
  cases hstep
  cases c with
  | start => exact fun _ => rfl
  | monitor => exact fun _ => rfl
  | enable data =>
      intro hapi
      refine hs.begun (Eq.trans ?_ hapi)
      simp only [Agent.call, Agent.enable, Agent.pushTrace]
      split_ifs <;> rfl
  | disable data =>
      intro hapi
      refine hs.begun (Eq.trans ?_ hapi)
      simp only [Agent.call, Agent.disable]
      split_ifs <;> rfl

/-- The probes after a call are those before it, each changed by `h`. -/
theorem ordinary_probe {a a' : Agent} {c : AgentCall} {h : Probe → Probe}
    (heffect : CallEffect a c h a') {p' : Probe} (hp' : p' ∈ a'.probes)
    (hordinary : p'.Ordinary) :
    ∃ p ∈ a.probes, p.Ordinary ∧ p' = h p ∧ p'.name = p.name := by
  obtain ⟨extra, hprobes, hextra⟩ := heffect.probes
  rw [hprobes] at hp'
  rcases List.mem_append.mp hp' with hmap | hnew
  · obtain ⟨p, hp, rfl⟩ := List.mem_map.mp hmap
    have hname := heffect.metrics.name p
    refine ⟨p, hp, ?_, rfl, hname⟩
    rw [Probe.Ordinary, ← hname]
    exact hordinary
  · exact absurd hordinary (hextra p' hnew)

theorem Consistent.step {s s' : Session} {c : AgentCall}
    (hs : s.Consistent) (hstep : s.step c = some s') : s'.Consistent := by
  have hstepped := hstep
  obtain ⟨h, heffect⟩ := Agent.call_effect hs.enabled c
  have hagent : s'.agent = s.agent.call c := by
    cases hstep
    rfl
  constructor
  case enabled =>
    rw [hagent]
    exact heffect.enabled
  case begun => exact step_api hs hstepped
  case running =>
    rw [hagent, heffect.running]
    rcases hs.running with hsame | hnone
    · cases hstarts : s.agent.starts c with
      | false =>
          refine Or.inl ?_
          rw [Bool.false_and, Bool.or_false, begun_same hs hstepped hstarts]
          exact hsame
      | true =>
          rw [Bool.true_and]
          cases hempty : s.agent.probes.isEmpty with
          | false =>
              refine Or.inl ?_
              rw [starts_begins hstepped hstarts]
              simp
          | true =>
              refine Or.inr fun p hp hordinary => ?_
              obtain ⟨q, hq, _⟩ := ordinary_probe heffect hp hordinary
              rw [List.isEmpty_iff.mp hempty] at hq
              cases hq
    · refine Or.inr fun p hp hordinary => ?_
      obtain ⟨q, hq, hordinary', _⟩ := ordinary_probe heffect hp hordinary
      exact hnone q hq hordinary'

theorem expected_eq_live {s : Session} {n : String} (hbegun : s.begun = true)
    (hsaid : s.said n ≠ some false) : s.expected n = .live :=
  if_pos ⟨hbegun, hsaid⟩

theorem expected_eq_stub {s : Session} {n : String}
    (hoff : s.begun = false ∨ s.said n = some false) :
    s.expected n = .stub := by
  rw [expected, if_neg]
  rintro ⟨hbegun, hsaid⟩
  rcases hoff with hno | hno
  · rw [hbegun] at hno
    cases hno
  · exact hsaid hno

/-- The hooks after a call that starts nothing. -/
theorem Obeys.quiet {s s' : Session} {c : AgentCall} (hs : s.Consistent)
    (hobeys : s.Obeys) (hstep : s.step c = some s')
    (hstarts : s.agent.starts c = false) : s'.Obeys := by
  have hbegun := begun_same hs hstep hstarts
  obtain ⟨h, heffect⟩ := Agent.call_effect hs.enabled c
  intro p' hp' hordinary'
  have hagent : s'.agent = s.agent.call c := by
    cases hstep
    rfl
  rw [hagent] at hp'
  obtain ⟨p, hp, hordinary, rfl, hname⟩ :=
    ordinary_probe heffect hp' hordinary'
  have hrunning : s.agent.flags.started = s.begun :=
    hs.running.resolve_right fun hnone => hnone p hp hordinary
  rw [hname]
  by_cases hdisable : c = .disable p.name
  · have hsaid : s'.said p.name = some false := by
      subst hdisable
      cases hstep
      exact Function.update_self _ _ _
    rw [expected_eq_stub (Or.inr hsaid)]
    exact heffect.metrics.disabled hordinary hdisable
  by_cases henable : c = .enable p.name
  · have hsaid : s'.said p.name = some true := by
      subst henable
      cases hstep
      exact Function.update_self _ _ _
    cases hon : s.begun with
    | true =>
        rw [expected_eq_live (hbegun.trans hon) (by rw [hsaid]; simp)]
        exact heffect.metrics.enabled hordinary henable (hrunning.trans hon)
    | false =>
        have hold := hobeys p hp hordinary
        rw [expected_eq_stub (Or.inl hon)] at hold
        rw [expected_eq_stub (Or.inl (hbegun.trans hon)),
          heffect.metrics.same hordinary hstarts
            (fun _ => hrunning.trans hon) hdisable]
        exact hold
  · have hsaid := said_same hstep henable hdisable
    have hexpected : s'.expected p.name = s.expected p.name := by
      rw [expected, expected, hbegun, hsaid]
    rw [hexpected, heffect.metrics.same hordinary hstarts
      (fun h => absurd h henable) hdisable]
    exact hobeys p hp hordinary

/-- After a call that starts the agent every probe's hooks are live, so they
are right just when no probe was last disabled. -/
theorem obeys_iff_of_starts {s s' : Session} {c : AgentCall}
    (hs : s.Consistent) (hstep : s.step c = some s')
    (hstarts : s.agent.starts c = true) :
    s'.Obeys ↔ ∀ p ∈ s.agent.probes, p.name ∉ reservedNames →
      s.said p.name ≠ some false := by
  obtain ⟨h, heffect⟩ := Agent.call_effect hs.enabled c
  have hbegun := starts_begins hstep hstarts
  have hagent : s'.agent = s.agent.call c := by
    cases hstep
    rfl
  have hsaid (n : String) : s'.said n = s.said n := by
    apply said_same hstep
    · rintro rfl
      cases hstarts
    · rintro rfl
      cases hstarts
  constructor
  · intro hobeys p hp hordinary hno
    obtain ⟨extra, hprobes, _⟩ := heffect.probes
    have hname := heffect.metrics.name p
    have hmem : h p ∈ s'.agent.probes := by
      rw [hagent, hprobes]
      exact List.mem_append_left _ (List.mem_map_of_mem hp)
    have hhooks := hobeys (h p) hmem (by
      rw [Probe.Ordinary, hname]
      exact hordinary)
    rw [hname, expected_eq_stub (Or.inr ((hsaid p.name).trans hno))] at hhooks
    have hlive := heffect.metrics.started hstarts p
    cases hhooks.1.symm.trans hlive.1
  · intro hall p' hp' hordinary'
    rw [hagent] at hp'
    obtain ⟨p, hp, hordinary, rfl, hname⟩ :=
      ordinary_probe heffect hp' hordinary'
    have hyes := hall p hp hordinary
    rw [hname, expected_eq_live hbegun (by rwa [hsaid])]
    exact heffect.metrics.started hstarts p

theorem leavesOthers {s s' : Session} {c : AgentCall} (hs : s.Consistent)
    (hstep : s.step c = some s') : s.LeavesOthers c s' := by
  obtain ⟨h, heffect⟩ := Agent.call_effect hs.enabled c
  intro n hn hc i p hp hne
  have hagent : s'.agent = s.agent.call c := by
    cases hstep
    rfl
  obtain ⟨extra, hprobes, _⟩ := heffect.probes
  have hlt := (List.getElem?_eq_some_iff.mp hp).1
  rw [hagent, hprobes, List.getElem?_append_left (by simpa using hlt),
    List.getElem?_map, hp, Option.map_some]
  exact congrArg some (heffect.metrics.others hn hc hne)

end Session

/-- The agent with these probes, as a machine whose labels are calls. -/
def agentMachine (probes : ProbeNames) :
    StepMachine.Machine Session AgentCall where
  init := Session.initial probes
  step := Session.step

theorem agentMachine_run (probes : ProbeNames) (s : Session)
    (calls : List AgentCall) :
    ∃ s', (agentMachine probes).run s calls = some s' := by
  induction calls generalizing s with
  | nil => exact ⟨s, rfl⟩
  | cons c calls ih => exact ih _

/-- Over any probes and any sequence of calls: the metrics hooks of every
probe are after each call what was last said about it, exactly when no call
starts the agent while a probe was last disabled; and no call that names a
probe touches one of another name. -/
theorem metrics_switches (probes : ProbeNames) (calls : List AgentCall) :
    ((agentMachine probes).Guarded Session.StartsNoDisabled
        (Session.initial probes) calls ↔
      (agentMachine probes).Each (fun _ _ s' => s'.Obeys)
        (Session.initial probes) calls) ∧
    (agentMachine probes).Each Session.LeavesOthers
      (Session.initial probes) calls := by
  obtain ⟨t, hrun⟩ := agentMachine_run probes (Session.initial probes) calls
  have hconsistent : (agentMachine probes).Inductive (fun _ _ => True)
      Session.Consistent :=
    { init := Session.initial_consistent probes
      step := fun hs _ hstep => hs.step hstep }
  have hobedient : (agentMachine probes).Inductive
      (fun s c => True ∧ s.StartsNoDisabled c)
      fun s => s.Consistent ∧ s.Obeys :=
    { init := ⟨Session.initial_consistent probes,
        Session.initial_obeys probes⟩
      step := by
        rintro s c s' ⟨hs, hobeys⟩ ⟨_, hguard⟩ hstep
        refine ⟨hs.step hstep, ?_⟩
        cases hstarts : s.agent.starts c with
        | false => exact hobeys.quiet hs hstep hstarts
        | true =>
            exact (Session.obeys_iff_of_starts hs hstep hstarts).mpr
              (hguard hstarts) }
  constructor
  · apply hobedient.guarded_iff_each _
      ⟨Session.initial_consistent probes, Session.initial_obeys probes⟩
      (guarded_true _ _) hrun
    rintro s c s' ⟨hs, hobeys⟩ _ hstep
    cases hstarts : s.agent.starts c with
    | false =>
        refine iff_of_true (fun h => ?_) (hobeys.quiet hs hstep hstarts)
        rw [hstarts] at h
        cases h
    | true =>
        rw [Session.obeys_iff_of_starts hs hstep hstarts]
        exact ⟨fun h => h hstarts, fun h _ => h⟩
  · exact hconsistent.each_from
      (fun hs _ hstep => Session.leavesOthers hs hstep)
      (Session.initial_consistent probes) (guarded_true _ _)

namespace SwitchesWitness

def redisOnly : ProbeNames := ⟨["redis"], by decide⟩

/-- Starting a running agent again, or for the first time, overrules a
`disable`. -/
theorem start_overrules_disable :
    (∃ s ∈ (agentMachine redisOnly).run (Session.initial redisOnly)
        [.start, .disable "redis", .start],
      s.begun = true ∧ s.said "redis" = some false ∧
        s.agent.probes.map Probe.metricsProbeEnd = [.live]) ∧
    ∃ s ∈ (agentMachine redisOnly).run (Session.initial redisOnly)
        [.disable "redis", .monitor],
      s.begun = true ∧ s.said "redis" = some false ∧
        s.agent.probes.map Probe.metricsProbeEnd = [.live] := by
  decide +kernel

end SwitchesWitness

end Appmetrics
