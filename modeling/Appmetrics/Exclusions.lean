/-
What the request switches mean, over every sequence of calls.  Excluding one
module clears `_requestsEnabled`, which all probes share, so a first `start`
that comes after an exclusion leaves every probe untracked; apart from that
start each probe is tracked just when it should be.
-/
import Appmetrics.Probe
import Appmetrics.Switches

namespace Appmetrics

open StepMachine

/-- The flags after a loop in which the probes that `q` picks all make the
same change, which made twice is made once. -/
theorem forEachProbe_flags {g : ProbeFlags → Probe → ProbeFlags × Probe}
    {u : ProbeFlags → ProbeFlags} {q : Probe → Bool}
    (hu : ∀ f, u (u f) = u f) {ps : List Probe}
    (hg : ∀ f, ∀ p ∈ ps, (g f p).1 = if q p then u f else f)
    (f : ProbeFlags) :
    (forEachProbe g f ps).1 = if ps.any q then u f else f := by
  induction ps generalizing f with
  | nil => rfl
  | cons p ps ih =>
      have hhead := hg f p List.mem_cons_self
      have hrest := ih (fun f q hq => hg f q (List.mem_cons_of_mem p hq))
        (g f p).1
      change (forEachProbe g (g f p).1 ps).1 = _
      rw [hrest, hhead, List.any_cons]
      cases q p <;> cases ps.any q <;> simp [hu]

namespace Probe

/-- Both request hooks hold the same thing. -/
def RequestsAre (p : Probe) (hook : Hook) : Prop :=
  p.requestProbeStart = hook ∧ p.requestProbeEnd = hook

instance (p : Probe) (hook : Hook) : Decidable (p.RequestsAre hook) := by
  unfold RequestsAre
  infer_instance

@[simp] theorem setRequests_requestsAre (p : Probe) (hook hook' : Hook) :
    (p.setRequests hook).RequestsAre hook' ↔ hook = hook' := and_self_iff

@[simp] theorem setMetrics_requestsAre (p : Probe) (hook hook' : Hook) :
    (p.setMetrics hook).RequestsAre hook' ↔ p.RequestsAre hook' := Iff.rfl

theorem RequestsAre.eq {p : Probe} {hook hook' : Hook}
    (h : p.RequestsAre hook) (h' : p.RequestsAre hook') : hook = hook' :=
  h.1.symm.trans h'.1

end Probe

/-- A probe once its module is excluded. -/
def Probe.exclude (modules : List String) (p : Probe) : Probe :=
  if p.name ∈ modules then p.setRequests .stub else p

/-- `a'` is `a` with `h` done to each probe.  The flags, which no loop over
an empty list changes, are told for lists with a probe. -/
structure RequestsEffect (a : Agent) (h : Probe → Probe)
    (enabled started : Bool) (a' : Agent) : Prop where
  probes : a'.probes = a.probes.map h
  name : ∀ p, (h p).name = p.name
  enabled : ∀ p ∈ a.probes, a'.flags.requestsEnabled = enabled
  started : ∀ p ∈ a.probes, a'.flags.started = started

namespace Agent

/-- A loop over the probes in which those that `q` picks all change the
flags by `u`. -/
theorem forEach_requests {a : Agent} {h : Probe → Probe}
    {g : ProbeFlags → Probe → ProbeFlags × Probe} {K : ProbeFlags → Prop}
    {u : ProbeFlags → ProbeFlags} {q : Probe → Bool}
    (hu : ∀ f, u (u f) = u f) (hK : K a.flags)
    (hg : ∀ f, ∀ p ∈ a.probes, (g f p).1 = if q p then u f else f)
    (hp : ∀ f p, K f → K (g f p).1 ∧ (g f p).2 = h p)
    (hname : ∀ p, (h p).name = p.name) :
    RequestsEffect a h
      (if a.probes.any q then u a.flags else a.flags).requestsEnabled
      (if a.probes.any q then u a.flags else a.flags).started
      (a.forEach g) where
  probes := (forEachProbe_eq hp a.probes hK).2
  name := hname
  enabled _ _ := congrArg ProbeFlags.requestsEnabled
    (forEachProbe_flags hu hg a.flags)
  started _ _ := congrArg ProbeFlags.started
    (forEachProbe_flags hu hg a.flags)

/-- The same where every probe changes the flags. -/
theorem forEach_requests_all {a : Agent} {h : Probe → Probe}
    {g : ProbeFlags → Probe → ProbeFlags × Probe} {K : ProbeFlags → Prop}
    {u : ProbeFlags → ProbeFlags} (hu : ∀ f, u (u f) = u f) (hK : K a.flags)
    (hg : ∀ f, ∀ p ∈ a.probes, (g f p).1 = u f)
    (hp : ∀ f p, K f → K (g f p).1 ∧ (g f p).2 = h p)
    (hname : ∀ p, (h p).name = p.name) :
    RequestsEffect a h (u a.flags).requestsEnabled (u a.flags).started
      (a.forEach g) := by
  have heffect := forEach_requests (q := fun _ => true) hu hK hg hp hname
  have hall {p : Probe} (hmem : p ∈ a.probes) :
      (if a.probes.any fun _ => true then u a.flags else a.flags) =
        u a.flags :=
    if_pos (List.any_eq_true.mpr ⟨p, hmem, rfl⟩)
  constructor
  case probes => exact heffect.probes
  case name => exact hname
  case enabled =>
    intro p hmem
    rw [heffect.enabled p hmem, hall hmem]
  case started =>
    intro p hmem
    rw [heffect.started p hmem, hall hmem]

theorem start_requests (a : Agent) :
    RequestsEffect a (fun p => (Probe.start a.flags p).2)
      a.flags.requestsEnabled true a.start :=
  forEach_requests_all (g := Probe.start)
    (u := fun f => { f with started := true })
    (K := fun f => f.enabled = a.flags.enabled ∧
      f.requestsEnabled = a.flags.requestsEnabled)
    (fun _ => rfl) ⟨rfl, rfl⟩ (fun _ _ _ => rfl)
    (fun f p hf => ⟨hf, by rw [Probe.start, Probe.start, hf.1, hf.2]⟩)
    (fun p => by
      simp only [Probe.start]
      split <;> split <;> rfl)

theorem enable_requests {a : Agent}
    (htrace : ∀ p ∈ a.probes, p.isTrace = false) :
    RequestsEffect a (fun p => (Probe.enableRequests a.flags p).2) true
      a.flags.started (a.enable "requests") := by
  have heq : a.enable "requests" = a.forEach Probe.enableRequests := by
    simp [enable]
  rw [heq]
  apply forEach_requests_all (u := fun f => { f with requestsEnabled := true })
    (K := fun f => f.started = a.flags.started) (fun _ => rfl) rfl
  · intro f p hp
    rw [Probe.enableRequests, htrace p hp]
    rfl
  · intro f p hf
    cases h : p.isTrace <;> simp [Probe.enableRequests, h, hf]
  · intro p
    unfold Probe.enableRequests
    split
    · rfl
    · dsimp only
      split <;> rfl

theorem disable_requests (a : Agent) :
    RequestsEffect a (fun p => p.setRequests .stub) false a.flags.started
      (a.disable "requests") := by
  have heq : a.disable "requests" = a.forEach Probe.disableRequests := by
    simp [disable]
  rw [heq]
  exact forEach_requests_all (g := Probe.disableRequests)
    (u := fun f => { f with requestsEnabled := false }) (K := fun _ => True)
    (fun _ => rfl) trivial (fun _ _ _ => rfl) (fun _ _ _ => ⟨trivial, rfl⟩)
    (fun _ => rfl)

/-- Excluding a probe's module stubs that probe and turns `_requestsEnabled`
off for all. -/
theorem excludeModule_requests (a : Agent) (module : String) :
    RequestsEffect a (Probe.exclude [module])
      (a.flags.requestsEnabled &&
        !(a.probes.any fun p => p.name = module)) a.flags.started
      (a.forEach (ifNamed module Probe.disableRequests)) := by
  have heffect := forEach_requests (a := a) (h := Probe.exclude [module])
    (g := ifNamed module Probe.disableRequests)
    (u := fun f => { f with requestsEnabled := false }) (K := fun _ => True)
    (q := fun p => p.name = module) (fun _ => rfl) trivial
    (fun f p _ => by
      by_cases h : p.name = module <;>
        simp [ifNamed, Probe.disableRequests, h])
    (fun f p _ => ⟨trivial, by
      by_cases h : p.name = module <;>
        simp [ifNamed, Probe.disableRequests, Probe.exclude, h]⟩)
    (fun p => by
      unfold Probe.exclude
      split <;> rfl)
  constructor
  case probes => exact heffect.probes
  case name => exact heffect.name
  case enabled =>
    intro p hp
    rw [heffect.enabled p hp]
    cases a.probes.any fun p => decide (p.name = module) <;> simp
  case started =>
    intro p hp
    rw [heffect.started p hp]
    split <;> rfl

end Agent

/-- The agent with the history of its request switches: whether it has been
started, what was last said about requests, and the modules excluded since. -/
structure RequestSession where
  agent : Agent
  begun : Bool
  on : Bool
  excluded : List String

namespace RequestSession

def initial (names : List String) : RequestSession :=
  ⟨Agent.load names, false, false, []⟩

/-- `enable` and `disable` of requests forget the exclusions. -/
def step (s : RequestSession) (c : RequestSwitch) : Option RequestSession :=
  some
    { agent := s.agent.switchRequests c
      begun :=
        match c with
        | .start => true
        | _ => s.begun
      on :=
        match c with
        | .enable _ => true
        | .disable => false
        | _ => s.on
      excluded :=
        match c with
        | .start => s.excluded
        | .enable config =>
            (config.bind RequestsConfig.excludeModules).getD []
        | .disable => []
        | .setConfig config => s.excluded ++ config.excludeModules.getD [] }

/-- The request hooks that a probe should have. -/
def expected (s : RequestSession) (name : String) : Hook :=
  if s.begun = true ∧ s.on = true ∧ name ∉ s.excluded then .live else .stub

/-- Every probe is tracked just when it should be. -/
def Obeys (s : RequestSession) : Prop :=
  ∀ p ∈ s.agent.probes, p.RequestsAre (s.expected p.name)

/-- The first start does not come while requests are on and the module of
some probe, but not of every probe, is excluded. -/
def StartsUniform (s : RequestSession) (c : RequestSwitch) : Prop :=
  c = .start → s.begun = false → s.on = true →
    ∀ p ∈ s.agent.probes, ∀ q ∈ s.agent.probes,
      p.name ∈ s.excluded → q.name ∈ s.excluded

/-- What the shared flags say, if there is a probe. -/
structure Sound (s : RequestSession) : Prop where
  ordinary : ∀ p ∈ s.agent.probes, p.isTrace = false
  running : ∀ p ∈ s.agent.probes, s.agent.flags.started = s.begun
  tracking : ∀ p ∈ s.agent.probes, s.agent.flags.requestsEnabled = true ↔
    s.on = true ∧ ∀ q ∈ s.agent.probes, q.name ∉ s.excluded

theorem initial_sound {names : List String} (htrace : "trace" ∉ names) :
    (initial names).Sound where
  ordinary p hp := by
    obtain ⟨n, hn, rfl⟩ := List.mem_map.mp hp
    rw [Probe.isTrace, beq_eq_false_iff_ne]
    rintro rfl
    exact htrace hn
  running _ _ := rfl
  tracking _ _ := ⟨nofun, fun h => (by cases h.1)⟩

theorem initial_obeys (names : List String) : (initial names).Obeys := by
  intro p hp
  obtain ⟨n, _, rfl⟩ := List.mem_map.mp hp
  exact ⟨rfl, rfl⟩

theorem isTrace_eq {p q : Probe} (h : p.name = q.name) :
    p.isTrace = q.isTrace := by rw [Probe.isTrace, Probe.isTrace, h]

/-- What a call makes of the probes says which flags are then sound. -/
theorem Sound.of_effect {s s' : RequestSession} {h : Probe → Probe}
    {enabled started : Bool} (hs : s.Sound)
    (heffect : RequestsEffect s.agent h enabled started s'.agent)
    (hstarted : ∀ p ∈ s.agent.probes, started = s'.begun)
    (henabled : ∀ p ∈ s.agent.probes, enabled = true ↔
      s'.on = true ∧ ∀ q ∈ s.agent.probes, q.name ∉ s'.excluded) :
    s'.Sound := by
  have hnames {P : String → Prop} :
      (∀ q ∈ s'.agent.probes, P q.name) ↔ ∀ q ∈ s.agent.probes, P q.name := by
    rw [heffect.probes, List.forall_mem_map]
    simp only [heffect.name]
  have hmem {p' : Probe} (hp' : p' ∈ s'.agent.probes) :
      ∃ p ∈ s.agent.probes, h p = p' := by
    rw [heffect.probes] at hp'
    exact List.mem_map.mp hp'
  constructor
  case ordinary =>
    intro p' hp'
    obtain ⟨p, hp, rfl⟩ := hmem hp'
    rw [isTrace_eq (heffect.name p)]
    exact hs.ordinary p hp
  case running =>
    intro p' hp'
    obtain ⟨p, hp, _⟩ := hmem hp'
    rw [heffect.started p hp]
    exact hstarted p hp
  case tracking =>
    intro p' hp'
    obtain ⟨p, hp, _⟩ := hmem hp'
    rw [heffect.enabled p hp, henabled p hp,
      hnames (P := fun n => n ∉ s'.excluded)]

/-- What a call makes of the probes says which hooks they then have. -/
theorem obeys_of_effect {s s' : RequestSession} {h : Probe → Probe}
    {enabled started : Bool}
    (heffect : RequestsEffect s.agent h enabled started s'.agent) :
    s'.Obeys ↔ ∀ p ∈ s.agent.probes,
      (h p).RequestsAre (s'.expected p.name) := by
  rw [Obeys, heffect.probes, List.forall_mem_map]
  simp only [heffect.name]

theorem expected_eq_live {s : RequestSession} {n : String}
    (hbegun : s.begun = true) (hon : s.on = true) (hn : n ∉ s.excluded) :
    s.expected n = .live :=
  if_pos ⟨hbegun, hon, hn⟩

theorem expected_eq_stub {s : RequestSession} {n : String}
    (h : s.begun = false ∨ s.on = false ∨ n ∈ s.excluded) :
    s.expected n = .stub := by
  rw [expected, if_neg]
  rintro ⟨hbegun, hon, hn⟩
  rcases h with h | h | h
  · rw [hbegun] at h
    cases h
  · rw [hon] at h
    cases h
  · exact hn h

/-- One exclusion stubs the probes of that name, and clears the shared flag
if there are any. -/
theorem exclude_one {s s' : RequestSession} {module : String}
    (hs : s.Sound) (hobeys : s.Obeys)
    (hagent : s'.agent =
      s.agent.forEach (ifNamed module Probe.disableRequests))
    (hbegun : s'.begun = s.begun) (hon : s'.on = s.on)
    (hexcluded : s'.excluded = s.excluded ++ [module]) :
    s'.Sound ∧ s'.Obeys := by
  have heffect := s.agent.excludeModule_requests module
  rw [← hagent] at heffect
  constructor
  · apply hs.of_effect heffect
    · intro p hp
      rw [hbegun]
      exact hs.running p hp
    · intro p hp
      rw [Bool.and_eq_true, hs.tracking p hp, Bool.not_eq_true', hon,
        hexcluded, List.any_eq_false, and_assoc, ← forall₂_and]
      simp
  · rw [obeys_of_effect heffect]
    intro p hp
    have hold := hobeys p hp
    by_cases hname : p.name = module
    · rw [expected_eq_stub (Or.inr (Or.inr (by
        rw [hexcluded, hname]
        exact List.mem_concat_self))), Probe.exclude,
        if_pos (List.mem_singleton.mpr hname)]
      simp
    · have hexpected : s'.expected p.name = s.expected p.name := by
        simp [expected, hbegun, hon, hexcluded, hname]
      rw [hexpected, Probe.exclude,
        if_neg fun h => hname (List.mem_singleton.mp h)]
      exact hold

theorem exclude_all {s s' : RequestSession} {modules : List String}
    (hs : s.Sound) (hobeys : s.Obeys)
    (hagent : s'.agent = s.agent.excludeModules modules)
    (hbegun : s'.begun = s.begun) (hon : s'.on = s.on)
    (hexcluded : s'.excluded = s.excluded ++ modules) :
    s'.Sound ∧ s'.Obeys := by
  induction modules generalizing s with
  | nil =>
      have heq : s' = s := by
        obtain ⟨_, _, _, _⟩ := s'
        simp_all [Agent.excludeModules]
      rw [heq]
      exact ⟨hs, hobeys⟩
  | cons module modules ih =>
      let t : RequestSession :=
        ⟨s.agent.forEach (ifNamed module Probe.disableRequests), s.begun,
          s.on, s.excluded ++ [module]⟩
      have hone : t.Sound ∧ t.Obeys := exclude_one hs hobeys rfl rfl rfl rfl
      obtain ⟨hs₁, hobeys₁⟩ := hone
      exact ih hs₁ hobeys₁ hagent hbegun hon
        (by rw [hexcluded, List.append_cons])

theorem set_config {s s' : RequestSession} {config : RequestsConfig}
    (hs : s.Sound) (hobeys : s.Obeys)
    (hagent : s'.agent = s.agent.setRequestsConfig config.excludeModules)
    (hbegun : s'.begun = s.begun) (hon : s'.on = s.on)
    (hexcluded : s'.excluded =
      s.excluded ++ config.excludeModules.getD []) : s'.Sound ∧ s'.Obeys := by
  cases hmodules : config.excludeModules with
  | none =>
      rw [hmodules] at hagent hexcluded
      exact @exclude_all s s' [] hs hobeys hagent hbegun hon hexcluded
  | some modules =>
      rw [hmodules] at hagent hexcluded
      exact exclude_all hs hobeys hagent hbegun hon hexcluded

/-- `enable` tracks every probe of a running agent. -/
theorem enable_all {s s' : RequestSession} (hs : s.Sound)
    (hobeys : s.Obeys) (hagent : s'.agent = s.agent.enable "requests")
    (hbegun : s'.begun = s.begun) (hon : s'.on = true)
    (hexcluded : s'.excluded = []) : s'.Sound ∧ s'.Obeys := by
  have heffect := Agent.enable_requests hs.ordinary
  rw [← hagent] at heffect
  constructor
  · apply hs.of_effect heffect
    · intro p hp
      rw [hbegun]
      exact hs.running p hp
    · simp [hon, hexcluded]
  · rw [obeys_of_effect heffect]
    intro p hp
    have hold := hobeys p hp
    have hstarted := hs.running p hp
    simp only [Probe.enableRequests, hs.ordinary p hp, hstarted]
    cases hrun : s.begun with
    | true =>
        rw [expected_eq_live (hbegun.trans hrun) hon
          (by rw [hexcluded]; exact List.not_mem_nil)]
        simp
    | false =>
        rw [expected_eq_stub (Or.inl hrun)] at hold
        rw [expected_eq_stub (Or.inl (hbegun.trans hrun))]
        exact hold

theorem disable_all {s s' : RequestSession} (hs : s.Sound)
    (hagent : s'.agent = s.agent.disable "requests")
    (hbegun : s'.begun = s.begun) (hoff : s'.on = false) :
    s'.Sound ∧ s'.Obeys := by
  have heffect := s.agent.disable_requests
  rw [← hagent] at heffect
  constructor
  · apply hs.of_effect heffect
    · intro p hp
      rw [hbegun]
      exact hs.running p hp
    · simp [hoff]
  · rw [obeys_of_effect heffect]
    intro p _
    rw [expected_eq_stub (Or.inr (Or.inl hoff))]
    simp

theorem start_sound {s s' : RequestSession} (hs : s.Sound)
    (hagent : s'.agent = s.agent.start) (hbegun : s'.begun = true)
    (hon : s'.on = s.on) (hexcluded : s'.excluded = s.excluded) :
    s'.Sound := by
  have heffect := s.agent.start_requests
  rw [← hagent] at heffect
  apply hs.of_effect heffect
  · intro p _
    exact hbegun.symm
  · intro p hp
    rw [hs.tracking p hp, hon, hexcluded]

/-- The hooks of one probe after a start. -/
theorem start_requestsAre (f : ProbeFlags) (p : Probe) (hook : Hook) :
    (Probe.start f p).2.RequestsAre hook ↔
      if f.requestsEnabled then hook = .live else p.RequestsAre hook := by
  cases hflag : f.requestsEnabled <;> cases hmetrics : f.enabled <;>
    simp [Probe.start, hflag, hmetrics, eq_comm]

/-- While requests are on, only an excluded module keeps the flag off. -/
theorem Sound.exists_excluded {s : RequestSession} (hs : s.Sound) {p : Probe}
    (hp : p ∈ s.agent.probes) (hflag : s.agent.flags.requestsEnabled = false)
    (hon : s.on = true) : ∃ q ∈ s.agent.probes, q.name ∈ s.excluded := by
  by_contra hnone
  push Not at hnone
  have hflagged := (hs.tracking p hp).mpr ⟨hon, hnone⟩
  rw [hflag] at hflagged
  cases hflagged

/-- A start tracks every probe when the flag says so, and otherwise leaves
the hooks as they are; the flag is off if any module was excluded. -/
theorem start_obeys_iff {s s' : RequestSession} (hs : s.Sound)
    (hobeys : s.Obeys) (hagent : s'.agent = s.agent.start)
    (hbegun : s'.begun = true) (hon : s'.on = s.on)
    (hexcluded : s'.excluded = s.excluded) :
    s'.Obeys ↔ s.StartsUniform .start := by
  have heffect := s.agent.start_requests
  rw [← hagent] at heffect
  rw [obeys_of_effect heffect]
  simp only [start_requestsAre]
  cases hflag : s.agent.flags.requestsEnabled with
  | true =>
      have hclear (p : Probe) (hp : p ∈ s.agent.probes) :=
        (hs.tracking p hp).mp hflag
      constructor
      · intro _ _ _ _ p hp q _ hexcl
        exact absurd hexcl ((hclear p hp).2 p hp)
      · intro _ p hp
        obtain ⟨hyes, hno⟩ := hclear p hp
        exact expected_eq_live hbegun (hon.trans hyes)
          (by rw [hexcluded]; exact hno p hp)
  | false =>
      cases hrun : s.begun with
      | true =>
          refine iff_of_true (fun p hp => ?_) (fun _ hno => ?_)
          · have hsame : s'.expected p.name = s.expected p.name := by
              rw [expected, expected, hbegun, hrun, hon, hexcluded]
            rw [hsame]
            exact hobeys p hp
          · rw [hrun] at hno
            cases hno
      | false =>
          have hstub (p : Probe) (hp : p ∈ s.agent.probes) :
              p.RequestsAre .stub := by
            have hold := hobeys p hp
            rw [expected_eq_stub (Or.inl hrun)] at hold
            exact hold
          constructor
          · intro hafter _ _ hyes p hp q hq hexcl
            by_contra hno
            have hlive := hafter q hq
            rw [expected_eq_live hbegun (hon.trans hyes)
              (by rw [hexcluded]; exact hno)] at hlive
            cases (hstub q hq).eq hlive
          · intro hguard p hp
            have hexpected : s'.expected p.name = .stub := by
              apply expected_eq_stub
              cases hyes : s.on with
              | false => exact Or.inr (Or.inl (hon.trans hyes))
              | true =>
                  obtain ⟨q, hq, hexcl⟩ :=
                    hs.exists_excluded hp hflag hyes
                  rw [hexcluded]
                  exact Or.inr (Or.inr (hguard rfl hrun hyes q hq p hp hexcl))
            rw [hexpected]
            exact hstub p hp

/-- Every call keeps the flags sound. -/
theorem Sound.step {s s' : RequestSession} {c : RequestSwitch}
    (hs : s.Sound) (hobeys : s.Obeys) (hstep : s.step c = some s') :
    s'.Sound ∧ (s'.Obeys ↔ s.StartsUniform c) := by
  have hquiet (hne : c ≠ .start) (h : s'.Sound ∧ s'.Obeys) :
      s'.Sound ∧ (s'.Obeys ↔ s.StartsUniform c) :=
    ⟨h.1, iff_of_true h.2 fun heq => absurd heq hne⟩
  cases hstep
  cases c with
  | start =>
      exact ⟨start_sound hs rfl rfl rfl rfl,
        start_obeys_iff hs hobeys rfl rfl rfl rfl⟩
  | enable config =>
      apply hquiet nofun
      cases config with
      | none => exact enable_all hs hobeys rfl rfl rfl rfl
      | some config =>
          -- `enable` and then `setConfig`
          let t : RequestSession :=
            ⟨s.agent.enable "requests", s.begun, true, []⟩
          have hall : t.Sound ∧ t.Obeys :=
            enable_all hs hobeys rfl rfl rfl rfl
          obtain ⟨hs₁, hobeys₁⟩ := hall
          exact set_config hs₁ hobeys₁ rfl rfl rfl (List.nil_append _).symm
  | disable => exact hquiet nofun (disable_all hs rfl rfl rfl)
  | setConfig config =>
      exact hquiet nofun (set_config hs hobeys rfl rfl rfl rfl)

end RequestSession

/-- The agent with these probes, as a machine whose labels switch requests. -/
def requestSwitchMachine (names : List String) :
    StepMachine.Machine RequestSession RequestSwitch where
  init := RequestSession.initial names
  step := RequestSession.step

theorem requestSwitchMachine_run (names : List String) (s : RequestSession)
    (calls : List RequestSwitch) :
    ∃ s', (requestSwitchMachine names).run s calls = some s' := by
  induction calls generalizing s with
  | nil => exact ⟨s, rfl⟩
  | cons c calls ih => exact ih _

theorem requestSwitch_inductive {names : List String}
    (htrace : "trace" ∉ names) :
    (requestSwitchMachine names).Inductive
      (fun s c => True ∧ s.StartsUniform c)
      fun s => s.Sound ∧ s.Obeys where
  init := ⟨RequestSession.initial_sound htrace,
    RequestSession.initial_obeys names⟩
  step hs hguard hstep :=
    ⟨(hs.1.step hs.2 hstep).1, (hs.1.step hs.2 hstep).2.mpr hguard.2⟩

/-- The same history and probes, but for whether the agent has started. -/
structure SameSwitches (s t : RequestSession) : Prop where
  names : s.agent.probes.map Probe.name = t.agent.probes.map Probe.name
  on : s.on = t.on
  excluded : s.excluded = t.excluded

/-- Which probes are tracked, in the order of the probes. -/
def RequestSession.tracked (s : RequestSession) : List (Hook × Hook) :=
  s.agent.probes.map fun p => (p.requestProbeStart, p.requestProbeEnd)

theorem forEachProbe_names {g : ProbeFlags → Probe → ProbeFlags × Probe}
    (hg : ∀ f p, (g f p).2.name = p.name) (f : ProbeFlags)
    (ps : List Probe) :
    (forEachProbe g f ps).2.map Probe.name = ps.map Probe.name := by
  induction ps generalizing f with
  | nil => rfl
  | cons p ps ih =>
      change (g f p).2.name :: (forEachProbe g (g f p).1 ps).2.map _ = _
      rw [hg, ih, List.map_cons]

namespace Agent

theorem setRequestsConfig_names (a : Agent) (modules : Option (List String)) :
    (a.setRequestsConfig modules).probes.map Probe.name =
      a.probes.map Probe.name := by
  cases modules with
  | none => rfl
  | some modules =>
      change (a.excludeModules modules).probes.map Probe.name = _
      induction modules generalizing a with
      | nil => rfl
      | cons module modules ih =>
          refine (ih _).trans (forEachProbe_names (fun f p => ?_) _ _)
          unfold ifNamed
          split <;> rfl

theorem switchRequests_names (a : Agent) (c : RequestSwitch) :
    (a.switchRequests c).probes.map Probe.name =
      a.probes.map Probe.name := by
  have henable : (a.enable "requests").probes.map Probe.name =
      a.probes.map Probe.name := by
    have heq : a.enable "requests" = a.forEach Probe.enableRequests := by
      simp [enable]
    rw [heq]
    refine forEachProbe_names (fun f p => ?_) _ _
    unfold Probe.enableRequests
    split
    · rfl
    · dsimp only
      split <;> rfl
  cases c with
  | start =>
      refine forEachProbe_names (fun f p => ?_) _ _
      simp only [Probe.start]
      split <;> split <;> rfl
  | enable config =>
      cases config with
      | none => exact henable
      | some config => exact (setRequestsConfig_names _ _).trans henable
  | disable =>
      have heq : a.disable "requests" = a.forEach Probe.disableRequests := by
        simp [disable]
      change (a.disable "requests").probes.map Probe.name = _
      rw [heq]
      exact forEachProbe_names (fun _ _ => rfl) _ _
  | setConfig config => exact setRequestsConfig_names _ _

end Agent

/-- The switches are the same whether or not the agent has started. -/
theorem SameSwitches.step {s s' t t' : RequestSession} {c : RequestSwitch}
    (h : SameSwitches s t) (hs : s.step c = some s')
    (ht : t.step c = some t') : SameSwitches s' t' := by
  cases hs
  cases ht
  constructor
  case names =>
    exact (Agent.switchRequests_names _ c).trans
      (h.names.trans (Agent.switchRequests_names _ c).symm)
  case on => cases c <;> simp [h.on]
  case excluded => cases c <;> simp [h.excluded]

theorem SameSwitches.run {names : List String} {s s' t t' : RequestSession}
    {calls : List RequestSwitch} (h : SameSwitches s t)
    (hs : (requestSwitchMachine names).run s calls = some s')
    (ht : (requestSwitchMachine names).run t calls = some t') :
    SameSwitches s' t' := by
  induction calls generalizing s t with
  | nil =>
      cases hs
      cases ht
      exact h
  | cons c calls ih =>
      obtain ⟨s₁, hs₁, hs⟩ := run_cons_eq_some.mp hs
      obtain ⟨t₁, ht₁, ht⟩ := run_cons_eq_some.mp ht
      exact ih (h.step hs₁ ht₁) hs ht

/-- Sessions that both have started and obey the same switches track the same
probes. -/
theorem tracked_eq_iff {s t : RequestSession} (h : SameSwitches s t)
    (hs : s.begun = true) (ht : t.begun = true) (hobeys : t.Obeys) :
    s.tracked = t.tracked ↔ s.Obeys := by
  have hexpected : s.expected = t.expected := by
    funext n
    rw [RequestSession.expected, RequestSession.expected, hs, ht, h.on,
      h.excluded]
  have hnames := h.names
  rw [RequestSession.Obeys, RequestSession.tracked, RequestSession.tracked,
    hexpected]
  rw [RequestSession.Obeys] at hobeys
  generalize s.agent.probes = ps at hnames ⊢
  generalize t.agent.probes = qs at hnames hobeys ⊢
  induction ps generalizing qs with
  | nil =>
      have hnil : qs = [] := List.map_eq_nil_iff.mp hnames.symm
      simp [hnil]
  | cons p ps ih =>
      cases qs with
      | nil => cases hnames
      | cons q qs =>
          simp only [List.map_cons, List.cons.injEq] at hnames
          rw [List.forall_mem_cons] at hobeys ⊢
          obtain ⟨hfirst, hlast⟩ := hobeys.1
          simp only [List.map_cons, List.cons.injEq, Prod.mk.injEq,
            ih qs hnames.2 hobeys.2, hnames.1, hfirst, hlast]
          rfl

theorem RequestSession.begun_run {names : List String}
    {s t : RequestSession} {calls : List RequestSwitch}
    (hs : s.begun = true)
    (hrun : (requestSwitchMachine names).run s calls = some t) :
    t.begun = true := by
  induction calls generalizing s with
  | nil =>
      cases hrun
      exact hs
  | cons c calls ih =>
      obtain ⟨u, hstep, hrest⟩ := run_cons_eq_some.mp hrun
      apply ih _ hrest
      cases hstep
      cases c <;> first | rfl | exact hs

/-- The same calls before a first start and after it. -/
theorem order_of_start {names : List String} (htrace : "trace" ∉ names)
    {calls : List RequestSwitch} (hcalls : .start ∉ calls)
    {s t : RequestSession}
    (hs : (requestSwitchMachine names).run (RequestSession.initial names)
      (calls ++ [.start]) = some s)
    (ht : (requestSwitchMachine names).run (RequestSession.initial names)
      (.start :: calls) = some t) :
    s.tracked = t.tracked ↔
      (requestSwitchMachine names).Guarded RequestSession.StartsUniform
        (RequestSession.initial names) (calls ++ [.start]) := by
  have hinv := requestSwitch_inductive htrace
  have hquiet (u : RequestSession) :
      (requestSwitchMachine names).Guarded RequestSession.StartsUniform u
        calls :=
    guarded_of_forall fun u c hc heq => absurd (heq ▸ hc) hcalls
  obtain ⟨u, hu⟩ := requestSwitchMachine_run names
    (RequestSession.initial names) calls
  rw [run_append, hu, Option.bind_some] at hs
  obtain ⟨v, hlast, hnil⟩ := run_cons_eq_some.mp hs
  cases hnil
  obtain ⟨w, hfirst, hrest⟩ := run_cons_eq_some.mp ht
  have hsound := hinv.run ((guarded_true _ _).and (hquiet _)) hu
  have hstart : (requestSwitchMachine names).Guarded
      RequestSession.StartsUniform (RequestSession.initial names)
      (.start :: calls) := ⟨fun _ _ hon => (by cases hon), fun _ _ => hquiet _⟩
  have hobeys : t.Obeys := (hinv.run ((guarded_true _ _).and hstart) ht).2
  have hsame : SameSwitches s t := by
    have hstarted : SameSwitches (RequestSession.initial names) w := by
      cases hfirst
      exact ⟨(Agent.switchRequests_names _ .start).symm, rfl, rfl⟩
    have hconfigured := hstarted.run hu hrest
    cases hlast
    exact ⟨(Agent.switchRequests_names _ .start).trans hconfigured.names,
      hconfigured.on, hconfigured.excluded⟩
  rw [tracked_eq_iff hsame (by cases hlast; rfl)
      (RequestSession.begun_run (by cases hfirst; rfl) hrest) hobeys,
    (hsound.1.step hsound.2 hlast).2, guarded_append hu]
  exact ⟨fun h => ⟨hquiet _, h, fun _ _ => trivial⟩, fun h => h.2.1⟩

/-- Over any probes but trace and any sequence of calls: each probe is tracked
after each call just when it should be, exactly when no first start finds
requests on with some module excluded and another not; and making the same
calls before that start or after it is the same under the same condition. -/
theorem request_switches (names : List String) (htrace : "trace" ∉ names)
    (calls : List RequestSwitch) :
    ((requestSwitchMachine names).Guarded RequestSession.StartsUniform
        (RequestSession.initial names) calls ↔
      (requestSwitchMachine names).Each (fun _ _ s' => s'.Obeys)
        (RequestSession.initial names) calls) ∧
    (.start ∉ calls →
      ∀ s ∈ (requestSwitchMachine names).run (RequestSession.initial names)
        (calls ++ [.start]),
      ∀ t ∈ (requestSwitchMachine names).run (RequestSession.initial names)
        (.start :: calls),
      (s.tracked = t.tracked ↔
        (requestSwitchMachine names).Guarded RequestSession.StartsUniform
          (RequestSession.initial names) (calls ++ [.start]))) := by
  obtain ⟨t, hrun⟩ := requestSwitchMachine_run names
    (RequestSession.initial names) calls
  have hinv := requestSwitch_inductive htrace
  constructor
  · exact hinv.guarded_iff_each
      (fun hs _ hstep => (hs.1.step hs.2 hstep).2.symm) hinv.init
      (guarded_true _ _) hrun
  · exact fun hcalls s hs t ht => order_of_start htrace hcalls hs ht

namespace ExclusionsWitness

def twoProbes : List String := ["http", "redis"]

/-- Redis is excluded before the start, and then http is not tracked
either. -/
def excludeRedis : List RequestSwitch :=
  [.enable none, .setConfig ⟨some ["redis"]⟩]

theorem exclusion_leaks :
    ∃ s ∈ (requestSwitchMachine twoProbes).run
        (RequestSession.initial twoProbes) (excludeRedis ++ [.start]),
      s.begun = true ∧ s.on = true ∧ "http" ∉ s.excluded ∧
        s.tracked = [(.stub, .stub), (.stub, .stub)] ∧
        ∃ t ∈ (requestSwitchMachine twoProbes).run
            (RequestSession.initial twoProbes) (.start :: excludeRedis),
          t.tracked = [(.live, .live), (.stub, .stub)] := by
  decide +kernel

theorem request_switches_two :
    "trace" ∉ twoProbes ∧
      ((requestSwitchMachine twoProbes).Guarded RequestSession.StartsUniform
          (RequestSession.initial twoProbes) (.start :: excludeRedis) ↔
        (requestSwitchMachine twoProbes).Each (fun _ _ s' => s'.Obeys)
          (RequestSession.initial twoProbes) (.start :: excludeRedis)) :=
  ⟨by decide, (request_switches twoProbes (by decide)
    (.start :: excludeRedis)).1⟩

end ExclusionsWitness

end Appmetrics
