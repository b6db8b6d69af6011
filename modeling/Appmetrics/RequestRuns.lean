/-
Runs of request tracking.  A turn of the event loop runs one call with some
domain stack; which domains a callback runs in is the application's choice,
so the stack is part of the turn.  `History` adds to the tracker what the
statements about runs speak of: the domain each request was created in and
the root request that created each domain.
-/
import Appmetrics.RequestStop
import Appmetrics.Machine

namespace Appmetrics

/-- What the application and the probes do in one turn.  Timers are made and
stopped by the metrics hooks, domains also by the application itself. -/
inductive RequestCall
  | createDomain
  | startTimer
  | stopTimer (timer : Nat)
  | setConfig (minClockTrace minClockStack : Option Rat)
  | startRequest (type : Option String) (name : String) (root : Bool)
      (eventTimer : Option Nat)
  | startMethod (name : String) (eventTimer : Option Nat)
  | stop (request : Nat)
deriving Repr, DecidableEq

structure Turn where
  stack : List Nat
  clock : Clock
  call : RequestCall
deriving Repr, DecidableEq

/-- `process.domain` when the turn begins. -/
def Turn.processDomain (turn : Turn) : Option Nat := turn.stack.head?

namespace RequestCall

/-- The objects a call refers to exist. -/
def Valid (s : Tracker) : RequestCall → Prop
  | stopTimer t => t < s.timerCount
  | startRequest _ _ _ eventTimer => ∀ t ∈ eventTimer, t < s.timerCount
  | startMethod _ eventTimer => ∀ t ∈ eventTimer, t < s.timerCount
  | stop r => r < s.requestCount
  | _ => True

instance (s : Tracker) (call : RequestCall) : Decidable (call.Valid s) := by
  cases call <;> unfold Valid <;> infer_instance

def perform (clock : Clock) (s : Tracker) : RequestCall → Tracker
  | createDomain => s.createDomain
  | startTimer => s.startTimer clock
  | stopTimer t => s.stopTimer clock t
  | setConfig trace stack => s.setConfig trace stack
  | startRequest type name root eventTimer =>
      s.startRequest clock type name root eventTimer
  | startMethod name eventTimer => s.startMethod clock name eventTimer
  | stop r => s.stop clock r

/-- Whether the call makes a request, and whether that is a root request. -/
def root? : RequestCall → Option Bool
  | startRequest _ _ root _ => some root
  | startMethod _ _ => some false
  | _ => none

end RequestCall

/-- A tracker with the history that statements about runs need. -/
structure History where
  tracker : Tracker
  /-- the domain a request was created in -/
  home : Nat → Option Nat
  /-- the root request that created a domain -/
  creator : Nat → Option Nat
  /-- the last reading of `process.hrtime` -/
  hrtime : Nat

/-- The callback resumes with the domain stack of its turn. -/
def Tracker.resume (s : Tracker) (stack : List Nat) : Tracker :=
  { s with domainStack := stack }

namespace History

def initial : History where
  tracker := Tracker.initial
  home := fun _ => none
  creator := fun _ => none
  hrtime := 0

def step (h : History) (turn : Turn) : Option History :=
  if (∀ d ∈ turn.stack, d < h.tracker.domainCount) ∧
      turn.call.Valid h.tracker then
    let s := h.tracker.resume turn.stack
    some
      { tracker := turn.call.perform turn.clock s
        home :=
          match turn.call.root? with
          | some root =>
              Function.update h.home s.requestCount (s.callDomain root)
          | none => h.home
        creator :=
          if turn.call.root? = some true then
            Function.update h.creator s.domainCount (some s.requestCount)
          else h.creator
        hrtime := turn.clock.hrtime }
  else none

end History

/-- Request tracking as a machine whose labels are turns. -/
def requestMachine : StepMachine.Machine History Turn where
  init := History.initial
  step := History.step

namespace Tracker

/-- Calls that neither start nor stop a request. -/
structure OtherEffect (clock : Clock) (s s' : Tracker) : Prop where
  requests : s'.requests = s.requests
  requestCount : s'.requestCount = s.requestCount
  emitted : s'.emitted = s.emitted
  domainCount : s.domainCount ≤ s'.domainCount
  current : ∀ d, s'.currentRequest d = s.currentRequest d ∨
    d = s.domainCount ∧ s'.currentRequest d = none
  timerCount : s.timerCount ≤ s'.timerCount
  timers : ∀ t, t < s.timerCount →
    s'.timers t = s.timers t ∨ s'.timers t = (s.timers t).stop clock
  fresh : ∀ t, s.timerCount ≤ t → t < s'.timerCount →
    s'.timers t = Timer.start clock

theorem createDomain_other (s : Tracker) (clock : Clock) :
    OtherEffect clock s s.createDomain where
  requests := rfl
  requestCount := rfl
  emitted := rfl
  domainCount := Nat.le_succ _
  current d := by by_cases hd : d = s.domainCount <;> simp [createDomain, hd]
  timerCount := Nat.le_refl _
  timers _ _ := Or.inl rfl
  fresh _ hle hlt := absurd hlt (Nat.not_lt_of_le hle)

theorem startTimer_other (s : Tracker) (clock : Clock) :
    OtherEffect clock s (s.startTimer clock) where
  requests := rfl
  requestCount := rfl
  emitted := rfl
  domainCount := Nat.le_refl _
  current _ := Or.inl rfl
  timerCount := Nat.le_succ _
  timers t ht := by
    have hne : t ≠ s.timerCount := Nat.ne_of_lt ht
    simp [startTimer, hne]
  fresh t hle hlt := by
    have heq : t = s.timerCount := by
      simp only [startTimer] at hlt
      omega
    simp [startTimer, heq]

theorem stopTimer_other (s : Tracker) (clock : Clock) (u : Nat) :
    OtherEffect clock s (s.stopTimer clock u) where
  requests := rfl
  requestCount := rfl
  emitted := rfl
  domainCount := Nat.le_refl _
  current _ := Or.inl rfl
  timerCount := Nat.le_refl _
  timers t _ := by by_cases ht : t = u <;> simp [stopTimer, ht]
  fresh _ hle hlt := absurd hlt (Nat.not_lt_of_le hle)

theorem setConfig_other (s : Tracker) (clock : Clock)
    (trace stack : Option Rat) :
    OtherEffect clock s (s.setConfig trace stack) where
  requests := rfl
  requestCount := rfl
  emitted := rfl
  domainCount := Nat.le_refl _
  current _ := Or.inl rfl
  timerCount := Nat.le_refl _
  timers _ _ := Or.inl rfl
  fresh _ hle hlt := absurd hlt (Nat.not_lt_of_le hle)

theorem OtherEffect.parentOf {clock : Clock} {s s' : Tracker}
    (h : OtherEffect clock s s') : s'.parentOf = s.parentOf :=
  congrArg (fun requests x => (requests x).parent) h.requests

theorem OtherEffect.wellFormed {clock : Clock} {s s' : Tracker}
    (h : OtherEffect clock s s') (hwf : s.WellFormed) : s'.WellFormed := by
  constructor
  case timer_lt =>
    intro x t ht
    rw [h.requests] at ht
    exact Nat.lt_of_lt_of_le (hwf.timer_lt ht) h.timerCount
  case current_lt =>
    intro d c hc
    rw [h.requestCount]
    rcases h.current d with heq | ⟨_, heq⟩
    · exact hwf.current_lt (heq ▸ hc)
    · rw [heq] at hc
      cases hc
  case blank => rw [h.requestCount, h.requests]; exact hwf.blank
  case active_lt => rw [h.requestCount, h.requests]; exact hwf.active_lt
  case parent_lt => rw [h.parentOf]; exact hwf.parent_lt
  case mem_children => rw [h.parentOf, h.requests]; exact hwf.mem_children
  case children_nodup => rw [h.requests]; exact hwf.children_nodup
  case top_root =>
    rw [h.requestCount, h.parentOf, h.requests]
    exact hwf.top_root
  case top_child => rw [h.parentOf, h.requests]; exact hwf.top_child
  case active_timer => rw [h.requests]; exact hwf.active_timer

theorem resume_wellFormed {s : Tracker} (hwf : s.WellFormed)
    (stack : List Nat) : (s.resume stack).WellFormed :=
  { hwf with }

end Tracker

namespace History

/-- What one turn can do to the history. -/
inductive StepCase (h : History) (turn : Turn) : History → Prop
  | start (type : Option String) (name : String) (root : Bool)
      (eventTimer : Option Nat) (hroot : turn.call.root? = some root)
      (htimer : ∀ t, eventTimer = some t → t < h.tracker.timerCount) :
      StepCase h turn
        { tracker := (h.tracker.resume turn.stack).startRequest turn.clock
            type name root eventTimer
          home := Function.update h.home h.tracker.requestCount
            ((h.tracker.resume turn.stack).callDomain root)
          creator :=
            if root then
              Function.update h.creator h.tracker.domainCount
                (some h.tracker.requestCount)
            else h.creator
          hrtime := turn.clock.hrtime }
  | stop (r : Nat) (hcall : turn.call = .stop r)
      (hr : r < h.tracker.requestCount) :
      StepCase h turn
        { tracker := (h.tracker.resume turn.stack).stop turn.clock r
          home := h.home
          creator := h.creator
          hrtime := turn.clock.hrtime }
  | other (s' : Tracker) (hroot : turn.call.root? = none)
      (hcall : ∀ r, turn.call ≠ .stop r)
      (hother : Tracker.OtherEffect turn.clock
        (h.tracker.resume turn.stack) s') :
      StepCase h turn
        { tracker := s'
          home := h.home
          creator := h.creator
          hrtime := turn.clock.hrtime }

theorem step_valid {h h' : History} {turn : Turn}
    (hstep : h.step turn = some h') :
    ∀ d, turn.processDomain = some d → d < h.tracker.domainCount := by
  unfold step at hstep
  split at hstep
  · next hvalid =>
      intro d hd
      exact hvalid.1 d (List.mem_of_head? hd)
  · cases hstep

theorem step_case {h h' : History} {turn : Turn}
    (hstep : h.step turn = some h') : StepCase h turn h' := by
  unfold step at hstep
  split at hstep
  · next hvalid =>
      have heq := Option.some.inj hstep
      subst heq
      obtain ⟨stack, clock, call⟩ := turn
      cases call with
      | createDomain =>
          exact .other _ rfl (fun _ => nofun)
            (Tracker.createDomain_other _ clock)
      | startTimer =>
          exact .other _ rfl (fun _ => nofun)
            (Tracker.startTimer_other _ clock)
      | stopTimer t =>
          exact .other _ rfl (fun _ => nofun)
            (Tracker.stopTimer_other _ clock t)
      | setConfig trace stackTrace =>
          exact .other _ rfl (fun _ => nofun)
            (Tracker.setConfig_other _ clock trace stackTrace)
      | startRequest type name root eventTimer =>
          have hstart : StepCase h
              ⟨stack, clock, .startRequest type name root eventTimer⟩ _ :=
            .start type name root eventTimer rfl hvalid.2
          cases root <;> exact hstart
      | startMethod name eventTimer =>
          exact .start none name false eventTimer rfl hvalid.2
      | stop r => exact .stop r rfl hvalid.2
  · cases hstep

theorem StepCase.wellFormed {h h' : History} {turn : Turn}
    (hcase : StepCase h turn h') (hwf : h.tracker.WellFormed) :
    h'.tracker.WellFormed := by
  have hresume := Tracker.resume_wellFormed hwf turn.stack
  cases hcase with
  | start type name root eventTimer hroot htimer =>
      exact hresume.startRequest turn.clock type name root eventTimer htimer
  | stop r hcall hr =>
      exact (Tracker.stop_effect hresume turn.clock r).stops.wellFormed hresume
  | other s' hroot hcall hother => exact hother.wellFormed hresume

end History

end Appmetrics
