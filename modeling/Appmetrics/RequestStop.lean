/-
What `Request.prototype.stop` does to the heap: it switches off requests of
one subtree, stops their timers, and never changes the forest.  The
recursion over the children, and the walk up the parents that delayed
tracing makes, both end.
-/
import Appmetrics.RequestForest

namespace Appmetrics

theorem Timer.stop_idem (clock : Clock) (timer : Timer) :
    (timer.stop clock).stop clock = timer.stop clock := by
  by_cases hrunning : timer.timeDelta = -1
  · simp [Timer.stop, hrunning]
  · rw [Timer.stop_of_stopped hrunning, Timer.stop_of_stopped hrunning]

namespace Tracker

open Forest

/-- Everything that stopping requests leaves alone. -/
structure Frame (s s' : Tracker) : Prop where
  requestCount : s'.requestCount = s.requestCount
  timerCount : s'.timerCount = s.timerCount
  domainCount : s'.domainCount = s.domainCount
  nextRequestId : s'.nextRequestId = s.nextRequestId
  nextEventId : s'.nextEventId = s.nextEventId
  config : s'.config = s.config
  shape : ∀ x, (s'.requests x).shape = (s.requests x).shape
  startTime : ∀ t, (s'.timers t).startTime = (s.timers t).startTime
  startTimeMillis : ∀ t,
    (s'.timers t).startTimeMillis = (s.timers t).startTimeMillis

theorem Frame.refl (s : Tracker) : Frame s s := by
  constructor <;> intros <;> rfl

theorem Frame.trans {s₁ s₂ s₃ : Tracker} (h₁ : Frame s₁ s₂)
    (h₂ : Frame s₂ s₃) : Frame s₁ s₃ where
  requestCount := h₂.requestCount.trans h₁.requestCount
  timerCount := h₂.timerCount.trans h₁.timerCount
  domainCount := h₂.domainCount.trans h₁.domainCount
  nextRequestId := h₂.nextRequestId.trans h₁.nextRequestId
  nextEventId := h₂.nextEventId.trans h₁.nextEventId
  config := h₂.config.trans h₁.config
  shape x := (h₂.shape x).trans (h₁.shape x)
  startTime t := (h₂.startTime t).trans (h₁.startTime t)
  startTimeMillis t := (h₂.startTimeMillis t).trans (h₁.startTimeMillis t)

section FrameFields

variable {s s' : Tracker} (hframe : Frame s s')

include hframe

theorem Frame.parentOf (x : Nat) : s'.parentOf x = s.parentOf x :=
  have h := congrArg Request.parent (hframe.shape x)
  h

theorem Frame.children (x : Nat) :
    (s'.requests x).children = (s.requests x).children :=
  have h := congrArg Request.children (hframe.shape x)
  h

theorem Frame.top (x : Nat) : (s'.requests x).top = (s.requests x).top :=
  have h := congrArg Request.top (hframe.shape x)
  h

theorem Frame.timer (x : Nat) :
    (s'.requests x).timer = (s.requests x).timer :=
  have h := congrArg Request.timer (hframe.shape x)
  h

theorem Frame.ancestor {x r : Nat} :
    Ancestor s'.parentOf x r ↔ Ancestor s.parentOf x r := by
  rw [show s'.parentOf = s.parentOf from funext hframe.parentOf]

end FrameFields

theorem modify_frame (s : Tracker) (r : Nat) (f : Request → Request)
    (hshape : ∀ q, (f q).shape = q.shape) : Frame s (s.modify r f) := by
  have hrequests (x : Nat) :
      ((s.modify r f).requests x).shape = (s.requests x).shape := by
    by_cases hx : x = r
    · simp [modify, hx, hshape]
    · simp [modify, hx]
  exact { Frame.refl s with shape := hrequests }

theorem stopTimer_frame (s : Tracker) (clock : Clock) (t : Nat) :
    Frame s (s.stopTimer clock t) := by
  have hstart (u : Nat) : ((s.stopTimer clock t).timers u).startTime =
      (s.timers u).startTime ∧
      ((s.stopTimer clock t).timers u).startTimeMillis =
        (s.timers u).startTimeMillis := by
    by_cases hu : u = t <;> simp [stopTimer, hu]
  exact { Frame.refl s with
    startTime := fun u => (hstart u).1
    startTimeMillis := fun u => (hstart u).2 }

/-- The forest facts that the recursion needs; they outlast any frame. -/
structure HeapShape (s : Tracker) : Prop where
  parent_lt : ∀ {x p}, s.parentOf x = some p → p < x
  lt_of_parent : ∀ {x p}, s.parentOf x = some p → x < s.requestCount
  mem_children : ∀ {x p}, x ∈ (s.requests p).children ↔ s.parentOf x = some p

theorem WellFormed.heapShape {s : Tracker} (hwf : s.WellFormed) :
    s.HeapShape :=
  ⟨hwf.parent_lt, hwf.lt_of_parent, hwf.mem_children⟩

theorem Frame.heapShape {s s' : Tracker} (hframe : Frame s s')
    (hshape : s.HeapShape) : s'.HeapShape where
  parent_lt h := hshape.parent_lt (hframe.parentOf _ ▸ h)
  lt_of_parent h := by
    rw [hframe.requestCount]
    exact hshape.lt_of_parent (hframe.parentOf _ ▸ h)
  mem_children := by
    intro x p
    rw [hframe.children, hframe.parentOf]
    exact hshape.mem_children

/-! ## Delayed tracing -/

/-- At most the tracing flags of requests differ. -/
structure OnlyTraces (s s' : Tracker) : Prop where
  frame : Frame s s'
  active : ∀ x, (s'.requests x).active = (s.requests x).active
  timers : s'.timers = s.timers
  currentRequest : s'.currentRequest = s.currentRequest
  domainStack : s'.domainStack = s.domainStack
  emitted : s'.emitted = s.emitted

theorem OnlyTraces.refl (s : Tracker) : OnlyTraces s s :=
  ⟨Frame.refl s, fun _ => rfl, rfl, rfl, rfl, rfl⟩

theorem OnlyTraces.trans {s₁ s₂ s₃ : Tracker} (h₁ : OnlyTraces s₁ s₂)
    (h₂ : OnlyTraces s₂ s₃) : OnlyTraces s₁ s₃ where
  frame := h₁.frame.trans h₂.frame
  active x := (h₂.active x).trans (h₁.active x)
  timers := h₂.timers.trans h₁.timers
  currentRequest := h₂.currentRequest.trans h₁.currentRequest
  domainStack := h₂.domainStack.trans h₁.domainStack
  emitted := h₂.emitted.trans h₁.emitted

theorem modify_onlyTraces (s : Tracker) (r : Nat) (f : Request → Request)
    (hshape : ∀ q, (f q).shape = q.shape)
    (hactive : ∀ q, (f q).active = q.active) :
    OnlyTraces s (s.modify r f) where
  frame := modify_frame s r f hshape
  active x := by
    by_cases hx : x = r
    · simp [modify, hx, hactive]
    · simp [modify, hx]
  timers := rfl
  currentRequest := rfl
  domainStack := rfl
  emitted := rfl

theorem traceStop_onlyTraces (s : Tracker) (r : Nat) :
    OnlyTraces s (s.traceStop r) := by
  unfold traceStop
  split
  · exact OnlyTraces.refl s
  · exact modify_onlyTraces _ _ _ (fun _ => rfl) (fun _ => rfl)

/-- The walk up the parents ends: each step reaches an older request. -/
theorem traceStart_spec (fuel : Nat) {s : Tracker} (hshape : s.HeapShape)
    {r : Nat} (hfuel : r < fuel) :
    ∃ s', traceStart fuel s r = some s' ∧ OnlyTraces s s' := by
  induction fuel generalizing s r with
  | zero => exact absurd hfuel (Nat.not_lt_zero _)
  | succ fuel ih =>
      unfold traceStart
      split
      · exact ⟨s, rfl, OnlyTraces.refl s⟩
      · have hmark := modify_onlyTraces s r
          (fun q => { q with tracedStart := true }) (fun _ => rfl)
          (fun _ => rfl)
        dsimp only
        split
        · next p hparent =>
            have hparent' : s.parentOf r = some p :=
              (hmark.frame.parentOf r).symm.trans hparent
            have hlt := hshape.parent_lt hparent'
            obtain ⟨s', hs', hquiet⟩ :=
              ih (hmark.frame.heapShape hshape) (r := p) (by omega)
            exact ⟨s', hs', hmark.trans hquiet⟩
        · exact ⟨_, rfl, hmark⟩

theorem trace_spec {s : Tracker} (hshape : s.HeapShape) {r : Nat}
    (hr : r < s.requestCount) :
    ∃ s', s.trace r = some s' ∧ OnlyTraces s s' := by
  unfold trace
  split
  · obtain ⟨s', hs', hquiet⟩ :=
      traceStart_spec (s.requestCount + 1) hshape (r := r) (by omega)
    exact ⟨s'.traceStop r, by rw [hs']; rfl,
      hquiet.trans (traceStop_onlyTraces s' r)⟩
  · exact ⟨s, rfl, OnlyTraces.refl s⟩

/-! ## Stopping -/

def IsActive (s : Tracker) (x : Nat) : Prop := (s.requests x).active = true

/-- Active requests have active parents, except possibly those in `P`. -/
def ActiveUpTo (s : Tracker) (P : Nat → Prop) : Prop :=
  ∀ {x p}, s.parentOf x = some p → s.IsActive x → s.IsActive p ∨ P p

/-- `s'` is `s` after the requests `rs` have been stopped in order. -/
structure Stops (clock : Clock) (s : Tracker) (rs : List Nat)
    (s' : Tracker) : Prop where
  frame : Frame s s'
  active_mono : ∀ {x}, s'.IsActive x → s.IsActive x
  below : ∀ {x}, s.IsActive x → ¬ s'.IsActive x →
    ∃ r ∈ rs, Ancestor s.parentOf x r
  inactive : ∀ r ∈ rs, ¬ s'.IsActive r
  activeUpTo : ∀ {P : Nat → Prop}, s.ActiveUpTo P → s'.ActiveUpTo P
  timer_cause : ∀ t, s'.timers t = s.timers t ∨
    s'.timers t = (s.timers t).stop clock ∧
      ∃ x, s.IsActive x ∧ ¬ s'.IsActive x ∧ (s.requests x).timer = some t
  timer_stopped : ∀ {x t}, s.IsActive x → ¬ s'.IsActive x →
    (s.requests x).timer = some t → s'.timers t = (s.timers t).stop clock
  current_from : ∀ {d c}, s'.currentRequest d = some c →
    s.currentRequest d = some c ∨ ∃ x, s.parentOf x = some c
  quiet : (∀ r ∈ rs, ∃ p, s.parentOf r = some p) →
    s'.domainStack = s.domainStack ∧ s'.emitted = s.emitted ∧
      ∀ d, s.processDomain ≠ some d →
        s'.currentRequest d = s.currentRequest d

theorem OnlyTraces.isActive {s s' : Tracker} (h : OnlyTraces s s') (x : Nat) :
    s'.IsActive x ↔ s.IsActive x := by
  rw [IsActive, IsActive, h.active]

/-- Tracing stops nothing. -/
theorem OnlyTraces.stops {clock : Clock} {s s' : Tracker}
    (h : OnlyTraces s s') : Stops clock s [] s' where
  frame := h.frame
  active_mono hx := (h.isActive _).mp hx
  below hx hx' := absurd ((h.isActive _).mpr hx) hx'
  inactive := by simp
  activeUpTo := by
    intro P hP x p hparent hx
    rw [h.isActive] at hx ⊢
    exact hP (h.frame.parentOf x ▸ hparent) hx
  timer_cause t := Or.inl (by rw [h.timers])
  timer_stopped hx hx' := absurd ((h.isActive _).mpr hx) hx'
  current_from hc := Or.inl (h.currentRequest ▸ hc)
  quiet _ := ⟨h.domainStack, h.emitted, fun d _ => by rw [h.currentRequest]⟩

theorem Stops.trans {clock : Clock} {s₁ s₂ s₃ : Tracker} {xs ys : List Nat}
    (h₁ : Stops clock s₁ xs s₂) (h₂ : Stops clock s₂ ys s₃) :
    Stops clock s₁ (xs ++ ys) s₃ where
  frame := h₁.frame.trans h₂.frame
  active_mono hx := h₁.active_mono (h₂.active_mono hx)
  below := by
    intro x hx hx'
    by_cases hmid : s₂.IsActive x
    · obtain ⟨r, hr, hanc⟩ := h₂.below hmid hx'
      exact ⟨r, List.mem_append_right xs hr, h₁.frame.ancestor.mp hanc⟩
    · obtain ⟨r, hr, hanc⟩ := h₁.below hx hmid
      exact ⟨r, List.mem_append_left ys hr, hanc⟩
  inactive := by
    intro r hr
    rcases List.mem_append.mp hr with hr | hr
    · exact fun hact => h₁.inactive r hr (h₂.active_mono hact)
    · exact h₂.inactive r hr
  activeUpTo hP := h₂.activeUpTo (h₁.activeUpTo hP)
  timer_cause := by
    intro t
    rcases h₁.timer_cause t with heq₁ | ⟨heq₁, x, hx, hx', htimer⟩
    · rcases h₂.timer_cause t with heq₂ | ⟨heq₂, x, hx, hx', htimer⟩
      · exact Or.inl (heq₂.trans heq₁)
      · refine Or.inr ⟨heq₁ ▸ heq₂, x, h₁.active_mono hx, hx', ?_⟩
        rw [← h₁.frame.timer]
        exact htimer
    · refine Or.inr ⟨?_, x, hx, fun h => hx' (h₂.active_mono h), htimer⟩
      rcases h₂.timer_cause t with heq₂ | ⟨heq₂, _⟩
      · exact heq₂.trans heq₁
      · rw [heq₂, heq₁, Timer.stop_idem]
  timer_stopped := by
    intro x t hx hx' htimer
    have hmid : s₃.timers t = s₂.timers t ∨
        s₃.timers t = (s₂.timers t).stop clock :=
      (h₂.timer_cause t).imp id And.left
    by_cases hactive : s₂.IsActive x
    · have heq := h₂.timer_stopped hactive hx' (h₁.frame.timer x ▸ htimer)
      rcases h₁.timer_cause t with heq₁ | ⟨heq₁, _⟩
      · rw [heq, heq₁]
      · rw [heq, heq₁, Timer.stop_idem]
    · have heq := h₁.timer_stopped hx hactive htimer
      rcases hmid with heq₂ | heq₂
      · rw [heq₂, heq]
      · rw [heq₂, heq, Timer.stop_idem]
  current_from := by
    intro d c hc
    rcases h₂.current_from hc with hc | ⟨x, hx⟩
    · exact h₁.current_from hc
    · exact Or.inr ⟨x, h₁.frame.parentOf x ▸ hx⟩
  quiet := by
    intro hparents
    have hq₁ := h₁.quiet fun r hr =>
      hparents r (List.mem_append_left ys hr)
    have hq₂ := h₂.quiet fun r hr => by
      rw [h₁.frame.parentOf]
      exact hparents r (List.mem_append_right xs hr)
    refine ⟨hq₂.1.trans hq₁.1, hq₂.2.1.trans hq₁.2.1, fun d hd => ?_⟩
    have hd' : s₂.processDomain ≠ some d := by
      rw [processDomain, hq₁.1]
      exact hd
    exact (hq₂.2.2 d hd').trans (hq₁.2.2 d hd)

section Deactivate

variable (s : Tracker) (clock : Clock) (r : Nat)

theorem deactivate_requests (x : Nat) :
    (s.deactivate clock r).requests x =
      if x = r then { s.requests x with active := false }
      else s.requests x := by
  unfold deactivate
  cases htimer : (s.requests r).timer <;> by_cases hx : x = r <;>
    simp [modify, stopTimer, htimer, hx]

theorem deactivate_timers (t : Nat) :
    (s.deactivate clock r).timers t =
      if (s.requests r).timer = some t then (s.timers t).stop clock
      else s.timers t := by
  unfold deactivate
  cases htimer : (s.requests r).timer with
  | none => simp [modify, htimer]
  | some u =>
      by_cases ht : t = u
      · simp [modify, stopTimer, htimer, ht]
      · have hu : u ≠ t := Ne.symm ht
        simp [modify, stopTimer, htimer, ht, hu]

/-- Switching one request off keeps the domains and the events. -/
theorem deactivate_frame :
    Frame s (s.deactivate clock r) ∧
      (s.deactivate clock r).currentRequest = s.currentRequest ∧
      (s.deactivate clock r).domainStack = s.domainStack ∧
      (s.deactivate clock r).emitted = s.emitted := by
  have hmodify := modify_frame s r (fun q => { q with active := false })
    fun _ => rfl
  unfold deactivate
  dsimp only
  split
  · exact ⟨hmodify.trans (stopTimer_frame _ clock _), rfl, rfl, rfl⟩
  · exact ⟨hmodify, rfl, rfl, rfl⟩

theorem deactivate_isActive (x : Nat) :
    (s.deactivate clock r).IsActive x ↔ s.IsActive x ∧ x ≠ r := by
  rw [IsActive, deactivate_requests]
  by_cases hx : x = r <;> simp [hx, IsActive]

end Deactivate

section Leave

variable (s : Tracker) (r : Nat)

theorem leave_of_no_domain (hdomain : s.processDomain = none) :
    s.leave r = s := by
  unfold leave
  rw [hdomain]

theorem leave_of_parent {d p : Nat} (hdomain : s.processDomain = some d)
    (hparent : s.parentOf r = some p) : s.leave r = s.setCurrent d (some p) := by
  rw [parentOf] at hparent
  unfold leave
  simp [hdomain, hparent, setCurrent]

theorem leave_of_root {d : Nat} (hdomain : s.processDomain = some d)
    (hparent : s.parentOf r = none) :
    s.leave r =
      { s.setCurrent d none with
        domainStack := s.domainStack.tail
        emitted := s.emitted ++ [s.requestEvent r] } := by
  rw [parentOf] at hparent
  have hstack := hdomain
  rw [processDomain, List.head?_eq_some_iff] at hstack
  obtain ⟨rest, hstack⟩ := hstack
  unfold leave
  simp [hdomain, hstack, hparent, setCurrent, exitDomain, requestEvent]

/-- The three ways in which `stop` can end. -/
theorem leave_cases :
    (s.processDomain = none ∧ s.leave r = s) ∨
      (∃ d p, s.processDomain = some d ∧ s.parentOf r = some p ∧
        s.leave r = s.setCurrent d (some p)) ∨
      ∃ d, s.processDomain = some d ∧ s.parentOf r = none ∧
        s.leave r =
          { s.setCurrent d none with
            domainStack := s.domainStack.tail
            emitted := s.emitted ++ [s.requestEvent r] } := by
  cases hdomain : s.processDomain with
  | none => exact Or.inl ⟨rfl, leave_of_no_domain s r hdomain⟩
  | some d =>
      cases hparent : s.parentOf r with
      | some p =>
          exact Or.inr (Or.inl ⟨d, p, rfl, rfl,
            leave_of_parent s r hdomain hparent⟩)
      | none =>
          exact Or.inr (Or.inr ⟨d, rfl, rfl,
            leave_of_root s r hdomain hparent⟩)

theorem leave_frame : Frame s (s.leave r) ∧
    (s.leave r).requests = s.requests ∧ (s.leave r).timers = s.timers := by
  rcases s.leave_cases r with ⟨_, h⟩ | ⟨d, p, _, _, h⟩ | ⟨d, _, _, h⟩
  · rw [h]
    exact ⟨Frame.refl s, rfl, rfl⟩
  · rw [h]
    exact ⟨{ Frame.refl s with }, rfl, rfl⟩
  · rw [h]
    exact ⟨{ Frame.refl s with }, rfl, rfl⟩

theorem leave_currentRequest (d : Nat) :
    (s.leave r).currentRequest d =
      if s.processDomain = some d then s.parentOf r
      else s.currentRequest d := by
  rcases s.leave_cases r with
    ⟨hdomain, h⟩ | ⟨d', p, hdomain, hparent, h⟩ | ⟨d', hdomain, hparent, h⟩
  · simp [h, hdomain]
  · simp [h, hdomain, hparent, setCurrent, Function.update_apply, eq_comm]
  · simp [h, hdomain, hparent, setCurrent, Function.update_apply, eq_comm]

end Leave

/-- Everything that `r.stop()` does. -/
structure StopEffect (clock : Clock) (s : Tracker) (r : Nat)
    (s' : Tracker) : Prop where
  stops : Stops clock s [r] s'
  idle : ¬ s.IsActive r → s' = s
  current : s.IsActive r → ∀ d, s.processDomain = some d →
    s'.currentRequest d = s.parentOf r
  other : ∀ d, s.processDomain ≠ some d →
    s'.currentRequest d = s.currentRequest d
  event : s.IsActive r → ∀ d, s.processDomain = some d →
    s.parentOf r = none → s'.emitted = s.emitted ++ [s'.requestEvent r]
  silent : s.parentOf r ≠ none ∨ s.processDomain = none →
    s'.emitted = s.emitted

theorem stopEffect_of_inactive {clock : Clock} {s : Tracker} {r : Nat}
    (hidle : ¬ s.IsActive r) : StopEffect clock s r s where
  stops :=
    { (OnlyTraces.refl s).stops with
      below := fun hx hx' => absurd hx hx'
      inactive := fun _ hx => List.mem_singleton.mp hx ▸ hidle
      quiet := fun _ => ⟨rfl, rfl, fun _ _ => rfl⟩ }
  idle _ := rfl
  current h := absurd h hidle
  other _ _ := rfl
  event h := absurd h hidle
  silent _ := rfl

section Body

-- `s'` is what the loop over the children and the tracing have made of `s`
variable {clock : Clock} {s s' : Tracker} {r : Nat} (hshape : s.HeapShape)
  (hactive : s.IsActive r)
  (hbody : Stops clock (s.deactivate clock r) (s.requests r).children s')

include hbody

theorem body_frame : Frame s s' :=
  (deactivate_frame s clock r).1.trans hbody.frame

theorem body_leave_isActive {x : Nat} (hx : (s'.leave r).IsActive x) :
    s.IsActive x ∧ x ≠ r := by
  rw [IsActive, (leave_frame s' r).2.1] at hx
  exact (deactivate_isActive s clock r x).mp (hbody.active_mono hx)

theorem body_leave_inactive : ¬ (s'.leave r).IsActive r := fun h =>
  (body_leave_isActive hbody h).2 rfl

theorem body_timer_cause (hactive : s.IsActive r) (t : Nat) :
    (s'.leave r).timers t = s.timers t ∨
      (s'.leave r).timers t = (s.timers t).stop clock ∧
        ∃ x, s.IsActive x ∧ ¬ (s'.leave r).IsActive x ∧
          (s.requests x).timer = some t := by
  rw [(leave_frame s' r).2.2]
  have hdeactivate := deactivate_timers s clock r t
  by_cases ht : (s.requests r).timer = some t
  · rw [if_pos ht] at hdeactivate
    refine Or.inr ⟨?_, r, hactive, body_leave_inactive hbody, ht⟩
    rcases hbody.timer_cause t with heq | ⟨heq, _⟩
    · rw [heq, hdeactivate]
    · rw [heq, hdeactivate, Timer.stop_idem]
  · rw [if_neg ht] at hdeactivate
    rcases hbody.timer_cause t with heq | ⟨heq, x, hx, hx', htimer⟩
    · exact Or.inl (heq.trans hdeactivate)
    · refine Or.inr ⟨by rw [heq, hdeactivate], x,
        ((deactivate_isActive s clock r x).mp hx).1, ?_,
        (deactivate_frame s clock r).1.timer x ▸ htimer⟩
      rwa [IsActive, (leave_frame s' r).2.1]

theorem body_timer_stopped {x t : Nat} (hx : s.IsActive x)
    (hx' : ¬ (s'.leave r).IsActive x) (htimer : (s.requests x).timer = some t) :
    (s'.leave r).timers t = (s.timers t).stop clock := by
  rw [(leave_frame s' r).2.2]
  have hdeactivate := deactivate_timers s clock r t
  by_cases ht : (s.requests r).timer = some t
  · rw [if_pos ht] at hdeactivate
    rcases hbody.timer_cause t with heq | ⟨heq, _⟩
    · rw [heq, hdeactivate]
    · rw [heq, hdeactivate, Timer.stop_idem]
  · rw [if_neg ht] at hdeactivate
    have hxr : x ≠ r := fun h => ht (h ▸ htimer)
    have hx₁ := (deactivate_isActive s clock r x).mpr ⟨hx, hxr⟩
    rw [IsActive, (leave_frame s' r).2.1] at hx'
    rw [hbody.timer_stopped hx₁ hx'
      ((deactivate_frame s clock r).1.timer x ▸ htimer), hdeactivate]

include hshape

theorem body_domains :
    s'.domainStack = s.domainStack ∧ s'.emitted = s.emitted ∧
      ∀ d, s.processDomain ≠ some d →
        s'.currentRequest d = s.currentRequest d := by
  obtain ⟨hframe, hcurrent, hstack, hemitted⟩ := deactivate_frame s clock r
  obtain ⟨hstack', hemitted', hcurrent'⟩ := hbody.quiet fun c hc =>
    ⟨r, hframe.parentOf c ▸ hshape.mem_children.mp hc⟩
  refine ⟨hstack'.trans hstack, hemitted'.trans hemitted, fun d hd => ?_⟩
  rw [hcurrent' d (by rwa [processDomain, hstack]), hcurrent]

theorem body_processDomain : s'.processDomain = s.processDomain := by
  rw [processDomain, (body_domains hshape hbody).1]
  rfl

theorem body_below {x : Nat} (hx : s.IsActive x)
    (hx' : ¬ (s'.leave r).IsActive x) : Ancestor s.parentOf x r := by
  have hframe := (deactivate_frame s clock r).1
  rw [IsActive, (leave_frame s' r).2.1] at hx'
  by_cases hxr : x = r
  · rw [hxr]
    exact Ancestor.refl r
  · have hx₁ := (deactivate_isActive s clock r x).mpr ⟨hx, hxr⟩
    obtain ⟨c, hc, hanc⟩ := hbody.below hx₁ hx'
    exact (hframe.ancestor.mp hanc).trans
      (Ancestor.of_parent (hshape.mem_children.mp hc))

theorem body_activeUpTo {P : Nat → Prop} (hP : s.ActiveUpTo P) :
    (s'.leave r).ActiveUpTo P := by
  have hframe := (deactivate_frame s clock r).1
  have hP₁ : (s.deactivate clock r).ActiveUpTo fun p => P p ∨ p = r := by
    intro x p hparent hx
    rw [hframe.parentOf] at hparent
    rw [deactivate_isActive] at hx ⊢
    by_cases hp : p = r
    · exact Or.inr (Or.inr hp)
    · exact (hP hparent hx.1).imp (fun h => ⟨h, hp⟩) Or.inl
  intro x p hparent hx
  rw [(leave_frame s' r).1.parentOf] at hparent
  rw [IsActive, (leave_frame s' r).2.1] at hx ⊢
  rcases hbody.activeUpTo hP₁ hparent hx with hp | hp | rfl
  · exact Or.inl hp
  · exact Or.inr hp
  · -- an active child of `r` would have been stopped with it
    have hmem := hshape.mem_children.mpr
      ((body_frame hbody).parentOf x ▸ hparent)
    exact absurd hx (hbody.inactive x hmem)

include hactive

theorem body_stops : Stops clock s [r] (s'.leave r) where
  frame := (body_frame hbody).trans (leave_frame s' r).1
  active_mono hx := (body_leave_isActive hbody hx).1
  below hx hx' :=
    ⟨r, List.mem_singleton_self r, body_below hshape hbody hx hx'⟩
  inactive := by
    intro x hx
    rw [List.mem_singleton.mp hx]
    exact body_leave_inactive hbody
  activeUpTo := body_activeUpTo hshape hbody
  timer_cause := body_timer_cause hbody hactive
  timer_stopped := body_timer_stopped hbody
  current_from := by
    intro d c hc
    rw [leave_currentRequest, (body_frame hbody).parentOf] at hc
    split at hc
    · exact Or.inr ⟨r, hc⟩
    · have hframe := deactivate_frame s clock r
      rcases hbody.current_from hc with hc | ⟨x, hx⟩
      · exact Or.inl (hframe.2.1 ▸ hc)
      · exact Or.inr ⟨x, hframe.1.parentOf x ▸ hx⟩
  quiet := by
    intro hparents
    obtain ⟨p, hp⟩ := hparents r (List.mem_singleton_self r)
    obtain ⟨hstack, hemitted, hcurrent⟩ := body_domains hshape hbody
    rw [← (body_frame hbody).parentOf] at hp
    have hleave : (s'.leave r).domainStack = s'.domainStack ∧
        (s'.leave r).emitted = s'.emitted := by
      rcases s'.leave_cases r with ⟨_, h⟩ | ⟨d, q, _, _, h⟩ | ⟨d, _, h, _⟩
      · rw [h]
        exact ⟨rfl, rfl⟩
      · rw [h]
        exact ⟨rfl, rfl⟩
      · rw [hp] at h
        cases h
    refine ⟨hleave.1.trans hstack, hleave.2.trans hemitted, fun d hd => ?_⟩
    rw [leave_currentRequest, body_processDomain hshape hbody, if_neg hd,
      hcurrent d hd]

theorem body_effect : StopEffect clock s r (s'.leave r) where
  stops := body_stops hshape hactive hbody
  idle h := absurd hactive h
  current _ d hd := by
    rw [leave_currentRequest, body_processDomain hshape hbody, if_pos hd,
      (body_frame hbody).parentOf]
  other d hd := by
    rw [leave_currentRequest, body_processDomain hshape hbody, if_neg hd,
      (body_domains hshape hbody).2.2 d hd]
  event _ d hd hroot := by
    rw [leave_of_root s' r ((body_processDomain hshape hbody).trans hd)
      (((body_frame hbody).parentOf r).trans hroot),
      (body_domains hshape hbody).2.1]
    rfl
  silent := by
    intro hsilent
    rw [← (body_frame hbody).parentOf,
      ← body_processDomain hshape hbody] at hsilent
    rw [← (body_domains hshape hbody).2.1]
    rcases s'.leave_cases r with ⟨_, h⟩ | ⟨d, q, _, _, h⟩ | ⟨d, hd, hr, _⟩
    · rw [h]
    · rw [h]
      rfl
    · simp [hd, hr] at hsilent

end Body

/-- Children are younger than their parents, so the recursion of `stop` ends
before it is deeper than the heap is large. -/
theorem stopFuel_effect (clock : Clock) (fuel : Nat) {s : Tracker}
    (hshape : s.HeapShape) {r : Nat} (hr : r < s.requestCount)
    (hfuel : s.requestCount < r + fuel) :
    ∃ s', stopFuel clock fuel s r = some s' ∧ StopEffect clock s r s' := by
  induction fuel generalizing s r with
  | zero => omega
  | succ fuel ih =>
      have hlist (cs : List Nat) : ∀ {u : Tracker}, u.HeapShape →
          (∀ c ∈ cs, c < u.requestCount ∧ u.requestCount < c + fuel) →
          ∃ u', cs.foldlM (stopFuel clock fuel) u = some u' ∧
            Stops clock u cs u' := by
        induction cs with
        | nil =>
            intro u _ _
            exact ⟨u, rfl, (OnlyTraces.refl u).stops⟩
        | cons c cs ihcs =>
            intro u hu hcs
            obtain ⟨hc, hcfuel⟩ := hcs c List.mem_cons_self
            obtain ⟨v, hv, heffect⟩ := ih hu hc hcfuel
            have hvcs : ∀ c' ∈ cs, c' < v.requestCount ∧
                v.requestCount < c' + fuel := by
              intro c' hc'
              rw [heffect.stops.frame.requestCount]
              exact hcs c' (List.mem_cons_of_mem c hc')
            obtain ⟨u', hu', hrest⟩ :=
              ihcs (heffect.stops.frame.heapShape hu) hvcs
            refine ⟨u', ?_, heffect.stops.trans hrest⟩
            rw [List.foldlM_cons, hv]
            exact hu'
      unfold stopFuel
      by_cases hactive : (s.requests r).active = true
      · rw [if_pos hactive]
        have hframe := (deactivate_frame s clock r).1
        have hchildren : ∀ c ∈ (s.requests r).children,
            c < (s.deactivate clock r).requestCount ∧
              (s.deactivate clock r).requestCount < c + fuel := by
          intro c hc
          have hparent := hshape.mem_children.mp hc
          have hlt := hshape.parent_lt hparent
          have hcount := hshape.lt_of_parent hparent
          rw [hframe.requestCount]
          omega
        obtain ⟨s₂, hs₂, hstops⟩ :=
          hlist (s.requests r).children (hframe.heapShape hshape) hchildren
        have hframe₂ := hframe.trans hstops.frame
        obtain ⟨s₃, hs₃, htrace⟩ :=
          trace_spec (hframe₂.heapShape hshape) (r := r)
            (hframe₂.requestCount ▸ hr)
        have hbody : Stops clock (s.deactivate clock r)
            (s.requests r).children s₃ := by
          have hquiet : Stops clock s₂ [] s₃ := htrace.stops
          simpa using hstops.trans hquiet
        refine ⟨s₃.leave r, ?_, body_effect hshape hactive hbody⟩
        rw [hs₂, Option.bind_some, hs₃]
        rfl
      · rw [if_neg hactive]
        exact ⟨s, rfl, stopEffect_of_inactive hactive⟩

theorem stopFuel_isSome {s : Tracker} (hwf : s.WellFormed) (clock : Clock)
    (r : Nat) :
    ∃ s', stopFuel clock (s.requestCount + 1) s r = some s' ∧
      StopEffect clock s r s' := by
  by_cases hr : r < s.requestCount
  · exact stopFuel_effect clock (s.requestCount + 1) hwf.heapShape hr
      (by omega)
  · have hidle : ¬ s.IsActive r := fun h => hr (hwf.active_lt h)
    refine ⟨s, ?_, stopEffect_of_inactive hidle⟩
    rw [IsActive] at hidle
    rw [stopFuel, if_neg hidle]

theorem stop_effect {s : Tracker} (hwf : s.WellFormed) (clock : Clock)
    (r : Nat) : StopEffect clock s r (s.stop clock r) := by
  obtain ⟨s', hs', heffect⟩ := stopFuel_isSome hwf clock r
  rw [stop, hs']
  exact heffect

theorem Stops.wellFormed {clock : Clock} {s s' : Tracker} {rs : List Nat}
    (h : Stops clock s rs s') (hwf : s.WellFormed) : s'.WellFormed where
  blank := by
    intro x hx
    rw [h.frame.requestCount] at hx
    rw [h.frame.shape]
    exact hwf.blank hx
  active_lt := by
    intro x hx
    rw [h.frame.requestCount]
    exact hwf.active_lt (h.active_mono hx)
  parent_lt := (h.frame.heapShape hwf.heapShape).parent_lt
  mem_children := (h.frame.heapShape hwf.heapShape).mem_children
  children_nodup p := by
    rw [h.frame.children]
    exact hwf.children_nodup p
  top_root := by
    intro x hx hroot
    rw [h.frame.requestCount] at hx
    rw [h.frame.parentOf] at hroot
    rw [h.frame.top]
    exact hwf.top_root hx hroot
  top_child := by
    intro x p hparent
    rw [h.frame.parentOf] at hparent
    rw [h.frame.top, h.frame.top]
    exact hwf.top_child hparent
  timer_lt := by
    intro x t ht
    rw [h.frame.timer] at ht
    rw [h.frame.timerCount]
    exact hwf.timer_lt ht
  active_timer := by
    intro x hx
    rw [h.frame.timer]
    exact hwf.active_timer (h.active_mono hx)
  current_lt := by
    intro d c hc
    rw [h.frame.requestCount]
    rcases h.current_from hc with hc | ⟨x, hx⟩
    · exact hwf.current_lt hc
    · exact Nat.lt_trans (hwf.parent_lt hx) (hwf.lt_of_parent hx)

end Tracker

end Appmetrics
