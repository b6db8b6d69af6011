/-
Metrics under request tracking.  The timer of an operation may be shared with
its request, and then a request that ends early stops it.  As long as no
request is stopped above one that shares the timer of an outstanding
operation, tracking changes no metrics event; a stop that is, spoils the event
of that operation.
-/
import Appmetrics.Operations
import Mathlib.Tactic.Linarith
import Mathlib.Tactic.FieldSimp

namespace Appmetrics

open Forest StepMachine

theorem elapsed_eq (clock : Clock) (startTime : Nat) :
    elapsed clock startTime =
      (((clock.hrtime : Int) - startTime : Int) : Rat) / 1000000 := by
  have hsplit := Int.mul_ediv_add_emod ((clock.hrtime : Int) - startTime)
    1000000000
  have hcast := congrArg (Int.cast (R := Rat)) hsplit
  push_cast at hcast
  simp only [elapsed, hrtimeSince]
  push_cast
  linarith

/-- Different readings give different durations. -/
theorem elapsed_inj {c₁ c₂ : Clock} {startTime : Nat}
    (heq : elapsed c₁ startTime = elapsed c₂ startTime) :
    c₁.hrtime = c₂.hrtime := by
  rw [elapsed_eq, elapsed_eq, div_left_inj' (by norm_num)] at heq
  have hint := Rat.intCast_inj.mp heq
  omega

namespace History

theorem step_startTimer (h : History) (clock : Clock) :
    h.step ⟨[], clock, .startTimer⟩ =
      some ⟨(h.tracker.resume []).startTimer clock, h.home, h.creator,
        clock.hrtime⟩ := by
  simp [step, RequestCall.Valid, RequestCall.perform, RequestCall.root?]

theorem step_stopTimer {h : History} {t : Nat} (clock : Clock)
    (ht : t < h.tracker.timerCount) :
    h.step ⟨[], clock, .stopTimer t⟩ =
      some ⟨(h.tracker.resume []).stopTimer clock t, h.home, h.creator,
        clock.hrtime⟩ := by
  simp [step, RequestCall.Valid, RequestCall.perform, RequestCall.root?, ht]

theorem step_createDomain (h : History) (clock : Clock) :
    h.step ⟨[], clock, .createDomain⟩ =
      some ⟨(h.tracker.resume []).createDomain, h.home, h.creator,
        clock.hrtime⟩ := by
  simp [step, RequestCall.Valid, RequestCall.perform, RequestCall.root?]

theorem tracker_of_step_startRequest {h h' : History} {stack : List Nat}
    {clock : Clock} {type : Option String} {name : String} {root : Bool}
    {timer : Option Nat}
    (hstep : h.step ⟨stack, clock, .startRequest type name root timer⟩ =
      some h') :
    h'.tracker =
      (h.tracker.resume stack).startRequest clock type name root timer := by
  unfold step at hstep
  split at hstep
  · rw [← Option.some.inj hstep]
    rfl
  · cases hstep

theorem eq_of_step_stop {h h' : History} {stack : List Nat} {clock : Clock}
    {r : Nat} (hstep : h.step ⟨stack, clock, .stop r⟩ = some h') :
    h' = ⟨(h.tracker.resume stack).stop clock r, h.home, h.creator,
      clock.hrtime⟩ := by
  unfold step at hstep
  split at hstep
  · exact (Option.some.inj hstep).symm
  · cases hstep

/-- The timers that exist keep their start, and the requests that exist keep
their timers; a new request takes a timer that is new as well. -/
structure Extends (h h' : History) : Prop where
  wellFormed : h'.tracker.WellFormed
  timerCount : h.tracker.timerCount ≤ h'.tracker.timerCount
  startTime : ∀ {t}, t < h.tracker.timerCount →
    (h'.tracker.timers t).startTime = (h.tracker.timers t).startTime ∧
      (h'.tracker.timers t).startTimeMillis =
        (h.tracker.timers t).startTimeMillis
  timer : ∀ {x t}, (h'.tracker.requests x).timer = some t →
    (h.tracker.requests x).timer = some t ∨ h.tracker.timerCount ≤ t
  kept : ∀ {x t}, (h.tracker.requests x).timer = some t →
    (h'.tracker.requests x).timer = some t

theorem Extends.trans {h₁ h₂ h₃ : History} (h₁₂ : Extends h₁ h₂)
    (h₂₃ : Extends h₂ h₃) : Extends h₁ h₃ where
  wellFormed := h₂₃.wellFormed
  timerCount := h₁₂.timerCount.trans h₂₃.timerCount
  startTime ht := by
    have hfirst := h₁₂.startTime ht
    have hsecond := h₂₃.startTime (ht.trans_le h₁₂.timerCount)
    exact ⟨hsecond.1.trans hfirst.1, hsecond.2.trans hfirst.2⟩
  timer ht := by
    rcases h₂₃.timer ht with hold | hnew
    · exact h₁₂.timer hold
    · exact Or.inr (h₁₂.timerCount.trans hnew)
  kept ht := h₂₃.kept (h₁₂.kept ht)

theorem Extends.refl {h : History} (hwf : h.tracker.WellFormed) :
    Extends h h where
  wellFormed := hwf
  timerCount := Nat.le_refl _
  startTime _ := ⟨rfl, rfl⟩
  timer ht := Or.inl ht
  kept ht := ht

theorem extends_startTimer {h : History} (hwf : h.tracker.WellFormed)
    (clock : Clock) (hrtime : Nat) :
    Extends h ⟨(h.tracker.resume []).startTimer clock, h.home, h.creator,
      hrtime⟩ where
  wellFormed := (Tracker.startTimer_other _ clock).wellFormed
    (Tracker.resume_wellFormed hwf [])
  timerCount := Nat.le_succ _
  startTime ht := by
    have hne := Nat.ne_of_lt ht
    simp [Tracker.startTimer, Tracker.resume, hne]
  timer ht := Or.inl ht
  kept ht := ht

theorem extends_stopTimer {h : History} (hwf : h.tracker.WellFormed)
    (clock : Clock) (t hrtime : Nat) :
    Extends h ⟨(h.tracker.resume []).stopTimer clock t, h.home, h.creator,
      hrtime⟩ where
  wellFormed := (Tracker.stopTimer_other _ clock t).wellFormed
    (Tracker.resume_wellFormed hwf [])
  timerCount := Nat.le_refl _
  startTime {u} _ := by
    by_cases hu : u = t <;>
      simp [Tracker.stopTimer, Tracker.resume, hu]
  timer ht := Or.inl ht
  kept ht := ht

theorem extends_stop {h : History} (hwf : h.tracker.WellFormed)
    (stack : List Nat) (clock : Clock) (r hrtime : Nat) :
    Extends h ⟨(h.tracker.resume stack).stop clock r, h.home, h.creator,
      hrtime⟩ := by
  have hwf' := Tracker.resume_wellFormed hwf stack
  have hstops := (Tracker.stop_effect hwf' clock r).stops
  constructor
  case wellFormed => exact hstops.wellFormed hwf'
  case timerCount => exact hstops.frame.timerCount.ge
  case startTime =>
    intro t _
    exact ⟨hstops.frame.startTime t, hstops.frame.startTimeMillis t⟩
  case timer =>
    intro x t ht
    exact Or.inl ((hstops.frame.timer x).symm.trans ht)
  case kept =>
    intro x t ht
    exact (hstops.frame.timer x).trans ht

/-- What starting a request does to the timers. -/
theorem timers_of_step_startRequest {h h' : History}
    (hwf : h.tracker.WellFormed) {stack : List Nat} {clock : Clock}
    {type : Option String} {name : String} {root : Bool} {timer : Option Nat}
    (hstep : h.step ⟨stack, clock, .startRequest type name root timer⟩ =
      some h') :
    (∀ t < h.tracker.timerCount,
        h'.tracker.timers t = h.tracker.timers t) ∧
      h.tracker.timerCount ≤ h'.tracker.timerCount ∧
      ∀ x, (h'.tracker.requests x).timer =
        if x = h.tracker.requestCount then
          some (timer.getD h.tracker.timerCount)
        else (h.tracker.requests x).timer := by
  have hwf' := Tracker.resume_wellFormed hwf stack
  have htracker := tracker_of_step_startRequest hstep
  refine ⟨fun t ht => ?_, ?_, fun x => ?_⟩
  · rw [htracker, Tracker.startRequest_timers _ _ _ _ _ _ hwf']
    split
    · exact Function.update_of_ne (Nat.ne_of_lt ht) _ _
    · rfl
  · rw [htracker, Tracker.startRequest_timerCount _ _ _ _ _ _ hwf']
    split
    · exact Nat.le_succ _
    · exact Nat.le_refl _
  · rw [htracker, Tracker.startRequest_timer hwf']
    rfl

theorem extends_startRequest {b h h' : History} (hext : Extends b h)
    {stack : List Nat} {clock : Clock} {type : Option String} {name : String}
    {root : Bool} {timer : Option Nat}
    (htimer : ∀ t, timer = some t → b.tracker.timerCount ≤ t)
    (hstep : h.step ⟨stack, clock, .startRequest type name root timer⟩ =
      some h') : Extends b h' := by
  obtain ⟨hkeep, hcount, hrequest⟩ :=
    timers_of_step_startRequest hext.wellFormed hstep
  constructor
  case wellFormed => exact (step_case hstep).wellFormed hext.wellFormed
  case timerCount => exact hext.timerCount.trans hcount
  case startTime =>
    intro t ht
    rw [hkeep t (ht.trans_le hext.timerCount)]
    exact hext.startTime ht
  case timer =>
    intro x t ht
    rw [hrequest] at ht
    split at ht
    · refine Or.inr ?_
      cases timer with
      | some u => exact Option.some.inj ht ▸ htimer u rfl
      | none => exact Option.some.inj ht ▸ hext.timerCount
    · exact hext.timer ht
  case kept =>
    intro x t ht
    have hold := hext.kept ht
    have hne : x ≠ h.tracker.requestCount := by
      rintro rfl
      have hblank := congrArg Request.timer
        (hext.wellFormed.blank (Nat.le_refl _))
      cases hold.symm.trans hblank
    rw [hrequest, if_neg hne]
    exact hold

end History

namespace Application

open History

/-! ## What one turn does -/

/-- An operation that has just been issued: its timer, if it has one, is new
and running, and belongs to its own request only. -/
structure Issued (h : History) (clock : Clock) (measured : Bool)
    (p : Operation) (h' : History) : Prop where
  ext : Extends h h'
  meter : p.meter = ⟨measured, clock, false⟩
  fresh : ∀ {t}, p.timer = some t → t = h.tracker.timerCount ∧
    t < h'.tracker.timerCount ∧ h'.tracker.timers t = Timer.start clock
  old : ∀ {t}, t < h.tracker.timerCount →
    h'.tracker.timers t = h.tracker.timers t
  owner : ∀ {t x}, p.timer = some t →
    (h'.tracker.requests x).timer = some t → p.req = some x

theorem metricsStart_issued {h h' : History} {clock : Clock}
    {measured : Bool} {timer : Option Nat} (hwf : h.tracker.WellFormed)
    (hstart : metricsStart h clock measured = some (h', timer)) :
    Issued h clock measured ⟨timer, none, clock, false⟩ h' ∧
      h'.tracker.requests = h.tracker.requests := by
  cases measured with
  | false =>
      cases hstart
      exact ⟨⟨Extends.refl hwf, rfl, nofun, fun _ => rfl, nofun⟩, rfl⟩
  | true =>
      rw [metricsStart, if_pos rfl, step_startTimer] at hstart
      cases hstart
      refine ⟨⟨extends_startTimer hwf clock _, rfl, ?_, ?_, ?_⟩, rfl⟩
      · intro t ht
        cases ht
        exact ⟨rfl, Nat.lt_succ_self _, Function.update_self _ _ _⟩
      · intro t ht
        exact Function.update_of_ne (Nat.ne_of_lt ht) _ _
      · intro t x ht hx
        cases ht
        exact absurd (hwf.timer_lt hx) (Nat.lt_irrefl _)

theorem requestStart_issued {h h₁ h₂ : History} {turn : OperationTurn}
    {tracking measured root shared : Bool} {type : Option String}
    {name : String} {timer req : Option Nat}
    (hissued : Issued h turn.clock measured ⟨timer, none, turn.clock, false⟩
      h₁)
    (hstart : requestStart tracking h₁ turn type name root shared timer =
      some (h₂, req)) :
    Issued h turn.clock measured ⟨timer, req, turn.clock, false⟩ h₂ := by
  cases tracking with
  | false =>
      cases hstart
      exact hissued
  | true =>
      rw [requestStart, if_pos rfl, Option.map_eq_some_iff] at hstart
      obtain ⟨_, hstep, heq⟩ := hstart
      cases heq
      obtain ⟨hkeep, hcount, hrequest⟩ :=
        timers_of_step_startRequest hissued.ext.wellFormed hstep
      constructor
      case ext =>
        refine extends_startRequest hissued.ext (fun t ht => ?_) hstep
        cases shared with
        | true => exact (hissued.fresh ht).1.ge
        | false => cases ht
      case meter => exact hissued.meter
      case fresh =>
        intro t ht
        obtain ⟨heq, hlt, hrunning⟩ := hissued.fresh ht
        exact ⟨heq, hlt.trans_le hcount, (hkeep t hlt).trans hrunning⟩
      case old =>
        intro t ht
        exact (hkeep t (ht.trans_le hissued.ext.timerCount)).trans
          (hissued.old ht)
      case owner =>
        intro t x ht hx
        rw [hrequest] at hx
        split at hx
        · next hnew => exact congrArg some hnew.symm
        · cases hissued.owner ht hx

theorem issued_of_issue {a a' : Application} {turn : OperationTurn}
    {tracking root measured shared : Bool} {type : Option String}
    {name : String} (hwf : a.history.tracker.WellFormed)
    (hissue : issue tracking a turn type name root measured shared =
      some a') :
    ∃ p h', a' = ⟨h', a.operations ++ [p], a.metrics⟩ ∧
      Issued a.history turn.clock measured p h' := by
  rw [issue, Option.bind_eq_some_iff] at hissue
  obtain ⟨⟨h₁, timer⟩, hmetrics, hissue⟩ := hissue
  rw [Option.map_eq_some_iff] at hissue
  obtain ⟨⟨h₂, req⟩, hrequest, heq⟩ := hissue
  have hissued := (metricsStart_issued hwf hmetrics).1
  exact ⟨_, h₂, heq.symm, requestStart_issued hissued hrequest⟩

/-- An operation that has just ended: the event it raised, and the timers
its request may have stopped. -/
structure Ended (h : History) (turn : OperationTurn) (o : Nat)
    (p : Operation) (h' : History) (events : List MetricsEvent) : Prop where
  ext : Extends h h'
  events : events = (p.timer.map fun t =>
    ⟨o, (h.tracker.timers t).startTimeMillis,
      ((h.tracker.timers t).stop turn.clock).timeDelta⟩).toList
  touched : ∀ {t}, p.timer ≠ some t →
    h'.tracker.timers t = h.tracker.timers t ∨
      ∃ q x, p.req = some q ∧ h.tracker.IsActive q ∧ h.tracker.IsActive x ∧
        Ancestor h.tracker.parentOf x q ∧
        (h.tracker.requests x).timer = some t

theorem metricsEnd_ended {h h' : History} {turn : OperationTurn} {o : Nat}
    {p : Operation} {events : List MetricsEvent}
    (hwf : h.tracker.WellFormed)
    (hlt : ∀ t, p.timer = some t → t < h.tracker.timerCount)
    (hend : metricsEnd h turn.clock o p = some (h', events)) :
    Ended h turn o p h' events ∧
      h'.tracker.requests = h.tracker.requests ∧ h'.home = h.home ∧
      ∀ t, p.timer ≠ some t → h'.tracker.timers t = h.tracker.timers t := by
  cases htimer : p.timer with
  | none =>
      rw [metricsEnd, htimer] at hend
      cases hend
      refine ⟨⟨Extends.refl hwf, ?_, fun _ => Or.inl rfl⟩, rfl, rfl,
        fun _ _ => rfl⟩
      rw [htimer]
      rfl
  | some t =>
      rw [metricsEnd, htimer] at hend
      simp only [step_stopTimer turn.clock (hlt t htimer),
        Option.map_some] at hend
      cases hend
      have hkeep {u : Nat} (hu : some t ≠ some u) :
          Function.update h.tracker.timers t
            ((h.tracker.timers t).stop turn.clock) u =
              h.tracker.timers u :=
        Function.update_of_ne (fun heq => hu (congrArg some heq.symm)) _ _
      refine ⟨⟨extends_stopTimer hwf turn.clock t _, ?_, ?_⟩, rfl, rfl,
        fun u hu => hkeep hu⟩
      · rw [htimer]
        simp [Tracker.stopTimer, Tracker.resume]
      · intro u hu
        rw [htimer] at hu
        exact Or.inl (hkeep hu)

theorem requestEnd_ended {h h₁ h₂ : History} {turn : OperationTurn}
    {o : Nat} {p : Operation} {events : List MetricsEvent}
    (hended : Ended h turn o p h₁ events)
    (hrequests : h₁.tracker.requests = h.tracker.requests)
    (htimers : ∀ t, p.timer ≠ some t →
      h₁.tracker.timers t = h.tracker.timers t)
    (hend : requestEnd h₁ turn p = some h₂) :
    Ended h turn o p h₂ events := by
  cases hreq : p.req with
  | none =>
      rw [requestEnd, hreq] at hend
      cases hend
      exact hended
  | some q =>
      rw [requestEnd, hreq] at hend
      have heq := eq_of_step_stop hend
      have hwf := hended.ext.wellFormed
      have hwf' := Tracker.resume_wellFormed hwf turn.stack
      have heffect := Tracker.stop_effect hwf' turn.requestClock q
      have hparentOf : h₁.tracker.parentOf = h.tracker.parentOf :=
        congrArg (fun requests x => (requests x).parent) hrequests
      have hactive (x : Nat) :
          (h₁.tracker.resume turn.stack).IsActive x ↔ h.tracker.IsActive x := by
        rw [Tracker.IsActive, Tracker.IsActive, ← hrequests]
        rfl
      subst heq
      constructor
      case ext => exact hended.ext.trans (extends_stop hwf _ _ q _)
      case events => exact hended.events
      case touched =>
        intro t ht
        rcases heffect.stops.timer_cause t with hsame | ⟨_, x, hx, hx', htx⟩
        · exact Or.inl (hsame.trans (htimers t ht))
        · refine Or.inr ⟨q, x, hreq, ?_, (hactive x).mp hx, ?_, ?_⟩
          · by_contra hidle
            rw [← hactive] at hidle
            rw [heffect.idle hidle] at hx'
            exact hx' hx
          · obtain ⟨r, hr, hanc⟩ := heffect.stops.below hx hx'
            rw [List.mem_singleton.mp hr] at hanc
            exact hparentOf ▸ hanc
          · rw [← hrequests]
            exact htx

theorem ended_of_finish {a a' : Application} {turn : OperationTurn} {o : Nat}
    {p : Operation} (hwf : a.history.tracker.WellFormed)
    (hlt : ∀ t, p.timer = some t → t < a.history.tracker.timerCount)
    (hfinish : finish a turn o p = some a') :
    ∃ h' events, a' = ⟨h', a.operations.set o { p with finished := true },
        a.metrics ++ events⟩ ∧
      Ended a.history turn o p h' events := by
  rw [finish, Option.bind_eq_some_iff] at hfinish
  obtain ⟨⟨h₁, events⟩, hmetrics, hfinish⟩ := hfinish
  rw [Option.map_eq_some_iff] at hfinish
  obtain ⟨h₂, hrequest, heq⟩ := hfinish
  obtain ⟨hended, hrequests, _, htimers⟩ := metricsEnd_ended hwf hlt hmetrics
  exact ⟨h₂, events, heq.symm,
    requestEnd_ended hended hrequests htimers hrequest⟩

end Application

end Appmetrics
