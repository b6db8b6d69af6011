/-
The events of a run.  While every request is stopped in the domain it was
created in, each parentless request raises its event when it is stopped, once
and for all, and by then its whole tree is inactive with stopped timers.
-/
import Appmetrics.RequestStack
import Mathlib.Data.List.Nodup

namespace Appmetrics

open Forest StepMachine

theorem Timer.stop_timeDelta_ne_of_ne {clock : Clock} {timer : Timer}
    (hstopped : timer.timeDelta ≠ -1) :
    (timer.stop clock).timeDelta ≠ -1 := by
  rw [Timer.stop_of_stopped hstopped]
  exact hstopped

namespace Tracker

/-- The references of the requests that have raised an event, in order. -/
def reported (s : Tracker) : List Nat :=
  s.emitted.map RequestEvent.request

/-- The request has a timer, and that timer has been stopped. -/
def TimerStopped (s : Tracker) (x : Nat) : Prop :=
  ∃ t, (s.requests x).timer = some t ∧ (s.timers t).timeDelta ≠ -1

end Tracker

namespace History

/-- A parentless request of some domain. -/
def IsRoot (h : History) (r : Nat) : Prop :=
  h.tracker.parentOf r = none ∧ h.home r ≠ none

/-- The turn stops an active parentless request `r`. -/
def EndsTree (h : History) (turn : Turn) (r : Nat) : Prop :=
  turn.call = .stop r ∧ h.IsRoot r ∧ h.tracker.IsActive r

/-- A turn that ends a tree raises the event of its root, with the tree
switched off; any other turn raises nothing. -/
def ReportsTree (h : History) (turn : Turn) (h' : History) : Prop :=
  (∀ r, h.EndsTree turn r →
    h'.tracker.emitted =
        h.tracker.emitted ++ [h'.tracker.requestEvent r] ∧
      ∀ x < h'.tracker.requestCount, (h'.tracker.requests x).top = r →
        ¬ h'.tracker.IsActive x ∧ h'.tracker.TimerStopped x) ∧
  ((∀ r, ¬ h.EndsTree turn r) → h'.tracker.emitted = h.tracker.emitted)

/-- Running timers belong to active requests only. -/
structure Timed (h : History) : Prop where
  started : ∀ {t}, t < h.tracker.timerCount →
    (h.tracker.timers t).startTime ≤ h.hrtime
  stopped : ∀ {x}, x < h.tracker.requestCount → ¬ h.tracker.IsActive x →
    h.tracker.TimerStopped x

/-- The events raised so far are those of the parentless requests that have
been stopped, each once. -/
structure Reported (h : History) : Prop where
  nodup : h.tracker.reported.Nodup
  mem : ∀ {r}, r ∈ h.tracker.reported ↔
    h.IsRoot r ∧ ¬ h.tracker.IsActive r

theorem initial_timed : initial.Timed where
  started ht := absurd ht (Nat.not_lt_zero _)
  stopped hx := absurd hx (Nat.not_lt_zero _)

theorem initial_reported : initial.Reported where
  nodup := List.nodup_nil
  mem := by simp [initial, Tracker.initial, Tracker.reported, IsRoot]

section Timed

variable {h : History} (htimed : h.Timed)

include htimed

theorem Timed.start (hwf : h.tracker.WellFormed) {clock : Clock}
    (hclock : h.hrtime ≤ clock.hrtime) (stack : List Nat)
    (type : Option String) (name : String) (root : Bool)
    (eventTimer : Option Nat) (home creator : Nat → Option Nat) :
    Timed
      { tracker := (h.tracker.resume stack).startRequest clock type name root
          eventTimer
        home := home
        creator := creator
        hrtime := clock.hrtime } := by
  have hwf' : (h.tracker.resume stack).WellFormed :=
    Tracker.resume_wellFormed hwf stack
  have htimers {t : Nat} (ht : t < h.tracker.timerCount) :
      ((h.tracker.resume stack).startRequest clock type name root
        eventTimer).timers t = h.tracker.timers t := by
    rw [Tracker.startRequest_timers _ _ _ _ _ _ hwf']
    split
    · exact Function.update_of_ne (Nat.ne_of_lt ht) _ _
    · rfl
  constructor
  case started =>
    intro t ht
    by_cases hold : t < h.tracker.timerCount
    · rw [htimers hold]
      exact (htimed.started hold).trans hclock
    · rw [Tracker.startRequest_timerCount _ _ _ _ _ _ hwf'] at ht
      rw [Tracker.startRequest_timers _ _ _ _ _ _ hwf']
      cases eventTimer with
      | some u => exact absurd ht hold
      | none =>
          have heq : t = h.tracker.timerCount := by
            simp only [Tracker.resume, if_true] at ht
            omega
          simp [heq, Tracker.resume]
  case stopped =>
    intro x hx hidle
    rw [Tracker.startRequest_requestCount] at hx
    rw [Tracker.IsActive, Tracker.startRequest_active hwf'] at hidle
    by_cases hnew : x = (h.tracker.resume stack).requestCount
    · rw [if_pos hnew] at hidle
      exact absurd rfl hidle
    · rw [if_neg hnew] at hidle
      have hold : x < h.tracker.requestCount :=
        Nat.lt_of_le_of_ne (Nat.le_of_lt_succ hx) hnew
      obtain ⟨t, ht, hstopped⟩ := htimed.stopped hold hidle
      refine ⟨t, ?_, ?_⟩
      · rw [Tracker.startRequest_timer hwf', if_neg hnew]
        exact ht
      · rw [htimers (hwf.timer_lt ht)]
        exact hstopped

theorem Timed.stop (hwf : h.tracker.WellFormed) {clock : Clock}
    (hclock : h.hrtime ≤ clock.hrtime) {stack : List Nat} {r : Nat}
    {s' : Tracker}
    (hstops : Tracker.Stops clock (h.tracker.resume stack) [r] s')
    (home creator : Nat → Option Nat) :
    Timed ⟨s', home, creator, clock.hrtime⟩ := by
  constructor
  case started =>
    intro t ht
    rw [hstops.frame.timerCount] at ht
    rw [hstops.frame.startTime]
    exact (htimed.started ht).trans hclock
  case stopped =>
    intro x hx hidle
    rw [hstops.frame.requestCount] at hx
    by_cases hactive : h.tracker.IsActive x
    · obtain ⟨t, ht⟩ :=
        Option.ne_none_iff_exists'.mp (hwf.active_timer hactive)
      refine ⟨t, (hstops.frame.timer x).trans ht, ?_⟩
      rw [hstops.timer_stopped hactive hidle ht]
      exact Timer.stop_timeDelta_ne
        ((htimed.started (hwf.timer_lt ht)).trans hclock)
    · obtain ⟨t, ht, hstopped⟩ := htimed.stopped hx hactive
      refine ⟨t, (hstops.frame.timer x).trans ht, ?_⟩
      rcases hstops.timer_cause t with heq | ⟨heq, _⟩
      · rw [heq]
        exact hstopped
      · rw [heq]
        exact Timer.stop_timeDelta_ne_of_ne hstopped

theorem Timed.other (hwf : h.tracker.WellFormed) {clock : Clock}
    (hclock : h.hrtime ≤ clock.hrtime) {stack : List Nat} {s' : Tracker}
    (hother : Tracker.OtherEffect clock (h.tracker.resume stack) s')
    (home creator : Nat → Option Nat) :
    Timed ⟨s', home, creator, clock.hrtime⟩ := by
  constructor
  case started =>
    intro t ht
    by_cases hold : t < h.tracker.timerCount
    · have hle := (htimed.started hold).trans hclock
      rcases hother.timers t hold with heq | heq
      · rw [heq]
        exact hle
      · rw [heq, Timer.stop_startTime]
        exact hle
    · have hfresh := hother.fresh t (Nat.le_of_not_lt hold) ht
      rw [hfresh, Timer.start_startTime]
  case stopped =>
    intro x hx hidle
    rw [hother.requestCount] at hx
    rw [Tracker.IsActive, hother.requests] at hidle
    obtain ⟨t, ht, hstopped⟩ := htimed.stopped hx hidle
    refine ⟨t, by rw [hother.requests]; exact ht, ?_⟩
    rcases hother.timers t (hwf.timer_lt ht) with heq | heq
    · rw [heq]
      exact hstopped
    · rw [heq]
      exact Timer.stop_timeDelta_ne_of_ne hstopped

end Timed

theorem StepCase.timed {h h' : History} {turn : Turn}
    (hcase : StepCase h turn h') (hclock : h.hrtime ≤ turn.clock.hrtime)
    (hwf : h.tracker.WellFormed) (htimed : h.Timed) : h'.Timed := by
  cases hcase with
  | start type name root eventTimer hroot htimer =>
      exact htimed.start hwf hclock ..
  | stop r hcall hr =>
      have heffect := Tracker.stop_effect
        (Tracker.resume_wellFormed hwf turn.stack) turn.clock r
      exact htimed.stop hwf hclock heffect.stops _ _
  | other s' hroot hcall hother => exact htimed.other hwf hclock hother _ _

section Report

variable {h : History} (hstacked : h.Stacked) {turn : Turn} {r : Nat}
  {s' : Tracker}
  (hcall : turn.call = .stop r)
  (hhome : (h.tracker.resume turn.stack).processDomain = h.home r)
  (heffect : Tracker.StopEffect turn.clock (h.tracker.resume turn.stack) r s')

include hhome heffect hcall

/-- What a stop in its own domain adds to the events. -/
theorem stop_emitted :
    (h.EndsTree turn r ∧
        s'.emitted = h.tracker.emitted ++ [s'.requestEvent r]) ∨
      (¬ h.EndsTree turn r ∧ s'.emitted = h.tracker.emitted) := by
  by_cases hends : h.EndsTree turn r
  · refine Or.inl ⟨hends, ?_⟩
    obtain ⟨_, ⟨hparent, hdomain⟩, hactive⟩ := hends
    obtain ⟨d, hd⟩ := Option.ne_none_iff_exists'.mp hdomain
    exact heffect.event hactive d (hhome.trans hd) hparent
  · refine Or.inr ⟨hends, ?_⟩
    by_cases hactive : h.tracker.IsActive r
    · have hsilent : h.tracker.parentOf r ≠ none ∨ h.home r = none := by
        by_contra hnot
        obtain ⟨hparent, hdomain⟩ := not_or.mp hnot
        exact hends ⟨hcall, ⟨not_not.mp hparent, hdomain⟩, hactive⟩
      exact heffect.silent (hsilent.imp id hhome.trans)
    · rw [heffect.idle hactive]
      rfl

include hstacked

/-- A stop ends a parentless request only by naming it. -/
theorem Stacked.stop_root {x : Nat} (hroot : h.IsRoot x) :
    ¬ s'.IsActive x ↔ ¬ h.tracker.IsActive x ∨ h.EndsTree turn x := by
  rw [hstacked.stop_isActive heffect,
    ancestor_of_parent_eq_none hroot.1]
  by_cases hx : x = r
  · subst hx
    simp [EndsTree, hcall, hroot]
    tauto
  · have hne : r ≠ x := Ne.symm hx
    simp [EndsTree, hcall, hx, hne]

theorem Reported.stop (hreported : h.Reported)
    (creator : Nat → Option Nat) (hrtime : Nat) :
    Reported ⟨s', h.home, creator, hrtime⟩ := by
  have hroot (x : Nat) :
      IsRoot ⟨s', h.home, creator, hrtime⟩ x ↔ h.IsRoot x := by
    rw [IsRoot, heffect.stops.frame.parentOf]
    rfl
  have hended (x : Nat) : (IsRoot ⟨s', h.home, creator, hrtime⟩ x ∧
      ¬ s'.IsActive x) ↔
      (h.IsRoot x ∧ ¬ h.tracker.IsActive x) ∨ h.EndsTree turn x := by
    rw [hroot]
    constructor
    · rintro ⟨hx, hidle⟩
      rw [hstacked.stop_root hcall hhome heffect hx] at hidle
      exact hidle.imp (⟨hx, ·⟩) id
    · rintro (⟨hx, hidle⟩ | hends)
      · exact ⟨hx, fun hactive => hidle (heffect.stops.active_mono hactive)⟩
      · exact ⟨hends.2.1, (hstacked.stop_root hcall hhome heffect
          hends.2.1).mpr (Or.inr hends)⟩
  have hnamed {x : Nat} (hends : h.EndsTree turn x) : x = r :=
    RequestCall.stop.inj (hends.1.symm.trans hcall)
  rcases stop_emitted hcall hhome heffect with
    ⟨hends, hemitted⟩ | ⟨hends, hemitted⟩
  · have happend : s'.reported = h.tracker.reported ++ [r] := by
      rw [Tracker.reported, hemitted, List.map_append]
      rfl
    constructor
    · rw [happend, List.nodup_append']
      refine ⟨hreported.nodup, List.nodup_singleton r, ?_⟩
      rw [List.disjoint_singleton]
      exact fun hmem => (hreported.mem.mp hmem).2 hends.2.2
    · intro x
      rw [hended, happend, List.mem_append, hreported.mem,
        List.mem_singleton]
      refine or_congr Iff.rfl ⟨fun hx => hx ▸ hends, hnamed⟩
  · have hsame : s'.reported = h.tracker.reported := by
      rw [Tracker.reported, hemitted]
      rfl
    constructor
    · rw [hsame]
      exact hreported.nodup
    · intro x
      rw [hended, hsame, hreported.mem, or_iff_left]
      exact fun hx => hends (hnamed hx ▸ hx)

end Report

theorem Reported.keep {h : History} (hreported : h.Reported) {h' : History}
    (hemitted : h'.tracker.emitted = h.tracker.emitted)
    (hended : ∀ x, h'.IsRoot x ∧ ¬ h'.tracker.IsActive x ↔
      h.IsRoot x ∧ ¬ h.tracker.IsActive x) : h'.Reported := by
  have hsame : h'.tracker.reported = h.tracker.reported := by
    rw [Tracker.reported, hemitted]
    rfl
  constructor
  · rw [hsame]
    exact hreported.nodup
  · intro x
    rw [hsame, hreported.mem, hended]

/-- A new request is active, so starting it ends nothing. -/
theorem Reported.start {h : History} (hreported : h.Reported)
    (hstacked : h.Stacked) (stack : List Nat) (clock : Clock)
    (type : Option String) (name : String) (root : Bool)
    (eventTimer : Option Nat) (creator : Nat → Option Nat) :
    Reported
      { tracker := (h.tracker.resume stack).startRequest clock type name root
          eventTimer
        home := Function.update h.home h.tracker.requestCount
          ((h.tracker.resume stack).callDomain root)
        creator := creator
        hrtime := clock.hrtime } := by
  have hwf : (h.tracker.resume stack).WellFormed :=
    Tracker.resume_wellFormed hstacked.wellFormed stack
  apply hreported.keep
  · exact Tracker.startRequest_emitted _ _ _ _ _ _
  · intro x
    simp only [IsRoot, Tracker.IsActive, Tracker.startRequest_active hwf,
      Tracker.startRequest_parentOf hwf, Function.update_apply]
    by_cases hx : x = (h.tracker.resume stack).requestCount
    · have hfresh : h.home x = none := by
        cases hhome : h.home x with
        | none => rfl
        | some d => exact absurd hx (Nat.ne_of_lt (hstacked.home_lt hhome).1)
      simp [hx, hx ▸ hfresh]
    · have hx' : x ≠ h.tracker.requestCount := hx
      rw [if_neg hx, if_neg hx, if_neg hx']
      rfl

theorem StepCase.reported {h h' : History} {turn : Turn}
    (hcase : StepCase h turn h') (hturn : h.HomeTurn turn)
    (hstacked : h.Stacked) (hreported : h.Reported) : h'.Reported := by
  cases hcase with
  | start type name root eventTimer hroot htimer =>
      exact hreported.start hstacked ..
  | stop r hcall hr =>
      have hhome := hturn.2
      rw [hcall] at hhome
      have heffect := Tracker.stop_effect
        (Tracker.resume_wellFormed hstacked.wellFormed turn.stack)
        turn.clock r
      exact hreported.stop hstacked hcall hhome heffect _ _
  | other s' hroot hcall hother =>
      apply hreported.keep hother.emitted
      intro x
      rw [IsRoot, hother.parentOf, Tracker.IsActive, hother.requests]
      rfl

/-- What holds between the turns of a run that stops at home. -/
structure Disciplined (h : History) : Prop where
  stacked : h.Stacked
  timed : h.Timed
  reported : h.Reported

theorem disciplined : requestMachine.Inductive HomeTurn Disciplined where
  init := ⟨initial_stacked, initial_timed, initial_reported⟩
  step := by
    intro h turn h' hinv hturn hstep
    have hcase := step_case hstep
    exact
      { stacked := hcase.stacked hturn (step_valid hstep) hinv.stacked
        timed := hcase.timed hturn.1 hinv.stacked.wellFormed hinv.timed
        reported := hcase.reported hturn hinv.stacked hinv.reported }

theorem Disciplined.step {h h' : History} {turn : Turn}
    (hinv : h.Disciplined) (hstep : h.step turn = some h')
    (hturn : h.HomeTurn turn) : h'.Disciplined :=
  disciplined.step hinv hturn hstep

/-- Once the root of a tree is inactive, so is the tree, and its timers are
stopped. -/
theorem Disciplined.tree_ended {h : History} (hinv : h.Disciplined) {r x : Nat}
    (hidle : ¬ h.tracker.IsActive r) (hx : x < h.tracker.requestCount)
    (htop : (h.tracker.requests x).top = r) :
    ¬ h.tracker.IsActive x ∧ h.tracker.TimerStopped x := by
  have hanc := hinv.stacked.wellFormed.ancestor_top hx
  rw [htop] at hanc
  have hx' : ¬ h.tracker.IsActive x := fun hactive =>
    hidle (UpClosed.ancestor hinv.stacked.active_parent hanc hactive)
  exact ⟨hx', hinv.timed.stopped hx hx'⟩

theorem Disciplined.reportsTree {h h' : History} {turn : Turn}
    (hinv : h.Disciplined) (hturn : h.HomeTurn turn)
    (hstep : requestMachine.step h turn = some h') :
    h.ReportsTree turn h' := by
  have hinv' := disciplined.step hinv hturn hstep
  have hquiet {r : Nat} (hcall : ∀ q, turn.call ≠ .stop q) :
      ¬ h.EndsTree turn r := fun hends => hcall r hends.1
  cases step_case hstep with
  | start type name root eventTimer hroot htimer =>
      have hcall (q : Nat) : turn.call ≠ .stop q := by
        intro heq
        rw [heq] at hroot
        cases hroot
      exact ⟨fun r hends => absurd hends (hquiet hcall),
        fun _ => Tracker.startRequest_emitted _ _ _ _ _ _⟩
  | other s' hroot hcall hother =>
      exact ⟨fun r hends => absurd hends (hquiet hcall),
        fun _ => hother.emitted⟩
  | stop r hcall hr =>
      have hhome := hturn.2
      rw [hcall] at hhome
      have heffect := Tracker.stop_effect
        (Tracker.resume_wellFormed hinv.stacked.wellFormed turn.stack)
        turn.clock r
      have hemitted := stop_emitted hcall hhome heffect
      constructor
      · intro q hends
        have hq : q = r :=
          RequestCall.stop.inj (hends.1.symm.trans hcall)
        subst hq
        refine ⟨(hemitted.resolve_right fun h => h.1 hends).2, ?_⟩
        intro x hx htop
        exact hinv'.tree_ended
          (heffect.stops.inactive q (List.mem_singleton_self q)) hx htop
      · intro hnone
        exact (hemitted.resolve_left fun h => hnone r h.1).2

end History

/-- When every stop runs in the domain its request was created in, the active
requests of a domain are at every point its `currentRequest` and the parents
of that; a parentless request of a domain raises exactly one event over the
run, in the turn that stops it, when its tree is inactive and timed; no other
turn raises an event. -/
theorem request_stack_discipline {turns : List Turn} {h : History}
    (hhome : requestMachine.Guarded History.HomeTurn requestMachine.init turns)
    (hrun : requestMachine.run requestMachine.init turns = some h) :
    (∀ d r, h.tracker.IsActive r ∧ h.home r = some d ↔
      ∃ c, h.tracker.currentRequest d = some c ∧
        Ancestor h.tracker.parentOf c r) ∧
    (∀ r, h.IsRoot r →
      (h.tracker.IsActive r → h.tracker.reported.count r = 0) ∧
      (¬ h.tracker.IsActive r → h.tracker.reported.count r = 1)) ∧
    requestMachine.Each History.ReportsTree requestMachine.init turns := by
  have hinv := History.disciplined.run hhome hrun
  refine ⟨fun _ _ => hinv.stacked.chain, fun r hroot => ⟨?_, ?_⟩, ?_⟩
  · intro hactive
    rw [List.count_eq_zero]
    exact fun hmem => (hinv.reported.mem.mp hmem).2 hactive
  · intro hidle
    exact List.count_eq_one_of_mem hinv.reported.nodup
      (hinv.reported.mem.mpr ⟨hroot, hidle⟩)
  · exact History.disciplined.each History.Disciplined.reportsTree hhome

namespace RequestStackWitness

/-- Two root requests with one inner request each; the first root is stopped
before its inner request is. -/
def overlapping : List Turn :=
  [⟨[], ⟨10, 1⟩, .startRequest (some "http") "GET /" true none⟩,
    ⟨[], ⟨20, 1⟩, .startRequest (some "http") "GET /a" true none⟩,
    ⟨[0], ⟨30, 2⟩, .startRequest (some "mysql") "query" false none⟩,
    ⟨[1], ⟨40, 2⟩, .startMethod "render" none⟩,
    ⟨[0], ⟨50, 3⟩, .stop 0⟩,
    ⟨[0], ⟨60, 3⟩, .stop 2⟩,
    ⟨[1], ⟨70, 4⟩, .stop 3⟩,
    ⟨[1], ⟨80, 4⟩, .stop 1⟩]

theorem overlapping_home :
    requestMachine.Guarded History.HomeTurn requestMachine.init
      overlapping := by
  decide +kernel

theorem overlapping_runs :
    (requestMachine.run requestMachine.init overlapping).isSome := by
  decide +kernel

theorem request_stack_discipline_overlapping :
    ∃ h, requestMachine.run requestMachine.init overlapping = some h ∧
      (∀ d r, h.tracker.IsActive r ∧ h.home r = some d ↔
        ∃ c, h.tracker.currentRequest d = some c ∧
          Ancestor h.tracker.parentOf c r) ∧
      (∀ r, h.IsRoot r →
        (h.tracker.IsActive r → h.tracker.reported.count r = 0) ∧
        (¬ h.tracker.IsActive r → h.tracker.reported.count r = 1)) ∧
      requestMachine.Each History.ReportsTree requestMachine.init
        overlapping := by
  obtain ⟨h, hrun⟩ := Option.isSome_iff_exists.mp overlapping_runs
  exact ⟨h, hrun, request_stack_discipline overlapping_home hrun⟩

end RequestStackWitness

end Appmetrics
