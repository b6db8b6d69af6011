/-
Nested measurements.  A request is measured by a timer of its own or by one
its probe started just before.  Along a run whose timers are started inside
the parent's measurement and not stopped on their own before those of the
children, the interval of every request lies in that of its parent, so no
part of a tree lasts longer than the event of its root says.
-/
import Appmetrics.RequestEvents
import Mathlib.Tactic.Linarith
import Mathlib.Tactic.Ring

namespace Appmetrics

open Forest StepMachine

/-- The whole reading in milliseconds: seconds and nanoseconds are put
together again. -/
theorem elapsed_eq_sub (clock : Clock) (startTime : Nat) :
    elapsed clock startTime =
      (clock.hrtime : Rat) / 1000000 - (startTime : Rat) / 1000000 := by
  have hdivmod := Int.mul_ediv_add_emod
    ((clock.hrtime : Int) - startTime) 1000000000
  have hcast := congrArg (fun z : Int => (z : Rat)) hdivmod
  push_cast at hcast
  unfold elapsed hrtimeSince
  dsimp only
  linarith

namespace Timer

/-- The reading of the clock, in milliseconds, that stopped the timer. -/
def endTime (timer : Timer) : Rat :=
  (timer.startTime : Rat) / 1000000 + timer.timeDelta

/-- The first timer measures a part of what the second one does. -/
def Within (inner outer : Timer) : Prop :=
  outer.startTime ≤ inner.startTime ∧
    (outer.timeDelta ≠ -1 →
      inner.timeDelta ≠ -1 ∧ inner.endTime ≤ outer.endTime)

theorem Within.refl (timer : Timer) : timer.Within timer :=
  ⟨Nat.le_refl _, fun hstopped => ⟨hstopped, le_refl _⟩⟩

theorem Within.trans {t₁ t₂ t₃ : Timer} (h₁₂ : t₁.Within t₂)
    (h₂₃ : t₂.Within t₃) : t₁.Within t₃ := by
  refine ⟨h₂₃.1.trans h₁₂.1, fun hstopped => ?_⟩
  obtain ⟨hstopped₂, hle₂⟩ := h₂₃.2 hstopped
  obtain ⟨hstopped₁, hle₁⟩ := h₁₂.2 hstopped₂
  exact ⟨hstopped₁, hle₁.trans hle₂⟩

/-- A part lasts no longer than the whole. -/
theorem Within.timeDelta_le {inner outer : Timer} (h : inner.Within outer)
    (hstopped : outer.timeDelta ≠ -1) :
    inner.timeDelta ≤ outer.timeDelta := by
  have hstart : (outer.startTime : Rat) ≤ inner.startTime := by
    exact_mod_cast h.1
  have hend := (h.2 hstopped).2
  unfold endTime at hend
  linarith

/-- While the outer timer runs, the inner one may stop at any time. -/
theorem Within.stop_inner {inner outer : Timer} (h : inner.Within outer)
    (clock : Clock) : (inner.stop clock).Within outer := by
  refine ⟨by rw [stop_startTime]; exact h.1, fun hstopped => ?_⟩
  obtain ⟨hinner, hle⟩ := h.2 hstopped
  rw [stop_of_stopped hinner]
  exact ⟨hinner, hle⟩

theorem stop_endTime {clock : Clock} {timer : Timer}
    (hrunning : timer.timeDelta = -1) :
    (timer.stop clock).endTime = (clock.hrtime : Rat) / 1000000 := by
  rw [endTime, stop_startTime, stop_of_running hrunning, elapsed_eq_sub]
  ring

/-- The outer timer may stop once the inner one has. -/
theorem Within.stop_outer {inner outer : Timer} (h : inner.Within outer)
    {clock : Clock} (hinner : inner.timeDelta ≠ -1)
    (hpast : inner.endTime ≤ (clock.hrtime : Rat) / 1000000) :
    inner.Within (outer.stop clock) := by
  by_cases hrunning : outer.timeDelta = -1
  · refine ⟨by rw [stop_startTime]; exact h.1, fun _ => ⟨hinner, ?_⟩⟩
    rw [stop_endTime hrunning]
    exact hpast
  · rw [stop_of_stopped hrunning]
    exact h

/-- A running timer lies within any that was running when it started. -/
theorem within_of_running {inner outer : Timer}
    (hstart : outer.startTime ≤ inner.startTime)
    (hrunning : outer.timeDelta = -1) : inner.Within outer :=
  ⟨hstart, fun hstopped => absurd hrunning hstopped⟩

end Timer

namespace Tracker

/-- The timer of a request, if it has one. -/
def timerOf (s : Tracker) (x : Nat) : Option Timer :=
  (s.requests x).timer.map s.timers

/-- The timer given to a start belongs to no other request, and it was
started while the timer of the parent was running, which still is. -/
def StartsWithin (s : Tracker) (root : Bool) (eventTimer : Option Nat) :
    Prop :=
  (∀ t ∈ eventTimer, ∀ x < s.requestCount, (s.requests x).timer ≠ some t) ∧
  ∀ p ∈ s.callParent root, ∀ outer ∈ s.timerOf p,
    outer.timeDelta = -1 ∧
      ∀ t ∈ eventTimer, outer.startTime ≤ (s.timers t).startTime

/-- A timer stopped on its own belongs to no request with a child that is
still being measured. -/
def StopsInside (s : Tracker) (t : Nat) : Prop :=
  ∀ x < s.requestCount, ∀ p ∈ s.parentOf x, (s.requests p).timer = some t →
    ∀ inner ∈ s.timerOf x, inner.timeDelta ≠ -1

instance (s : Tracker) (root : Bool) (eventTimer : Option Nat) :
    Decidable (s.StartsWithin root eventTimer) := by
  unfold StartsWithin
  infer_instance

instance (s : Tracker) (t : Nat) : Decidable (s.StopsInside t) := by
  unfold StopsInside
  infer_instance

end Tracker

namespace History

/-- Timers are started and stopped inside the measurements around them. -/
def TimerTurn (h : History) (turn : Turn) : Prop :=
  match turn.call with
  | .startRequest _ _ root eventTimer =>
      (h.tracker.resume turn.stack).StartsWithin root eventTimer
  | .startMethod _ eventTimer =>
      (h.tracker.resume turn.stack).StartsWithin false eventTimer
  | .stopTimer t => h.tracker.StopsInside t
  | _ => True

instance (h : History) : (turn : Turn) → Decidable (h.TimerTurn turn)
  | ⟨_, _, .startRequest _ _ root eventTimer⟩ =>
      inferInstanceAs (Decidable (Tracker.StartsWithin _ root eventTimer))
  | ⟨_, _, .startMethod _ eventTimer⟩ =>
      inferInstanceAs (Decidable (Tracker.StartsWithin _ false eventTimer))
  | ⟨_, _, .stopTimer t⟩ =>
      inferInstanceAs (Decidable (Tracker.StopsInside _ t))
  | ⟨_, _, .createDomain⟩ | ⟨_, _, .startTimer⟩ | ⟨_, _, .setConfig _ _⟩
  | ⟨_, _, .stop _⟩ => instDecidableTrue

/-- Every request is measured within its parent's measurement, by a timer
that is nobody else's, and the events report what those timers read. -/
structure Nested (h : History) : Prop where
  owner : ∀ {x y t}, (h.tracker.requests x).timer = some t →
    (h.tracker.requests y).timer = some t → x = y
  past : ∀ {t}, t < h.tracker.timerCount →
    (h.tracker.timers t).timeDelta ≠ -1 →
      (h.tracker.timers t).endTime ≤ (h.hrtime : Rat) / 1000000
  within : ∀ {x p inner outer}, h.tracker.parentOf x = some p →
    h.tracker.timerOf x = some inner → h.tracker.timerOf p = some outer →
      inner.Within outer
  events : ∀ {e}, e ∈ h.tracker.emitted → ∃ timer,
    h.tracker.timerOf e.request = some timer ∧ timer.timeDelta ≠ -1 ∧
      timer.timeDelta = e.duration

theorem initial_nested : initial.Nested where
  owner h := nomatch h
  past ht := absurd ht (Nat.not_lt_zero _)
  within h := nomatch h
  events he := nomatch he

/-- A timer after a turn that does not start it: as before, or stopped now. -/
def TimersStop (h h' : History) (clock : Clock) : Prop :=
  ∀ t < h.tracker.timerCount, h'.tracker.timers t = h.tracker.timers t ∨
    h'.tracker.timers t = (h.tracker.timers t).stop clock

theorem Nested.past_stop {h h' : History} (hnested : h.Nested)
    {clock : Clock} (hclock : h.hrtime ≤ clock.hrtime)
    (htimers : h.TimersStop h' clock) {t : Nat}
    (ht : t < h.tracker.timerCount)
    (hstopped : (h'.tracker.timers t).timeDelta ≠ -1) :
    (h'.tracker.timers t).endTime ≤ (clock.hrtime : Rat) / 1000000 := by
  have hcast : (h.hrtime : Rat) / 1000000 ≤ (clock.hrtime : Rat) / 1000000 := by
    have hle : (h.hrtime : Rat) ≤ clock.hrtime := by exact_mod_cast hclock
    linarith
  by_cases hrunning : (h.tracker.timers t).timeDelta = -1
  · rcases htimers t ht with heq | heq
    · rw [heq] at hstopped
      exact absurd hrunning hstopped
    · rw [heq, Timer.stop_endTime hrunning]
  · have heq : h'.tracker.timers t = h.tracker.timers t := by
      rcases htimers t ht with heq | heq
      · exact heq
      · rw [heq, Timer.stop_of_stopped hrunning]
    rw [heq]
    exact (hnested.past ht hrunning).trans hcast

/-- A turn that starts no request keeps the measurements nested if it stops
no timer around one that goes on running. -/
theorem Nested.keep {h h' : History} (hnested : h.Nested)
    (hwf : h.tracker.WellFormed) {clock : Clock}
    (hclock : h.hrtime ≤ clock.hrtime) (hhrtime : h'.hrtime = clock.hrtime)
    (htimer : ∀ x, (h'.tracker.requests x).timer =
      (h.tracker.requests x).timer)
    (hparent : h'.tracker.parentOf = h.tracker.parentOf)
    (htimers : h.TimersStop h' clock)
    (hfresh : ∀ t, h.tracker.timerCount ≤ t → t < h'.tracker.timerCount →
      (h'.tracker.timers t).timeDelta = -1)
    (houter : ∀ {x p u t}, h.tracker.parentOf x = some p →
      (h.tracker.requests x).timer = some u →
      (h.tracker.requests p).timer = some t →
        h'.tracker.timers t = h.tracker.timers t ∨
          (h'.tracker.timers u).timeDelta ≠ -1)
    (hevents : ∀ {e}, e ∈ h'.tracker.emitted → ∃ timer,
      h'.tracker.timerOf e.request = some timer ∧ timer.timeDelta ≠ -1 ∧
        timer.timeDelta = e.duration) : h'.Nested := by
  constructor
  case owner =>
    intro x y t hx hy
    rw [htimer] at hx hy
    exact hnested.owner hx hy
  case past =>
    intro t ht hstopped
    rw [hhrtime]
    by_cases hold : t < h.tracker.timerCount
    · exact hnested.past_stop hclock htimers hold hstopped
    · exact absurd (hfresh t (Nat.le_of_not_lt hold) ht) hstopped
  case within =>
    intro x p inner outer hxp hinner houter'
    rw [hparent] at hxp
    simp only [Tracker.timerOf, htimer, Option.map_eq_some_iff]
      at hinner houter'
    obtain ⟨u, hu, rfl⟩ := hinner
    obtain ⟨t, ht, rfl⟩ := houter'
    have hbefore : (h.tracker.timers u).Within (h.tracker.timers t) :=
      hnested.within hxp (by rw [Tracker.timerOf, hu]; rfl)
        (by rw [Tracker.timerOf, ht]; rfl)
    have hmiddle : (h'.tracker.timers u).Within (h.tracker.timers t) := by
      rcases htimers u (hwf.timer_lt hu) with heq | heq
      · rw [heq]
        exact hbefore
      · rw [heq]
        exact hbefore.stop_inner clock
    rcases htimers t (hwf.timer_lt ht) with heq | heq
    · rw [heq]
      exact hmiddle
    · rcases houter hxp hu ht with hsame | hstopped
      · rw [hsame]
        exact hmiddle
      · rw [heq]
        exact hmiddle.stop_outer hstopped
          (hnested.past_stop hclock htimers (hwf.timer_lt hu) hstopped)
  case events => exact hevents

/-- An event keeps naming the reading of its request's timer. -/
theorem Nested.event_stop {h h' : History} (hnested : h.Nested)
    (hwf : h.tracker.WellFormed) {clock : Clock}
    (htimer : ∀ x, (h'.tracker.requests x).timer =
      (h.tracker.requests x).timer)
    (htimers : h.TimersStop h' clock) {e : RequestEvent}
    (he : e ∈ h.tracker.emitted) : ∃ timer,
      h'.tracker.timerOf e.request = some timer ∧ timer.timeDelta ≠ -1 ∧
        timer.timeDelta = e.duration := by
  obtain ⟨timer, hof, hstopped, hduration⟩ := hnested.events he
  obtain ⟨t, ht, rfl⟩ := Option.map_eq_some_iff.mp hof
  have hsame : h'.tracker.timers t = h.tracker.timers t := by
    rcases htimers t (hwf.timer_lt ht) with heq | heq
    · exact heq
    · rw [heq, Timer.stop_of_stopped hstopped]
  refine ⟨h'.tracker.timers t, ?_, by rw [hsame]; exact hstopped,
    by rw [hsame]; exact hduration⟩
  rw [Tracker.timerOf, htimer, ht]
  rfl

/-- `stopTimer` stops the timer it names; the calls that are neither starts
nor stops of requests touch no other. -/
theorem other_timers {h h' : History} {turn : Turn}
    (hstep : h.step turn = some h') (hroot : turn.call.root? = none)
    (hcall : ∀ r, turn.call ≠ .stop r) {t : Nat}
    (ht : t < h.tracker.timerCount) :
    h'.tracker.timers t = h.tracker.timers t ∨ turn.call = .stopTimer t := by
  unfold step at hstep
  split at hstep
  · obtain ⟨stack, clock, call⟩ := turn
    have heq := Option.some.inj hstep
    subst heq
    cases call with
    | createDomain => exact Or.inl rfl
    | setConfig trace stackTrace => exact Or.inl rfl
    | startTimer =>
        have hne : t ≠ h.tracker.timerCount := Nat.ne_of_lt ht
        simp [RequestCall.perform, Tracker.startTimer, Tracker.resume, hne]
    | stopTimer u =>
        by_cases hu : t = u
        · exact Or.inr (hu ▸ rfl)
        · simp [RequestCall.perform, Tracker.stopTimer, Tracker.resume, hu]
    | startRequest type name root eventTimer => cases hroot
    | startMethod name eventTimer => cases hroot
    | stop r => exact absurd rfl (hcall r)
  · cases hstep

section Start

variable {h : History} (hnested : h.Nested) (hwf : h.tracker.WellFormed)
  (stack : List Nat) (clock : Clock) (type : Option String) (name : String)
  (root : Bool) (eventTimer : Option Nat)

include hwf

theorem timer_requestCount : (h.tracker.requests h.tracker.requestCount).timer =
    none :=
  have hblank := congrArg Request.timer (hwf.blank (Nat.le_refl _))
  hblank

theorem start_timer (x : Nat) :
    (((h.tracker.resume stack).startRequest clock type name root
      eventTimer).requests x).timer =
      if x = h.tracker.requestCount then
        some (eventTimer.getD h.tracker.timerCount)
      else (h.tracker.requests x).timer :=
  Tracker.startRequest_timer (Tracker.resume_wellFormed hwf stack) ..

theorem start_timers :
    ((h.tracker.resume stack).startRequest clock type name root
      eventTimer).timers =
      if eventTimer = none then
        Function.update h.tracker.timers h.tracker.timerCount
          (Timer.start clock)
      else h.tracker.timers :=
  Tracker.startRequest_timers _ _ _ _ _ _ (Tracker.resume_wellFormed hwf stack)

/-- The requests that exist keep their timers, with the same readings. -/
theorem start_timerOf {x : Nat} (hx : x ≠ h.tracker.requestCount) :
    ((h.tracker.resume stack).startRequest clock type name root
      eventTimer).timerOf x = h.tracker.timerOf x := by
  rw [Tracker.timerOf, Tracker.timerOf, start_timer hwf, if_neg hx,
    start_timers hwf]
  cases ht : (h.tracker.requests x).timer with
  | none => rfl
  | some t =>
      have hlt : t ≠ h.tracker.timerCount := Nat.ne_of_lt (hwf.timer_lt ht)
      simp only [Option.map_some]
      split
      · rw [Function.update_of_ne hlt]
      · rfl

theorem start_timerOf_new :
    ((h.tracker.resume stack).startRequest clock type name root
      eventTimer).timerOf h.tracker.requestCount =
      some ((eventTimer.map h.tracker.timers).getD (Timer.start clock)) := by
  rw [Tracker.timerOf, start_timer hwf, if_pos rfl, start_timers hwf]
  cases eventTimer <;> simp

/-- The timer of the new request belongs to no other. -/
theorem start_ownTimer
    (hwithin : (h.tracker.resume stack).StartsWithin root eventTimer)
    (y : Nat) : (h.tracker.requests y).timer ≠
      some (eventTimer.getD h.tracker.timerCount) := by
  intro heq
  cases heventTimer : eventTimer with
  | none =>
      rw [heventTimer] at heq
      exact absurd (hwf.timer_lt heq) (Nat.lt_irrefl _)
  | some t =>
      rw [heventTimer] at heq
      have hlt : y < h.tracker.requestCount := by
        by_contra hge
        have hblank := congrArg Request.timer
          (hwf.blank (Nat.le_of_not_lt hge))
        cases heq.symm.trans hblank
      exact hwithin.1 t heventTimer y hlt heq

/-- The new request is measured within its parent's measurement. -/
theorem start_within
    (hwithin : (h.tracker.resume stack).StartsWithin root eventTimer)
    (htimed : h.Timed) (hclock : h.hrtime ≤ clock.hrtime) {p : Nat}
    (hparent : (h.tracker.resume stack).callParent root = some p)
    {outer : Timer} (houter : h.tracker.timerOf p = some outer) :
    ((eventTimer.map h.tracker.timers).getD (Timer.start clock)).Within
      outer := by
  obtain ⟨hrunning, hstart⟩ := hwithin.2 p hparent outer houter
  refine Timer.within_of_running ?_ hrunning
  cases heventTimer : eventTimer with
  | none =>
      obtain ⟨t, ht, rfl⟩ := Option.map_eq_some_iff.mp houter
      exact (htimed.started (hwf.timer_lt ht)).trans hclock
  | some t => exact hstart t heventTimer

theorem Nested.start (hnested : h.Nested)
    (hwithin : (h.tracker.resume stack).StartsWithin root eventTimer)
    (htimed : h.Timed) (hclock : h.hrtime ≤ clock.hrtime)
    (home creator : Nat → Option Nat) :
    Nested
      { tracker := (h.tracker.resume stack).startRequest clock type name root
          eventTimer
        home := home
        creator := creator
        hrtime := clock.hrtime } := by
  have hwf' := Tracker.resume_wellFormed hwf stack
  have hcast : (h.hrtime : Rat) / 1000000 ≤
      (clock.hrtime : Rat) / 1000000 := by
    have hle : (h.hrtime : Rat) ≤ clock.hrtime := by exact_mod_cast hclock
    linarith
  constructor
  case owner =>
    intro x y t hx hy
    have hother := start_ownTimer hwf stack root eventTimer hwithin
    rw [start_timer hwf] at hx hy
    split at hx <;> split at hy
    · next hx' hy' => exact hx'.trans hy'.symm
    · exact absurd (hy.trans hx.symm) (hother y)
    · exact absurd (hx.trans hy.symm) (hother x)
    · exact hnested.owner hx hy
  case past =>
    intro t ht hstopped
    rw [Tracker.startRequest_timerCount _ _ _ _ _ _ hwf'] at ht
    rw [start_timers hwf] at hstopped ⊢
    by_cases hown : eventTimer = none
    · rw [if_pos hown] at hstopped ht ⊢
      by_cases hnew : t = h.tracker.timerCount
      · rw [hnew, Function.update_self] at hstopped
        exact absurd rfl hstopped
      · have hold : t < h.tracker.timerCount :=
          Nat.lt_of_le_of_ne (Nat.le_of_lt_succ ht) hnew
        rw [Function.update_of_ne hnew] at hstopped ⊢
        exact (hnested.past hold hstopped).trans hcast
    · rw [if_neg hown] at hstopped ht ⊢
      exact (hnested.past ht hstopped).trans hcast
  case within =>
    intro x p inner outer hxp hinner houter
    rw [Tracker.startRequest_parentOf hwf'] at hxp
    split at hxp
    · next hx =>
        have hp : p ≠ h.tracker.requestCount :=
          Nat.ne_of_lt (hwf'.callParent_lt hxp)
        have hx : x = h.tracker.requestCount := hx
        rw [start_timerOf hwf _ _ _ _ _ _ hp] at houter
        rw [hx, start_timerOf_new hwf, Option.some.injEq] at hinner
        rw [← hinner]
        exact start_within hwf stack clock root eventTimer hwithin htimed
          hclock hxp houter
    · next hx =>
        have hx : x ≠ h.tracker.requestCount := hx
        have hp : p ≠ h.tracker.requestCount := fun heq =>
          Tracker.requestCount_ne_parent hwf (heq ▸ hxp)
        rw [start_timerOf hwf _ _ _ _ _ _ hp] at houter
        rw [start_timerOf hwf _ _ _ _ _ _ hx] at hinner
        exact hnested.within hxp hinner houter
  case events =>
    intro e he
    rw [Tracker.startRequest_emitted] at he
    obtain ⟨timer, hof, hrest⟩ := hnested.events he
    have hne : e.request ≠ h.tracker.requestCount := by
      intro heq
      rw [heq, Tracker.timerOf, timer_requestCount hwf] at hof
      cases hof
    exact ⟨timer, (start_timerOf hwf _ _ _ _ _ _ hne).trans hof, hrest⟩

end Start

/-- A stop stops the timer of a request only together with those of its
children. -/
theorem Nested.stop {h h' : History} {turn : Turn} {r : Nat}
    (hnested : h.Nested) (hinv : h.Disciplined) (hinv' : h'.Disciplined)
    (hturn : h.HomeTurn turn) (hcall : turn.call = .stop r)
    (heffect : Tracker.StopEffect turn.clock (h.tracker.resume turn.stack) r
      h'.tracker)
    (hhrtime : h'.hrtime = turn.clock.hrtime) : h'.Nested := by
  have hwf := hinv.stacked.wellFormed
  have hframe := heffect.stops.frame
  have htimers : h.TimersStop h' turn.clock := fun t _ =>
    (heffect.stops.timer_cause t).imp id And.left
  have hhome := hturn.2
  rw [hcall] at hhome
  apply hnested.keep hwf hturn.1 hhrtime hframe.timer
    (funext hframe.parentOf) htimers
  case hfresh =>
    intro t hle hlt
    rw [hframe.timerCount] at hlt
    exact absurd hlt (Nat.not_lt_of_le hle)
  case houter =>
    intro x p u t hxp hu ht
    rcases heffect.stops.timer_cause t with heq | ⟨_, y, _, hidle, hy⟩
    · exact Or.inl heq
    · have hyp : y = p := hnested.owner hy ht
      have hparent : h'.tracker.parentOf x = some p :=
        (hframe.parentOf x).trans hxp
      have hxidle : ¬ h'.tracker.IsActive x := fun hactive =>
        hidle (hyp ▸ hinv'.stacked.active_parent hparent hactive)
      have hx : x < h'.tracker.requestCount := by
        rw [hframe.requestCount]
        exact hwf.lt_of_parent hxp
      obtain ⟨v, hv, hstopped⟩ := hinv'.timed.stopped hx hxidle
      have huv : v = u := Option.some.inj
        (hv.symm.trans ((hframe.timer x).trans hu))
      exact Or.inr (huv ▸ hstopped)
  case hevents =>
    intro e he
    rcases stop_emitted hcall hhome heffect with ⟨hends, heq⟩ | ⟨_, heq⟩
    · rw [heq] at he
      rcases List.mem_append.mp he with hold | hnew
      · exact hnested.event_stop hwf hframe.timer htimers hold
      · rw [List.mem_singleton.mp hnew]
        have hr : r < h'.tracker.requestCount := by
          rw [hframe.requestCount]
          exact hwf.active_lt hends.2.2
        obtain ⟨t, ht, hstopped⟩ := hinv'.timed.stopped hr
          (heffect.stops.inactive r (List.mem_singleton_self r))
        have hof : h'.tracker.timerOf r = some (h'.tracker.timers t) := by
          rw [Tracker.timerOf, ht]
          rfl
        refine ⟨h'.tracker.timers t, hof, hstopped, ?_⟩
        rw [Tracker.requestEvent, ht]
        rfl
    · rw [heq] at he
      exact hnested.event_stop hwf hframe.timer htimers he

theorem Nested.other {h h' : History} {turn : Turn} (hnested : h.Nested)
    (hinv : h.Disciplined) (hclock : h.hrtime ≤ turn.clock.hrtime)
    (htimer : h.TimerTurn turn) (hstep : h.step turn = some h')
    (hroot : turn.call.root? = none) (hcall : ∀ r, turn.call ≠ .stop r)
    (hother : Tracker.OtherEffect turn.clock (h.tracker.resume turn.stack)
      h'.tracker)
    (hhrtime : h'.hrtime = turn.clock.hrtime) : h'.Nested := by
  have hwf := hinv.stacked.wellFormed
  have hsame (x : Nat) : (h'.tracker.requests x).timer =
      (h.tracker.requests x).timer :=
    congrArg (fun requests => (requests x).timer) hother.requests
  apply hnested.keep hwf hclock hhrtime hsame hother.parentOf hother.timers
  case hfresh =>
    intro t hle hlt
    rw [hother.fresh t hle hlt]
    rfl
  case houter =>
    intro x p u t hxp hu ht
    rcases other_timers hstep hroot hcall (hwf.timer_lt ht) with heq | heq
    · exact Or.inl heq
    · have hinside : h.tracker.StopsInside t := by
        unfold TimerTurn at htimer
        rw [heq] at htimer
        exact htimer
      have hstopped := hinside x (hwf.lt_of_parent hxp) p hxp ht
        (h.tracker.timers u) (by rw [Tracker.timerOf, hu]; rfl)
      refine Or.inr ?_
      rcases hother.timers u (hwf.timer_lt hu) with heq | heq
      · rw [heq]
        exact hstopped
      · rw [heq]
        exact Timer.stop_timeDelta_ne_of_ne hstopped
  case hevents =>
    intro e he
    rw [hother.emitted] at he
    exact hnested.event_stop hwf hsame hother.timers he

/-- A start within the parent's measurement, whichever of the two calls makes
it. -/
theorem TimerTurn.start {h h' : History} {turn : Turn}
    (htimer : h.TimerTurn turn) (hstep : h.step turn = some h')
    (hroot : turn.call.root? ≠ none) :
    ∃ type name root eventTimer,
      (h.tracker.resume turn.stack).StartsWithin root eventTimer ∧
      h'.tracker = (h.tracker.resume turn.stack).startRequest turn.clock type
        name root eventTimer ∧ h'.hrtime = turn.clock.hrtime := by
  unfold step at hstep
  split at hstep
  · obtain ⟨stack, clock, call⟩ := turn
    have heq := Option.some.inj hstep
    subst heq
    cases call with
    | startRequest type name root eventTimer =>
        exact ⟨type, name, root, eventTimer, htimer, rfl, rfl⟩
    | startMethod name eventTimer =>
        exact ⟨none, name, false, eventTimer, htimer, rfl, rfl⟩
    | _ => exact absurd rfl hroot
  · cases hstep

/-- What holds between the turns of a run that stops at home and nests its
timers. -/
structure Measured (h : History) : Prop where
  disciplined : h.Disciplined
  nested : h.Nested

theorem measured : requestMachine.Inductive
    (fun h turn => h.HomeTurn turn ∧ h.TimerTurn turn) Measured where
  init := ⟨disciplined.init, initial_nested⟩
  step := by
    rintro h turn h' ⟨hinv, hnested⟩ ⟨hturn, htimer⟩ hstep
    have hinv' := hinv.step hstep hturn
    have hwf := hinv.stacked.wellFormed
    refine ⟨hinv', ?_⟩
    by_cases hroot : turn.call.root? = none
    · cases step_case hstep with
      | start type name root eventTimer hstart =>
          cases hroot.symm.trans hstart
      | stop r hcall hr =>
          have heffect := Tracker.stop_effect
            (Tracker.resume_wellFormed hwf turn.stack) turn.clock r
          exact hnested.stop hinv hinv' hturn hcall heffect rfl
      | other s' _ hcall hother =>
          exact hnested.other hinv hturn.1 htimer hstep hroot hcall hother rfl
    · obtain ⟨type, name, root, eventTimer, hwithin, htracker, hhrtime⟩ :=
        htimer.start hstep hroot
      obtain ⟨tracker, home, creator, hrtime⟩ := h'
      subst htracker hhrtime
      exact hnested.start hwf turn.stack turn.clock type name root eventTimer
        hwithin hinv.timed hturn.1 home creator

/-- Nesting passes up the whole chain of parents. -/
theorem Measured.within_ancestor {h : History} (hinv : h.Measured)
    {x r : Nat} (hanc : Ancestor h.tracker.parentOf x r)
    {inner outer : Timer} (hinner : h.tracker.timerOf x = some inner)
    (houter : h.tracker.timerOf r = some outer) : inner.Within outer := by
  have hwf := hinv.disciplined.stacked.wellFormed
  induction hanc generalizing outer with
  | refl =>
      cases hinner.symm.trans houter
      exact Timer.Within.refl _
  | @tail p q hxp hparent ih =>
      have hp := hwf.lt_of_parent hparent
      have hmiddle : ∃ middle, h.tracker.timerOf p = some middle := by
        by_cases hactive : h.tracker.IsActive p
        · obtain ⟨t, ht⟩ :=
            Option.ne_none_iff_exists'.mp (hwf.active_timer hactive)
          exact ⟨h.tracker.timers t, by rw [Tracker.timerOf, ht]; rfl⟩
        · obtain ⟨t, ht, _⟩ := hinv.disciplined.timed.stopped hp hactive
          exact ⟨h.tracker.timers t, by rw [Tracker.timerOf, ht]; rfl⟩
      obtain ⟨middle, hmiddle⟩ := hmiddle
      exact (ih hmiddle).trans (hinv.nested.within hparent hmiddle houter)

end History

namespace RequestIntervalsWitness

/-- A root request with an inner one measured by the timer of its probe; the
probe stops that timer before the request, and the root ends while a traced
method is still open. -/
def sharedTimer : List Turn :=
  [⟨[], ⟨10, 1⟩, .startRequest (some "http") "GET /" true none⟩,
    ⟨[0], ⟨20, 1⟩, .startTimer⟩,
    ⟨[0], ⟨25, 1⟩, .startRequest (some "mysql") "query" false (some 1)⟩,
    ⟨[0], ⟨30, 2⟩, .stopTimer 1⟩,
    ⟨[0], ⟨35, 2⟩, .stop 1⟩,
    ⟨[0], ⟨40, 2⟩, .startMethod "render" none⟩,
    ⟨[0], ⟨60, 3⟩, .stop 0⟩]

theorem sharedTimer_guarded :
    requestMachine.Guarded
      (fun h turn => h.HomeTurn turn ∧ h.TimerTurn turn)
      requestMachine.init sharedTimer := by
  decide +kernel

theorem sharedTimer_runs :
    (requestMachine.run requestMachine.init sharedTimer).isSome := by
  decide +kernel

end RequestIntervalsWitness

end Appmetrics
