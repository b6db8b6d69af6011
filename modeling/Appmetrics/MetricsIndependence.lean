/-
Request tracking and metrics, over whole runs.  The application with tracking
refines the stopwatch that times every operation on its own as long as no
request is stopped above one that shares the timer of an outstanding
operation; without tracking it always does.
-/
import Appmetrics.OperationMetrics

namespace Appmetrics

open Forest StepMachine

/-- A request and its parents. -/
def Tracker.lineage (s : Tracker) (x : Nat) : List Nat :=
  walk s.parentOf (x + 1) x

theorem Tracker.mem_lineage {s : Tracker} (hwf : s.WellFormed) {x r : Nat} :
    r ∈ s.lineage x ↔ Ancestor s.parentOf x r :=
  mem_walk_iff hwf.parent_lt (Nat.lt_succ_self x)

def OperationTurn.processDomain (turn : OperationTurn) : Option Nat :=
  turn.stack.head?

namespace Application

open History

/-- The callback of an operation runs in the domain its request was created
in, and the clock does not run backwards. -/
def HomeTurn (a : Application) (turn : OperationTurn) : Prop :=
  a.history.hrtime ≤ turn.clock.hrtime ∧
    turn.clock.hrtime ≤ turn.requestClock.hrtime ∧
    match turn.call with
    | .finish o => ∀ p ∈ a.operations[o]?, ∀ q ∈ p.req,
        turn.processDomain = a.history.home q
    | _ => True

instance (a : Application) (turn : OperationTurn) :
    Decidable (a.HomeTurn turn) := by
  unfold HomeTurn
  cases turn.call <;> infer_instance

/-- The operation is measured and outstanding, and shares its timer with its
active request, which lies below the request `q`. -/
def OutstandingBelow (a : Application) (q o : Nat) : Prop :=
  ∃ p ∈ a.operations[o]?, p.finished = false ∧ p.timer.isSome = true ∧
    ∃ q' ∈ p.req, (a.history.tracker.requests q').timer = p.timer ∧
      (a.history.tracker.requests q').active = true ∧
      q ∈ a.history.tracker.lineage q'

instance (a : Application) (q o : Nat) :
    Decidable (a.OutstandingBelow q o) := by
  unfold OutstandingBelow
  infer_instance

/-- The turn stops no request above one that shares the timer of another
outstanding operation. -/
def SparesOutstanding (a : Application) (turn : OperationTurn) : Prop :=
  match turn.call with
  | .finish o => ∀ p ∈ a.operations[o]?, ∀ q ∈ p.req,
      (a.history.tracker.requests q).active = true →
        ∀ o' < a.operations.length, o' ≠ o → ¬ a.OutstandingBelow q o'
  | _ => True

instance (a : Application) (turn : OperationTurn) :
    Decidable (a.SparesOutstanding turn) := by
  unfold SparesOutstanding
  cases turn.call <;> infer_instance

/-- Whatever turn comes next reports what the stopwatch reports. -/
def ReportsOwn (tracking : Bool) (a' : Application) : Prop :=
  ∀ next a'', a'.HomeTurn next → a'.step tracking next = some a'' →
    a'.stopwatch.step next = some a''.stopwatch

/-- Each operation has a timer of its own, which records its start and which
only its own request may share. -/
structure Owned (a : Application) : Prop where
  wellFormed : a.history.tracker.WellFormed
  timer : ∀ {o t : Nat} {p : Operation}, a.operations[o]? = some p →
    p.timer = some t →
      t < a.history.tracker.timerCount ∧
        (a.history.tracker.timers t).startTime = p.issued.hrtime ∧
        (a.history.tracker.timers t).startTimeMillis = p.issued.now
  timer_inj : ∀ {o o' t : Nat} {p p' : Operation},
    a.operations[o]? = some p → a.operations[o']? = some p' →
      p.timer = some t → p'.timer = some t → o = o'
  owner : ∀ {o t x : Nat} {p : Operation}, a.operations[o]? = some p →
    p.timer = some t →
      (a.history.tracker.requests x).timer = some t → p.req = some x

/-- The timers of outstanding operations are running. -/
def Running (a : Application) : Prop :=
  ∀ {o t : Nat} {p : Operation}, a.operations[o]? = some p →
    p.finished = false → p.timer = some t →
      (a.history.tracker.timers t).timeDelta = -1

theorem initial_owned : initial.Owned where
  wellFormed := Tracker.initial_wellFormed
  timer h := nomatch h
  timer_inj h := nomatch h
  owner h := nomatch h

theorem initial_running : initial.Running := by
  intro o t p ho
  cases ho

theorem operation_of_append {ps : List Operation} {p q : Operation} {o : Nat}
    (ho : (ps ++ [p])[o]? = some q) :
    ps[o]? = some q ∨ o = ps.length ∧ q = p := by
  rw [List.getElem?_append] at ho
  split at ho
  · exact Or.inl ho
  · next hge =>
      obtain ⟨hlt, heq⟩ := List.getElem?_eq_some_iff.mp ho
      simp only [List.length_singleton, Nat.lt_one_iff] at hlt
      simp only [hlt, List.getElem_cons_zero] at heq
      exact Or.inr ⟨by omega, heq.symm⟩

theorem operation_of_set {ps : List Operation} {p q : Operation} {o n : Nat}
    (ho : ps[n]? = some p) (hq : (ps.set n { p with finished := true })[o]? =
      some q) :
    o = n ∧ q = { p with finished := true } ∨ o ≠ n ∧ ps[o]? = some q := by
  by_cases heq : o = n
  · subst heq
    have hlt := (List.getElem?_eq_some_iff.mp ho).1
    rw [List.getElem?_set_self hlt] at hq
    exact Or.inl ⟨rfl, (Option.some.inj hq).symm⟩
  · rw [List.getElem?_set_ne (Ne.symm heq)] at hq
    exact Or.inr ⟨heq, hq⟩

section Owned

variable {a : Application} (howned : a.Owned)

include howned

theorem Owned.ext {h' : History} (hext : Extends a.history h') :
    Owned ⟨h', a.operations, a.metrics⟩ where
  wellFormed := hext.wellFormed
  timer := by
    intro o t p ho ht
    obtain ⟨hlt, hstart, hmillis⟩ := howned.timer ho ht
    obtain ⟨hstart', hmillis'⟩ := hext.startTime hlt
    exact ⟨hlt.trans_le hext.timerCount, hstart'.trans hstart,
      hmillis'.trans hmillis⟩
  timer_inj := howned.timer_inj
  owner := by
    intro o t x p ho ht hx
    rcases hext.timer hx with hold | hnew
    · exact howned.owner ho ht hold
    · exact absurd hnew (Nat.not_le_of_gt (howned.timer ho ht).1)

theorem Owned.issued {clock : Clock} {measured : Bool} {p : Operation}
    {h' : History} (hissued : Issued a.history clock measured p h') :
    Owned ⟨h', a.operations ++ [p], a.metrics⟩ := by
  have hext := howned.ext hissued.ext
  have hissuedAt : p.issued = clock := congrArg Meter.issued hissued.meter
  constructor
  case wellFormed => exact hissued.ext.wellFormed
  case timer =>
    intro o t q ho ht
    rcases operation_of_append ho with hold | ⟨_, rfl⟩
    · exact hext.timer hold ht
    · obtain ⟨_, hlt, hrunning⟩ := hissued.fresh ht
      refine ⟨hlt, ?_, ?_⟩
      · rw [hrunning, hissuedAt]
        rfl
      · rw [hrunning, hissuedAt]
        rfl
  case timer_inj =>
    intro o o' t q q' ho ho' ht ht'
    rcases operation_of_append ho with hold | ⟨heq, rfl⟩
    · rcases operation_of_append ho' with hold' | ⟨_, rfl⟩
      · exact howned.timer_inj hold hold' ht ht'
      · have hlt := (howned.timer hold ht).1
        exact absurd (hissued.fresh ht').1 (Nat.ne_of_lt hlt)
    · rcases operation_of_append ho' with hold' | ⟨heq', _⟩
      · have hlt := (howned.timer hold' ht').1
        exact absurd (hissued.fresh ht).1 (Nat.ne_of_lt hlt)
      · exact heq.trans heq'.symm
  case owner =>
    intro o t x q ho ht hx
    rcases operation_of_append ho with hold | ⟨_, rfl⟩
    · exact hext.owner hold ht hx
    · exact hissued.owner ht hx

/-- Marking an operation as finished changes nobody's timer. -/
theorem Owned.marked {n : Nat} {p : Operation}
    (hp : a.operations[n]? = some p) (metrics : List MetricsEvent) :
    Owned ⟨a.history, a.operations.set n { p with finished := true },
      metrics⟩ := by
  have hsame {o : Nat} {q : Operation}
      (hq : (a.operations.set n { p with finished := true })[o]? = some q) :
      ∃ q', a.operations[o]? = some q' ∧ q'.timer = q.timer ∧
        q'.req = q.req ∧ q'.issued = q.issued := by
    rcases operation_of_set hp hq with ⟨rfl, rfl⟩ | ⟨_, hold⟩
    · exact ⟨p, hp, rfl, rfl, rfl⟩
    · exact ⟨q, hold, rfl, rfl, rfl⟩
  constructor
  case wellFormed => exact howned.wellFormed
  case timer =>
    intro o t q hq ht
    obtain ⟨q', hq', htimer, _, hissued⟩ := hsame hq
    rw [← hissued]
    exact howned.timer hq' (htimer.trans ht)
  case timer_inj =>
    intro o o' t q r hq hr ht ht'
    obtain ⟨q', hq', htimer, _⟩ := hsame hq
    obtain ⟨r', hr', htimer', _⟩ := hsame hr
    exact howned.timer_inj hq' hr' (htimer.trans ht) (htimer'.trans ht')
  case owner =>
    intro o t x q hq ht hx
    obtain ⟨q', hq', htimer, hreq, _⟩ := hsame hq
    exact hreq ▸ howned.owner hq' (htimer.trans ht) hx

end Owned

/-- What one turn can do to the application. -/
inductive StepCase (a : Application) (turn : OperationTurn) :
    Application → Prop
  | createDomain (h' : History) (hcall : turn.call = .createDomain)
      (hother : Tracker.OtherEffect turn.clock
        (a.history.tracker.resume []) h'.tracker)
      (htimers : h'.tracker.timers = a.history.tracker.timers) :
      StepCase a turn { a with history := h' }
  | issue (type : Option String) (name : String)
      (root measured shared : Bool) (p : Operation) (h' : History)
      (hcall : turn.call = .issue type name root measured shared)
      (hissued : Issued a.history turn.clock measured p h') :
      StepCase a turn ⟨h', a.operations ++ [p], a.metrics⟩
  | finish (o : Nat) (p : Operation) (h' : History)
      (events : List MetricsEvent) (hcall : turn.call = .finish o)
      (hp : a.operations[o]? = some p) (hopen : p.finished = false)
      (hended : Ended a.history turn o p h' events) :
      StepCase a turn ⟨h', a.operations.set o { p with finished := true },
        a.metrics ++ events⟩

theorem step_case {a a' : Application} {turn : OperationTurn}
    {tracking : Bool} (howned : a.Owned)
    (hstep : a.step tracking turn = some a') : StepCase a turn a' := by
  cases hcall : turn.call with
  | createDomain =>
      rw [step, hcall] at hstep
      simp only [step_createDomain, Option.map_some] at hstep
      cases hstep
      exact .createDomain _ hcall (Tracker.createDomain_other _ _) rfl
  | issue type name root measured shared =>
      rw [step, hcall] at hstep
      obtain ⟨p, h', rfl, hissued⟩ :=
        issued_of_issue howned.wellFormed hstep
      exact .issue type name root measured shared p h' hcall hissued
  | finish o =>
      rw [step, hcall] at hstep
      dsimp only at hstep
      split at hstep
      · next p hp =>
          split at hstep
          · cases hstep
          · next hopen =>
              obtain ⟨h', events, rfl, hended⟩ :=
                ended_of_finish howned.wellFormed
                  (fun t ht => (howned.timer hp ht).1) hstep
              exact .finish o p h' events hcall hp
                (Bool.eq_false_of_not_eq_true hopen) hended
      · cases hstep

theorem StepCase.owned {a a' : Application} {turn : OperationTurn}
    (hcase : StepCase a turn a') (howned : a.Owned) : a'.Owned := by
  cases hcase with
  | createDomain h' hcall hother htimers =>
      apply howned.ext
      constructor
      case wellFormed =>
        exact hother.wellFormed
          (Tracker.resume_wellFormed howned.wellFormed [])
      case timerCount => exact hother.timerCount
      case startTime =>
        intro t _
        rw [htimers]
        exact ⟨rfl, rfl⟩
      case timer =>
        intro x t ht
        rw [hother.requests] at ht
        exact Or.inl ht
      case kept =>
        intro x t ht
        rw [hother.requests]
        exact ht
  | issue type name root measured shared p h' hcall hissued =>
      exact howned.issued hissued
  | finish o p h' events hcall hp hopen hended =>
      exact (howned.ext hended.ext).marked hp _

/-- While the timers of outstanding operations run, a turn does to the
meters and events what the stopwatch does. -/
theorem StepCase.refines {a a' : Application} {turn : OperationTurn}
    (hcase : StepCase a turn a') (howned : a.Owned) (hrunning : a.Running) :
    a.stopwatch.step turn = some a'.stopwatch := by
  cases hcase with
  | createDomain h' hcall hother htimers =>
      rw [Stopwatch.step, hcall]
      rfl
  | issue type name root measured shared p h' hcall hissued =>
      simp [Stopwatch.step, hcall, stopwatch, hissued.meter]
  | finish o p h' events hcall hp hopen hended =>
      have hmeter : a.stopwatch.meters[o]? = some p.meter := by
        simp [stopwatch, hp]
      have hevents : events = Stopwatch.events turn.clock o p.meter := by
        rw [hended.events]
        cases ht : p.timer with
        | none => simp [Stopwatch.events, Operation.meter, ht]
        | some t =>
            obtain ⟨_, hstart, hmillis⟩ := howned.timer hp ht
            have hdelta := hrunning hp hopen ht
            simp [Stopwatch.events, Stopwatch.event, Operation.meter, ht,
              Timer.stop_of_running hdelta, hstart, hmillis]
      have hnot : p.meter.finished = false := hopen
      rw [Stopwatch.step, hcall]
      simp only [hmeter, hnot, Bool.false_eq_true, if_false, hevents]
      simp [stopwatch, List.map_set, Operation.meter]

theorem StepCase.running {a a' : Application} {turn : OperationTurn}
    (hcase : StepCase a turn a') (howned : a.Owned) (hrunning : a.Running)
    (hspares : a.SparesOutstanding turn) : a'.Running := by
  intro o' t' p' ho' hopen' ht'
  cases hcase with
  | createDomain h' hcall hother htimers =>
      rw [htimers]
      exact hrunning ho' hopen' ht'
  | issue type name root measured shared p h' hcall hissued =>
      rcases operation_of_append ho' with hold | ⟨_, rfl⟩
      · rw [hissued.old (howned.timer hold ht').1]
        exact hrunning hold hopen' ht'
      · rw [(hissued.fresh ht').2.2]
        rfl
  | finish o p h' events hcall hp hopen hended =>
      rcases operation_of_set hp ho' with ⟨_, rfl⟩ | ⟨hne, hold⟩
      · cases hopen'
      · have hother : p.timer ≠ some t' := fun ht =>
          hne (howned.timer_inj hold hp ht' ht)
        rcases hended.touched hother with
          hsame | ⟨q, x, hq, hactive, hx, hanc, htimer⟩
        · rw [hsame]
          exact hrunning hold hopen' ht'
        · -- the timer of an outstanding operation was stopped from above
          rw [SparesOutstanding, hcall] at hspares
          have hlt := (List.getElem?_eq_some_iff.mp hold).1
          refine absurd ?_ (hspares p hp q hq hactive o' hlt hne)
          exact ⟨p', hold, hopen', by rw [ht']; rfl, x,
            howned.owner hold ht' htimer, htimer.trans ht'.symm, hx,
            (Tracker.mem_lineage howned.wellFormed).mpr hanc⟩

/-- A request keeps its timer. -/
theorem StepCase.kept {a a' : Application} {turn : OperationTurn}
    (hcase : StepCase a turn a') {x t : Nat}
    (ht : (a.history.tracker.requests x).timer = some t) :
    (a'.history.tracker.requests x).timer = some t := by
  cases hcase with
  | createDomain h' hcall hother htimers =>
      rw [hother.requests]
      exact ht
  | issue type name root measured shared p h' hcall hissued =>
      exact hissued.ext.kept ht
  | finish o p h' events hcall hp hopen hended => exact hended.ext.kept ht

section Disciplined

variable {h h' : History} (hinv : h.Disciplined)

include hinv

theorem metricsStart_disciplined {clock : Clock} {measured : Bool}
    {timer : Option Nat} (hclock : h.hrtime ≤ clock.hrtime)
    (hstart : metricsStart h clock measured = some (h', timer)) :
    h'.Disciplined ∧ h'.hrtime ≤ clock.hrtime := by
  cases measured with
  | false =>
      cases hstart
      exact ⟨hinv, hclock⟩
  | true =>
      rw [metricsStart, if_pos rfl, Option.map_eq_some_iff] at hstart
      obtain ⟨_, hstep, heq⟩ := hstart
      cases heq
      refine ⟨hinv.step hstep ⟨hclock, trivial⟩, ?_⟩
      rw [step_startTimer] at hstep
      cases hstep
      exact Nat.le_refl _

theorem requestStart_disciplined {turn : OperationTurn}
    {tracking root shared : Bool} {type : Option String} {name : String}
    {timer req : Option Nat} (hclock : h.hrtime ≤ turn.requestClock.hrtime)
    (hstart : requestStart tracking h turn type name root shared timer =
      some (h', req)) : h'.Disciplined := by
  cases tracking with
  | false =>
      cases hstart
      exact hinv
  | true =>
      rw [requestStart, if_pos rfl, Option.map_eq_some_iff] at hstart
      obtain ⟨_, hstep, heq⟩ := hstart
      cases heq
      exact hinv.step hstep ⟨hclock, trivial⟩

theorem metricsEnd_disciplined {clock : Clock} {o : Nat} {p : Operation}
    {events : List MetricsEvent} (hclock : h.hrtime ≤ clock.hrtime)
    (hend : metricsEnd h clock o p = some (h', events)) :
    h'.Disciplined ∧ h'.hrtime ≤ clock.hrtime ∧ h'.home = h.home := by
  cases htimer : p.timer with
  | none =>
      rw [metricsEnd, htimer] at hend
      cases hend
      exact ⟨hinv, hclock, rfl⟩
  | some t =>
      rw [metricsEnd, htimer] at hend
      dsimp only at hend
      rw [Option.map_eq_some_iff] at hend
      obtain ⟨_, hstep, heq⟩ := hend
      cases heq
      refine ⟨hinv.step hstep ⟨hclock, trivial⟩, ?_⟩
      unfold History.step at hstep
      split at hstep
      · cases hstep
        exact ⟨Nat.le_refl _, rfl⟩
      · cases hstep

theorem requestEnd_disciplined {turn : OperationTurn} {p : Operation}
    (hclock : h.hrtime ≤ turn.requestClock.hrtime)
    (hhome : ∀ q, p.req = some q → turn.processDomain = h.home q)
    (hend : requestEnd h turn p = some h') : h'.Disciplined := by
  cases hreq : p.req with
  | none =>
      rw [requestEnd, hreq] at hend
      cases hend
      exact hinv
  | some q =>
      rw [requestEnd, hreq] at hend
      exact hinv.step hend ⟨hclock, hhome q hreq⟩

end Disciplined

theorem disciplined_step {a a' : Application} {turn : OperationTurn}
    {tracking : Bool} (hinv : a.history.Disciplined) (hhome : a.HomeTurn turn)
    (hstep : a.step tracking turn = some a') : a'.history.Disciplined := by
  obtain ⟨hclock, hrequest, hdomain⟩ := hhome
  cases hcall : turn.call with
  | createDomain =>
      rw [step, hcall] at hstep
      dsimp only at hstep
      rw [Option.map_eq_some_iff] at hstep
      obtain ⟨_, hstep, rfl⟩ := hstep
      exact hinv.step hstep ⟨hclock, trivial⟩
  | issue type name root measured shared =>
      rw [step, hcall] at hstep
      dsimp only at hstep
      rw [issue, Option.bind_eq_some_iff] at hstep
      obtain ⟨⟨h₁, timer⟩, hmetrics, hstep⟩ := hstep
      rw [Option.map_eq_some_iff] at hstep
      obtain ⟨⟨h₂, req⟩, hstart, rfl⟩ := hstep
      obtain ⟨hinv₁, hclock₁⟩ := metricsStart_disciplined hinv hclock hmetrics
      exact requestStart_disciplined hinv₁ (hclock₁.trans hrequest) hstart
  | finish o =>
      rw [hcall] at hdomain
      rw [step, hcall] at hstep
      dsimp only at hstep
      split at hstep
      · next p hp =>
          split at hstep
          · cases hstep
          · rw [finish, Option.bind_eq_some_iff] at hstep
            obtain ⟨⟨h₁, events⟩, hmetrics, hstep⟩ := hstep
            rw [Option.map_eq_some_iff] at hstep
            obtain ⟨h₂, hend, rfl⟩ := hstep
            obtain ⟨hinv₁, hclock₁, hhome₁⟩ :=
              metricsEnd_disciplined hinv hclock hmetrics
            refine requestEnd_disciplined hinv₁ (hclock₁.trans hrequest)
              (fun q hq => ?_) hend
            rw [hhome₁]
            exact hdomain p hp q hq
      · cases hstep

/-- What the runs of the application with its callbacks at home keep. -/
structure Sound (a : Application) : Prop where
  owned : a.Owned
  running : a.Running
  disciplined : a.history.Disciplined

theorem sound (tracking : Bool) :
    (applicationMachine tracking).Inductive
      (fun a turn => a.HomeTurn turn ∧ a.SparesOutstanding turn) Sound where
  init := ⟨initial_owned, initial_running, History.disciplined.init⟩
  step := by
    intro a turn a' hsound hturn hstep
    have hcase := step_case hsound.owned hstep
    exact
      { owned := hcase.owned hsound.owned
        running := hcase.running hsound.owned hsound.running hturn.2
        disciplined := disciplined_step hsound.disciplined hturn.1 hstep }

/-- Stopping the request of an operation stops the timers below it. -/
theorem Sound.finish_stops {a a' : Application} {turn : OperationTurn}
    {tracking : Bool} {o q x t : Nat} {p : Operation} (hsound : a.Sound)
    (hhome : a.HomeTurn turn) (hcall : turn.call = .finish o)
    (hp : a.operations[o]? = some p) (hq : p.req = some q)
    (hstep : a.step tracking turn = some a')
    (hx : a.history.tracker.IsActive x)
    (hanc : Ancestor a.history.tracker.parentOf x q)
    (htimer : (a.history.tracker.requests x).timer = some t)
    (hne : p.timer ≠ some t) :
    a'.history.tracker.timers t =
        (a.history.tracker.timers t).stop turn.requestClock ∧
      a'.history.hrtime = turn.requestClock.hrtime ∧
      a'.history.home = a.history.home ∧
      a'.operations = a.operations.set o { p with finished := true } := by
  rw [step, hcall] at hstep
  simp only [hp] at hstep
  split at hstep
  · cases hstep
  rw [finish, Option.bind_eq_some_iff] at hstep
  obtain ⟨⟨h₁, events⟩, hmetrics, hstep⟩ := hstep
  rw [Option.map_eq_some_iff] at hstep
  obtain ⟨h₂, hend, rfl⟩ := hstep
  rw [requestEnd, hq] at hend
  have hstopped := eq_of_step_stop hend
  obtain ⟨_, hrequests, _, htimers⟩ := metricsEnd_ended
    hsound.owned.wellFormed (fun t ht => (hsound.owned.timer hp ht).1)
    hmetrics
  obtain ⟨hinv₁, _, hhome₁⟩ :=
    metricsEnd_disciplined hsound.disciplined hhome.1 hmetrics
  have heffect := Tracker.stop_effect (Tracker.resume_wellFormed
    hinv₁.stacked.wellFormed turn.stack) turn.requestClock q
  have hparentOf : h₁.tracker.parentOf = a.history.tracker.parentOf :=
    congrArg (fun requests x => (requests x).parent) hrequests
  have hx₁ : h₁.tracker.IsActive x := by
    rw [Tracker.IsActive, hrequests]
    exact hx
  have hidle := (hinv₁.stacked.stop_isActive heffect x).not.mpr
    fun h => h.2 (hparentOf ▸ hanc)
  have htimer₁ : (h₁.tracker.requests x).timer = some t := by
    rw [hrequests]
    exact htimer
  subst hstopped
  refine ⟨?_, rfl, hhome₁, rfl⟩
  exact (heffect.stops.timer_stopped hx₁ hidle htimer₁).trans
    (congrArg _ (htimers t hne))

/-- The callback of an outstanding operation can come at any time. -/
theorem Owned.finish_enabled {a : Application} (howned : a.Owned)
    {turn : OperationTurn} {o : Nat} {p : Operation}
    (hcall : turn.call = .finish o) (hp : a.operations[o]? = some p)
    (hopen : p.finished = false) (tracking : Bool)
    (hvalid : ∀ q, p.req = some q →
      (∀ d ∈ turn.stack, d < a.history.tracker.domainCount) ∧
        q < a.history.tracker.requestCount) :
    ∃ a', a.step tracking turn = some a' := by
  have hmetrics : ∃ h₁ events,
      metricsEnd a.history turn.clock o p = some (h₁, events) ∧
        h₁.tracker.domainCount = a.history.tracker.domainCount ∧
        h₁.tracker.requestCount = a.history.tracker.requestCount := by
    cases htimer : p.timer with
    | none => exact ⟨_, _, by rw [metricsEnd, htimer], rfl, rfl⟩
    | some t =>
        have hlt := (howned.timer hp htimer).1
        rw [metricsEnd, htimer]
        simp only [step_stopTimer turn.clock hlt, Option.map_some]
        exact ⟨_, _, rfl, rfl, rfl⟩
  obtain ⟨h₁, events, hmetrics, hdomains, hcount⟩ := hmetrics
  have hrequest : ∃ h₂, requestEnd h₁ turn p = some h₂ := by
    cases hq : p.req with
    | none => exact ⟨h₁, by rw [requestEnd, hq]⟩
    | some q =>
        obtain ⟨hstack, hlt⟩ := hvalid q hq
        have hlt₁ : q < h₁.tracker.requestCount := hlt.trans_eq hcount.symm
        rw [requestEnd, hq]
        exact ⟨_, if_pos ⟨fun d hd => hdomains ▸ hstack d hd, hlt₁⟩⟩
  obtain ⟨h₂, hrequest⟩ := hrequest
  simp only [step, hcall, hp, hopen, Bool.false_eq_true, if_false, finish,
    hmetrics, Option.bind_some, hrequest, Option.map_some]
  exact ⟨_, rfl⟩

/-- Where a turn reports what the stopwatch does, the duration it reports is
the operation's own. -/
theorem StepCase.duration {a a' : Application} {turn : OperationTurn}
    (hcase : StepCase a turn a')
    (hreport : a.stopwatch.step turn = some a'.stopwatch) {o t : Nat}
    {p : Operation} (hcall : turn.call = .finish o)
    (hp : a.operations[o]? = some p) (ht : p.timer = some t) :
    ((a.history.tracker.timers t).stop turn.clock).timeDelta =
      elapsed turn.clock p.issued.hrtime := by
  cases hcase with
  | createDomain h' hcall' _ _ => cases hcall.symm.trans hcall'
  | issue type name root measured shared p h' hcall' _ =>
      cases hcall.symm.trans hcall'
  | finish o' p' h' events hcall' hp' hopen hended =>
      cases hcall.symm.trans hcall'
      cases hp.symm.trans hp'
      have hmeter : a.stopwatch.meters[o]? = some p.meter := by
        simp [stopwatch, hp]
      have hnot : p.meter.finished = false := hopen
      rw [Stopwatch.step, hcall] at hreport
      simp only [hmeter, hnot, Bool.false_eq_true, if_false,
        Option.some.injEq] at hreport
      have hevents := congrArg Stopwatch.metrics hreport
      simp only [stopwatch, List.append_cancel_left_eq] at hevents
      rw [hended.events] at hevents
      simp only [Stopwatch.events, Stopwatch.event, Operation.meter, ht,
        Option.isSome_some, if_true, Option.map_some, Option.toList_some,
        List.cons.injEq, MetricsEvent.mk.injEq, and_true,
        true_and] at hevents
      exact hevents.2.symm

theorem Sound.sparesOutstanding {a a' : Application} {turn : OperationTurn}
    {tracking : Bool} (hsound : a.Sound) (hhome : a.HomeTurn turn)
    (hstep : a.step tracking turn = some a')
    (hreports : a'.ReportsOwn tracking) : a.SparesOutstanding turn := by
  rw [SparesOutstanding]
  split
  case h_2 => trivial
  case h_1 o hcall =>
    rintro p hp q hq _ o' _ hne
      ⟨p', hp', hopen', hsome, q', hq', hshared, hactive', hmem⟩
    obtain ⟨t', ht'⟩ := Option.isSome_iff_exists.mp hsome
    have howned := hsound.owned
    have hother : p.timer ≠ some t' := fun ht =>
      hne (howned.timer_inj hp' hp ht' ht)
    have htimer := hshared.trans ht'
    obtain ⟨hstopped, hrtime, hhome', hoperations⟩ :=
      hsound.finish_stops hhome hcall hp hq hstep hactive'
        ((Tracker.mem_lineage howned.wellFormed).mp hmem) htimer hother
    have hcase := step_case howned hstep
    have howned' := hcase.owned howned
    have hinv' := disciplined_step hsound.disciplined hhome hstep
    have hp'' : a'.operations[o']? = some p' := by
      rw [hoperations, List.getElem?_set_ne (Ne.symm hne)]
      exact hp'
    -- the callback of `o'` one nanosecond later
    let late : Clock := ⟨turn.requestClock.hrtime + 1, 0⟩
    let next : OperationTurn :=
      ⟨(a'.history.home q').toList, late, late, .finish o'⟩
    have hdomain : next.processDomain = a'.history.home q' := by
      cases hd : a'.history.home q' <;>
        simp [next, OperationTurn.processDomain, hd]
    have htimer' := hcase.kept htimer
    have hq'lt : q' < a'.history.tracker.requestCount := by
      by_contra hge
      have hblank := congrArg Request.timer
        (howned'.wellFormed.blank (Nat.le_of_not_lt hge))
      cases htimer'.symm.trans hblank
    obtain ⟨a'', hnext⟩ := howned'.finish_enabled
      (show next.call = .finish o' from rfl) hp'' hopen' tracking
      fun x hx => by
        cases hq'.symm.trans hx
        exact ⟨fun d hd =>
          (hinv'.stacked.home_lt (Option.mem_toList.mp hd)).2, hq'lt⟩
    have hhomeNext : a'.HomeTurn next := by
      refine ⟨?_, Nat.le_refl _, ?_⟩
      · rw [hrtime]
        exact Nat.le_succ _
      · intro r hr x hx
        cases hp''.symm.trans hr
        cases hq'.symm.trans hx
        exact hdomain
    have hduration := (step_case howned' hnext).duration
      (hreports next a'' hhomeNext hnext) rfl hp'' ht'
    obtain ⟨hlt, hstart, _⟩ := howned.timer hp' ht'
    have hmono : (a.history.tracker.timers t').startTime ≤
        turn.requestClock.hrtime :=
      (hsound.disciplined.timed.started hlt).trans
        (hhome.1.trans hhome.2.1)
    rw [hstopped, Timer.stop_of_stopped (Timer.stop_timeDelta_ne hmono),
      Timer.stop_of_running (hsound.running hp' hopen' ht'), hstart]
      at hduration
    exact absurd (elapsed_inj hduration) (Nat.ne_of_lt (Nat.lt_succ_self _))

/-! ## The two runs -/

/-- An application whose operations are all timed on their own, and the
stopwatch that shows the same. -/
def Timekeeper (a : Application) (w : Stopwatch) : Prop :=
  a.Owned ∧ a.Running ∧ a.stopwatch = w

theorem simulates_stopwatch (tracking : Bool) :
    (applicationMachine tracking).Simulates stopwatchMachine
      SparesOutstanding Timekeeper where
  step := by
    rintro a w turn a' ⟨howned, hrunning, rfl⟩ hspares hstep
    have hcase := step_case howned hstep
    exact ⟨a'.stopwatch, hcase.refines howned hrunning, hcase.owned howned,
      hcase.running howned hrunning hspares, rfl⟩

/-- With tracking off no operation has a request. -/
def Untracked (a : Application) : Prop := ∀ p ∈ a.operations, p.req = none

theorem initial_untracked : initial.Untracked := by
  intro p hp
  cases hp

theorem Untracked.step {a a' : Application} {turn : OperationTurn}
    (huntracked : a.Untracked) (hstep : a.step false turn = some a') :
    a'.Untracked := by
  cases hcall : turn.call with
  | createDomain =>
      rw [Application.step, hcall] at hstep
      dsimp only at hstep
      rw [Option.map_eq_some_iff] at hstep
      obtain ⟨_, _, rfl⟩ := hstep
      exact huntracked
  | issue type name root measured shared =>
      rw [Application.step, hcall] at hstep
      dsimp only at hstep
      rw [issue, Option.bind_eq_some_iff] at hstep
      obtain ⟨⟨h₁, timer⟩, _, hstep⟩ := hstep
      rw [Option.map_eq_some_iff] at hstep
      obtain ⟨⟨h₂, req⟩, hstart, rfl⟩ := hstep
      cases hstart
      intro p hp
      rcases List.mem_append.mp hp with hold | hnew
      · exact huntracked p hold
      · rw [List.mem_singleton.mp hnew]
  | finish o =>
      rw [Application.step, hcall] at hstep
      dsimp only at hstep
      split at hstep
      · next p hp =>
          split at hstep
          · cases hstep
          · rw [finish, Option.bind_eq_some_iff] at hstep
            obtain ⟨⟨h₁, events⟩, _, hstep⟩ := hstep
            rw [Option.map_eq_some_iff] at hstep
            obtain ⟨h₂, _, rfl⟩ := hstep
            intro r hr
            rcases List.mem_or_eq_of_mem_set hr with hold | rfl
            · exact huntracked r hold
            · exact huntracked p (List.mem_of_getElem? hp)
      · cases hstep

theorem Untracked.sparesOutstanding {a : Application}
    (huntracked : a.Untracked) (turn : OperationTurn) :
    a.SparesOutstanding turn := by
  rw [SparesOutstanding]
  split
  · intro p hp q hq
    have hnone := huntracked p (List.mem_of_getElem? hp)
    cases hnone.symm.trans hq
  · trivial

/-- Without tracking the application performs every turn that the stopwatch
does. -/
theorem Untracked.enabled {a : Application} (huntracked : a.Untracked)
    (howned : a.Owned) {turn : OperationTurn} {w : Stopwatch}
    (hstep : a.stopwatch.step turn = some w) :
    ∃ a', a.step false turn = some a' := by
  cases hcall : turn.call with
  | createDomain =>
      simp only [Application.step, hcall, step_createDomain, Option.map_some]
      exact ⟨_, rfl⟩
  | issue type name root measured shared =>
      cases measured with
      | false =>
          simp only [Application.step, hcall]
          exact ⟨_, rfl⟩
      | true =>
          simp only [Application.step, hcall, issue, metricsStart,
            step_startTimer, if_true, Option.map_some, Option.bind_some]
          exact ⟨_, rfl⟩
  | finish o =>
      rw [Stopwatch.step, hcall] at hstep
      simp only [stopwatch, List.getElem?_map] at hstep
      cases hp : a.operations[o]? with
      | none => simp [hp] at hstep
      | some p =>
          have hopen : p.finished = false := by
            by_contra hfinished
            have hmeter : p.meter.finished = true :=
              Bool.eq_true_of_not_eq_false hfinished
            simp [hp, hmeter] at hstep
          refine howned.finish_enabled hcall hp hopen false fun q hq => ?_
          have hnone := huntracked p (List.mem_of_getElem? hp)
          cases hnone.symm.trans hq

theorem stopwatch_simulates :
    stopwatchMachine.Simulates (applicationMachine false) (fun _ _ => True)
      fun w a => a.Untracked ∧ a.Timekeeper w where
  step := by
    rintro w a turn w' ⟨huntracked, howned, hrunning, rfl⟩ _ hstep
    obtain ⟨a', hstep'⟩ := huntracked.enabled howned hstep
    have hcase := step_case howned hstep'
    have hspares := huntracked.sparesOutstanding turn
    have hsame := hcase.refines howned hrunning
    exact ⟨a', hstep', huntracked.step hstep', hcase.owned howned,
      hcase.running howned hrunning hspares,
      Option.some.inj (hsame.symm.trans hstep)⟩

theorem initial_timekeeper : initial.Timekeeper stopwatchMachine.init :=
  ⟨initial_owned, initial_running, rfl⟩

end Application

/-- Over the runs whose callbacks come at home, the turns that stop no
request above one that shares the timer of another outstanding operation are
those after which every possible end reports its own start and duration.  In a
run of such turns all events are those of the run with tracking off. -/
theorem tracking_keeps_metrics {turns : List OperationTurn} {a : Application}
    (hhome : (applicationMachine true).Guarded Application.HomeTurn
      Application.initial turns)
    (hrun : (applicationMachine true).run Application.initial turns =
      some a) :
    ((applicationMachine true).Guarded Application.SparesOutstanding
        Application.initial turns ↔
      (applicationMachine true).Each
        (fun _ _ a' => a'.ReportsOwn true) Application.initial turns) ∧
    ((applicationMachine true).Guarded Application.SparesOutstanding
        Application.initial turns →
      ∃ b w, (applicationMachine false).run Application.initial turns =
          some b ∧
        stopwatchMachine.run stopwatchMachine.init turns = some w ∧
        a.metrics = w.metrics ∧ b.metrics = w.metrics) := by
  constructor
  · apply (Application.sound true).guarded_iff_each _
      (Application.sound true).init hhome hrun
    intro a turn a' hsound hturn hstep
    constructor
    · intro hspares next a'' _ hnext
      have hsound' := (Application.sound true).step hsound ⟨hturn, hspares⟩
        hstep
      exact (Application.step_case hsound'.owned hnext).refines
        hsound'.owned hsound'.running
    · exact hsound.sparesOutstanding hturn hstep
  · intro hspares
    obtain ⟨w, hw, _, _, hshows⟩ :=
      (Application.simulates_stopwatch true).run
        Application.initial_timekeeper hspares hrun
    obtain ⟨b, hb, _, _, _, hshows'⟩ :=
      Application.stopwatch_simulates.run
        ⟨Application.initial_untracked, Application.initial_timekeeper⟩
        (guarded_true _ _) hw
    exact ⟨b, w, hb, hw, congrArg Stopwatch.metrics hshows,
      congrArg Stopwatch.metrics hshows'⟩

namespace MetricsIndependenceWitness

/-- Two queries of one request overlap; the first to be issued is the first
to be answered. -/
def overlappingQueries : List OperationTurn :=
  [⟨[], ⟨0, 0⟩, ⟨0, 0⟩, .issue (some "http") "GET /" true true true⟩,
    ⟨[0], ⟨1000, 1⟩, ⟨1000, 1⟩, .issue (some "redis") "get" false true true⟩,
    ⟨[0], ⟨2000, 1⟩, ⟨2000, 1⟩, .issue (some "redis") "set" false true true⟩,
    ⟨[0], ⟨3000, 1⟩, ⟨3000, 1⟩, .finish 1⟩,
    ⟨[0], ⟨9000, 2⟩, ⟨9000, 2⟩, .finish 2⟩]

/-- The second query took 7 microseconds and is reported with 1, unless
tracking is off. -/
theorem overlappingQueries_durations :
    ((applicationMachine true).run Application.initial
        overlappingQueries).map (·.metrics.map MetricsEvent.duration) =
      some [2 / 1000, 1 / 1000] ∧
    ((applicationMachine false).run Application.initial
        overlappingQueries).map (·.metrics.map MetricsEvent.duration) =
      some [2 / 1000, 7 / 1000] := by
  decide +kernel

/-- The second query is one of loopback, whose request has a timer of its
own, and a third one is answered before the first. -/
def unsharedQuery : List OperationTurn :=
  [⟨[], ⟨0, 0⟩, ⟨0, 0⟩, .issue (some "http") "GET /" true true true⟩,
    ⟨[0], ⟨1000, 1⟩, ⟨1000, 1⟩, .issue (some "redis") "get" false true true⟩,
    ⟨[0], ⟨2000, 1⟩, ⟨2000, 1⟩,
      .issue (some "loopback-datasource-juggler") "query" false true false⟩,
    ⟨[0], ⟨2200, 1⟩, ⟨2200, 1⟩, .issue (some "redis") "set" false true true⟩,
    ⟨[0], ⟨2500, 1⟩, ⟨2500, 1⟩, .finish 3⟩,
    ⟨[0], ⟨3000, 1⟩, ⟨3000, 1⟩, .finish 1⟩,
    ⟨[0], ⟨9000, 2⟩, ⟨9000, 2⟩, .finish 2⟩,
    ⟨[0], ⟨9500, 2⟩, ⟨9500, 2⟩, .finish 0⟩]

theorem unsharedQuery_home :
    (applicationMachine true).Guarded Application.HomeTurn
      Application.initial unsharedQuery := by
  decide +kernel

theorem unsharedQuery_run :
    ((applicationMachine true).run Application.initial
      unsharedQuery).isSome := by
  decide +kernel

theorem tracking_keeps_metrics_unsharedQuery :
    ((applicationMachine true).Guarded Application.SparesOutstanding
        Application.initial unsharedQuery ↔
      (applicationMachine true).Each
        (fun _ _ a' => a'.ReportsOwn true) Application.initial
          unsharedQuery) ∧
    ∃ a b, (applicationMachine true).run Application.initial unsharedQuery =
        some a ∧
      (applicationMachine false).run Application.initial unsharedQuery =
        some b ∧ a.metrics = b.metrics := by
  obtain ⟨a, hrun⟩ := Option.isSome_iff_exists.mp unsharedQuery_run
  obtain ⟨hiff, hsame⟩ := tracking_keeps_metrics unsharedQuery_home hrun
  obtain ⟨b, w, hb, _, ha, hbw⟩ := hsame (by decide +kernel)
  exact ⟨hiff, a, b, hrun, hb, ha.trans hbw.symm⟩

end MetricsIndependenceWitness

end Appmetrics
