/-
The heap of requests is a forest: parents are older than their children, a
child is listed by its parent and by nobody else, and `top` is the root of
the tree.  Starting a request adds one leaf; stopping one leaves the forest
as it is and only ever switches requests off.
-/
import Appmetrics.Request
import Appmetrics.Forest

namespace Appmetrics

/-- The part of a request that only its creation and its children write. -/
def Request.shape (q : Request) : Request :=
  { q with
    active := false, tracedStart := false, traceStopped := false,
    stack := false }

namespace Tracker

open Forest

/-- The parent pointers, as a function on references. -/
def parentOf (s : Tracker) (x : Nat) : Option Nat := (s.requests x).parent

/-- The heap invariant of every run. -/
structure WellFormed (s : Tracker) : Prop where
  blank : ∀ {x}, s.requestCount ≤ x → (s.requests x).shape = blankRequest
  active_lt : ∀ {x}, (s.requests x).active = true → x < s.requestCount
  parent_lt : ∀ {x p}, s.parentOf x = some p → p < x
  mem_children : ∀ {x p}, x ∈ (s.requests p).children ↔ s.parentOf x = some p
  children_nodup : ∀ p, (s.requests p).children.Nodup
  top_root : ∀ {x}, x < s.requestCount → s.parentOf x = none →
    (s.requests x).top = x
  top_child : ∀ {x p}, s.parentOf x = some p →
    (s.requests x).top = (s.requests p).top
  timer_lt : ∀ {x t}, (s.requests x).timer = some t → t < s.timerCount
  active_timer : ∀ {x}, (s.requests x).active = true →
    (s.requests x).timer ≠ none
  current_lt : ∀ {d c}, s.currentRequest d = some c → c < s.requestCount

theorem initial_wellFormed : initial.WellFormed := by
  constructor <;> simp [initial, parentOf, blankRequest, Request.shape]

theorem WellFormed.lt_of_parent {s : Tracker} (hwf : s.WellFormed) {x p : Nat}
    (hparent : s.parentOf x = some p) : x < s.requestCount := by
  by_contra hge
  have hnone := congrArg Request.parent (hwf.blank (Nat.le_of_not_lt hge))
  cases hparent.symm.trans hnone

theorem WellFormed.top_eq_of_ancestor {s : Tracker} (hwf : s.WellFormed)
    {x r : Nat} (h : Ancestor s.parentOf x r) :
    (s.requests x).top = (s.requests r).top := by
  induction h with
  | refl => rfl
  | tail _ hparent ih => exact ih.trans (hwf.top_child hparent)

/-- The parentless request that `top` names is an ancestor. -/
theorem WellFormed.ancestor_top {s : Tracker} (hwf : s.WellFormed) {x : Nat}
    (hx : x < s.requestCount) : Ancestor s.parentOf x (s.requests x).top := by
  induction x using Nat.strong_induction_on with
  | h x ih =>
      cases hparent : s.parentOf x with
      | none =>
          rw [hwf.top_root hx hparent]
          exact Ancestor.refl x
      | some p =>
          have hlt := hwf.parent_lt hparent
          have hp := ih p hlt (Nat.lt_trans hlt hx)
          rw [hwf.top_child hparent]
          exact (Ancestor.of_parent hparent).trans hp

/-! ## Starting a request -/

/-- `process.domain` during a call of `startRequest`: a root request opens a
new one. -/
def callDomain (s : Tracker) (root : Bool) : Option Nat :=
  if root then some s.domainCount else s.processDomain

/-- The request that a call of `startRequest` attaches the new one to. -/
def callParent (s : Tracker) (root : Bool) : Option Nat :=
  if root then none else s.processDomain.bind s.currentRequest

@[simp] theorem callDomain_true (s : Tracker) :
    s.callDomain true = some s.domainCount := rfl

@[simp] theorem callDomain_false (s : Tracker) :
    s.callDomain false = s.processDomain := rfl

@[simp] theorem callParent_false (s : Tracker) :
    s.callParent false = s.processDomain.bind s.currentRequest := rfl

theorem WellFormed.callParent_lt {s : Tracker} (hwf : s.WellFormed)
    {root : Bool} {p : Nat} (hparent : s.callParent root = some p) :
    p < s.requestCount := by
  cases root with
  | true => cases hparent
  | false =>
      rw [callParent_false, Option.bind_eq_some_iff] at hparent
      obtain ⟨d, _, hcurrent⟩ := hparent
      exact hwf.current_lt hcurrent

/-- The request that `startRequest` returns, as it leaves the call. -/
def startedRequest (s : Tracker) (type : Option String) (name : String)
    (root : Bool) (eventTimer : Option Nat) : Request :=
  { blankRequest with
    name := name
    type := type
    parent := s.callParent root
    id := if s.callParent root = none ∧ isTyped type then s.nextRequestId
      else s.nextEventId
    top := match s.callParent root with
      | some p => (s.requests p).top
      | none => s.requestCount
    active := true
    timer := some (eventTimer.getD s.timerCount) }

theorem create_of_parent {s : Tracker} {root : Bool} {p : Nat}
    (hparent : s.callParent root = some p) (type : Option String)
    (name : String) :
    s.create type name root =
      let fresh : Request :=
        { blankRequest with
          name := name, type := type, parent := some p, id := s.nextEventId,
          top := (s.requests p).top }
      let s' := (s.modify s.requestCount fun _ => fresh).modify p fun q =>
        { q with children := q.children ++ [s.requestCount] }
      { s' with
        requestCount := s.requestCount + 1
        nextEventId := s.nextEventId + 1 } := by
  cases root with
  | true => cases hparent
  | false =>
      rw [callParent_false] at hparent
      simp [create, hparent, modify]

theorem create_of_no_parent {s : Tracker} {root : Bool}
    (hparent : s.callParent root = none) (type : Option String)
    (name : String) :
    s.create type name root =
      let id := if isTyped type then s.nextRequestId else s.nextEventId
      let fresh : Request :=
        { blankRequest with
          name := name, type := type, id := id, top := s.requestCount }
      let s' :=
        if root then s.createDomain.enterDomain s.domainCount else s
      { s' with
        requests := Function.update s.requests s.requestCount fresh
        requestCount := s.requestCount + 1
        nextEventId := s.nextEventId + 1
        nextRequestId :=
          if isTyped type then s.nextRequestId + 1 else s.nextRequestId } := by
  cases root with
  | true => simp [create, createDomain, enterDomain, processDomain, modify]
  | false =>
      rw [callParent_false] at hparent
      simp [create, hparent, modify]

theorem create_requests {s : Tracker} (hwf : s.WellFormed)
    (type : Option String) (name : String) (root : Bool) (x : Nat) :
    (s.create type name root).requests x =
      if x = s.requestCount then
        { s.startedRequest type name root none with
          active := false, timer := none }
      else if s.callParent root = some x then
        { s.requests x with
          children := (s.requests x).children ++ [s.requestCount] }
      else s.requests x := by
  cases hparent : s.callParent root with
  | none =>
      rw [create_of_no_parent hparent]
      simp [startedRequest, hparent, Function.update_apply, blankRequest]
  | some p =>
      have hne : p ≠ s.requestCount := Nat.ne_of_lt (hwf.callParent_lt hparent)
      rw [create_of_parent hparent]
      simp only [modify, Function.update_apply, hne, if_false,
        Option.some.injEq]
      by_cases hx : x = p
      · simp [hx, hne]
      · have hpx : p ≠ x := Ne.symm hx
        simp [startedRequest, hparent, blankRequest, hx, hpx]

section Create

variable (s : Tracker) (type : Option String) (name : String) (root : Bool)

@[simp] theorem create_requestCount :
    (s.create type name root).requestCount = s.requestCount + 1 := by
  cases hparent : s.callParent root with
  | none => simp [create_of_no_parent hparent]
  | some p => simp [create_of_parent hparent]

@[simp] theorem create_timers : (s.create type name root).timers = s.timers := by
  cases hparent : s.callParent root with
  | none =>
      cases root <;>
        simp [create_of_no_parent hparent, createDomain, enterDomain]
  | some p => simp [create_of_parent hparent, modify]

@[simp] theorem create_timerCount :
    (s.create type name root).timerCount = s.timerCount := by
  cases hparent : s.callParent root with
  | none =>
      cases root <;>
        simp [create_of_no_parent hparent, createDomain, enterDomain]
  | some p => simp [create_of_parent hparent, modify]

@[simp] theorem create_domainCount :
    (s.create type name root).domainCount =
      if root then s.domainCount + 1 else s.domainCount := by
  cases hparent : s.callParent root with
  | none =>
      cases root <;>
        simp [create_of_no_parent hparent, createDomain, enterDomain]
  | some p =>
      cases root with
      | true => cases hparent
      | false => simp [create_of_parent hparent, modify]

@[simp] theorem create_currentRequest :
    (s.create type name root).currentRequest =
      if root then Function.update s.currentRequest s.domainCount none
      else s.currentRequest := by
  cases hparent : s.callParent root with
  | none =>
      cases root <;>
        simp [create_of_no_parent hparent, createDomain, enterDomain]
  | some p =>
      cases root with
      | true => cases hparent
      | false => simp [create_of_parent hparent, modify]

@[simp] theorem create_processDomain :
    (s.create type name root).processDomain = s.callDomain root := by
  cases hparent : s.callParent root with
  | none =>
      cases root <;>
        simp [create_of_no_parent hparent, createDomain, enterDomain,
          processDomain]
  | some p =>
      cases root with
      | true => cases hparent
      | false => simp [create_of_parent hparent, modify, processDomain]

@[simp] theorem create_emitted :
    (s.create type name root).emitted = s.emitted := by
  cases hparent : s.callParent root with
  | none =>
      cases root <;>
        simp [create_of_no_parent hparent, createDomain, enterDomain]
  | some p => simp [create_of_parent hparent, modify]

end Create

@[simp] theorem modify_processDomain (s : Tracker) (r : Nat)
    (f : Request → Request) :
    (s.modify r f).processDomain = s.processDomain := rfl

section Start

variable (s : Tracker) (clock : Clock) (r : Nat)

theorem start_requests (x : Nat) :
    (s.start clock r).requests x =
      if x = r then
        { s.requests r with
          active := true
          timer := some ((s.requests r).timer.getD s.timerCount) }
      else s.requests x := by
  unfold start
  cases htimer : (s.requests r).timer <;> cases hdomain : s.domainStack <;>
    by_cases hx : x = r <;>
    simp [modify, startTimer, setCurrent, processDomain, htimer, hdomain, hx]

theorem start_currentRequest (d : Nat) :
    (s.start clock r).currentRequest d =
      if s.processDomain = some d then some r else s.currentRequest d := by
  unfold start
  cases htimer : (s.requests r).timer <;> cases hdomain : s.domainStack <;>
    simp [modify, startTimer, setCurrent, processDomain, htimer, hdomain,
      Function.update_apply, eq_comm]

theorem start_timers :
    (s.start clock r).timers =
      if (s.requests r).timer = none then
        Function.update s.timers s.timerCount (Timer.start clock)
      else s.timers := by
  unfold start
  cases htimer : (s.requests r).timer <;> cases hdomain : s.domainStack <;>
    simp [modify, startTimer, setCurrent, processDomain, htimer, hdomain]

theorem start_timerCount :
    (s.start clock r).timerCount =
      if (s.requests r).timer = none then s.timerCount + 1
      else s.timerCount := by
  unfold start
  cases htimer : (s.requests r).timer <;> cases hdomain : s.domainStack <;>
    simp [modify, startTimer, setCurrent, processDomain, htimer, hdomain]

/-- `start` touches the request, its timer and its domain only. -/
theorem start_frame :
    (s.start clock r).requestCount = s.requestCount ∧
      (s.start clock r).domainCount = s.domainCount ∧
      (s.start clock r).domainStack = s.domainStack ∧
      (s.start clock r).emitted = s.emitted := by
  unfold start
  cases htimer : (s.requests r).timer <;> cases hdomain : s.domainStack <;>
    simp [modify, startTimer, setCurrent, processDomain, htimer, hdomain]

end Start

section StartRequest

variable (s : Tracker) (clock : Clock) (type : Option String) (name : String)
  (root : Bool) (eventTimer : Option Nat)

/-- The whole effect of `startRequest` on the heap of requests. -/
theorem startRequest_requests (hwf : s.WellFormed) (x : Nat) :
    (s.startRequest clock type name root eventTimer).requests x =
      if x = s.requestCount then
        s.startedRequest type name root eventTimer
      else if s.callParent root = some x then
        { s.requests x with
          children := (s.requests x).children ++ [s.requestCount] }
      else s.requests x := by
  unfold startRequest
  cases eventTimer <;> by_cases hx : x = s.requestCount <;>
    simp [start_requests, modify, create_requests hwf, hx, startedRequest]

@[simp] theorem startRequest_currentRequest (d : Nat) :
    (s.startRequest clock type name root eventTimer).currentRequest d =
      if s.callDomain root = some d then some s.requestCount
      else s.currentRequest d := by
  have hcreate (d : Nat) : (if s.callDomain root = some d then
      some s.requestCount else (s.create type name root).currentRequest d) =
      if s.callDomain root = some d then some s.requestCount
      else s.currentRequest d := by
    cases root with
    | true =>
        rw [create_currentRequest, if_pos rfl, callDomain_true]
        by_cases hd : s.domainCount = d
        · simp [hd]
        · have hne : d ≠ s.domainCount := Ne.symm hd
          simp [hd, hne]
    | false => rw [create_currentRequest, if_neg Bool.false_ne_true]
  unfold startRequest
  cases eventTimer with
  | none => rw [start_currentRequest, create_processDomain, hcreate]
  | some t =>
      rw [start_currentRequest, modify_processDomain, create_processDomain]
      exact hcreate d

theorem startRequest_timers (hwf : s.WellFormed) :
    (s.startRequest clock type name root eventTimer).timers =
      if eventTimer = none then
        Function.update s.timers s.timerCount (Timer.start clock)
      else s.timers := by
  unfold startRequest
  cases eventTimer <;>
    simp [start_timers, create_requests hwf, modify]

theorem startRequest_timerCount (hwf : s.WellFormed) :
    (s.startRequest clock type name root eventTimer).timerCount =
      if eventTimer = none then s.timerCount + 1 else s.timerCount := by
  unfold startRequest
  cases eventTimer <;>
    simp [start_timerCount, create_requests hwf, modify]

@[simp] theorem startRequest_requestCount :
    (s.startRequest clock type name root eventTimer).requestCount =
      s.requestCount + 1 := by
  unfold startRequest
  cases eventTimer <;> simp [start_frame, modify]

@[simp] theorem startRequest_domainCount :
    (s.startRequest clock type name root eventTimer).domainCount =
      if root then s.domainCount + 1 else s.domainCount := by
  unfold startRequest
  cases eventTimer <;> simp [start_frame, modify]

@[simp] theorem startRequest_emitted :
    (s.startRequest clock type name root eventTimer).emitted = s.emitted := by
  unfold startRequest
  cases eventTimer <;> simp [start_frame, modify]

end StartRequest

section StartWellFormed

variable {s : Tracker} (hwf : s.WellFormed) (clock : Clock)
  (type : Option String) (name : String) (root : Bool)
  (eventTimer : Option Nat)

include hwf

theorem startRequest_parentOf (x : Nat) :
    (s.startRequest clock type name root eventTimer).parentOf x =
      if x = s.requestCount then s.callParent root else s.parentOf x := by
  rw [parentOf, startRequest_requests _ _ _ _ _ _ hwf]
  split
  · rfl
  · split <;> rfl

theorem startRequest_top (x : Nat) :
    ((s.startRequest clock type name root eventTimer).requests x).top =
      if x = s.requestCount then
        (match s.callParent root with
          | some p => (s.requests p).top
          | none => s.requestCount)
      else (s.requests x).top := by
  rw [startRequest_requests _ _ _ _ _ _ hwf]
  split
  · rfl
  · split <;> rfl

theorem startRequest_active (x : Nat) :
    ((s.startRequest clock type name root eventTimer).requests x).active =
      if x = s.requestCount then true else (s.requests x).active := by
  rw [startRequest_requests _ _ _ _ _ _ hwf]
  split
  · rfl
  · split <;> rfl

theorem startRequest_timer (x : Nat) :
    ((s.startRequest clock type name root eventTimer).requests x).timer =
      if x = s.requestCount then some (eventTimer.getD s.timerCount)
      else (s.requests x).timer := by
  rw [startRequest_requests _ _ _ _ _ _ hwf]
  split
  · rfl
  · split <;> rfl

theorem startRequest_children (x : Nat) :
    ((s.startRequest clock type name root eventTimer).requests x).children =
      if x = s.requestCount then []
      else if s.callParent root = some x then
        (s.requests x).children ++ [s.requestCount]
      else (s.requests x).children := by
  rw [startRequest_requests _ _ _ _ _ _ hwf]
  split
  · rfl
  · split <;> rfl

theorem parentOf_requestCount : s.parentOf s.requestCount = none :=
  congrArg Request.parent (hwf.blank (Nat.le_refl _))

/-- The new request is a leaf: walks up from older ones do not change. -/
theorem startRequest_ancestor {c x : Nat} (hc : c < s.requestCount) :
    Ancestor (s.startRequest clock type name root eventTimer).parentOf c x ↔
      Ancestor s.parentOf c x := by
  have hparentOf {y : Nat} (hy : y < s.requestCount) :
      (s.startRequest clock type name root eventTimer).parentOf y =
        s.parentOf y := by
    rw [startRequest_parentOf hwf, if_neg (Nat.ne_of_lt hy)]
  have hclosed : UpClosed s.parentOf (· < s.requestCount) :=
    fun hparent hy => Nat.lt_trans (hwf.parent_lt hparent) hy
  have hclosed' : UpClosed
      (s.startRequest clock type name root eventTimer).parentOf
      (· < s.requestCount) :=
    fun hparent hy => hclosed (hparentOf hy ▸ hparent) hy
  constructor
  · exact Ancestor.congr hclosed' (fun y hy => (hparentOf hy).symm) hc
  · exact Ancestor.congr hclosed (fun y hy => hparentOf hy) hc

theorem startRequest_ancestor_new {x : Nat} :
    Ancestor (s.startRequest clock type name root eventTimer).parentOf
        s.requestCount x ↔
      x = s.requestCount ∨
        ∃ p, s.callParent root = some p ∧ Ancestor s.parentOf p x := by
  rw [ancestor_iff, startRequest_parentOf hwf, if_pos rfl]
  constructor
  · rintro (rfl | ⟨p, hparent, hanc⟩)
    · exact Or.inl rfl
    · exact Or.inr ⟨p, hparent, (startRequest_ancestor hwf clock type name
        root eventTimer (hwf.callParent_lt hparent)).mp hanc⟩
  · rintro (rfl | ⟨p, hparent, hanc⟩)
    · exact Or.inl rfl
    · exact Or.inr ⟨p, hparent, (startRequest_ancestor hwf clock type name
        root eventTimer (hwf.callParent_lt hparent)).mpr hanc⟩

/-- The reference of the next request is still unused. -/
theorem requestCount_not_mem_children (p : Nat) :
    s.requestCount ∉ (s.requests p).children := by
  intro hmem
  rw [hwf.mem_children, parentOf_requestCount hwf] at hmem
  cases hmem

theorem requestCount_ne_parent {x : Nat} :
    s.parentOf x ≠ some s.requestCount := by
  intro hparent
  have hlt := hwf.parent_lt hparent
  have hx := hwf.lt_of_parent hparent
  omega

theorem callParent_ne_requestCount :
    s.callParent root ≠ some s.requestCount := fun hparent =>
  Nat.lt_irrefl _ (hwf.callParent_lt hparent)

theorem startRequest_mem_children {x p : Nat} :
    x ∈ ((s.startRequest clock type name root eventTimer).requests p).children ↔
      (s.startRequest clock type name root eventTimer).parentOf x = some p := by
  rw [startRequest_children hwf, startRequest_parentOf hwf]
  by_cases hp : p = s.requestCount
  · subst hp
    have hne := callParent_ne_requestCount hwf root
    have hne' := requestCount_ne_parent hwf (x := x)
    rw [if_pos rfl]
    split <;> simp [hne, hne']
  · by_cases hx : x = s.requestCount
    · subst hx
      have hnot := requestCount_not_mem_children hwf p
      by_cases hparent : s.callParent root = some p <;> simp [hp, hparent, hnot]
    · by_cases hparent : s.callParent root = some p <;>
        simp [hp, hx, hparent, hwf.mem_children]

theorem startRequest_children_nodup (p : Nat) :
    ((s.startRequest clock type name root eventTimer).requests
      p).children.Nodup := by
  rw [startRequest_children hwf]
  split
  · exact List.nodup_nil
  · split
    · have hnot := requestCount_not_mem_children hwf p
      rw [List.nodup_append']
      exact ⟨hwf.children_nodup p, List.nodup_singleton _, by simpa using hnot⟩
    · exact hwf.children_nodup p

theorem WellFormed.startRequest
    (htimer : ∀ t, eventTimer = some t → t < s.timerCount) :
    (s.startRequest clock type name root eventTimer).WellFormed := by
  constructor
  case blank =>
    intro x hx
    rw [startRequest_requestCount] at hx
    have hne : x ≠ s.requestCount := by omega
    have hparent : s.callParent root ≠ some x := fun heq => by
      have := hwf.callParent_lt heq
      omega
    rw [startRequest_requests _ _ _ _ _ _ hwf, if_neg hne, if_neg hparent]
    exact hwf.blank (by omega)
  case active_lt =>
    intro x hactive
    rw [startRequest_active hwf] at hactive
    rw [startRequest_requestCount]
    split at hactive
    · next hx => omega
    · exact Nat.lt_succ_of_lt (hwf.active_lt hactive)
  case parent_lt =>
    intro x p hparent
    rw [startRequest_parentOf hwf] at hparent
    split at hparent
    · next hx => exact hx ▸ hwf.callParent_lt hparent
    · exact hwf.parent_lt hparent
  case mem_children => exact startRequest_mem_children hwf ..
  case children_nodup => exact fun p => startRequest_children_nodup hwf ..
  case top_root =>
    intro x hx hroot
    rw [startRequest_requestCount] at hx
    rw [startRequest_parentOf hwf] at hroot
    rw [startRequest_top hwf]
    split
    · next heq =>
        rw [if_pos heq] at hroot
        rw [hroot, heq]
    · next hne =>
        rw [if_neg hne] at hroot
        exact hwf.top_root (by omega) hroot
  case top_child =>
    intro x p hparent
    rw [startRequest_parentOf hwf] at hparent
    rw [startRequest_top hwf, startRequest_top hwf]
    split at hparent
    · next heq =>
        have hne : p ≠ s.requestCount := fun h =>
          callParent_ne_requestCount hwf root (h ▸ hparent)
        rw [if_pos heq, if_neg hne, hparent]
    · next hne =>
        have hp : p ≠ s.requestCount := fun h =>
          requestCount_ne_parent hwf (h ▸ hparent)
        rw [if_neg hne, if_neg hp]
        exact hwf.top_child hparent
  case timer_lt =>
    intro x t ht
    rw [startRequest_timer hwf] at ht
    rw [startRequest_timerCount _ _ _ _ _ _ hwf]
    split at ht
    · cases eventTimer with
      | none => simp at ht ⊢; omega
      | some t' =>
          have := htimer t' rfl
          simp at ht ⊢
          omega
    · have := hwf.timer_lt ht
      split <;> omega
  case active_timer =>
    intro x hactive
    rw [startRequest_active hwf] at hactive
    rw [startRequest_timer hwf]
    split
    · exact Option.some_ne_none _
    · next hx =>
        rw [if_neg hx] at hactive
        exact hwf.active_timer hactive
  case current_lt =>
    intro d c hcurrent
    rw [startRequest_currentRequest] at hcurrent
    rw [startRequest_requestCount]
    split at hcurrent
    · cases hcurrent
      exact Nat.lt_succ_self _
    · exact Nat.lt_succ_of_lt (hwf.current_lt hcurrent)

end StartWellFormed

end Tracker

end Appmetrics
