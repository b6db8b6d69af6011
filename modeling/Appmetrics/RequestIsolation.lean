/-
Isolation of concurrent root requests.  `stop` writes the parent of the
stopped request into whatever domain is current, so one root's stop can
redirect the requests of another root's domain.  The stops that do not are
characterised exactly, turn by turn, over all runs.
-/
import Appmetrics.RequestRuns

namespace Appmetrics

open Forest StepMachine

/-- The request a call stops. -/
def RequestCall.stopped? : RequestCall → Option Nat
  | stop r => some r
  | _ => none

theorem RequestCall.eq_stop {call : RequestCall} {r : Nat}
    (hstop : call.stopped? = some r) : call = .stop r := by
  cases call with
  | stop q => exact congrArg RequestCall.stop (Option.some.inj hstop)
  | _ => cases hstop

namespace History

/-- A request started in the domain of an active root request belongs to the
tree of that root. -/
def PlacesAtRoot (h : History) (turn : Turn) (h' : History) : Prop :=
  turn.call.root? = some false → ∀ D ∈ turn.processDomain,
    ∀ R ∈ h.creator D, (h.tracker.requests R).active = true →
      (h'.tracker.requests h.tracker.requestCount).top = R

instance (h : History) (turn : Turn) (h' : History) :
    Decidable (h.PlacesAtRoot turn h') := by
  unfold PlacesAtRoot
  infer_instance

/-- The turn starts or stops the request `r`. -/
def OperatesOn (h : History) (turn : Turn) (r : Nat) : Prop :=
  turn.call = .stop r ∨
    turn.call.root? ≠ none ∧ r = h.tracker.requestCount

/-- An operation on a request of one root leaves `currentRequest` of every
other root's domain alone. -/
def KeepsOthers (h : History) (turn : Turn) (h' : History) : Prop :=
  ∀ {r D₁ D₂ R}, h.OperatesOn turn r →
    h'.creator D₁ = some (h'.tracker.requests r).top →
    h'.creator D₂ = some R → D₂ ≠ D₁ →
      h'.tracker.currentRequest D₂ = h.tracker.currentRequest D₂

/-- The turn keeps the roots apart, and so does every start that can come
next. -/
def Isolates (h : History) (turn : Turn) (h' : History) : Prop :=
  h.KeepsOthers turn h' ∧
    ∀ next h'', h'.step next = some h'' → h'.PlacesAtRoot next h''

/-- A stop of an active request that runs in the domain of a root request
`R` is a stop in the tree of `R`; or `R` has ended, and the stop concerns no
root with a domain of its own or finds its parent already current. -/
def StopsOwn (h : History) (turn : Turn) : Prop :=
  ∀ r ∈ turn.call.stopped?, ∀ D ∈ turn.processDomain, ∀ R ∈ h.creator D,
    (h.tracker.requests r).active = true →
      (h.tracker.requests r).top = R ∨
        (h.tracker.requests R).active = false ∧
          ((∀ D' < h.tracker.domainCount,
              h.creator D' ≠ some (h.tracker.requests r).top) ∨
            h.tracker.parentOf r = h.tracker.currentRequest D)

instance (h : History) (turn : Turn) : Decidable (h.StopsOwn turn) := by
  unfold StopsOwn
  infer_instance

/-- Every domain of a root request points into that root's tree, or at
requests that belong to no such root once its own has ended. -/
structure Rooted (h : History) : Prop where
  wellFormed : h.tracker.WellFormed
  creator_lt : ∀ {D R}, h.creator D = some R →
    D < h.tracker.domainCount ∧ R < h.tracker.requestCount ∧
      h.tracker.parentOf R = none
  creator_inj : ∀ {D D' R}, h.creator D = some R → h.creator D' = some R →
    D = D'
  current_top : ∀ {D R c}, h.creator D = some R →
    h.tracker.currentRequest D = some c →
      (h.tracker.requests c).top = R ∨
        ∀ D', h.creator D' ≠ some (h.tracker.requests c).top
  placed : ∀ {D R}, h.creator D = some R → h.tracker.IsActive R →
    ∃ c, h.tracker.currentRequest D = some c ∧
      (h.tracker.requests c).top = R

theorem initial_rooted : initial.Rooted where
  wellFormed := Tracker.initial_wellFormed
  creator_lt h := nomatch h
  creator_inj h := nomatch h
  current_top h := nomatch h
  placed h := nomatch h

theorem Rooted.top_lt {h : History} (hrooted : h.Rooted) {x : Nat}
    (hx : x < h.tracker.requestCount) :
    (h.tracker.requests x).top < h.tracker.requestCount :=
  Nat.lt_of_le_of_lt (Ancestor.le hrooted.wellFormed.parent_lt
    (hrooted.wellFormed.ancestor_top hx)) hx

theorem Rooted.creator_top {h : History} (hrooted : h.Rooted) {D R : Nat}
    (hcreator : h.creator D = some R) : (h.tracker.requests R).top = R := by
  obtain ⟨_, hlt, hparent⟩ := hrooted.creator_lt hcreator
  exact hrooted.wellFormed.top_root hlt hparent

section StartTop

variable {h : History} (hwf : h.tracker.WellFormed) (stack : List Nat)
  (clock : Clock) (type : Option String) (name : String)
  (eventTimer : Option Nat)

include hwf

/-- The tree a new request joins: the one that the domain points into. -/
theorem start_top {x p : Nat} (root : Bool) (hx : x = h.tracker.requestCount)
    (hparent : (h.tracker.resume stack).callParent root = some p) :
    (((h.tracker.resume stack).startRequest clock type name root
      eventTimer).requests x).top = (h.tracker.requests p).top := by
  have hresume := Tracker.resume_wellFormed hwf stack
  have hx' : x = (h.tracker.resume stack).requestCount := hx
  rw [Tracker.startRequest_top hresume, if_pos hx', hparent]
  rfl

theorem start_top_of_no_parent {x : Nat} (root : Bool)
    (hx : x = h.tracker.requestCount)
    (hparent : (h.tracker.resume stack).callParent root = none) :
    (((h.tracker.resume stack).startRequest clock type name root
      eventTimer).requests x).top = x := by
  have hresume := Tracker.resume_wellFormed hwf stack
  have hx' : x = (h.tracker.resume stack).requestCount := hx
  rw [Tracker.startRequest_top hresume, if_pos hx', hparent]
  exact hx.symm

theorem start_top_old {x : Nat} (root : Bool)
    (hx : x < h.tracker.requestCount) :
    (((h.tracker.resume stack).startRequest clock type name root
      eventTimer).requests x).top = (h.tracker.requests x).top := by
  have hresume := Tracker.resume_wellFormed hwf stack
  have hx' : x ≠ (h.tracker.resume stack).requestCount := Nat.ne_of_lt hx
  rw [Tracker.startRequest_top hresume, if_neg hx']
  rfl

end StartTop

section Start

variable {h : History} (hrooted : h.Rooted) (stack : List Nat)
  (clock : Clock) (type : Option String) (name : String)
  (eventTimer : Option Nat)

include hrooted

theorem Rooted.startRoot (htimer : ∀ t, eventTimer = some t →
    t < h.tracker.timerCount) (home : Nat → Option Nat) (hrtime : Nat) :
    Rooted
      { tracker := (h.tracker.resume stack).startRequest clock type name true
          eventTimer
        home := home
        creator := Function.update h.creator h.tracker.domainCount
          (some h.tracker.requestCount)
        hrtime := hrtime } := by
  have hwf := Tracker.resume_wellFormed hrooted.wellFormed stack
  have hold {D R : Nat} (hcreator : h.creator D = some R) :
      D ≠ h.tracker.domainCount ∧ R ≠ h.tracker.requestCount := by
    obtain ⟨hD, hR, _⟩ := hrooted.creator_lt hcreator
    exact ⟨Nat.ne_of_lt hD, Nat.ne_of_lt hR⟩
  have hnew := start_top_of_no_parent hrooted.wellFormed stack clock type name
    eventTimer (x := h.tracker.requestCount) true rfl rfl
  have hcurrent (D : Nat) :
      ((h.tracker.resume stack).startRequest clock type name true
        eventTimer).currentRequest D =
      if D = h.tracker.domainCount then some h.tracker.requestCount
      else h.tracker.currentRequest D := by
    rw [Tracker.startRequest_currentRequest, Tracker.callDomain_true]
    simp [Tracker.resume, eq_comm]
  constructor
  case wellFormed => exact hwf.startRequest _ _ _ _ _ htimer
  case creator_lt =>
    intro D R hcreator
    simp only [Function.update_apply] at hcreator
    simp only [Tracker.startRequest_requestCount,
      Tracker.startRequest_domainCount, if_true,
      Tracker.startRequest_parentOf hwf]
    split at hcreator
    · next hD =>
        cases hcreator
        exact ⟨hD ▸ Nat.lt_succ_self _, Nat.lt_succ_self _, if_pos rfl⟩
    · obtain ⟨hD, hR, hparent⟩ := hrooted.creator_lt hcreator
      refine ⟨Nat.lt_succ_of_lt hD, Nat.lt_succ_of_lt hR, ?_⟩
      have hne : R ≠ (h.tracker.resume stack).requestCount := Nat.ne_of_lt hR
      rw [if_neg hne]
      exact hparent
  case creator_inj =>
    intro D D' R hD hD'
    simp only [Function.update_apply] at hD hD'
    split at hD
    · next heq =>
        cases hD
        split at hD'
        · next heq' => exact heq.trans heq'.symm
        · exact absurd rfl (hold hD').2
    · split at hD'
      · cases hD'
        exact absurd rfl (hold hD).2
      · exact hrooted.creator_inj hD hD'
  case current_top =>
    intro D R c hcreator hc
    simp only [Function.update_apply] at hcreator
    rw [hcurrent] at hc
    split at hcreator
    · next hD =>
        rw [if_pos hD] at hc
        cases hc
        cases hcreator
        exact Or.inl hnew
    · next hD =>
        rw [if_neg hD] at hc
        have hlt := hrooted.wellFormed.current_lt hc
        rw [start_top_old hrooted.wellFormed stack clock type name eventTimer true hlt]
        refine (hrooted.current_top hcreator hc).imp id fun hno D' => ?_
        simp only [Function.update_apply]
        split
        · have htop := hrooted.top_lt hlt
          simp only [ne_eq, Option.some.injEq]
          exact Nat.ne_of_gt htop
        · exact hno D'
  case placed =>
    intro D R hcreator hactive
    simp only [Function.update_apply] at hcreator
    rw [hcurrent]
    split at hcreator
    · next hD =>
        cases hcreator
        exact ⟨_, if_pos hD, hnew⟩
    · next hD =>
        have hne : R ≠ (h.tracker.resume stack).requestCount :=
          (hold hcreator).2
        rw [Tracker.IsActive, Tracker.startRequest_active hwf,
          if_neg hne] at hactive
        obtain ⟨c, hc, htop⟩ := hrooted.placed hcreator hactive
        refine ⟨c, (if_neg hD).trans hc, ?_⟩
        rw [start_top_old hrooted.wellFormed stack clock type name eventTimer true
          (hrooted.wellFormed.current_lt hc)]
        exact htop

theorem Rooted.startInner (htimer : ∀ t, eventTimer = some t →
    t < h.tracker.timerCount) (home : Nat → Option Nat) (hrtime : Nat) :
    Rooted
      { tracker := (h.tracker.resume stack).startRequest clock type name
          false eventTimer
        home := home
        creator := h.creator
        hrtime := hrtime } := by
  have hwf := Tracker.resume_wellFormed hrooted.wellFormed stack
  have hcurrent (D : Nat) :
      ((h.tracker.resume stack).startRequest clock type name false
        eventTimer).currentRequest D =
      if (h.tracker.resume stack).processDomain = some D then
        some h.tracker.requestCount
      else h.tracker.currentRequest D :=
    Tracker.startRequest_currentRequest _ _ _ _ _ _ D
  have hparent {D : Nat}
      (hD : (h.tracker.resume stack).processDomain = some D) :
      (h.tracker.resume stack).callParent false =
        h.tracker.currentRequest D := by
    rw [Tracker.callParent_false, hD]
    rfl
  constructor
  case wellFormed => exact hwf.startRequest _ _ _ _ _ htimer
  case creator_lt =>
    intro D R hcreator
    obtain ⟨hD, hR, hroot⟩ := hrooted.creator_lt hcreator
    have hne : R ≠ (h.tracker.resume stack).requestCount := Nat.ne_of_lt hR
    rw [Tracker.startRequest_requestCount, Tracker.startRequest_domainCount,
      Tracker.startRequest_parentOf hwf, if_neg hne]
    exact ⟨hD, Nat.lt_succ_of_lt hR, hroot⟩
  case creator_inj => exact hrooted.creator_inj
  case current_top =>
    intro D R c hcreator hc
    rw [hcurrent] at hc
    split at hc
    · next hD =>
        cases hc
        cases hp : h.tracker.currentRequest D with
        | some p =>
            rw [start_top hrooted.wellFormed stack clock type name eventTimer false rfl
              ((hparent hD).trans hp)]
            exact hrooted.current_top hcreator hp
        | none =>
            rw [start_top_of_no_parent hrooted.wellFormed stack clock type name
              eventTimer false rfl ((hparent hD).trans hp)]
            refine Or.inr fun D' hD' => ?_
            exact Nat.lt_irrefl _ (hrooted.creator_lt hD').2.1
    · rw [start_top_old hrooted.wellFormed stack clock type name eventTimer false
        (hrooted.wellFormed.current_lt hc)]
      exact hrooted.current_top hcreator hc
  case placed =>
    intro D R hcreator hactive
    have hne : R ≠ (h.tracker.resume stack).requestCount :=
      Nat.ne_of_lt (hrooted.creator_lt hcreator).2.1
    rw [Tracker.IsActive, Tracker.startRequest_active hwf,
      if_neg hne] at hactive
    obtain ⟨c, hc, htop⟩ := hrooted.placed hcreator hactive
    rw [hcurrent]
    by_cases hD : (h.tracker.resume stack).processDomain = some D
    · refine ⟨_, if_pos hD, ?_⟩
      rw [start_top hrooted.wellFormed stack clock type name eventTimer false rfl
        ((hparent hD).trans hc)]
      exact htop
    · refine ⟨c, (if_neg hD).trans hc, ?_⟩
      rw [start_top_old hrooted.wellFormed stack clock type name eventTimer false
        (hrooted.wellFormed.current_lt hc)]
      exact htop

end Start

section Stop

variable {h : History} (hrooted : h.Rooted) {turn : Turn} {r : Nat}
  {s' : Tracker} (hcall : turn.call = .stop r)
  (heffect : Tracker.StopEffect turn.clock (h.tracker.resume turn.stack) r s')

include heffect

/-- A stop rewrites at most the current domain, and only when it has an
effect. -/
theorem stop_current {D : Nat}
    (hD : s'.currentRequest D ≠ h.tracker.currentRequest D) :
    h.tracker.IsActive r ∧ turn.processDomain = some D ∧
      s'.currentRequest D = h.tracker.parentOf r := by
  have hactive : h.tracker.IsActive r := by
    by_contra hidle
    rw [heffect.idle hidle] at hD
    exact hD rfl
  have hdomain : turn.processDomain = some D := by
    by_contra hne
    exact hD (heffect.other D hne)
  exact ⟨hactive, hdomain, heffect.current hactive D hdomain⟩

include hrooted

theorem Rooted.stop_isRoot_active {D R : Nat}
    (hcreator : h.creator D = some R) (hne : (h.tracker.requests r).top ≠ R)
    (hactive : h.tracker.IsActive R) : s'.IsActive R := by
  by_contra hidle
  obtain ⟨q, hq, hanc⟩ := heffect.stops.below hactive hidle
  rw [List.mem_singleton.mp hq] at hanc
  have htop := hrooted.wellFormed.top_eq_of_ancestor hanc
  exact hne (htop.symm.trans (hrooted.creator_top hcreator))

include hcall

theorem Rooted.stop (hown : h.StopsOwn turn) :
    Rooted ⟨s', h.home, h.creator, turn.clock.hrtime⟩ := by
  have hwf := hrooted.wellFormed
  have hframe := heffect.stops.frame
  have htop (x : Nat) :
      (s'.requests x).top = (h.tracker.requests x).top := hframe.top x
  have hcond {D R : Nat} (hcreator : h.creator D = some R)
      (hactive : h.tracker.IsActive r) (hD : turn.processDomain = some D) :=
    hown r (by rw [hcall]; rfl) D hD R hcreator hactive
  constructor
  case wellFormed =>
    exact heffect.stops.wellFormed
      (Tracker.resume_wellFormed hwf turn.stack)
  case creator_lt =>
    intro D R hcreator
    rw [hframe.domainCount, hframe.requestCount, hframe.parentOf]
    exact hrooted.creator_lt hcreator
  case creator_inj => exact hrooted.creator_inj
  case current_top =>
    intro D R c hcreator hc
    rw [htop]
    by_cases hsame : s'.currentRequest D = h.tracker.currentRequest D
    · exact hrooted.current_top hcreator (hsame.symm.trans hc)
    · obtain ⟨hactive, hD, hparent⟩ := stop_current heffect hsame
      rw [hparent] at hc
      rw [← hwf.top_child hc]
      refine (hcond hcreator hactive hD).imp id fun hended D' hD' => ?_
      rcases hended.2 with hno | hno
      · exact hno D' (hrooted.creator_lt hD').1 hD'
      · exact hsame (hparent.trans hno)
  case placed =>
    intro D R hcreator hactive'
    have hactive := heffect.stops.active_mono hactive'
    by_cases hsame : s'.currentRequest D = h.tracker.currentRequest D
    · obtain ⟨c, hc, hctop⟩ := hrooted.placed hcreator hactive
      exact ⟨c, hsame.trans hc, (htop c).trans hctop⟩
    · obtain ⟨hr, hD, hparent⟩ := stop_current heffect hsame
      rcases hcond hcreator hr hD with hrtop | ⟨hended, _⟩
      · rw [hparent]
        cases hp : h.tracker.parentOf r with
        | some p =>
            refine ⟨p, rfl, ?_⟩
            rw [htop, ← hwf.top_child hp]
            exact hrtop
        | none =>
            -- without a parent `r` is its own root, which is then inactive
            have hself := hwf.top_root (hwf.active_lt hr) hp
            have heq : R = r := hrtop.symm.trans hself
            rw [heq] at hactive'
            exact absurd hactive'
              (heffect.stops.inactive r (List.mem_singleton_self r))
      · have hfalse : (h.tracker.requests R).active = true := hactive
        rw [hended] at hfalse
        cases hfalse

end Stop

theorem Rooted.other {h : History} (hrooted : h.Rooted) {clock : Clock}
    {stack : List Nat} {s' : Tracker}
    (hother : Tracker.OtherEffect clock (h.tracker.resume stack) s')
    (home : Nat → Option Nat) (hrtime : Nat) :
    Rooted ⟨s', home, h.creator, hrtime⟩ := by
  have hcurrent {D R : Nat} (hcreator : h.creator D = some R) :
      s'.currentRequest D = h.tracker.currentRequest D := by
    rcases hother.current D with heq | ⟨hD, _⟩
    · exact heq
    · exact absurd hD (Nat.ne_of_lt (hrooted.creator_lt hcreator).1)
  constructor
  case wellFormed =>
    exact hother.wellFormed
      (Tracker.resume_wellFormed hrooted.wellFormed stack)
  case creator_lt =>
    intro D R hcreator
    obtain ⟨hD, hR, hparent⟩ := hrooted.creator_lt hcreator
    rw [hother.requestCount, hother.parentOf]
    exact ⟨Nat.lt_of_lt_of_le hD hother.domainCount, hR, hparent⟩
  case creator_inj => exact hrooted.creator_inj
  case current_top =>
    intro D R c hcreator hc
    rw [hother.requests]
    rw [hcurrent hcreator] at hc
    exact hrooted.current_top hcreator hc
  case placed =>
    intro D R hcreator hactive
    rw [Tracker.IsActive, hother.requests] at hactive
    rw [hother.requests, hcurrent hcreator]
    exact hrooted.placed hcreator hactive

theorem StepCase.rooted {h h' : History} {turn : Turn}
    (hcase : StepCase h turn h') (hown : h.StopsOwn turn)
    (hrooted : h.Rooted) : h'.Rooted := by
  cases hcase with
  | start type name root eventTimer hroot htimer =>
      cases root with
      | true =>
          exact hrooted.startRoot turn.stack turn.clock type name eventTimer
            htimer _ _
      | false =>
          exact hrooted.startInner turn.stack turn.clock type name eventTimer
            htimer _ _
  | stop r hcall hr =>
      have heffect := Tracker.stop_effect
        (Tracker.resume_wellFormed hrooted.wellFormed turn.stack)
        turn.clock r
      exact hrooted.stop hcall heffect hown
  | other s' hroot hcall hother => exact hrooted.other hother _ _

theorem rooted : requestMachine.Inductive StopsOwn Rooted where
  init := initial_rooted
  step hrooted hown hstep := (step_case hstep).rooted hown hrooted

/-- Where the domains point into their own trees, a start lands in the tree
of its domain's active root. -/
theorem Rooted.placesAtRoot {h h' : History} {turn : Turn}
    (hrooted : h.Rooted) (hstep : h.step turn = some h') :
    h.PlacesAtRoot turn h' := by
  intro hroot D hD R hcreator hactive
  obtain ⟨c, hc, htop⟩ := hrooted.placed hcreator hactive
  cases step_case hstep with
  | start type name root eventTimer hroot' htimer =>
      cases Option.some.inj (hroot.symm.trans hroot')
      have hparent : (h.tracker.resume turn.stack).callParent false =
          some c := by
        rw [Tracker.callParent_false]
        exact Option.bind_eq_some_iff.mpr ⟨D, hD, hc⟩
      rw [start_top hrooted.wellFormed turn.stack turn.clock type name eventTimer false
        rfl hparent]
      exact htop
  | stop r hcall hr =>
      rw [hcall] at hroot
      cases hroot
  | other s' hroot' hcall hother => cases hroot.symm.trans hroot'

/-- A start enters the tree of the domain it runs in, or none at all. -/
theorem Rooted.start_keepsOthers {h h' : History} (hrooted' : h'.Rooted) {D : Nat}
    (hchanged : h'.tracker.currentRequest D = some h.tracker.requestCount)
    {D₁ R : Nat} (hcreator : h'.creator D = some R)
    (htop : h'.creator D₁ =
      some (h'.tracker.requests h.tracker.requestCount).top) : D = D₁ := by
  rcases hrooted'.current_top hcreator hchanged with heq | hno
  · exact hrooted'.creator_inj hcreator (heq ▸ htop)
  · exact absurd htop (hno D₁)

theorem Rooted.keepsOthers {h h' : History} {turn : Turn}
    (hrooted : h.Rooted) (hown : h.StopsOwn turn)
    (hstep : h.step turn = some h') : h.KeepsOthers turn h' := by
  have hrooted' := rooted.step hrooted hown hstep
  intro q D₁ D₂ R hoperates htop hcreator hne
  cases step_case hstep with
  | start type name root eventTimer hroot htimer =>
      have hq : q = h.tracker.requestCount := by
        rcases hoperates with hstop | ⟨_, hq⟩
        · rw [hstop] at hroot
          cases hroot
        · exact hq
      subst hq
      by_cases hD : (h.tracker.resume turn.stack).callDomain root = some D₂
      · have hchanged := Tracker.startRequest_currentRequest
          (h.tracker.resume turn.stack) turn.clock type name root eventTimer
          D₂
        rw [if_pos hD] at hchanged
        exact absurd (hrooted'.start_keepsOthers hchanged
          hcreator htop) hne
      · exact (Tracker.startRequest_currentRequest _ _ _ _ _ _ _).trans
          (if_neg hD)
  | stop r hcall hr =>
      have hq : q = r := by
        rcases hoperates with hstop | ⟨hroot, _⟩
        · exact RequestCall.stop.inj (hstop.symm.trans hcall)
        · rw [hcall] at hroot
          exact absurd rfl hroot
      subst hq
      have heffect := Tracker.stop_effect
        (Tracker.resume_wellFormed hrooted.wellFormed turn.stack)
        turn.clock q
      by_contra hsame
      obtain ⟨hactive, hD, hparent⟩ := stop_current heffect hsame
      rw [heffect.stops.frame.top] at htop
      rcases hown q (by rw [hcall]; rfl) D₂ hD R hcreator hactive with
        heq | ⟨_, hno | hno⟩
      · exact hne (hrooted.creator_inj hcreator (heq ▸ htop))
      · exact hno D₁ (hrooted.creator_lt htop).1 htop
      · exact hsame (hparent.trans hno)
  | other s' hroot hcall hother =>
      rcases hoperates with hstop | ⟨hstart, _⟩
      · exact absurd hstop (hcall q)
      · exact absurd hroot hstart

/-- A traced method in `D`, the start that tells where `D` points. -/
def probeTurn (D : Nat) (clock : Clock) : Turn :=
  ⟨[D], clock, .startMethod "" none⟩

theorem step_probeTurn {h : History} {D : Nat} (clock : Clock)
    (hD : D < h.tracker.domainCount) :
    ∃ h'', h.step (probeTurn D clock) = some h'' ∧
      h''.tracker =
        (h.tracker.resume [D]).startRequest clock none "" false none := by
  have hvalid : (∀ d ∈ (probeTurn D clock).stack, d < h.tracker.domainCount) ∧
      (probeTurn D clock).call.Valid h.tracker := by
    constructor
    · intro d hd
      rw [List.mem_singleton.mp hd]
      exact hD
    · intro t ht
      cases ht
  exact ⟨_, if_pos hvalid, rfl⟩

/-- If every start in `D` lands in the tree of its active root, then `D`
points into that tree. -/
theorem placed_of_probe {h : History} (hwf : h.tracker.WellFormed) {D R : Nat}
    (hplaces : ∀ next h'', h.step next = some h'' → h.PlacesAtRoot next h'')
    (hD : D < h.tracker.domainCount) (hR : R < h.tracker.requestCount)
    (hcreator : h.creator D = some R) (hactive : h.tracker.IsActive R) :
    ∃ c, h.tracker.currentRequest D = some c ∧
      (h.tracker.requests c).top = R := by
  obtain ⟨h'', hstep, htracker⟩ := step_probeTurn ⟨0, 0⟩ hD
  have htop := hplaces _ _ hstep rfl D rfl R hcreator hactive
  rw [htracker] at htop
  cases hc : h.tracker.currentRequest D with
  | some c =>
      have hparent : (h.tracker.resume [D]).callParent false = some c := hc
      rw [start_top hwf [D] _ _ _ _ false rfl hparent] at htop
      exact ⟨c, rfl, htop⟩
  | none =>
      have hparent : (h.tracker.resume [D]).callParent false = none := hc
      rw [start_top_of_no_parent hwf [D] _ _ _ _ false rfl hparent] at htop
      exact absurd htop (Nat.ne_of_gt hR)

/-- A turn that keeps the roots apart is no stop of the other kind. -/
theorem Rooted.stopsOwn {h h' : History} {turn : Turn} (hrooted : h.Rooted)
    (hstep : h.step turn = some h') (hisolates : h.Isolates turn h') :
    h.StopsOwn turn := by
  obtain ⟨hkeeps, hplaces⟩ := hisolates
  intro r hstop D hD R hcreator hactive
  by_cases htop : (h.tracker.requests r).top = R
  · exact Or.inl htop
  have hcall := RequestCall.eq_stop hstop
  cases step_case hstep with
  | start type name root eventTimer hroot htimer =>
      rw [hcall] at hroot
      cases hroot
  | other s' hroot hother _ => exact absurd hcall (hother r)
  | stop q hcall' hq =>
      cases hcall.symm.trans hcall'
      have hwf := Tracker.resume_wellFormed hrooted.wellFormed turn.stack
      have heffect := Tracker.stop_effect hwf turn.clock r
      have hframe := heffect.stops.frame
      have hcurrent := heffect.current hactive D hD
      obtain ⟨hDlt, hRlt, _⟩ := hrooted.creator_lt hcreator
      refine Or.inr ⟨?_, ?_⟩
      · by_contra hR
        have hR' := hrooted.stop_isRoot_active heffect hcreator htop
          (Bool.eq_true_of_not_eq_false hR)
        obtain ⟨c, hc, hctop⟩ := placed_of_probe
          (heffect.stops.wellFormed hwf) hplaces
          (hDlt.trans_eq hframe.domainCount.symm)
          (hRlt.trans_eq hframe.requestCount.symm) hcreator hR'
        have hparent : h.tracker.parentOf r = some c := hcurrent.symm.trans hc
        rw [hframe.top] at hctop
        exact htop ((hrooted.wellFormed.top_child hparent).trans hctop)
      · by_cases hroots : ∀ D' < h.tracker.domainCount,
            h.creator D' ≠ some (h.tracker.requests r).top
        · exact Or.inl hroots
        · refine Or.inr ?_
          push Not at hroots
          obtain ⟨D', _, hD'⟩ := hroots
          have hne : D ≠ D' := by
            rintro rfl
            exact htop (Option.some.inj (hD'.symm.trans hcreator))
          have hsame := hkeeps (Or.inl hcall) (hframe.top r ▸ hD') hcreator hne
          exact hcurrent.symm.trans hsame

end History

/-- A run keeps the roots apart in every step, and places every request that
could be started next in the tree of its domain's active root, exactly when
each of its stops is one that `History.StopsOwn` describes. -/
theorem root_isolation_iff {turns : List Turn} {h : History}
    (hrun : requestMachine.run requestMachine.init turns = some h) :
    requestMachine.Guarded History.StopsOwn requestMachine.init turns ↔
      requestMachine.Each History.Isolates requestMachine.init turns := by
  have hinductive : requestMachine.Inductive
      (fun h turn => True ∧ h.StopsOwn turn) History.Rooted :=
    History.rooted.mono fun _ _ hown => hown.2
  apply hinductive.guarded_iff_each _ History.initial_rooted
    (guarded_true _ _) hrun
  intro h turn h' hrooted _ hstep
  constructor
  · intro hown
    have hrooted' := History.rooted.step hrooted hown hstep
    exact ⟨hrooted.keepsOthers hown hstep,
      fun _ _ hnext => hrooted'.placesAtRoot hnext⟩
  · exact hrooted.stopsOwn hstep

namespace RequestIsolationWitness

/-- Two open roots; a query of the second one finishes on a connection that
was made in the domain of the first. -/
def pooledConnection : List Turn :=
  [⟨[], ⟨10, 1⟩, .startRequest (some "http") "GET /a" true none⟩,
    ⟨[], ⟨20, 1⟩, .startRequest (some "http") "GET /b" true none⟩,
    ⟨[1], ⟨30, 2⟩, .startRequest (some "mysql") "query" false none⟩,
    ⟨[0], ⟨40, 2⟩, .stop 2⟩]

/-- The first user's next query, while both roots are still active. -/
def nextQuery : Turn :=
  ⟨[0], ⟨50, 3⟩, .startRequest (some "redis") "get" false none⟩

/-- The first user's query becomes part of the second user's request. -/
theorem pooledConnection_misplaces :
    ∃ h ∈ requestMachine.run requestMachine.init pooledConnection,
      ∃ h' ∈ h.step nextQuery,
        h.creator 0 = some 0 ∧ (h.tracker.requests 0).active = true ∧
          (h'.tracker.requests h.tracker.requestCount).top = 1 ∧
          ¬ h.PlacesAtRoot nextQuery h' := by
  decide +kernel

theorem pooledConnection_runs :
    (requestMachine.run requestMachine.init pooledConnection).isSome := by
  decide +kernel

theorem root_isolation_iff_pooledConnection :
    requestMachine.Guarded History.StopsOwn requestMachine.init
        pooledConnection ↔
      requestMachine.Each History.Isolates requestMachine.init
        pooledConnection := by
  obtain ⟨h, hrun⟩ := Option.isSome_iff_exists.mp pooledConnection_runs
  exact root_isolation_iff hrun

end RequestIsolationWitness

end Appmetrics
