/-
Stack discipline.  When every request is stopped in the domain it was
created in, the active requests of a domain are its current request and the
parents of that: the domain's `currentRequest` is the top of a stack whose
links are the parent pointers.  It follows that a parentless request raises
exactly one event, at a moment when its whole tree has been stopped.
-/
import Appmetrics.RequestRuns

namespace Appmetrics

open Forest StepMachine

namespace History

/-- A stop runs in the domain its request was created in, and the clock
does not run backwards. -/
def HomeTurn (h : History) (turn : Turn) : Prop :=
  h.hrtime ≤ turn.clock.hrtime ∧
    match turn.call with
    | .stop r => turn.processDomain = h.home r
    | _ => True

instance (h : History) (turn : Turn) : Decidable (h.HomeTurn turn) := by
  unfold HomeTurn
  cases turn.call <;> infer_instance

/-- The open requests of a domain form the chain above its current one. -/
structure Stacked (h : History) : Prop where
  wellFormed : h.tracker.WellFormed
  home_lt : ∀ {r d}, h.home r = some d →
    r < h.tracker.requestCount ∧ d < h.tracker.domainCount
  home_parent : ∀ {x p}, h.tracker.parentOf x = some p →
    h.home x = h.home p ∧ h.home x ≠ none
  active_parent : UpClosed h.tracker.parentOf h.tracker.IsActive
  chain : ∀ {d r}, h.tracker.IsActive r ∧ h.home r = some d ↔
    ∃ c, h.tracker.currentRequest d = some c ∧
      Ancestor h.tracker.parentOf c r

theorem initial_stacked : initial.Stacked where
  wellFormed := Tracker.initial_wellFormed
  home_lt h := nomatch h
  home_parent h := nomatch h
  active_parent h := nomatch h
  chain := by
    intro d r
    simp [initial, Tracker.initial, Tracker.IsActive, Tracker.blankRequest]

theorem Stacked.home_ancestor {h : History} (hstacked : h.Stacked) {x r : Nat}
    (hanc : Ancestor h.tracker.parentOf x r) : h.home x = h.home r := by
  induction hanc with
  | refl => rfl
  | tail _ hparent ih => exact ih.trans (hstacked.home_parent hparent).1

/-- The current request of a domain is active and was created there. -/
theorem Stacked.current {h : History} (hstacked : h.Stacked) {d c : Nat}
    (hcurrent : h.tracker.currentRequest d = some c) :
    h.tracker.IsActive c ∧ h.home c = some d :=
  hstacked.chain.mpr ⟨c, hcurrent, Ancestor.refl c⟩

section Start

variable {h : History} (hstacked : h.Stacked) (stack : List Nat)
  (root : Bool)

include hstacked

/-- The request a new one is attached to is active, in the same domain. -/
theorem Stacked.callParent {p : Nat}
    (hparent : (h.tracker.resume stack).callParent root = some p) :
    h.tracker.IsActive p ∧
      h.home p = (h.tracker.resume stack).callDomain root ∧
      h.home p ≠ none := by
  cases root with
  | true => cases hparent
  | false =>
      rw [Tracker.callParent_false, Option.bind_eq_some_iff] at hparent
      obtain ⟨d, hdomain, hcurrent⟩ := hparent
      obtain ⟨hactive, hhome⟩ := hstacked.current hcurrent
      exact ⟨hactive, by rw [hhome, Tracker.callDomain_false, hdomain],
        by simp [hhome]⟩

/-- In the domain of the call, the stack below the new request is the old
one. -/
theorem Stacked.callParent_chain {d x : Nat}
    (hdomain : (h.tracker.resume stack).callDomain root = some d) :
    h.tracker.IsActive x ∧ h.home x = some d ↔
      ∃ p, (h.tracker.resume stack).callParent root = some p ∧
        Ancestor h.tracker.parentOf p x := by
  cases root with
  | true =>
      rw [Tracker.callDomain_true, Option.some.injEq] at hdomain
      constructor
      · rintro ⟨_, hhome⟩
        have hlt := (hstacked.home_lt hhome).2
        exact absurd hdomain (Nat.ne_of_gt hlt)
      · rintro ⟨p, hparent, _⟩
        cases hparent
  | false =>
      rw [Tracker.callDomain_false] at hdomain
      rw [hstacked.chain, Tracker.callParent_false, hdomain]
      rfl

variable (clock : Clock) (type : Option String) (name : String)
  (eventTimer : Option Nat)

/-- Exactly the new request is switched on. -/
theorem Stacked.start_isActive (x : Nat) :
    ((h.tracker.resume stack).startRequest clock type name root
        eventTimer).IsActive x ↔
      x = h.tracker.requestCount ∨ h.tracker.IsActive x := by
  have hwf := Tracker.resume_wellFormed hstacked.wellFormed stack
  rw [Tracker.IsActive, Tracker.startRequest_active hwf]
  by_cases hx : x = h.tracker.requestCount
  · simp [hx, Tracker.resume]
  · simp [hx, Tracker.resume, Tracker.IsActive]

theorem Stacked.start_parentOf (x : Nat) :
    ((h.tracker.resume stack).startRequest clock type name root
        eventTimer).parentOf x =
      if x = h.tracker.requestCount then
        (h.tracker.resume stack).callParent root
      else h.tracker.parentOf x :=
  Tracker.startRequest_parentOf
    (Tracker.resume_wellFormed hstacked.wellFormed stack) clock type name
    root eventTimer x

/-- The new request is on top of the stack of its domain; the other stacks
are as they were. -/
theorem Stacked.start_chain {d x : Nat} :
    ((h.tracker.resume stack).startRequest clock type name root
        eventTimer).IsActive x ∧
      Function.update h.home h.tracker.requestCount
        ((h.tracker.resume stack).callDomain root) x = some d ↔
    ∃ c, ((h.tracker.resume stack).startRequest clock type name root
        eventTimer).currentRequest d = some c ∧
      Ancestor ((h.tracker.resume stack).startRequest clock type name root
        eventTimer).parentOf c x := by
  have hwf := Tracker.resume_wellFormed hstacked.wellFormed stack
  rw [hstacked.start_isActive, Tracker.startRequest_currentRequest]
  simp only [Function.update_apply]
  by_cases hd : (h.tracker.resume stack).callDomain root = some d
  · rw [if_pos hd]
    have hnew := Tracker.startRequest_ancestor_new hwf clock type name root
      eventTimer (x := x)
    have hold := hstacked.callParent_chain stack root hd (x := x)
    have hleft : (∃ c, some (h.tracker.resume stack).requestCount = some c ∧
        Ancestor ((h.tracker.resume stack).startRequest clock type name root
          eventTimer).parentOf c x) ↔
        x = h.tracker.requestCount ∨
          h.tracker.IsActive x ∧ h.home x = some d := by
      rw [hold]
      simp only [Option.some.injEq, exists_eq_left']
      exact hnew
    rw [hleft]
    by_cases hx : x = h.tracker.requestCount
    · simp [hx, hd]
    · simp [hx]
  · rw [if_neg hd]
    by_cases hx : x = h.tracker.requestCount
    · subst hx
      simp only [if_pos, hd, and_false, false_iff]
      rintro ⟨c, hcurrent, hanc⟩
      have hc := hwf.current_lt hcurrent
      rw [Tracker.startRequest_ancestor hwf _ _ _ _ _ hc] at hanc
      exact absurd hc (Nat.not_lt_of_le
        (Ancestor.le hwf.parent_lt hanc))
    · rw [if_neg hx, or_iff_right hx, hstacked.chain]
      constructor
      · rintro ⟨c, hcurrent, hanc⟩
        exact ⟨c, hcurrent, (Tracker.startRequest_ancestor hwf _ _ _ _ _
          (hwf.current_lt hcurrent)).mpr hanc⟩
      · rintro ⟨c, hcurrent, hanc⟩
        exact ⟨c, hcurrent, (Tracker.startRequest_ancestor hwf _ _ _ _ _
          (hwf.current_lt hcurrent)).mp hanc⟩

theorem Stacked.start (creator : Nat → Option Nat)
    (hstack : ∀ d, (h.tracker.resume stack).processDomain = some d →
      d < h.tracker.domainCount)
    (htimer : ∀ t, eventTimer = some t → t < h.tracker.timerCount) :
    Stacked
      { tracker := (h.tracker.resume stack).startRequest clock type name root
          eventTimer
        home := Function.update h.home h.tracker.requestCount
          ((h.tracker.resume stack).callDomain root)
        creator := creator
        hrtime := clock.hrtime } := by
  have hwf : (h.tracker.resume stack).WellFormed :=
    Tracker.resume_wellFormed hstacked.wellFormed stack
  constructor
  case wellFormed => exact hwf.startRequest _ _ _ _ _ htimer
  case home_lt =>
    intro r d hhome
    simp only [Tracker.startRequest_requestCount,
      Tracker.startRequest_domainCount, Function.update_apply] at hhome ⊢
    split at hhome
    · next hr =>
        refine ⟨by rw [hr]; exact Nat.lt_succ_self _, ?_⟩
        cases root with
        | true =>
            rw [Tracker.callDomain_true, Option.some.injEq] at hhome
            rw [← hhome]
            exact Nat.lt_succ_self _
        | false => exact hstack d hhome
    · obtain ⟨hr, hd⟩ := hstacked.home_lt hhome
      refine ⟨Nat.lt_succ_of_lt hr, ?_⟩
      cases root with
      | true => exact Nat.lt_succ_of_lt hd
      | false => exact hd
  case home_parent =>
    intro x p hparent
    rw [hstacked.start_parentOf] at hparent
    simp only [Function.update_apply]
    split at hparent
    · next hx =>
        obtain ⟨_, hhome, hne⟩ := hstacked.callParent stack root hparent
        have hp : p ≠ h.tracker.requestCount :=
          Nat.ne_of_lt (hwf.callParent_lt hparent)
        rw [if_pos hx, if_neg hp, ← hhome]
        exact ⟨rfl, hne⟩
    · next hx =>
        have hp : p ≠ h.tracker.requestCount := fun heq =>
          Tracker.requestCount_ne_parent hstacked.wellFormed (heq ▸ hparent)
        rw [if_neg hx, if_neg hp]
        exact hstacked.home_parent hparent
  case active_parent =>
    intro x p hparent hx
    rw [hstacked.start_parentOf] at hparent
    rw [hstacked.start_isActive] at hx ⊢
    split at hparent
    · exact Or.inr (hstacked.callParent stack root hparent).1
    · next hne =>
        exact Or.inr (hstacked.active_parent hparent (hx.resolve_left hne))
  case chain => exact hstacked.start_chain stack root clock type name eventTimer

end Start

section Stop

variable {h : History} (hstacked : h.Stacked) {clock : Clock}
  {stack : List Nat} {r : Nat} {s' : Tracker}
  (heffect : Tracker.StopEffect clock (h.tracker.resume stack) r s')

include hstacked heffect

/-- A stop switches off the subtree of the request and nothing else. -/
theorem Stacked.stop_isActive (x : Nat) :
    s'.IsActive x ↔
      h.tracker.IsActive x ∧ ¬ Ancestor h.tracker.parentOf x r := by
  have hclosed : UpClosed s'.parentOf s'.IsActive := by
    intro y p hparent hy
    have hup : (h.tracker.resume stack).ActiveUpTo fun _ => False :=
      fun hparent hy => Or.inl (hstacked.active_parent hparent hy)
    exact (heffect.stops.activeUpTo hup hparent hy).resolve_right id
  constructor
  · intro hx
    refine ⟨heffect.stops.active_mono hx, fun hanc => ?_⟩
    have hr : s'.IsActive r :=
      hclosed.ancestor (heffect.stops.frame.ancestor.mpr hanc) hx
    exact heffect.stops.inactive r (List.mem_singleton_self r) hr
  · rintro ⟨hx, hanc⟩
    by_contra hx'
    obtain ⟨y, hy, hbelow⟩ := heffect.stops.below hx hx'
    rw [List.mem_singleton.mp hy] at hbelow
    exact hanc hbelow

theorem Stacked.stop_chain
    (hhome : (h.tracker.resume stack).processDomain = h.home r) {d x : Nat} :
    s'.IsActive x ∧ h.home x = some d ↔
      ∃ c, s'.currentRequest d = some c ∧
        Ancestor h.tracker.parentOf c x := by
  rw [hstacked.stop_isActive heffect, and_right_comm, hstacked.chain]
  by_cases hd : h.home r = some d ∧ h.tracker.IsActive r
  · obtain ⟨hd, hactive⟩ := hd
    obtain ⟨c, hcurrent, hcr⟩ := hstacked.chain.mp ⟨hactive, hd⟩
    rw [heffect.current hactive d (hhome.trans hd), hcurrent]
    simp only [Option.some.injEq, exists_eq_left']
    exact chain_cut hstacked.wellFormed.parent_lt hcr
  · have hcurrent : s'.currentRequest d = h.tracker.currentRequest d := by
      by_cases hactive : h.tracker.IsActive r
      · exact heffect.other d fun hdomain =>
          hd ⟨hhome.symm.trans hdomain, hactive⟩
      · rw [heffect.idle hactive]
        rfl
    rw [hcurrent]
    refine and_iff_left_of_imp fun hchain hanc => hd ?_
    obtain ⟨hactive, hhome⟩ := hstacked.chain.mpr hchain
    exact ⟨(hstacked.home_ancestor hanc).symm.trans hhome,
      UpClosed.ancestor hstacked.active_parent hanc hactive⟩

theorem Stacked.stop (creator : Nat → Option Nat) (hrtime : Nat)
    (hhome : (h.tracker.resume stack).processDomain = h.home r) :
    Stacked ⟨s', h.home, creator, hrtime⟩ := by
  have hframe := heffect.stops.frame
  have hparentOf : s'.parentOf = h.tracker.parentOf :=
    funext hframe.parentOf
  constructor
  case wellFormed =>
    exact heffect.stops.wellFormed
      (Tracker.resume_wellFormed hstacked.wellFormed stack)
  case home_lt =>
    intro x d hx
    obtain ⟨hlt, hd⟩ := hstacked.home_lt hx
    exact ⟨hlt.trans_eq hframe.requestCount.symm,
      hd.trans_eq hframe.domainCount.symm⟩
  case home_parent =>
    intro x p hparent
    exact hstacked.home_parent (hparentOf ▸ hparent)
  case active_parent =>
    intro x p hparent hx
    rw [hparentOf] at hparent
    rw [hstacked.stop_isActive heffect] at hx ⊢
    refine ⟨hstacked.active_parent hparent hx.1, fun hanc => hx.2 ?_⟩
    exact (Ancestor.of_parent hparent).trans hanc
  case chain =>
    intro d x
    rw [hparentOf]
    exact hstacked.stop_chain heffect hhome

end Stop

theorem Stacked.other {h : History} (hstacked : h.Stacked) {clock : Clock}
    {stack : List Nat} {s' : Tracker}
    (hother : Tracker.OtherEffect clock (h.tracker.resume stack) s')
    (creator : Nat → Option Nat) (hrtime : Nat) :
    Stacked ⟨s', h.home, creator, hrtime⟩ := by
  have hactive : s'.IsActive = h.tracker.IsActive :=
    congrArg (fun requests x => (requests x).active = true) hother.requests
  constructor
  case wellFormed =>
    exact hother.wellFormed
      (Tracker.resume_wellFormed hstacked.wellFormed stack)
  case home_lt =>
    intro x d hx
    obtain ⟨hlt, hd⟩ := hstacked.home_lt hx
    exact ⟨hlt.trans_eq hother.requestCount.symm,
      Nat.lt_of_lt_of_le hd hother.domainCount⟩
  case home_parent =>
    intro x p hparent
    exact hstacked.home_parent (hother.parentOf ▸ hparent)
  case active_parent =>
    rw [hactive, hother.parentOf]
    exact hstacked.active_parent
  case chain =>
    intro d x
    rw [hactive, hother.parentOf]
    rcases hother.current d with hcurrent | ⟨hd, hcurrent⟩
    · rw [hcurrent]
      exact hstacked.chain
    · -- a domain that did not exist before is nobody's home
      rw [hcurrent]
      constructor
      · rintro ⟨_, hhome⟩
        have hlt := (hstacked.home_lt hhome).2
        exact absurd hd (Nat.ne_of_lt hlt)
      · rintro ⟨c, hc, _⟩
        cases hc

theorem StepCase.stacked {h h' : History} {turn : Turn}
    (hcase : StepCase h turn h') (hturn : h.HomeTurn turn)
    (hstack : ∀ d, turn.processDomain = some d → d < h.tracker.domainCount)
    (hstacked : h.Stacked) : h'.Stacked := by
  cases hcase with
  | start type name root eventTimer hroot htimer =>
      exact hstacked.start turn.stack root turn.clock type name eventTimer _
        hstack htimer
  | stop r hcall hr =>
      have hhome := hturn.2
      rw [hcall] at hhome
      have heffect := Tracker.stop_effect
        (Tracker.resume_wellFormed hstacked.wellFormed turn.stack)
        turn.clock r
      exact hstacked.stop heffect _ _ hhome
  | other s' hroot hcall hother => exact hstacked.other hother _ _

end History

end Appmetrics
