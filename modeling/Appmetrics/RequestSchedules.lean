/-
What holds of requests under every schedule, whatever domain a call runs in:
the ids in one tree differ and those of typed roots count up, the requests
form a forest, tracing reaches up to the root, and no request raises two
events.
-/
import Appmetrics.RequestRuns
import Mathlib.Data.List.Range
import Mathlib.Data.List.Nodup

namespace Appmetrics

open Forest StepMachine

namespace Tracker

/-! ## Ids -/

/-- A parentless request with a type: its id counts requests, not events. -/
def isTypedRoot (s : Tracker) (x : Nat) : Bool :=
  (s.parentOf x).isNone && isTyped (s.requests x).type

/-- The typed parentless requests in the order of their creation. -/
def typedRoots (s : Tracker) : List Nat :=
  (List.range s.requestCount).filter s.isTypedRoot

def idOf (s : Tracker) (x : Nat) : Nat := (s.requests x).id

/-- Where the ids come from.  References count the requests, and so does
`nextEventId`; `nextRequestId` counts the typed roots, which are fewer. -/
structure Numbered (s : Tracker) : Prop where
  nextEventId : s.nextEventId = s.requestCount + 1
  nextRequestId : s.nextRequestId = s.typedRoots.length + 1
  event : ∀ {x}, x < s.requestCount → s.isTypedRoot x = false →
    s.idOf x = x + 1
  typed : ∀ {x}, x < s.requestCount → s.isTypedRoot x = true →
    s.idOf x ≤ x + 1
  roots : s.typedRoots.map s.idOf = List.range' 1 s.typedRoots.length

theorem initial_numbered : initial.Numbered := by
  constructor <;> simp [initial, typedRoots]

/-- Nothing that ids depend on differs. -/
structure SameIds (s s' : Tracker) : Prop where
  requestCount : s'.requestCount = s.requestCount
  nextRequestId : s'.nextRequestId = s.nextRequestId
  nextEventId : s'.nextEventId = s.nextEventId
  shape : ∀ x, (s'.requests x).shape = (s.requests x).shape

theorem Frame.sameIds {s s' : Tracker} (h : Frame s s') : SameIds s s' :=
  ⟨h.requestCount, h.nextRequestId, h.nextEventId, h.shape⟩

theorem SameIds.numbered {s s' : Tracker} (h : SameIds s s')
    (hs : s.Numbered) : s'.Numbered := by
  have hid : s'.idOf = s.idOf := by
    funext x
    exact (congrArg Request.id (h.shape x) :)
  have htyped : s'.isTypedRoot = s.isTypedRoot := by
    funext x
    have hparent : s'.parentOf x = s.parentOf x :=
      (congrArg Request.parent (h.shape x) :)
    have htype : (s'.requests x).type = (s.requests x).type :=
      (congrArg Request.type (h.shape x) :)
    rw [isTypedRoot, isTypedRoot, hparent, htype]
  have hroots : s'.typedRoots = s.typedRoots := by
    rw [typedRoots, typedRoots, h.requestCount, htyped]
  constructor
  case nextEventId => rw [h.nextEventId, h.requestCount, hs.nextEventId]
  case nextRequestId => rw [h.nextRequestId, hroots, hs.nextRequestId]
  case event =>
    intro x hx hno
    rw [hid]
    exact hs.event (h.requestCount ▸ hx) (htyped ▸ hno)
  case typed =>
    intro x hx hyes
    rw [hid]
    exact hs.typed (h.requestCount ▸ hx) (htyped ▸ hyes)
  case roots => rw [hroots, hid, hs.roots]

section StartNumbered

variable {s : Tracker} (clock : Clock) (type : Option String) (name : String)
  (root : Bool) (eventTimer : Option Nat)

theorem start_nextIds (s : Tracker) (r : Nat) :
    (s.start clock r).nextEventId = s.nextEventId ∧
      (s.start clock r).nextRequestId = s.nextRequestId := by
  unfold start
  cases htimer : (s.requests r).timer <;> cases hdomain : s.domainStack <;>
    simp [modify, startTimer, setCurrent, processDomain, htimer, hdomain]

/-- Whether the new request gets a request id. -/
def countsAsRequest (s : Tracker) (type : Option String) (root : Bool) :
    Bool :=
  (s.callParent root).isNone && isTyped type

theorem create_nextIds :
    (s.create type name root).nextEventId = s.nextEventId + 1 ∧
      (s.create type name root).nextRequestId =
        if s.countsAsRequest type root then s.nextRequestId + 1
        else s.nextRequestId := by
  unfold countsAsRequest
  cases hparent : s.callParent root with
  | none =>
      rw [create_of_no_parent hparent]
      cases root <;> cases isTyped type <;> exact ⟨rfl, rfl⟩
  | some p =>
      rw [create_of_parent hparent]
      simp [modify]

theorem startRequest_nextIds :
    (s.startRequest clock type name root eventTimer).nextEventId =
        s.nextEventId + 1 ∧
      (s.startRequest clock type name root eventTimer).nextRequestId =
        if s.countsAsRequest type root then s.nextRequestId + 1
        else s.nextRequestId := by
  unfold startRequest
  cases eventTimer <;> simp [start_nextIds, create_nextIds, modify]

variable (hwf : s.WellFormed)

include hwf

theorem startRequest_idOf (x : Nat) :
    (s.startRequest clock type name root eventTimer).idOf x =
      if x = s.requestCount then
        if s.countsAsRequest type root then s.nextRequestId
        else s.nextEventId
      else s.idOf x := by
  rw [idOf, startRequest_requests _ _ _ _ _ _ hwf]
  split
  · simp [startedRequest, countsAsRequest]
  · split <;> rfl

theorem startRequest_isTypedRoot (x : Nat) :
    (s.startRequest clock type name root eventTimer).isTypedRoot x =
      if x = s.requestCount then s.countsAsRequest type root
      else s.isTypedRoot x := by
  rw [isTypedRoot, startRequest_parentOf hwf,
    startRequest_requests _ _ _ _ _ _ hwf]
  split
  · rfl
  · split <;> rfl

theorem startRequest_typedRoots :
    (s.startRequest clock type name root eventTimer).typedRoots =
      if s.countsAsRequest type root then s.typedRoots ++ [s.requestCount]
      else s.typedRoots := by
  have hold : (List.range s.requestCount).filter
      (s.startRequest clock type name root eventTimer).isTypedRoot =
        s.typedRoots := by
    apply List.filter_congr
    intro x hx
    have hne : x ≠ s.requestCount := Nat.ne_of_lt (List.mem_range.mp hx)
    rw [startRequest_isTypedRoot _ _ _ _ _ hwf, if_neg hne]
  rw [typedRoots, startRequest_requestCount, List.range_succ,
    List.filter_append, hold, List.filter_singleton,
    startRequest_isTypedRoot _ _ _ _ _ hwf, if_pos rfl]
  cases s.countsAsRequest type root <;> simp

/-- A typed root takes the next request id, any other request the next event
id. -/
theorem Numbered.startRequest (hs : s.Numbered) :
    (s.startRequest clock type name root eventTimer).Numbered := by
  obtain ⟨hevent, hrequest⟩ :=
    startRequest_nextIds (s := s) clock type name root eventTimer
  have hroots := startRequest_typedRoots clock type name root eventTimer hwf
  have hid := startRequest_idOf clock type name root eventTimer hwf
  have htyped := startRequest_isTypedRoot clock type name root eventTimer hwf
  have hlength : s.typedRoots.length ≤ s.requestCount := by
    have hle := List.length_filter_le s.isTypedRoot
      (List.range s.requestCount)
    rwa [List.length_range] at hle
  constructor
  case nextEventId =>
    rw [hevent, startRequest_requestCount, hs.nextEventId]
  case nextRequestId =>
    rw [hrequest, hroots, hs.nextRequestId]
    split <;> simp
  case event =>
    intro x hx hno
    rw [startRequest_requestCount] at hx
    rw [htyped] at hno
    rw [hid]
    by_cases hnew : x = s.requestCount
    · rw [if_pos hnew] at hno
      rw [if_pos hnew, hno, hs.nextEventId, hnew]
      rfl
    · rw [if_neg hnew] at hno ⊢
      exact hs.event (by omega) hno
  case typed =>
    intro x hx hyes
    rw [startRequest_requestCount] at hx
    rw [htyped] at hyes
    rw [hid]
    by_cases hnew : x = s.requestCount
    · rw [if_pos hnew] at hyes
      rw [if_pos hnew, hyes, if_pos rfl, hs.nextRequestId, hnew]
      omega
    · rw [if_neg hnew] at hyes ⊢
      exact hs.typed (by omega) hyes
  case roots =>
    have hsame : s.typedRoots.map
        (s.startRequest clock type name root eventTimer).idOf =
          s.typedRoots.map s.idOf := by
      apply List.map_congr_left
      intro x hx
      have hlt := List.mem_range.mp (List.mem_of_mem_filter hx)
      rw [hid, if_neg (Nat.ne_of_lt hlt)]
    rw [hroots]
    cases hcounts : s.countsAsRequest type root with
    | false =>
        rw [if_neg Bool.false_ne_true, hsame]
        exact hs.roots
    | true =>
        rw [if_pos rfl, List.map_append, hsame, hs.roots, List.length_append,
          List.length_singleton, List.range'_concat, List.map_singleton, hid,
          if_pos rfl, hcounts, if_pos rfl, hs.nextRequestId, Nat.one_mul,
          Nat.add_comm]

/-- Apart from the root of the tree all its requests have event ids, and
these are larger than the root's. -/
theorem Numbered.eq_of_idOf (hs : s.Numbered) {x y : Nat}
    (hx : x < s.requestCount) (hy : y < s.requestCount)
    (htop : (s.requests x).top = (s.requests y).top)
    (hid : s.idOf x = s.idOf y) : x = y := by
  -- a typed root has a smaller id than any other request of its tree
  have hroot {x y : Nat} (hx : x < s.requestCount) (hy : y < s.requestCount)
      (htop : (s.requests x).top = (s.requests y).top)
      (hid : s.idOf x = s.idOf y) (htyped : s.isTypedRoot x = true) :
      x = y := by
    have hparent : s.parentOf x = none :=
      Option.isNone_iff_eq_none.mp (Bool.and_eq_true_iff.mp htyped).1
    rw [hwf.top_root hx hparent] at htop
    have hanc := hwf.ancestor_top hy
    rw [← htop] at hanc
    by_contra hne
    have hle := Ancestor.le hwf.parent_lt hanc
    have hy' : s.isTypedRoot y = false := by
      rw [isTypedRoot, Bool.and_eq_false_iff]
      refine Or.inl (Option.isNone_eq_false_iff.mpr ?_)
      rw [Option.isSome_iff_ne_none]
      intro hnone
      exact hne ((ancestor_of_parent_eq_none hnone).mp hanc).symm
    have hidx := hs.typed hx htyped
    have hidy := hs.event hy hy'
    omega
  cases hx' : s.isTypedRoot x with
  | true => exact hroot hx hy htop hid hx'
  | false =>
      cases hy' : s.isTypedRoot y with
      | true => exact (hroot hy hx htop.symm hid.symm hy').symm
      | false =>
          rw [hs.event hx hx', hs.event hy hy'] at hid
          exact Nat.succ.inj hid

end StartNumbered

theorem WellFormed.parentOf_top {s : Tracker} (hwf : s.WellFormed) {x : Nat}
    (hx : x < s.requestCount) : s.parentOf (s.requests x).top = none := by
  induction x using Nat.strong_induction_on with
  | h x ih =>
      cases hparent : s.parentOf x with
      | none =>
          rw [hwf.top_root hx hparent]
          exact hparent
      | some p =>
          have hlt := hwf.parent_lt hparent
          rw [hwf.top_child hparent]
          exact ih p hlt (Nat.lt_trans hlt hx)

/-! ## Tracing -/

def Traced (s : Tracker) (x : Nat) : Prop :=
  (s.requests x).tracedStart = true

/-- Traced requests have traced parents. -/
def TracedUp (s : Tracker) : Prop :=
  ∀ x p, s.parentOf x = some p → s.Traced x → s.Traced p

/-- Any relation between states that every single part of `stop` respects is
respected by the whole recursion. -/
theorem stopFuel_induction {clock : Clock} {R : Tracker → Tracker → Prop}
    (hrefl : ∀ s, R s s)
    (htrans : ∀ {s₁ s₂ s₃}, R s₁ s₂ → R s₂ s₃ → R s₁ s₃)
    (hdeactivate : ∀ s r, R s (s.deactivate clock r))
    (htrace : ∀ {s s' r}, s.trace r = some s' → R s s')
    (hleave : ∀ s r, R s (s.leave r)) {fuel : Nat} {s s' : Tracker} {r : Nat}
    (hstop : stopFuel clock fuel s r = some s') : R s s' := by
  induction fuel generalizing s s' r with
  | zero => cases hstop
  | succ fuel ih =>
      have hchildren {cs : List Nat} {u u' : Tracker}
          (h : cs.foldlM (stopFuel clock fuel) u = some u') : R u u' := by
        induction cs generalizing u with
        | nil =>
            cases h
            exact hrefl _
        | cons c cs ihcs =>
            rw [List.foldlM_cons, Option.bind_eq_bind,
              Option.bind_eq_some_iff] at h
            obtain ⟨v, hv, hrest⟩ := h
            exact htrans (ih hv) (ihcs hrest)
      unfold stopFuel at hstop
      split at hstop
      · obtain ⟨u, hu, hstop⟩ := Option.bind_eq_some_iff.mp hstop
        obtain ⟨v, hv, rfl⟩ := Option.map_eq_some_iff.mp hstop
        exact htrans (htrans (htrans (hdeactivate s r) (hchildren hu))
          (htrace hv)) (hleave v r)
      · cases hstop
        exact hrefl s

/-- Requests keep their parents, and tracing stays closed if it was. -/
structure KeepsTracing (s s' : Tracker) : Prop where
  parentOf : s'.parentOf = s.parentOf
  tracedUp : s.TracedUp → s'.TracedUp

theorem KeepsTracing.trans {s₁ s₂ s₃ : Tracker} (h₁ : KeepsTracing s₁ s₂)
    (h₂ : KeepsTracing s₂ s₃) : KeepsTracing s₁ s₃ :=
  ⟨h₂.parentOf.trans h₁.parentOf, fun h => h₂.tracedUp (h₁.tracedUp h)⟩

theorem keepsTracing_of_eq {s s' : Tracker}
    (hparent : ∀ x, s'.parentOf x = s.parentOf x)
    (htraced : ∀ x, (s'.requests x).tracedStart =
      (s.requests x).tracedStart) : KeepsTracing s s' where
  parentOf := funext hparent
  tracedUp := by
    intro h x p hp hx
    rw [Traced, htraced] at hx ⊢
    exact h x p (hparent x ▸ hp) hx

theorem modify_keepsTracing (s : Tracker) (r : Nat) {f : Request → Request}
    (hparent : ∀ q, (f q).parent = q.parent)
    (htraced : ∀ q, (f q).tracedStart = q.tracedStart) :
    KeepsTracing s (s.modify r f) := by
  apply keepsTracing_of_eq
  · intro x
    by_cases hx : x = r <;> simp [parentOf, modify, hx, hparent]
  · intro x
    by_cases hx : x = r <;> simp [modify, hx, htraced]

theorem traceStart_parentOf {fuel : Nat} {s s' : Tracker} {r : Nat}
    (htrace : traceStart fuel s r = some s') : s'.parentOf = s.parentOf := by
  induction fuel generalizing s r with
  | zero => cases htrace
  | succ fuel ih =>
      have hmark := s.modify_onlyTraces r
        (fun q => { q with tracedStart := true }) (fun _ => rfl)
        (fun _ => rfl)
      have hparent := funext hmark.frame.parentOf
      unfold traceStart at htrace
      dsimp only at htrace
      split at htrace
      · cases htrace
        rfl
      · split at htrace
        · exact (ih htrace).trans hparent
        · cases htrace
          exact hparent

/-- The walk up the parents restores what marking `r` may have broken. -/
theorem traceStart_tracedUp {fuel : Nat} {s s' : Tracker} {r : Nat}
    (htrace : traceStart fuel s r = some s')
    (hup : ∀ {x p}, s.parentOf x = some p → s.Traced x →
      s.Traced p ∨ p = r) : s'.TracedUp := by
  induction fuel generalizing s r with
  | zero => cases htrace
  | succ fuel ih =>
      unfold traceStart at htrace
      split at htrace
      · next hr =>
          cases htrace
          exact fun x p hp hx => (hup hp hx).elim id fun h => h ▸ hr
      · let t := s.modify r fun q => { q with tracedStart := true }
        have hparent : t.parentOf = s.parentOf := by
          funext x
          by_cases hx : x = r <;> simp [t, Tracker.parentOf, modify, hx]
        have hmarked {x : Nat} : t.Traced x ↔ s.Traced x ∨ x = r := by
          by_cases hx : x = r <;> simp [t, Traced, modify, hx]
        have hclosed {x p : Nat} (hp : t.parentOf x = some p)
            (hx : t.Traced x) (hne : x ≠ r) : t.Traced p := by
          rw [hparent] at hp
          rw [hmarked] at hx ⊢
          exact hup hp (hx.resolve_right hne)
        dsimp only at htrace
        split at htrace
        · next p hp =>
            apply ih htrace
            intro x q hq hx
            by_cases hxr : x = r
            · rw [hxr] at hq
              exact Or.inr (Option.some.inj (hq.symm.trans hp))
            · exact Or.inl (hclosed hq hx hxr)
        · next hroot =>
            cases htrace
            intro x p hp hx
            by_cases hxr : x = r
            · rw [hxr] at hp
              cases hp.symm.trans hroot
            · exact hclosed hp hx hxr

theorem traceStop_keepsTracing (s : Tracker) (r : Nat) :
    KeepsTracing s (s.traceStop r) := by
  unfold traceStop
  split
  · exact keepsTracing_of_eq (fun _ => rfl) (fun _ => rfl)
  · exact modify_keepsTracing s r (fun _ => rfl) (fun _ => rfl)

theorem trace_keepsTracing {s s' : Tracker} {r : Nat}
    (htrace : s.trace r = some s') : KeepsTracing s s' := by
  unfold trace at htrace
  split at htrace
  · obtain ⟨u, hu, rfl⟩ := Option.map_eq_some_iff.mp htrace
    have hstop := u.traceStop_keepsTracing r
    exact ⟨hstop.parentOf.trans (traceStart_parentOf hu), fun hs =>
      hstop.tracedUp (traceStart_tracedUp hu fun hp hx =>
        Or.inl (hs _ _ hp hx))⟩
  · cases htrace
    exact keepsTracing_of_eq (fun _ => rfl) (fun _ => rfl)

theorem deactivate_keepsTracing (s : Tracker) (clock : Clock) (r : Nat) :
    KeepsTracing s (s.deactivate clock r) := by
  apply keepsTracing_of_eq
  · exact (deactivate_frame s clock r).1.parentOf
  · intro x
    rw [deactivate_requests]
    split <;> rfl

theorem leave_keepsTracing (s : Tracker) (r : Nat) :
    KeepsTracing s (s.leave r) := by
  have hrequests := (leave_frame s r).2.1
  apply keepsTracing_of_eq
  · intro x
    rw [parentOf, hrequests]
    rfl
  · intro x
    rw [hrequests]

theorem stop_tracedUp {s : Tracker} (hwf : s.WellFormed) (clock : Clock)
    (r : Nat) (hs : s.TracedUp) : (s.stop clock r).TracedUp := by
  obtain ⟨s', hs', _⟩ := stopFuel_isSome hwf clock r
  have hkeeps : KeepsTracing s s' :=
    stopFuel_induction
      (fun s => keepsTracing_of_eq (fun _ => rfl) (fun _ => rfl))
      KeepsTracing.trans (fun s r => s.deactivate_keepsTracing clock r)
      trace_keepsTracing leave_keepsTracing hs'
  rw [stop, hs']
  exact hkeeps.tracedUp hs

/-- A new request is not traced. -/
theorem startRequest_tracedUp {s : Tracker} (hwf : s.WellFormed)
    (clock : Clock) (type : Option String) (name : String) (root : Bool)
    (eventTimer : Option Nat) (hs : s.TracedUp) :
    (s.startRequest clock type name root eventTimer).TracedUp := by
  have htraced (x : Nat) :
      (s.startRequest clock type name root eventTimer).Traced x ↔
        x ≠ s.requestCount ∧ s.Traced x := by
    rw [Traced, startRequest_requests _ _ _ _ _ _ hwf]
    split
    · next heq => simp [startedRequest, blankRequest, heq]
    · next hne =>
        split <;> simp [hne, Traced]
  intro x p hp hx
  rw [startRequest_parentOf hwf] at hp
  rw [htraced] at hx ⊢
  rw [if_neg hx.1] at hp
  exact ⟨fun h => requestCount_ne_parent hwf (h ▸ hp), hs x p hp hx.2⟩

/-! ## Events -/

/-- Events are those of parentless requests, each at most once, and no longer
those of active ones. -/
structure Announced (s : Tracker) : Prop where
  root : ∀ e ∈ s.emitted, s.parentOf e.request = none
  idle : ∀ e ∈ s.emitted, e.request < s.requestCount ∧
    ¬ s.IsActive e.request
  nodup : (s.emitted.map RequestEvent.request).Nodup

theorem Announced.stop {s : Tracker} (hwf : s.WellFormed) (clock : Clock)
    (r : Nat) (hs : s.Announced) : (s.stop clock r).Announced := by
  have heffect := stop_effect hwf clock r
  have hparent := heffect.stops.frame.parentOf
  have hcount := heffect.stops.frame.requestCount
  -- an event of before is still fine after the stop
  have hold (e : RequestEvent) (he : e ∈ s.emitted) :
      (s.stop clock r).parentOf e.request = none ∧
        e.request < (s.stop clock r).requestCount ∧
          ¬ (s.stop clock r).IsActive e.request :=
    ⟨(hparent _).trans (hs.root e he), hcount ▸ (hs.idle e he).1,
      fun h => (hs.idle e he).2 (heffect.stops.active_mono h)⟩
  by_cases hsame : (s.stop clock r).emitted = s.emitted
  · constructor
    case root => exact fun e he => (hold e (hsame ▸ he)).1
    case idle => exact fun e he => (hold e (hsame ▸ he)).2
    case nodup =>
      rw [hsame]
      exact hs.nodup
  · -- otherwise `r` was active and parentless, and its event is the new one
    have hactive : s.IsActive r := by
      by_contra hidle
      exact hsame (by rw [heffect.idle hidle])
    have hloud : ¬ (s.parentOf r ≠ none ∨ s.processDomain = none) :=
      fun h => hsame (heffect.silent h)
    rw [not_or, not_not] at hloud
    obtain ⟨d, hd⟩ := Option.ne_none_iff_exists'.mp hloud.2
    have hemitted := heffect.event hactive d hd hloud.1
    have hnew : ¬ (s.stop clock r).IsActive r :=
      heffect.stops.inactive r (List.mem_singleton_self r)
    have hall (e : RequestEvent) (he : e ∈ (s.stop clock r).emitted) :
        (s.stop clock r).parentOf e.request = none ∧
          e.request < (s.stop clock r).requestCount ∧
            ¬ (s.stop clock r).IsActive e.request := by
      rw [hemitted, List.mem_append, List.mem_singleton] at he
      rcases he with he | rfl
      · exact hold e he
      · exact ⟨(hparent r).trans hloud.1,
          hcount ▸ hwf.active_lt hactive, hnew⟩
    constructor
    case root => exact fun e he => (hall e he).1
    case idle => exact fun e he => (hall e he).2
    case nodup =>
      rw [hemitted, List.map_append, List.nodup_append']
      refine ⟨hs.nodup, List.nodup_singleton _, ?_⟩
      rw [List.map_singleton, List.disjoint_singleton]
      intro hmem
      obtain ⟨e, he, heq⟩ := List.mem_map.mp hmem
      exact (hs.idle e he).2 (heq ▸ hactive)

theorem Announced.startRequest {s : Tracker} (hwf : s.WellFormed)
    (clock : Clock) (type : Option String) (name : String) (root : Bool)
    (eventTimer : Option Nat) (hs : s.Announced) :
    (s.startRequest clock type name root eventTimer).Announced := by
  constructor
  case root =>
    intro e he
    rw [startRequest_emitted] at he
    rw [startRequest_parentOf hwf,
      if_neg (Nat.ne_of_lt (hs.idle e he).1)]
    exact hs.root e he
  case idle =>
    intro e he
    rw [startRequest_emitted] at he
    have hlt := (hs.idle e he).1
    rw [startRequest_requestCount, IsActive, startRequest_active hwf,
      if_neg (Nat.ne_of_lt hlt)]
    exact ⟨Nat.lt_succ_of_lt hlt, (hs.idle e he).2⟩
  case nodup =>
    rw [startRequest_emitted]
    exact hs.nodup

end Tracker

namespace History

/-- A turn that starts no request changes nothing that ids depend on. -/
theorem step_sameIds {h h' : History} {turn : Turn}
    (hstep : h.step turn = some h') (hwf : h.tracker.WellFormed)
    (hroot : turn.call.root? = none) :
    Tracker.SameIds h.tracker h'.tracker := by
  unfold step at hstep
  split at hstep
  · cases hstep
    obtain ⟨stack, clock, call⟩ := turn
    cases call with
    | createDomain => exact ⟨rfl, rfl, rfl, fun _ => rfl⟩
    | startTimer => exact ⟨rfl, rfl, rfl, fun _ => rfl⟩
    | stopTimer t => exact ⟨rfl, rfl, rfl, fun _ => rfl⟩
    | setConfig trace stackTrace => exact ⟨rfl, rfl, rfl, fun _ => rfl⟩
    | startRequest type name root eventTimer => cases hroot
    | startMethod name eventTimer => cases hroot
    | stop r =>
        have heffect := Tracker.stop_effect
          (Tracker.resume_wellFormed hwf stack) clock r
        have hids := heffect.stops.frame.sameIds
        exact ⟨hids.requestCount, hids.nextRequestId, hids.nextEventId,
          hids.shape⟩
  · cases hstep

/-- What every turn of every schedule keeps. -/
structure Scheduled (h : History) : Prop where
  wellFormed : h.tracker.WellFormed
  numbered : h.tracker.Numbered
  tracedUp : h.tracker.TracedUp
  announced : h.tracker.Announced

theorem initial_scheduled : initial.Scheduled where
  wellFormed := Tracker.initial_wellFormed
  numbered := Tracker.initial_numbered
  tracedUp _ _ hp := by cases hp
  announced := ⟨nofun, nofun, List.nodup_nil⟩

theorem Scheduled.step {h h' : History} {turn : Turn} (hs : h.Scheduled)
    (hstep : h.step turn = some h') : h'.Scheduled := by
  have hcase := step_case hstep
  have hresume := Tracker.resume_wellFormed hs.wellFormed turn.stack
  constructor
  case wellFormed => exact hcase.wellFormed hs.wellFormed
  case numbered =>
    cases hroot : turn.call.root? with
    | none =>
        have hsame := step_sameIds hstep hs.wellFormed hroot
        exact hsame.numbered hs.numbered
    | some root =>
        cases hcase with
        | start type name root eventTimer _ _ =>
            have hnumbered : (h.tracker.resume turn.stack).Numbered :=
              { hs.numbered with }
            exact hnumbered.startRequest turn.clock type name root eventTimer
              hresume
        | stop r hcall _ =>
            rw [hcall] at hroot
            cases hroot
        | other s' hnone _ _ =>
            rw [hnone] at hroot
            cases hroot
  case tracedUp =>
    cases hcase with
    | start type name root eventTimer _ _ =>
        exact Tracker.startRequest_tracedUp hresume turn.clock type name root
          eventTimer hs.tracedUp
    | stop r _ _ =>
        exact Tracker.stop_tracedUp hresume turn.clock r hs.tracedUp
    | other s' _ _ hother =>
        intro x p hp hx
        rw [hother.parentOf] at hp
        rw [Tracker.Traced, hother.requests] at hx ⊢
        exact hs.tracedUp x p hp hx
  case announced =>
    have hannounced : (h.tracker.resume turn.stack).Announced :=
      { hs.announced with }
    cases hcase with
    | start type name root eventTimer _ _ =>
        exact hannounced.startRequest hresume turn.clock type name root
          eventTimer
    | stop r _ _ => exact hannounced.stop hresume turn.clock r
    | other s' _ _ hother =>
        constructor
        case root =>
          rw [hother.emitted, hother.parentOf]
          exact hannounced.root
        case idle =>
          intro e he
          rw [hother.emitted] at he
          rw [hother.requestCount, Tracker.IsActive, hother.requests]
          exact hannounced.idle e he
        case nodup =>
          rw [hother.emitted]
          exact hannounced.nodup

theorem scheduled : requestMachine.Inductive (fun _ _ => True) Scheduled where
  init := initial_scheduled
  step hs _ hstep := hs.step hstep

end History

/-- Under every schedule the ids within a tree are distinct, and those of the
typed parentless requests are 1, 2, 3, and so on, in the order in which they
are created. -/
theorem request_ids {turns : List Turn} {h : History}
    (hrun : requestMachine.run requestMachine.init turns = some h) :
    (∀ x y, x < h.tracker.requestCount → y < h.tracker.requestCount →
      (h.tracker.requests x).top = (h.tracker.requests y).top →
        h.tracker.idOf x = h.tracker.idOf y → x = y) ∧
    h.tracker.typedRoots.map h.tracker.idOf =
      List.range' 1 h.tracker.typedRoots.length := by
  have hs := History.scheduled.run (guarded_true _ _) hrun
  exact ⟨fun x y hx hy htop hid =>
    hs.numbered.eq_of_idOf hs.wellFormed hx hy htop hid, hs.numbered.roots⟩

/-- Under every schedule: each child is listed once by its parent and by
nobody else; parents are older than their children, and `top` is where the
walk up the parents ends; the ancestors of a traced request are traced; the
recursions of `stop` and `traceStart` end; and events are for parentless
requests, at most one for each. -/
theorem request_forest {turns : List Turn} {h : History}
    (hrun : requestMachine.run requestMachine.init turns = some h) :
    (∀ x p, h.tracker.parentOf x = some p →
      (h.tracker.requests p).children.count x = 1 ∧
        ∀ q, q ≠ p → x ∉ (h.tracker.requests q).children) ∧
    (∀ x p, h.tracker.parentOf x = some p →
      p < x ∧ ¬ Ancestor h.tracker.parentOf p x) ∧
    (∀ x < h.tracker.requestCount,
      Ancestor h.tracker.parentOf x (h.tracker.requests x).top ∧
        h.tracker.parentOf (h.tracker.requests x).top = none) ∧
    (∀ x a, Ancestor h.tracker.parentOf x a → h.tracker.Traced x →
      h.tracker.Traced a) ∧
    (∀ stack clock r,
      (Tracker.stopFuel clock (h.tracker.requestCount + 1)
        (h.tracker.resume stack) r).isSome) ∧
    (∀ r < h.tracker.requestCount,
      (Tracker.traceStart (h.tracker.requestCount + 1) h.tracker r).isSome) ∧
    (∀ e ∈ h.tracker.emitted, h.tracker.parentOf e.request = none) ∧
    (h.tracker.emitted.map RequestEvent.request).Nodup := by
  have hs := History.scheduled.run (guarded_true _ _) hrun
  have hwf := hs.wellFormed
  refine ⟨?children, ?older, ?top, ?traced, ?stop, ?trace,
    hs.announced.root, hs.announced.nodup⟩
  case children =>
    intro x p hp
    constructor
    · exact List.count_eq_one_of_mem (hwf.children_nodup p)
        (hwf.mem_children.mpr hp)
    · intro q hq hmem
      have hp' := hwf.mem_children.mp hmem
      exact hq (Option.some.inj (hp'.symm.trans hp))
  case older =>
    intro x p hp
    exact ⟨hwf.parent_lt hp, not_ancestor_of_parent hwf.parent_lt hp⟩
  case top =>
    intro x hx
    exact ⟨hwf.ancestor_top hx, hwf.parentOf_top hx⟩
  case traced =>
    intro x a hanc hx
    exact UpClosed.ancestor (fun hp => hs.tracedUp _ _ hp) hanc hx
  case stop =>
    intro stack clock r
    obtain ⟨s', hs', _⟩ := Tracker.stopFuel_isSome
      (Tracker.resume_wellFormed hwf stack) clock r
    exact Option.isSome_iff_exists.mpr ⟨s', hs'⟩
  case trace =>
    intro r hr
    obtain ⟨s', hs', _⟩ := Tracker.traceStart_spec
      (h.tracker.requestCount + 1) hwf.heapShape (r := r) (by omega)
    exact Option.isSome_iff_exists.mpr ⟨s', hs'⟩

namespace RequestSchedulesWitness

/-- A root request and an inner one, an untyped request outside any domain,
a second root, and a stop in the wrong domain. -/
def mixed : List Turn :=
  [⟨[], ⟨10, 1⟩, .startRequest (some "http") "GET /" true none⟩,
    ⟨[0], ⟨20, 1⟩, .startMethod "render" none⟩,
    ⟨[], ⟨30, 2⟩, .startMethod "timer" none⟩,
    ⟨[], ⟨40, 2⟩, .startRequest (some "http") "GET /a" true none⟩,
    ⟨[1, 0], ⟨50, 3⟩, .stop 1⟩,
    ⟨[1], ⟨60, 3⟩, .stop 0⟩]

theorem mixed_runs :
    (requestMachine.run requestMachine.init mixed).isSome := by
  decide +kernel

theorem request_ids_mixed :
    ∃ h, requestMachine.run requestMachine.init mixed = some h ∧
      (∀ x y, x < h.tracker.requestCount → y < h.tracker.requestCount →
        (h.tracker.requests x).top = (h.tracker.requests y).top →
          h.tracker.idOf x = h.tracker.idOf y → x = y) ∧
      h.tracker.typedRoots.map h.tracker.idOf =
        List.range' 1 h.tracker.typedRoots.length := by
  obtain ⟨h, hrun⟩ := Option.isSome_iff_exists.mp mixed_runs
  exact ⟨h, hrun, request_ids hrun⟩

theorem request_forest_mixed :
    ∃ h, requestMachine.run requestMachine.init mixed = some h ∧
      (∀ x p, h.tracker.parentOf x = some p →
        (h.tracker.requests p).children.count x = 1 ∧
          ∀ q, q ≠ p → x ∉ (h.tracker.requests q).children) ∧
      (h.tracker.emitted.map RequestEvent.request).Nodup := by
  obtain ⟨h, hrun⟩ := Option.isSome_iff_exists.mp mixed_runs
  obtain ⟨hchildren, _, _, _, _, _, _, hnodup⟩ := request_forest hrun
  exact ⟨h, hrun, hchildren, hnodup⟩

end RequestSchedulesWitness

end Appmetrics
