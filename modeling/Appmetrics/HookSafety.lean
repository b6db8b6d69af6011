/-
When the hooks of each instrumented method return.  Most take any arguments;
the others are listed with what they need.
-/
import Appmetrics.ConnectionNeeds
import Appmetrics.HookNeeds
import Appmetrics.Sites

namespace Appmetrics

open Effect StepMachine

namespace Needs

/-- Nothing is needed. -/
def free : Needs :=
  ⟨fun _ _ => True, fun _ _ _ _ => True, fun _ _ _ _ => True,
    fun _ _ _ _ => True⟩

/-- Start before the call, end in the callback or, without one, after it. -/
def operation (reads starts : Call → Prop)
    (ends : Call → Option (List JsValue) → Probe → ProbeData → Prop) :
    Needs where
  before c p := reads c ∧ (p.requestProbeStart = .live → starts c)
  hookBefore c args p d := ends c.advised (some args) p d
  hookAfter _ _ _ _ := True
  after c _ p d :=
    reads c ∧ (Aspect.findCallbackArg c.methodArgs = none → ends c none p d)

/-- Start before each invocation of the listener, end after it. -/
def listener (reads : Call → Prop)
    (ends : Call → List JsValue → Probe → ProbeData → Prop) : Needs :=
  { free with
    hookBefore := fun c _ _ _ => reads c.advised
    hookAfter := fun c args p d => ends c.advised args p d }

/-- Only the hook before the callback needs something. -/
def handed (attaches : List JsValue → Prop) : Needs :=
  { free with hookBefore := fun _ args _ _ => attaches args }

/-- The object that is handed out gets methods replaced. -/
def product : Needs :=
  { free with after := fun _ rc _ _ => rc.nullish = false }

theorem endWithoutCallback_returns {c : Call} {ends : Js Unit}
    {s : HookState} :
    (Advice.endWithoutCallback c ends).Returns s ↔
      (Aspect.findCallbackArg c.methodArgs = none → ends.Returns s) := by
  unfold Advice.endWithoutCallback
  split
  · rename_i hcallback
    rw [imp_iff_right hcallback]
  · rename_i hcallback
    exact iff_of_true (Comp.returns_pure _ _) fun h => absurd h hcallback

theorem operation_exact {i : Instrument} {around passes : Bool}
    {reads : Call → Except JsError Unit}
    {extra : Call → Option (List JsValue) → Except JsError (List JsValue)}
    {R S : Call → Prop}
    {E : Call → Option (List JsValue) → Probe → ProbeData → Prop}
    (hreads : ∀ c, Gives (reads c) ↔ R c)
    (hstarts : ∀ c, i.StartsRequest c ↔ S c)
    (hends : ∀ c args p d,
      (∃ more, extra c args = .ok more ∧ i.EndsSafely c more p d) ↔
        E c args p d) :
    (operation R S E).Exact (.operation i around passes reads extra) where
  before c clock s := by
    change (Comp.eval (reads c) >>= fun _ => i.startHooks c clock).Returns s ↔
      R c ∧ (s.probe.requestProbeStart = .live → S c)
    rw [Comp.returns_eval_then, i.startHooks_returns, hreads, hstarts]
  hookBefore c _ target args clock s := by
    change (Comp.eval (extra c.advised (some args)) >>= fun more =>
      i.endHooks c.advised more clock).Returns s ↔ _
    rw [Comp.returns_eval_bind]
    simp only [i.endHooks_returns]
    exact hends c.advised (some args) s.probe s.probeData
  hookAfter c target args clock s :=
    iff_of_true (Comp.returns_pure _ _) trivial
  after hook hhook c rc clock s := by
    cases around with
    | false => cases hhook
    | true =>
        cases hhook
        change _ ↔ R c ∧ (Aspect.findCallbackArg c.methodArgs = none →
          E c none s.probe s.probeData)
        rw [Comp.returns_eval_then, hreads, Comp.returns_bind_pure,
          endWithoutCallback_returns, Comp.returns_eval_bind]
        simp only [i.endHooks_returns, hends]

/-- An instrument that takes anything, with nothing else to read. -/
theorem free_operation_exact {i : Instrument} {around passes : Bool}
    {extra : Call → Option (List JsValue) → Except JsError (List JsValue)}
    (hi : i.Harmless) (htests : i.tests = true)
    (hextra : ∀ c args, Gives (extra c args)) :
    free.Exact (.operation i around passes (fun _ => .ok ()) extra) := by
  have hends (c : Call) (args : Option (List JsValue)) (p : Probe)
      (d : ProbeData) :
      ∃ more, extra c args = .ok more ∧ i.EndsSafely c more p d := by
    obtain ⟨more, hmore⟩ := hextra c args
    refine ⟨more, hmore, (hi.reads.ends c more p d).mpr ?_⟩
    rw [htests]
    exact Reads.free_ends c more p d
  have hexact : (operation (fun _ => True) (fun _ => True)
      fun _ _ _ _ => True).Exact
      (.operation i around passes (fun _ => .ok ()) extra) :=
    operation_exact (fun _ => iff_of_true (gives_ok _) trivial)
      hi.reads.start fun _ _ _ _ => iff_of_true (hends _ _ _ _) trivial
  exact ⟨fun c clock s =>
      (hexact.before c clock s).trans (by simp [operation, free]),
    hexact.hookBefore, hexact.hookAfter, fun hook hhook c rc clock s =>
      (hexact.after hook hhook c rc clock s).trans
        (by simp [operation, free])⟩

theorem listener_exact {i : Instrument} {applies : Call → Bool}
    {reads : Call → Except JsError Unit}
    {started ended : Call → List JsValue → Call} {extra : List JsValue}
    {R : Call → Prop} {E : Call → List JsValue → Probe → ProbeData → Prop}
    (hreads : ∀ c, Gives (reads c) ↔ R c)
    (hstarts : ∀ c, i.StartsRequest c)
    (hends : ∀ c args p d,
      i.EndsSafely (ended c args) extra p d ↔ E c args p d) :
    (listener R E).Exact
      (.listener i applies reads started ended extra) where
  before _ _ _ := iff_of_true (Comp.returns_pure _ _) trivial
  hookBefore c _ target args clock s := by
    change (Comp.eval (reads c.advised) >>= fun _ =>
      i.startHooks (started c.advised args) clock).Returns s ↔ R c.advised
    rw [Comp.returns_eval_then, i.startHooks_returns, hreads]
    exact and_iff_left fun _ => hstarts _
  hookAfter c target args clock s :=
    (i.endHooks_returns _ _ _ _).trans (hends _ _ _ _)
  after _ hhook := nomatch hhook

/-- A listener of an instrument that takes anything. -/
theorem free_listener_exact {i : Instrument} {applies : Call → Bool}
    {reads : Call → Except JsError Unit}
    {started ended : Call → List JsValue → Call} {extra : List JsValue}
    {R : Call → Prop} (hi : i.Harmless) (htests : i.tests = true)
    (hreads : ∀ c, Gives (reads c) ↔ R c) :
    (listener R fun _ _ _ _ => True).Exact
      (.listener i applies reads started ended extra) :=
  listener_exact hreads (fun c => (hi.reads.start c).mpr trivial)
    fun _ _ p d => iff_of_true
      ((hi.reads.ends _ extra p d).mpr
        (htests ▸ Reads.free_ends _ extra p d)) trivial

theorem handed_exact {applies : Call → Bool}
    {attaches : List JsValue → Except JsError Unit}
    {A : List JsValue → Prop}
    (hattaches : ∀ args, Gives (attaches args) ↔ A args) :
    (handed A).Exact (.handed applies attaches) where
  before _ _ _ := iff_of_true (Comp.returns_pure _ _) trivial
  hookBefore _ _ _ args _ _ := Comp.returns_eval.trans (hattaches args)
  hookAfter _ _ _ _ _ := iff_of_true (Comp.returns_pure _ _) trivial
  after _ hhook := nomatch hhook

theorem attach_gives {v : JsValue} {meth : String} {meths : List String} :
    Gives (Aspect.attach v (meth :: meths)) ↔ v.nullish = false := by
  induction meths generalizing meth with
  | nil => exact gives_map.trans JsValue.gives_get
  | cons m ms ih =>
      rw [Aspect.attach, gives_bind_const fun _ => ih, JsValue.gives_get]
      exact and_self_iff

theorem product_exact {meths : Call → List String}
    (hmeths : ∀ c, meths c ≠ []) : product.Exact (.product meths) where
  before _ _ _ := iff_of_true (Comp.returns_pure _ _) trivial
  hookBefore _ _ _ _ _ _ := iff_of_true (Comp.returns_pure _ _) trivial
  hookAfter _ _ _ _ _ := iff_of_true (Comp.returns_pure _ _) trivial
  after hook hhook c rc clock s := by
    cases hhook
    obtain ⟨meth, rest, hc⟩ := List.exists_cons_of_ne_nil (hmeths c)
    rw [Comp.returns_bind_pure, Comp.returns_eval, hc, attach_gives]
    rfl

/-- Hooks that always return. -/
theorem free_exact {a : Advice}
    (hbefore : ∀ c clock s, (a.before c clock).Returns s)
    (hhookBefore : ∀ c target args clock s,
      (a.hookBefore c target args clock).Returns s)
    (hhookAfter : ∀ c target args clock s,
      (a.hookAfter c target args clock).Returns s)
    (hafter : ∀ hook ∈ a.after, ∀ c rc clock s,
      (hook c rc clock).Returns s) : free.Exact a where
  before _ _ _ := iff_of_true (hbefore _ _ _) trivial
  hookBefore _ _ _ _ _ _ := iff_of_true (hhookBefore _ _ _ _ _) trivial
  hookAfter _ _ _ _ _ := iff_of_true (hhookAfter _ _ _ _ _) trivial
  after hook hhook _ _ _ _ := iff_of_true (hafter hook hhook _ _ _ _) trivial

end Needs

namespace Instrument

theorem Harmless.startHooks_returns {i : Instrument} (hi : i.Harmless)
    (c : Call) (clock : Clock) (s : HookState) :
    (i.startHooks c clock).Returns s :=
  (i.startHooks_returns c clock s).mpr fun _ =>
    (hi.reads.start c).mpr trivial

theorem Harmless.endHooks_returns {i : Instrument} (hi : i.Harmless)
    (htests : i.tests = true) (c : Call) (extra : List JsValue)
    (clock : Clock) (s : HookState) : (i.endHooks c extra clock).Returns s :=
  (i.endHooks_returns c extra clock s).mpr
    ((hi.reads.ends c extra _ _).mpr (htests ▸ Reads.free_ends c extra _ _))

end Instrument

theorem Redis.operation_exact (told : Call → Call) :
    Needs.free.Exact (operation told) :=
  Needs.free_exact (fun _ => harmless.startHooks_returns _)
    (fun _ _ _ => harmless.endHooks_returns rfl _ _)
    (fun _ _ _ _ _ => Comp.returns_pure _ _)
    fun hook hhook c rc clock s => by
      cases hhook
      rw [Comp.returns_bind_pure, Needs.endWithoutCallback_returns]
      exact fun _ => harmless.endHooks_returns rfl _ _ _ _

/-- An `enclosing` advice takes any arguments, too. -/
theorem enclosing_exact {i : Instrument} {passes : Bool} {told : Call → Call}
    (hi : i.Harmless) (htests : i.tests = true) :
    Needs.free.Exact (.enclosing i passes told) :=
  Needs.free_exact (fun _ => hi.startHooks_returns _)
    (fun _ _ _ _ _ => Comp.returns_pure _ _)
    (fun _ _ _ _ _ => Comp.returns_pure _ _)
    fun hook hhook c rc clock s => by
      cases hhook
      rw [Comp.returns_bind_pure]
      exact hi.endHooks_returns htests _ _ _ _

end Appmetrics
