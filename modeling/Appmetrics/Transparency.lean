/-
What the application sees of an instrumented method against what it would see
of the original one: each step of a call shows it the same, up to a callback
that is replaced by a function that forwards to it.
-/
import Appmetrics.SiteNeeds

namespace Appmetrics

open Effect StepMachine

/-- The arguments are passed on, or one function among them is replaced by
one that forwards to it. -/
def Forwards (given passed : List JsValue) : Prop :=
  passed = given ∨
    ∃ i f, given[i]? = some f ∧ f.isFunction = true ∧
      passed = given.set i f.forwarder

/-- What a step shows is what the original method would show: it is called
with its receiver and arguments, the callback is called with its own, and
what comes of both calls is passed on. -/
def Transparent (c : Call) (t : CallTurn) (s : CallState) : Prop :=
  match t.event with
  | .enter => ∃ args, s.seen = some (.called c.target args) ∧
      Forwards c.methodArgs args
  | .invoke target args => s.seen = some (.called target args)
  | .complete outcome => s.seen = some (.finished outcome)
  | .leave outcome => s.seen = some (.finished outcome)
  | _ => True

namespace Aspect

theorem forwards_replaceAt {args : List JsValue} {position : Option Nat}
    (hfunction : ∀ i ∈ position, ∃ f, args[i]? = some f ∧
      f.isFunction = true) : Forwards args (replaceAt args position) := by
  cases position with
  | none => exact Or.inl rfl
  | some i =>
      obtain ⟨f, hf, hcall⟩ := hfunction i rfl
      refine Or.inr ⟨i, f, hf, hcall, ?_⟩
      apply List.ext_getElem?
      intro j
      by_cases hj : i = j
      · subst hj
        obtain ⟨hlt, rfl⟩ := List.getElem?_eq_some_iff.mp hf
        simp [replaceAt, hlt]
      · simp [replaceAt, hj]

theorem findCallbackArg_function {args : List JsValue} {i : Nat}
    (hi : findCallbackArg args = some i) :
    ∃ f, args[i]? = some f ∧ f.isFunction = true := by
  obtain ⟨hlt, hfunction, _⟩ := List.findIdx?_eq_some_iff_getElem.mp hi
  exact ⟨args[i], List.getElem?_eq_getElem hlt, hfunction⟩

end Aspect

namespace Site

/-- Methods whose hook forgets to return the result. -/
def drops : Site → Bool
  | serverEnd .. => true
  | redisCommand => true
  | redisExec _ => true
  | socketioBroadcast => true
  | _ => false

/-- What the caller gets when the original returns `rc`. -/
def result (site : Site) (rc : JsValue) : JsValue :=
  if site.drops then .undefined else rc

/-- The receiver and the result are passed on: the methods of a traced
response are applied to the response, and some results are dropped. -/
def Passes (site : Site) (c : Call) (t : CallTurn) : Prop :=
  match t.event with
  | .enter => ∀ args, site = traceRespond args → c.target = Trace.resArg args
  | .leave (.returned rc) => site.drops = true → rc = .undefined
  | _ => True

theorem callback_cases (site : Site) (c : Call) :
    site.advice.callback c = none ∨
      site.advice.callback c = Aspect.findCallbackArg c.methodArgs ∨
      ∃ fullName methodString, site = traceMethod fullName methodString := by
  have hif (b : Bool) (o : Option Nat) :
      (if b then o else none) = none ∨ (if b then o else none) = o := by
    cases b <;> simp
  cases site with
  | traceMethod fullName methodString =>
      exact Or.inr (Or.inr ⟨fullName, methodString, rfl⟩)
  | serverListen https filters =>
      exact (hif _ _).imp_right Or.inl
  | mqlightListen client => exact (hif _ _).imp_right Or.inl
  | mqttListen => exact (hif _ _).imp_right Or.inl
  | socketioOn => exact (hif _ _).imp_right Or.inl
  | _ => first | exact Or.inl rfl | exact Or.inr (Or.inl rfl)

theorem callback_function (site : Site) (c : Call) :
    ∀ i ∈ site.advice.callback c, ∃ f, c.methodArgs[i]? = some f ∧
      f.isFunction = true := by
  intro i hi
  rcases callback_cases site c with hnone | hfind |
    ⟨fullName, methodString, rfl⟩
  · rw [hnone] at hi
    cases hi
  · rw [hfind] at hi
    exact Aspect.findCallbackArg_function hi
  · obtain ⟨hguard, hlast⟩ := Option.ite_none_right_eq_some.mp hi
    cases hlast
    obtain ⟨v, hv, hcall⟩ :=
      Trace.isCallback_last (Bool.and_eq_true_iff.mp hguard).1
    rw [List.getLast?_eq_getElem?] at hv
    exact ⟨v, hv, hcall⟩

/-- Whatever the hook does first, it returns this result or throws. -/
theorem after_yields (site : Site) :
    ∀ hook ∈ site.advice.after, ∀ c rc clock,
      (hook c rc clock).Yields (site.result rc) := by
  have hone {A : Type} (m : Js A) (v : JsValue) :
      (m >>= fun _ => pure v).Yields v :=
    .bind fun _ => Comp.yields_pure v
  have htwo {A B : Type} (m : Js A) (n : A → Js B) (v : JsValue) :
      (m >>= fun a => n a >>= fun _ => pure v).Yields v :=
    .bind fun a => hone (n a) v
  intro hook hhook c rc clock
  cases site with
  | oraclePrepare =>
      cases hhook
      exact Comp.yields_throw _ _
  | traceRespond args =>
      cases hhook
      exact Comp.yields_pure _
  | _ => cases hhook <;> first | exact hone _ _ | exact htwo _ _ _

theorem receiver_eq (site : Site) (c : Call) :
    site.advice.receiver c = c.target ↔
      ∀ args, site = traceRespond args → c.target = Trace.resArg args := by
  cases site with
  | traceRespond args => 
      constructor
      · rintro h _ ⟨⟩
        exact h.symm
      · intro h
        exact (h args rfl).symm
  | _ => exact iff_of_true rfl nofun

theorem passed_forwards (site : Site) (c : Call) :
    Forwards c.methodArgs (site.advice.passed c) :=
  Aspect.forwards_replaceAt (site.callback_function c)

theorem enter_transparent (site : Site) (c : Call) (clock : Clock)
    (s : CallState) :
    (∃ args, (s.enter site.advice c clock).seen = some (.called c.target args)
        ∧ Forwards c.methodArgs args) ↔
      (s.enter site.advice c clock).seen =
          some (.called (site.advice.receiver c) (site.advice.passed c)) ∧
        site.advice.receiver c = c.target := by
  constructor
  · rintro ⟨args, hseen, _⟩
    rcases hbefore : site.advice.before c clock
      (CallState.opened site.advice s.hooks) with ⟨e | _, h⟩
    · simp [CallState.enter, hbefore] at hseen
    · simp only [CallState.enter, hbefore, Option.some.injEq,
        Observation.called.injEq] at hseen ⊢
      exact ⟨trivial, hseen.1⟩
  · rintro ⟨hseen, hreceiver⟩
    rw [hreceiver] at hseen
    exact ⟨_, hseen, site.passed_forwards c⟩

theorem leave_transparent (site : Site) (c : Call) (clock : Clock)
    (rc : JsValue) (s : CallState) :
    (s.leave site.advice c clock (.returned rc)).seen =
        some (.finished (.returned rc)) ↔
      (∀ e, (s.leave site.advice c clock (.returned rc)).seen ≠
          some (.hookThrew e)) ∧
        (site.drops = true → rc = .undefined) := by
  cases hafter : site.advice.after with
  | none =>
      have hdrops : site.drops = false := by
        cases site <;> first | rfl | cases hafter
      simp [CallState.leave, hafter, hdrops]
  | some hook =>
      rcases hhook : hook c rc clock s.hooks with ⟨e | v, h⟩
      · simp [CallState.leave, hafter, hhook]
      · have hv := site.after_yields hook hafter c rc clock _ _ _ hhook
        simp only [CallState.leave, hafter, hhook, hv, result]
        cases site.drops <;> simp [eq_comm]

/-- One step is transparent exactly when its hook lets the application's code
run and passes on what it should. -/
theorem transparent_iff (site : Site) {c : Call} {s s' : CallState}
    {t : CallTurn} (hstep : CallState.step site.advice c s t = some s') :
    Transparent c t s' ↔
      CallState.Runs site.advice c t s' ∧ site.Passes c t := by
  have hcases := CallState.step_eq_some hstep
  rcases t with ⟨stack, clock, event⟩
  cases event with
  | enter =>
      obtain ⟨_, rfl⟩ := hcases
      exact (site.enter_transparent c clock _).trans
        (and_congr_right fun _ => site.receiver_eq c)
  | invoke target args => exact (and_iff_left trivial).symm
  | complete outcome =>
      obtain ⟨target, args, pending, _, rfl⟩ := hcases
      exact CallState.complete_runs.symm.trans (and_iff_left trivial).symm
  | leave outcome =>
      obtain ⟨_, rfl⟩ := hcases
      cases outcome with
      | threw e => exact iff_of_true rfl ⟨nofun, trivial⟩
      | returned rc => exact site.leave_transparent c clock rc _
  | switch call own =>
      cases hcases
      exact iff_of_true trivial ⟨nofun, trivial⟩
  | turn call =>
      obtain ⟨_, rfl⟩ := hcases
      exact iff_of_true trivial ⟨nofun, trivial⟩

end Site

/-- Over every run of every call: each step is transparent if and only if
each hook has what it needs and passes on what it should. -/
theorem transparency_iff (site : Site) (c : Call) (init : HookState)
    {run : List CallTurn} {t : CallState}
    (hrun : (callMachine site.advice c init).run
      (callMachine site.advice c init).init run = some t) :
    (callMachine site.advice c init).Guarded
        (fun s t => site.needs.Met site.advice c s t ∧ site.Passes c t)
        (callMachine site.advice c init).init run ↔
      (callMachine site.advice c init).Each
        (fun _ t s' => Transparent c t s')
        (callMachine site.advice c init).init run := by
  have hinductive : (callMachine site.advice c init).Inductive
      (fun s t => True ∧ site.needs.Met site.advice c s t ∧ site.Passes c t)
      fun _ => True := ⟨trivial, fun _ _ _ => trivial⟩
  refine hinductive.guarded_iff_each (fun _ _ hstep => ?_) trivial
    (guarded_true _ _) hrun
  rw [site.transparent_iff hstep,
    CallState.met_iff_runs site.needs_exact hstep]

namespace TransparencyWitness

open HookWitness

/-- A command whose answer comes as a promise. -/
def get : Call := ⟨object, .string "get", [.string "key"]⟩

def promise : JsValue := .object [("then", callback)] true true

def answered : List CallTurn :=
  [⟨[], clock 1, .enter⟩, ⟨[], clock 2, .leave (.returned promise)⟩]

/-- The promise is lost. -/
theorem get_loses_result :
    ¬(callMachine Site.redisCommand.advice get (metricsOnly "redis")).Each
      (fun _ t s' => Transparent get t s')
      (callMachine Site.redisCommand.advice get (metricsOnly "redis")).init
      answered := by
  intro heach
  have hleft := ((heach _ rfl).2 _ rfl).1
  cases hleft

theorem transparency_iff_get :
    (callMachine Site.redisCommand.advice get (metricsOnly "redis")).Guarded
        (fun s t => Site.redisCommand.needs.Met Site.redisCommand.advice get
          s t ∧ Site.redisCommand.Passes get t)
        (callMachine Site.redisCommand.advice get
          (metricsOnly "redis")).init answered ↔
      (callMachine Site.redisCommand.advice get (metricsOnly "redis")).Each
        (fun _ t s' => Transparent get t s')
        (callMachine Site.redisCommand.advice get
          (metricsOnly "redis")).init answered :=
  transparency_iff Site.redisCommand get (metricsOnly "redis") rfl

end TransparencyWitness

end Appmetrics
