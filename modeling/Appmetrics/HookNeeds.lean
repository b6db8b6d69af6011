/-
When the hooks of an advice return: conditions on the call, the probe's
switches and the context object, checked before each step of a call.
-/
import Appmetrics.Aspect
import Appmetrics.HookEffects

namespace Appmetrics

open Effect StepMachine

/-- What the four hooks of an advice need in order to return. -/
structure Needs where
  before : Call → Probe → Prop
  hookBefore : Call → List JsValue → Probe → ProbeData → Prop
  hookAfter : Call → List JsValue → Probe → ProbeData → Prop
  after : Call → JsValue → Probe → ProbeData → Prop

namespace Needs

/-- These are exactly the needs of the advice. -/
structure Exact (n : Needs) (a : Advice) : Prop where
  before : ∀ c clock s, (a.before c clock).Returns s ↔ n.before c s.probe
  hookBefore : ∀ c, (a.callback c).isSome = true → ∀ target args clock s,
    (a.hookBefore c target args clock).Returns s ↔
      n.hookBefore c args s.probe s.probeData
  hookAfter : ∀ c target args clock s,
    (a.hookAfter c target args clock).Returns s ↔
      n.hookAfter c args s.probe s.probeData
  after : ∀ hook ∈ a.after, ∀ c rc clock s,
    (hook c rc clock).Returns s ↔ n.after c rc s.probe s.probeData

/-- The hook that runs on this turn has what it needs. -/
def Met (n : Needs) (a : Advice) (c : Call) (s : CallState) (t : CallTurn) :
    Prop :=
  match t.event with
  | .enter => n.before c s.hooks.probe
  | .invoke _ args => n.hookBefore c args s.hooks.probe s.hooks.probeData
  | .complete (.returned _) =>
      ∀ target args pending, s.pending = (target, args) :: pending →
        n.hookAfter c args s.hooks.probe s.hooks.probeData
  | .leave (.returned rc) =>
      a.after.isSome = true → n.after c rc s.hooks.probe s.hooks.probeData
  | _ => True

end Needs

namespace CallState

variable {a : Advice} {c : Call}

/-- The application's code runs: the original method, its callback, and what
comes after them. -/
def Runs (a : Advice) (c : Call) (t : CallTurn) (s : CallState) : Prop :=
  match t.event with
  | .enter => s.seen = some (.called (a.receiver c) (a.passed c))
  | .invoke target args => s.seen = some (.called target args)
  | _ => ∀ e, s.seen ≠ some (.hookThrew e)

theorem step_eq_some {s s' : CallState} {t : CallTurn}
    (hstep : step a c s t = some s') :
    match t.event with
    | .enter =>
        s.phase = .idle ∧ s' = (s.resume t.stack).enter a c t.clock
    | .invoke target args =>
        ((a.callback c).isSome = true ∧ s.Called) ∧
          s' = (s.resume t.stack).invoke a c t.clock target args
    | .complete outcome =>
        ∃ target args pending, s.pending = (target, args) :: pending ∧
          s' = ({ s.resume t.stack with pending := pending } :
            CallState).complete a c t.clock outcome target args
    | .leave outcome =>
        s.phase = .running ∧
          s' = (s.resume t.stack).leave a c t.clock outcome
    | .switch call own => s' = (s.resume t.stack).switch call own
    | .turn call =>
        call.Valid s.hooks.tracker ∧
          s' = { s.resume t.stack with
            hooks := { (s.resume t.stack).hooks with
              tracker := call.perform t.clock
                (s.resume t.stack).hooks.tracker }
            seen := none } := by
  unfold step at hstep
  split at hstep
  · rcases t with ⟨stack, clock, event⟩
    cases event with
    | enter =>
        simp only [Option.ite_none_right_eq_some, Option.some.injEq] at hstep
        exact ⟨hstep.1, hstep.2.symm⟩
    | invoke target args =>
        simp only [Option.ite_none_right_eq_some, Option.some.injEq] at hstep
        exact ⟨hstep.1, hstep.2.symm⟩
    | complete outcome =>
        rcases hpending : s.pending with _ | ⟨⟨target, args⟩, pending⟩
        · simp [resume, hpending] at hstep
        · simp only [resume, hpending, Option.some.injEq] at hstep
          exact ⟨target, args, pending, rfl, hstep.symm⟩
    | leave outcome =>
        simp only [Option.ite_none_right_eq_some, Option.some.injEq] at hstep
        exact ⟨hstep.1, hstep.2.symm⟩
    | switch call own => exact (Option.some.inj hstep).symm
    | turn call =>
        simp only [Option.ite_none_right_eq_some, Option.some.injEq] at hstep
        exact ⟨hstep.1, hstep.2.symm⟩
  · cases hstep

theorem enter_seen {clock : Clock} {s : CallState} :
    (s.enter a c clock).seen = some (.called (a.receiver c) (a.passed c)) ↔
      (a.before c clock).Returns (opened a s.hooks) := by
  unfold enter Comp.Returns
  rcases a.before c clock (opened a s.hooks) with ⟨e | v, h⟩ <;> simp

theorem invoke_seen {clock : Clock} {target : JsValue} {args : List JsValue}
    {s : CallState} :
    (s.invoke a c clock target args).seen = some (.called target args) ↔
      (a.hookBefore c target args clock).Returns s.hooks := by
  unfold invoke Comp.Returns
  rcases a.hookBefore c target args clock s.hooks with ⟨e | v, h⟩ <;> simp

theorem complete_seen {clock : Clock} {v target : JsValue}
    {args : List JsValue} {s : CallState} :
    (s.complete a c clock (.returned v) target args).seen =
        some (.finished (.returned v)) ↔
      (a.hookAfter c target args clock).Returns s.hooks := by
  unfold complete Comp.Returns
  simp only
  rcases a.hookAfter c target args clock s.hooks with ⟨e | v, h⟩ <;> simp

theorem complete_runs {clock : Clock} {outcome : Outcome} {target : JsValue}
    {args : List JsValue} {s : CallState} :
    (∀ e, (s.complete a c clock outcome target args).seen ≠
        some (.hookThrew e)) ↔
      (s.complete a c clock outcome target args).seen =
        some (.finished outcome) := by
  unfold complete
  cases outcome with
  | threw e => simp
  | returned v =>
      simp only
      rcases a.hookAfter c target args clock s.hooks with ⟨e | v, h⟩ <;> simp

theorem leave_returns {clock : Clock} {rc : JsValue} {s : CallState}
    {hook : Call → JsValue → Clock → Js JsValue} (hafter : a.after = some hook) :
    (∀ e, (s.leave a c clock (.returned rc)).seen ≠ some (.hookThrew e)) ↔
      (hook c rc clock).Returns s.hooks := by
  unfold leave Comp.Returns
  simp only [hafter]
  rcases hook c rc clock s.hooks with ⟨e | v, h⟩ <;> simp

theorem opened_probe (h : HookState) : (opened a h).probe = h.probe := by
  unfold opened
  split <;> rfl

/-- A step lets the application's code run exactly when its hook has what it
needs. -/
theorem met_iff_runs {n : Needs} (hn : n.Exact a) {s s' : CallState}
    {t : CallTurn} (hstep : step a c s t = some s') :
    n.Met a c s t ↔ Runs a c t s' := by
  have hcases := step_eq_some hstep
  rcases t with ⟨stack, clock, event⟩
  cases event with
  | enter =>
      obtain ⟨_, rfl⟩ := hcases
      have hbefore := hn.before c clock (opened a (s.resume stack).hooks)
      rw [opened_probe] at hbefore
      exact hbefore.symm.trans enter_seen.symm
  | invoke target args =>
      obtain ⟨⟨hcallback, _⟩, rfl⟩ := hcases
      have hbefore := hn.hookBefore c hcallback target args clock
        (s.resume stack).hooks
      exact hbefore.symm.trans invoke_seen.symm
  | complete outcome =>
      obtain ⟨target, args, pending, hpending, rfl⟩ := hcases
      rw [Runs, complete_runs]
      cases outcome with
      | threw e => exact iff_of_true trivial rfl
      | returned v =>
          rw [Needs.Met, complete_seen, hn.hookAfter]
          simp [hpending, resume]
  | leave outcome =>
      obtain ⟨_, rfl⟩ := hcases
      cases outcome with
      | threw e => exact iff_of_true trivial nofun
      | returned rc =>
          cases hafter : a.after with
          | none => simp [Needs.Met, Runs, leave, hafter]
          | some hook =>
              rw [Needs.Met, Runs, leave_returns hafter,
                hn.after hook hafter]
              simp [hafter, resume]
  | switch call own =>
      cases hcases
      exact iff_of_true trivial nofun
  | turn call =>
      obtain ⟨_, rfl⟩ := hcases
      exact iff_of_true trivial nofun

/-- Over whole runs, from any state of the switches and the rest. -/
theorem guarded_met_iff_each_runs {n : Needs} (hn : n.Exact a)
    {init : HookState} {run : List CallTurn} {t : CallState}
    (hrun : (callMachine a c init).run (callMachine a c init).init run =
      some t) :
    (callMachine a c init).Guarded (n.Met a c) (callMachine a c init).init
        run ↔
      (callMachine a c init).Each (fun _ t s' => Runs a c t s')
        (callMachine a c init).init run := by
  have hinductive : (callMachine a c init).Inductive
      (fun s t => True ∧ n.Met a c s t) fun _ => True :=
    ⟨trivial, fun _ _ _ => trivial⟩
  exact hinductive.guarded_iff_each (fun _ _ hstep => met_iff_runs hn hstep)
    trivial (guarded_true _ _) hrun

end CallState

end Appmetrics
