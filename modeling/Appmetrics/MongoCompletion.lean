/-
probes/mongo-probe.js: which of several functions among the arguments of a
collection method is wrapped, and when the ends of the operation come.
-/
import Appmetrics.OperationEnds

namespace Appmetrics

open Effect StepMachine

/-- A turn of a call; where it is an `invoke`, it is the argument at
`position` that the library calls. -/
structure DriverTurn where
  turn : CallTurn
  position : Nat

namespace CallState

/-- Only the argument that has been replaced runs hooks when it is called. -/
def driverStep (a : Advice) (c : Call) (s : CallState) (t : DriverTurn) :
    Option CallState :=
  match t.turn.event with
  | .invoke target args =>
      if a.callback c = some t.position then step a c s t.turn
      else if (∀ d ∈ t.turn.stack, d < s.hooks.tracker.domainCount) ∧
          s.Called ∧
          (c.methodArgs.getD t.position .undefined).isFunction = true then
        some { s.resume t.turn.stack with seen := some (.called target args) }
      else none
  | _ => step a c s t.turn

/-- What the original is called with is known from the advice. -/
theorem enter_called {a : Advice} {c : Call} {clock : Clock} {s : CallState}
    {target : JsValue} {args : List JsValue}
    (hseen : (s.enter a c clock).seen = some (.called target args)) :
    (s.enter a c clock).seen =
      some (.called (a.receiver c) (a.passed c)) ∧ a.passed c = args := by
  rcases hbefore : a.before c clock (opened a s.hooks) with ⟨e | v, h⟩
  · simp [enter, hbefore] at hseen
  · have hcalled : a.receiver c = target ∧ a.passed c = args := by
      simpa [enter, hbefore] using hseen
    simp [enter, hbefore, hcalled.2]

end CallState

/-- A call whose functions may all be called by the library. -/
def driverMachine (a : Advice) (c : Call) (init : HookState) :
    Machine CallState DriverTurn where
  init := ⟨init, .idle, [], 0, none⟩
  step := CallState.driverStep a c

theorem JsValue.forwarder_ne (v : JsValue) : forwarder v ≠ v := by
  intro h
  have hsize := congrArg sizeOf h
  simp only [forwarder.sizeOf_spec] at hsize
  omega

namespace Aspect

/-- The function that is found is the last argument if it is the only one. -/
theorem findCallbackArg_concat {args : List JsValue} {completion : JsValue}
    (hargs : ∀ v ∈ args, v.isFunction = false)
    (hcompletion : completion.isFunction = true) :
    findCallbackArg (args ++ [completion]) = some args.length := by
  have hnone : args.findIdx? JsValue.isFunction = none :=
    List.findIdx?_eq_none_iff.mpr hargs
  rw [findCallbackArg, List.findIdx?_append, hnone]
  simp [List.findIdx?_cons, hcompletion]

theorem findCallbackArg_lt {args : List JsValue} (completion : JsValue)
    {v : JsValue} (hv : v ∈ args) (hfunction : v.isFunction = true) :
    ∃ position, findCallbackArg (args ++ [completion]) = some position ∧
      position < args.length := by
  cases hfind : args.findIdx? JsValue.isFunction with
  | none =>
      have hno := List.findIdx?_eq_none_iff.mp hfind v hv
      rw [hfunction] at hno
      cases hno
  | some position =>
      have hlt := (List.findIdx?_eq_some_iff_getElem.mp hfind).1
      refine ⟨position, ?_, hlt⟩
      rw [findCallbackArg, List.findIdx?_append, hfind]
      rfl

/-- The last argument alone is replaced exactly when no function comes
before it. -/
theorem replaced_iff {args : List JsValue} {completion : JsValue}
    (hcompletion : completion.isFunction = true) :
    aroundCallback (args ++ [completion]) =
        args ++ [.forwarder completion] ↔
      ∀ v ∈ args, v.isFunction = false := by
  constructor
  · intro hreplaced v hv
    by_contra hfunction
    obtain ⟨position, hfind, hlt⟩ := findCallbackArg_lt
      completion hv (Bool.not_eq_false _ ▸ hfunction)
    have hget := congrArg (·[position]?) hreplaced
    simp only [aroundCallback, hfind, replaceAt, List.getElem?_modify,
      List.getElem?_append_left hlt, List.getElem?_eq_getElem hlt,
      if_true] at hget
    exact JsValue.forwarder_ne _ (Option.some.inj hget)
  · intro hargs
    rw [aroundCallback, findCallbackArg_concat hargs hcompletion, replaceAt,
      List.modify_eq_take_cons_drop (by simp)]
    simp

end Aspect

namespace Mongo

/-- What a step is to do in a call with these arguments before its completion
callback: the driver gets the wrapper in its place and nothing else is
changed, and a call of the last argument is one of the completion callback
that also ends the operation. -/
def CompletionStep (c : Call) (args : List JsValue) (completion : JsValue)
    (s : CallState) (t : DriverTurn) (s' : CallState) : Prop :=
  match t.turn.event with
  | .enter =>
      s'.seen =
        some (.called c.target (args ++ [JsValue.forwarder completion]))
  | .invoke target given =>
      t.position = args.length →
        s'.seen = some (.called target given) ∧
        ∃ timer r, s.hooks.probeData = ⟨some timer, some r⟩ ∧
          instrument.Ended t.turn.clock timer r
            (s.resume t.turn.stack).hooks s'.hooks
  | _ => True

/-- No other argument is a function, and the hooks have what they need. -/
def CompletionNeeds (c : Call) (args : List JsValue) (s : CallState)
    (t : DriverTurn) : Prop :=
  match t.turn.event with
  | .enter =>
      (∀ v ∈ args, v.isFunction = false) ∧
        collectionNeeds.before c s.hooks.probe
  | .invoke _ given =>
      t.position = args.length →
        (∀ v ∈ args, v.isFunction = false) ∧
          collectionNeeds.hookBefore c given s.hooks.probe s.hooks.probeData
  | _ => True

/-- After the start hooks. -/
def Started (args : List JsValue) (s : CallState) : Prop :=
  s.phase = .idle ∨ (∀ v ∈ args, v.isFunction = false) ∧
    ∃ timer r, s.hooks.probeData = ⟨some timer, some r⟩

theorem operates (c : Call) : collectionMethod.Operates instrument c :=
  have hsite : Site.mongoCollection.instrument? = some instrument := rfl
  Site.operates hsite trivial

section Completion

variable {c : Call} {args : List JsValue} {completion : JsValue}
  (hargs : c.methodArgs = args ++ [completion])
  (hcompletion : completion.isFunction = true)

include hargs hcompletion

theorem callback_eq_iff {position : Nat}
    (hfree : ∀ v ∈ args, v.isFunction = false) :
    collectionMethod.callback c = some position ↔ position = args.length := by
  change Aspect.findCallbackArg c.methodArgs = some position ↔ _
  rw [hargs, Aspect.findCallbackArg_concat hfree hcompletion]
  simp [eq_comm]

omit hcompletion in
theorem callback_ne_last {v : JsValue} (hv : v ∈ args)
    (hfunction : v.isFunction = true) :
    collectionMethod.callback c ≠ some args.length := by
  obtain ⟨position, hfind, hlt⟩ :=
    Aspect.findCallbackArg_lt completion hv hfunction
  change Aspect.findCallbackArg c.methodArgs ≠ _
  rw [hargs, hfind]
  simp only [ne_eq, Option.some.injEq]
  omega

omit hcompletion in
theorem passed_eq :
    collectionMethod.passed c = Aspect.aroundCallback (args ++ [completion]) := by
  rw [← hargs]
  rfl

/-- Entering a call. -/
theorem enter_iff {s s' : CallState} {stack : List Nat} {clock : Clock}
    (hstep : CallState.step collectionMethod c s ⟨stack, clock, .enter⟩ =
      some s') :
    s'.seen = some (.called c.target (args ++ [.forwarder completion])) ↔
      (∀ v ∈ args, v.isFunction = false) ∧
        collectionNeeds.before c s.hooks.probe := by
  have hmet := CallState.met_iff_runs collection_exact hstep
  change collectionNeeds.before c s.hooks.probe ↔
    s'.seen = some (.called c.target (collectionMethod.passed c)) at hmet
  rw [hmet, ← Aspect.replaced_iff hcompletion, ← passed_eq hargs]
  constructor
  · intro hseen
    obtain ⟨_, rfl⟩ := CallState.step_eq_some hstep
    obtain ⟨hcalled, hpassed⟩ := CallState.enter_called hseen
    exact ⟨hpassed, hcalled⟩
  · rintro ⟨hpassed, hseen⟩
    rw [hseen, hpassed]

/-- The driver calls its last argument. -/
theorem call_iff {s s' : CallState} {stack : List Nat} {clock : Clock}
    {target : JsValue} {given : List JsValue}
    (hstarted : Started args s) (hlive : s.hooks.probe.Live)
    (hstep : CallState.driverStep collectionMethod c s
      ⟨⟨stack, clock, .invoke target given⟩, args.length⟩ = some s') :
    (s'.seen = some (.called target given) ∧
        ∃ timer r, s.hooks.probeData = ⟨some timer, some r⟩ ∧
          instrument.Ended clock timer r (s.resume stack).hooks s'.hooks) ↔
      (∀ v ∈ args, v.isFunction = false) ∧
        collectionNeeds.hookBefore c given s.hooks.probe
          s.hooks.probeData := by
  by_cases hfree : ∀ v ∈ args, v.isFunction = false
  · have hcallback := (callback_eq_iff hargs hcompletion hfree).mpr rfl
    simp only [CallState.driverStep, if_pos hcallback] at hstep
    have hmet := CallState.met_iff_runs collection_exact hstep
    change collectionNeeds.hookBefore c given s.hooks.probe s.hooks.probeData ↔
      s'.seen = some (.called target given) at hmet
    rw [hmet, and_iff_right hfree]
    refine and_iff_left_of_imp fun hseen => ?_
    obtain ⟨⟨_, hcalled⟩, rfl⟩ := CallState.step_eq_some hstep
    rcases hstarted with hidle | ⟨_, timer, r, hdata⟩
    · exact absurd hidle hcalled.1
    · obtain ⟨⟨⟩, h, hbefore⟩ := CallState.invoke_seen.mp hseen
      refine ⟨timer, r, hdata, ?_⟩
      have hended := (operates c).hookBefore (s := (s.resume stack).hooks)
        hlive hdata hbefore
      rw [CallState.invoke, hbefore]
      exact hended
  · refine iff_of_false ?_ fun h => hfree h.1
    have hsome : ∃ v ∈ args, v.isFunction = true := by
      simpa using hfree
    obtain ⟨v, hv, hfunction⟩ := hsome
    have hcallback := callback_ne_last hargs hv hfunction
    simp only [CallState.driverStep, if_neg hcallback] at hstep
    obtain ⟨_, hstate⟩ := Option.ite_none_right_eq_some.mp hstep
    cases hstate
    rintro ⟨_, timer, r, _, e, _, hstate⟩
    have hemitted := congrArg (fun s => s.emitted.length) hstate
    simp at hemitted

omit hargs hcompletion in
/-- With a callback nothing is done after the call. -/
theorem leave_hooks {s : CallState} {clock : Clock} {outcome : Outcome}
    {position : Nat} (hcallback : collectionMethod.callback c = some position) :
    (s.leave collectionMethod c clock outcome).hooks = s.hooks := by
  have hfind : ¬Aspect.findCallbackArg c.methodArgs = none := by
    intro hnone
    cases hnone.symm.trans hcallback
  cases outcome with
  | threw e => rfl
  | returned rc =>
      cases hread : readsName c with
      | error e =>
          simp [CallState.leave, collectionMethod, Advice.operation,
            Comp.bind_apply, hread]
      | ok u =>
          simp [CallState.leave, collectionMethod, Advice.operation,
            Comp.bind_apply, hread, Advice.endWithoutCallback, if_neg hfind,
            Advice.idle]

/-- The timer and the request stay those of the call. -/
theorem started_step {s s' : CallState} {t : DriverTurn}
    (hstarted : Started args s)
    (hlive : s.hooks.probe.Live) (hneeds : CompletionNeeds c args s t)
    (hstep : CallState.driverStep collectionMethod c s t = some s') :
    Started args s' := by
  rcases t with ⟨⟨stack, clock, event⟩, position⟩
  have hkeeps {h : CallState} (hphase : h.phase = s.phase)
      (hdata : h.hooks.probeData = s.hooks.probeData) : Started args h := by
    rw [Started, hphase, hdata]
    exact hstarted
  cases event with
  | enter =>
      obtain ⟨hfree, hbefore⟩ := hneeds
      have hseen := (CallState.met_iff_runs collection_exact hstep).mp hbefore
      obtain ⟨_, rfl⟩ := CallState.step_eq_some hstep
      obtain ⟨⟨⟩, h, hstarts⟩ := CallState.enter_seen.mp hseen
      have hbegun := (operates c).before
        (by rw [CallState.opened_probe]; exact hlive) hstarts
      refine Or.inr ⟨hfree, ?_⟩
      rw [CallState.enter, hstarts]
      exact ⟨_, _, hbegun.probeData⟩
  | invoke target given =>
      by_cases hcallback : collectionMethod.callback c = some position
      · have hcall := hstep
        simp only [CallState.driverStep, if_pos hcallback] at hcall
        obtain ⟨⟨_, hcalled⟩, _⟩ := CallState.step_eq_some hcall
        rcases hstarted with hidle | ⟨hfree, timer, r, hdata⟩
        · exact absurd hidle hcalled.1
        · have hlast :=
            (callback_eq_iff hargs hcompletion hfree).mp hcallback
          subst hlast
          obtain ⟨_, _, _, _, e, _, hstate⟩ := (call_iff hargs hcompletion
            (Or.inr ⟨hfree, timer, r, hdata⟩) hlive hstep).mpr (hneeds rfl)
          refine Or.inr ⟨hfree, timer, r, ?_⟩
          rw [hstate]
          exact hdata
      · simp only [CallState.driverStep, if_neg hcallback] at hstep
        obtain ⟨_, hstate⟩ := Option.ite_none_right_eq_some.mp hstep
        cases hstate
        exact hkeeps rfl rfl
  | complete outcome =>
      obtain ⟨target, given, pending, _, rfl⟩ := CallState.step_eq_some hstep
      cases outcome with
      | threw e => exact hkeeps rfl rfl
      | returned v => exact hkeeps rfl rfl
  | leave outcome =>
      obtain ⟨hrunning, rfl⟩ := CallState.step_eq_some hstep
      rcases hstarted with hidle | ⟨hfree, timer, r, hdata⟩
      · rw [hidle] at hrunning
        cases hrunning
      · refine Or.inr ⟨hfree, timer, r, ?_⟩
        rw [leave_hooks
          ((callback_eq_iff hargs hcompletion hfree).mpr rfl)]
        exact hdata
  | switch call own =>
      cases CallState.step_eq_some (a := collectionMethod) (c := c) hstep
      exact hkeeps rfl rfl
  | turn call =>
      obtain ⟨_, rfl⟩ :=
        CallState.step_eq_some (a := collectionMethod) (c := c) hstep
      exact hkeeps rfl rfl

/-- Over every run of the call, with metrics and requests on: the completion
callback is what is wrapped, the other arguments reach the driver as they are
and each call of the completion callback ends the operation, if and only if no
function comes before it and the hooks have what they need. -/
theorem completion_iff {init : HookState} {run : List DriverTurn}
    {t : CallState}
    (hrun : (driverMachine collectionMethod c init).run
      (driverMachine collectionMethod c init).init run = some t)
    (hlive : (driverMachine collectionMethod c init).Guarded
      (fun s _ => s.hooks.probe.Live)
      (driverMachine collectionMethod c init).init run) :
    (driverMachine collectionMethod c init).Each
        (CompletionStep c args completion)
        (driverMachine collectionMethod c init).init run ↔
      (driverMachine collectionMethod c init).Guarded (CompletionNeeds c args)
        (driverMachine collectionMethod c init).init run := by
  have hinductive : (driverMachine collectionMethod c init).Inductive
      (fun s t => s.hooks.probe.Live ∧ CompletionNeeds c args s t)
      (Started args) := by
    constructor
    case init => exact Or.inl rfl
    case step =>
      intro s t s' hstarted hC hstep
      exact started_step hargs hcompletion hstarted hC.1 hC.2 hstep
  refine (hinductive.guarded_iff_each ?_ (Or.inl rfl) hlive hrun).symm
  intro s t s' hstarted hlive hstep
  rcases t with ⟨⟨stack, clock, event⟩, position⟩
  cases event with
  | enter => exact (enter_iff hargs hcompletion hstep).symm
  | invoke target given =>
      by_cases hlast : position = args.length
      · subst hlast
        have hcall := call_iff hargs hcompletion hstarted hlive hstep
        exact ⟨fun h _ => hcall.mpr (h rfl), fun h _ => hcall.mp (h rfl)⟩
      · exact iff_of_true (fun h => absurd h hlast) fun h => absurd h hlast
  | _ => exact Iff.rfl

end Completion

end Mongo

namespace MongoCompletionWitness

open HookWitness OperationWitness

/-- `insertOne` with a completion callback. -/
def insertOne : Call :=
  ⟨.object [("collectionName", .string "users")] true true,
    .string "insertOne", [object, callback]⟩

def inserted : List DriverTurn :=
  [⟨⟨[0], clock 1, .enter⟩, 0⟩,
    ⟨⟨[0], clock 2, .leave (.returned .undefined)⟩, 0⟩,
    ⟨⟨[0], clock 3, .invoke .undefined [.null, object]⟩, 1⟩]

def insertMachine : Machine CallState DriverTurn :=
  driverMachine Mongo.collectionMethod insertOne (inDomain "mongodb")

theorem insertOne_ends :
    insertMachine.Each (Mongo.CompletionStep insertOne [object] callback)
      insertMachine.init inserted := by
  have hlive : insertMachine.Guarded (fun s _ => s.hooks.probe.Live)
      insertMachine.init inserted := by
    refine ⟨by decide, ?_⟩
    rintro _ ⟨⟩
    refine ⟨by decide, ?_⟩
    rintro _ ⟨⟩
    refine ⟨by decide, ?_⟩
    rintro _ ⟨⟩
    trivial
  have hfree : ∀ v ∈ [object], v.isFunction = false := by
    simp [object, JsValue.isFunction]
  refine (Mongo.completion_iff (t := _) rfl rfl rfl hlive).mpr ?_
  refine ⟨⟨hfree, ?_⟩, ?_⟩
  · have hstep : CallState.step Mongo.collectionMethod insertOne
        insertMachine.init ⟨[0], clock 1, .enter⟩ = some _ := rfl
    exact (CallState.met_iff_runs Mongo.collection_exact hstep).mpr rfl
  rintro _ ⟨⟩
  refine ⟨trivial, ?_⟩
  rintro _ ⟨⟩
  refine ⟨fun _ => ⟨hfree, ?_⟩, ?_⟩
  · apply (CallState.met_iff_runs (c := insertOne)
      (t := ⟨[0], clock 3, .invoke .undefined [.null, object]⟩)
      Mongo.collection_exact ?step).mpr
    case step => rfl
    rfl
  rintro _ ⟨⟩
  trivial

def map : JsValue := .function ⟨"map", "function map() {}", [], some []⟩

/-- `mapReduce` with its two functions before the completion callback. -/
def mapReduce : Call :=
  ⟨.object [("collectionName", .string "users")] true true,
    .string "mapReduce", [map, map, object, callback]⟩

/-- The first function is wrapped, and would be sent to the database. -/
theorem mapReduce_wraps_map :
    ¬(driverMachine Mongo.collectionMethod mapReduce (inDomain "mongodb")).Each
      (Mongo.CompletionStep mapReduce [map, map, object] callback)
      (driverMachine Mongo.collectionMethod mapReduce
        (inDomain "mongodb")).init [⟨⟨[0], clock 1, .enter⟩, 0⟩] := by
  intro h
  have hseen := (h _ rfl).1
  cases hseen

end MongoCompletionWitness

end Appmetrics
