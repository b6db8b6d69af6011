/-
What each use of an instrumented function needs for the wrapper of the trace
probe to make no difference.
-/
import Appmetrics.TraceAttach
import Appmetrics.Transparency

namespace Appmetrics

open Effect

namespace Trace

/-! ## Other functions in the same place -/

/-- The same arguments with any other function as the callback, if the probe
takes it for one, or with any other methods on the response. -/
inductive Varies (methodString : String) (given : Given) : Given → Prop
  | same : Varies methodString given given
  | callback (f : FunctionInfo)
      (hgiven : isCallback methodString given.args = true)
      (hresponse : isResponseMethod given.args = false)
      (hother : isCallback methodString (given.withCallback f).args = true) :
      Varies methodString given (given.withCallback f)
  | methods (send render : FunctionInfo)
      (hresponds : responds methodString given.args = true) :
      Varies methodString given { given with send := send, render := render }

/-- The same use with other functions among its arguments; what the
application constructs is also called. -/
structure Use.Varies (methodString : String) (u u' : Use) : Prop where
  receiver : u'.receiver = u.receiver
  created : u'.created = u.created
  refuses : u'.refuses = u.refuses
  constructs : u'.constructs = true → u.constructs = true
  given : Trace.Varies methodString u.given u'.given

/-- A call or a construction with these arguments instead. -/
def Use.instead (u : Use) (constructs : Bool) (given : Given) : Use :=
  { u with constructs := constructs, given := given }

theorem Use.varies_instead {methodString : String} {u : Use}
    {constructs : Bool} {given : Given}
    (hconstructs : constructs = true → u.constructs = true)
    (hvaries : Trace.Varies methodString u.given given) :
    u.Varies methodString (u.instead constructs given) :=
  ⟨rfl, rfl, rfl, hconstructs, hvaries⟩

/-- Whatever is used can be called. -/
theorem Use.varies_called {methodString : String} {u : Use} {given : Given}
    (hvaries : Trace.Varies methodString u.given given) :
    u.Varies methodString (u.instead false given) :=
  varies_instead (fun h => absurd h Bool.false_ne_true) hvaries

theorem Given.length_withCallback (given : Given) (f : FunctionInfo) :
    (given.withCallback f).args.length = given.args.length :=
  List.length_modify ..

/-- Only the last argument is another one. -/
theorem Given.resArg_withCallback {given : Given} (f : FunctionInfo)
    (hargs : 1 < given.args.length) :
    resArg (given.withCallback f).args = resArg given.args := by
  unfold resArg
  rw [given.length_withCallback]
  have hne : given.args.length - 1 ≠ given.args.length - 2 := by omega
  simp [withCallback, hne]

theorem Given.isResponseMethod_withCallback (given : Given)
    (f : FunctionInfo) :
    isResponseMethod (given.withCallback f).args =
      isResponseMethod given.args := by
  unfold isResponseMethod
  rw [given.length_withCallback]
  by_cases hargs : 1 < given.args.length
  · rw [given.resArg_withCallback f hargs]
  · simp [hargs]

theorem Given.withCallback_withCallback (given : Given)
    (f f' : FunctionInfo) :
    (given.withCallback f).withCallback f' = given.withCallback f' := by
  unfold withCallback
  simp [List.modify_modify_eq, Function.comp_def]

/-- A callback is no symbol, and neither is another one. -/
theorem Given.noSymbols_withCallback {methodString : String} {given : Given}
    (f : FunctionInfo) (hgiven : isCallback methodString given.args = true) :
    NoSymbols (given.withCallback f).args ↔ NoSymbols given.args := by
  obtain ⟨v, hv, hcall⟩ := isCallback_last hgiven
  have hfunction : v.isSymbol = false := by
    cases v <;> first | rfl | cases hcall
  obtain ⟨init, hinit⟩ := List.getLast?_eq_some_iff.mp hv
  have hmodify : (given.withCallback f).args = init ++ [.function f] := by
    simp [withCallback, hinit, List.modify_eq_take_drop]
  have hother : (JsValue.function f).isSymbol = false := rfl
  rw [hmodify, hinit]
  simp [NoSymbols, or_imp, forall_and, hfunction, hother]

/-- The function that forwards is taken for a callback again. -/
theorem Given.isCallback_forwarder {methodString : String} {given : Given}
    (hgiven : isCallback methodString given.args = true) :
    isCallback methodString (given.withCallback forwarderInfo).args =
      true := by
  obtain ⟨v, hv, _⟩ := isCallback_last hgiven
  obtain ⟨init, hinit⟩ := List.getLast?_eq_some_iff.mp hv
  have hmodify : (given.withCallback forwarderInfo).args =
      init ++ [.function forwarderInfo] := by
    simp [withCallback, hinit, List.modify_eq_take_drop]
  have hsource : contains forwarderInfo.source "instrumentedMethodKNJ" =
      false := by decide
  unfold isCallback at hgiven ⊢
  rw [hmodify, List.getLast?_concat]
  rw [hinit, List.getLast?_concat] at hgiven
  dsimp only [Option.bind, functionInfo]
  cases hinfo : functionInfo v with
  | none => simp [hinfo] at hgiven
  | some info =>
      simp only [Option.bind, hinfo, Bool.and_eq_true] at hgiven
      have hkeys : forwarderInfo.keys = [] := rfl
      have hprototype : forwarderInfo.prototype = some [] := rfl
      simp [hgiven.1.1.2, hgiven.1.2, hsource, hkeys, hprototype]

/-! ## What the probe reads of the arguments -/

/-- What is the same for all functions in the same place. -/
structure Alike (methodString : String) (given given' : Given) : Prop where
  length : given'.args.length = given.args.length
  callback : isCallback methodString given'.args =
    isCallback methodString given.args
  response : isResponseMethod given'.args = isResponseMethod given.args
  resArg : 1 < given.args.length → resArg given'.args = resArg given.args
  symbols : NoSymbols given'.args ↔ NoSymbols given.args

theorem Varies.alike {methodString : String} {given given' : Given}
    (hvaries : Varies methodString given given') :
    Alike methodString given given' := by
  cases hvaries with
  | same => exact ⟨rfl, rfl, rfl, fun _ => rfl, Iff.rfl⟩
  | callback f hgiven hresponse hother =>
      exact ⟨given.length_withCallback f, hother.trans hgiven.symm,
        given.isResponseMethod_withCallback f,
        given.resArg_withCallback f, given.noSymbols_withCallback f hgiven⟩
  | methods send render hresponds =>
      exact ⟨rfl, rfl, rfl, fun _ => rfl, Iff.rfl⟩

theorem Alike.responds {methodString : String} {given given' : Given}
    (halike : Alike methodString given given') :
    responds methodString given'.args = responds methodString given.args := by
  unfold Trace.responds
  rw [halike.callback, halike.response]

theorem responds_length {methodString : String} {args : List JsValue}
    (hresponds : responds methodString args = true) : 1 < args.length := by
  simp only [responds, isResponseMethod, Bool.and_eq_true,
    decide_eq_true_eq] at hresponds
  exact hresponds.2.1.1.1

/-- The function is one of those that the probe replaces. -/
def Intercepted (methodString : String) (args : List JsValue)
    (callee : Callee) : Prop :=
  if responds methodString args then
    callee = .method (args.length - 2) "send" ∨
      callee = .method (args.length - 2) "render"
  else isCallback methodString args = true ∧
    callee = .argument (args.length - 1)

/-- If the code calls such a function, the arguments of its own call can be
shown, and a method of the response has the response as its receiver. -/
def Forwards (methodString : String) (args : List JsValue) (q : Invocation) :
    Prop :=
  Intercepted methodString args q.callee →
    NoSymbols args ∧
      (responds methodString args = true → q.receiver = resArg args)

/-- After the call its arguments can be shown, if they have to be. -/
def Shown (methodString : String) (args : List JsValue) (outcome : Outcome) :
    Prop :=
  ∀ v, outcome = .returned v →
    isCallback methodString args = false → NoSymbols args

section Alike

variable {methodString : String} {given given' : Given}

theorem Alike.forwards (halike : Alike methodString given given') :
    Forwards methodString given'.args = Forwards methodString given.args := by
  funext q
  unfold Forwards Intercepted
  rw [halike.responds, halike.length, halike.callback, halike.symbols]
  cases hresponds : Trace.responds methodString given.args with
  | false => simp
  | true => rw [halike.resArg (responds_length hresponds)]

theorem Alike.shown (halike : Alike methodString given given') :
    Shown methodString given'.args = Shown methodString given.args := by
  funext outcome
  unfold Shown
  rw [halike.callback, halike.symbols]

end Alike

namespace Wrapped

variable {w : Wrapped} {given given' : Given}

/-- The original gets arguments that the application could have given. -/
theorem varies_passed (w : Wrapped) (given : Given) :
    Varies w.methodString given (w.passed given) := by
  unfold passed
  cases hresponds : responds w.methodString given.args with
  | true => exact .methods _ _ hresponds
  | false =>
      cases hcallback : isCallback w.methodString given.args with
      | true =>
          have hresponse : isResponseMethod given.args = false := by
            simpa [responds, hcallback] using hresponds
          exact .callback _ hcallback hresponse
            (given.isCallback_forwarder hcallback)
      | false => exact .same

/-- It gets the same whatever functions they are. -/
theorem passed_of_varies (hvaries : Varies w.methodString given given') :
    w.passed given' = w.passed given := by
  have halike := hvaries.alike
  unfold passed
  rw [halike.responds, halike.callback]
  cases hvaries with
  | same => rfl
  | callback f hgiven hresponse hother =>
      simp [responds, hgiven, hresponse, given.withCallback_withCallback]
  | methods send render hresponds => simp [hresponds]

/-- What is passed on is forwarded in the same way again. -/
theorem forward_passed {u : Use} {m : Moment} {q q' : Invocation}
    (hforward : w.forward u m q = .ok q') :
    Forwards w.methodString u.given.args q' := by
  unfold forward at hforward
  unfold Forwards Intercepted
  cases hresponds : responds w.methodString u.given.args with
  | true =>
      simp only [hresponds, ↓reduceIte] at hforward ⊢
      split at hforward
      · have hshown := (respond_exact u.given.args).before
          ⟨q.receiver, .string w.fullName, q.args⟩ m.clock m.state.hooks
        split at hforward
        · rename_i h hbefore
          cases hforward
          exact fun _ => ⟨hshown.mp ⟨_, _, hbefore⟩, fun _ => rfl⟩
        · cases hforward
      · rename_i hcallee
        cases hforward
        exact fun h => absurd h hcallee
  | false =>
      simp only [hresponds, Bool.false_eq_true, ↓reduceIte] at hforward ⊢
      split at hforward
      · rename_i hcallback
        split at hforward
        · have hshown := (method_exact w.fullName w.methodString).hookBefore
            ⟨u.receiver, .string w.fullName, u.given.args⟩
          split at hforward
          · rename_i h hbefore
            cases hforward
            have hresponse : isResponseMethod u.given.args = false := by
              simpa [responds, hcallback] using hresponds
            have hadvised : ((method w.fullName w.methodString).callback
                ⟨u.receiver, .string w.fullName, u.given.args⟩).isSome =
                  true := by
              simp [method, hcallback, hresponse]
            exact fun _ => ⟨(hshown hadvised _ _ _ _).mp ⟨_, _, hbefore⟩,
              False.elim⟩
          · cases hforward
        · rename_i hcallee
          cases hforward
          exact fun h => absurd h.2 hcallee
      · rename_i hcallback
        cases hforward
        exact fun h => absurd h.1 hcallback

theorem forward_of_forwards {u : Use} {m : Moment} {q : Invocation}
    (hq : Forwards w.methodString u.given.args q) :
    w.forward u m q = .ok q := by
  unfold Forwards Intercepted at hq
  unfold forward
  cases hresponds : responds w.methodString u.given.args with
  | true =>
      simp only [hresponds, ↓reduceIte] at hq ⊢
      split
      · rename_i hcallee
        obtain ⟨hsymbols, hreceiver⟩ := hq hcallee
        obtain ⟨_, h, hbefore⟩ := ((respond_exact u.given.args).before
          ⟨q.receiver, .string w.fullName, q.args⟩ m.clock
            m.state.hooks).mpr hsymbols
        rw [hbefore]
        exact congrArg Except.ok
          (congrArg (Invocation.mk q.callee · q.args) (hreceiver trivial).symm)
      · rfl
  | false =>
      simp only [hresponds, Bool.false_eq_true, ↓reduceIte] at hq ⊢
      split
      · rename_i hcallback
        split
        · rename_i hcallee
          have hresponse : isResponseMethod u.given.args = false := by
            simpa [responds, hcallback] using hresponds
          have hadvised : ((method w.fullName w.methodString).callback
              ⟨u.receiver, .string w.fullName, u.given.args⟩).isSome =
                true := by
            simp [method, hcallback, hresponse]
          obtain ⟨_, h, hbefore⟩ :=
            ((method_exact w.fullName w.methodString).hookBefore _ hadvised
              q.receiver q.args m.clock m.state.hooks).mpr
                (hq ⟨hcallback, hcallee⟩).1
          rw [hbefore]
        · rfl
      · rfl

end Wrapped

theorem leave_finished {fullName methodString : String} {c : Call}
    {clock : Clock} {s : CallState} {outcome : Outcome} :
    (s.leave (method fullName methodString) c clock outcome).seen =
        some (.finished outcome) ↔
      Shown methodString c.methodArgs outcome := by
  cases outcome with
  | threw e => simp [CallState.leave, Shown]
  | returned v =>
      have hshown := (method_exact fullName methodString).after _ rfl c v clock
        s.hooks
      unfold CallState.leave
      dsimp only [method]
      rcases hrun : (stopWithoutCallback methodString c.methodArgs clock >>=
        fun _ => (pure v : Js JsValue)) s.hooks with ⟨e | v', h⟩
      · have hnot : ¬Shown methodString c.methodArgs (.returned v) := by
          intro h
          obtain ⟨v', s', hreturns⟩ := hshown.mpr (h v rfl)
          rw [hrun] at hreturns
          cases hreturns
        simp [hnot]
      · have hyields : v' = v :=
          Comp.Yields.bind (fun _ => Comp.yields_pure v) _ _ _ hrun
        have hyes : Shown methodString c.methodArgs (.returned v) := by
          intro _ _
          exact hshown.mp ⟨v', h, hrun⟩
        simp [hyes, hyields]

/-! ## Uses that nothing disturbs -/

theorem finished_injective : Function.Injective finished := by
  intro outcome outcome' h
  cases h
  rfl

theorem Use.finish_of_not_constructs {u : Use}
    (hconstructs : u.constructs = false) : u.finish = id := by
  funext seen
  rcases seen with _ | (_ | _ | _) <;>
    simp [finish, finished, hconstructs]

theorem Use.finish_map (u : Use) (d : Activity Outcome) :
    (d.map finished).map u.finish =
      (if u.constructs then d.map (constructed u.receiver) else d).map
        finished := by
  rw [Dialogue.map_map]
  cases hconstructs : u.constructs with
  | false =>
      refine Dialogue.map_eq_map_iff.mpr ?_
      induction d with
      | done outcome => simp [Dialogue.Ends, finish, finished, hconstructs]
      | ask q next ih => exact ih
  | true =>
      simp only [↓reduceIte, Dialogue.map_map]
      refine Dialogue.map_eq_map_iff.mpr ?_
      induction d with
      | done outcome => simp [Dialogue.Ends, finish, finished, hconstructs]
      | ask q next ih => exact ih

/-- Constructing the function gives what calling it on the new object gives,
whatever functions are among the arguments. -/
def JsFunction.ConstructedAsCalled (f : JsFunction) (u : Use) : Prop :=
  u.constructs = true → ∀ given, Varies f.methodString u.given given →
    f.construct u.receiver given =
      (f.apply u.receiver given).map (constructed u.receiver)

/-- A response takes other methods, the code of the function does not look at
the functions that the probe replaces, and what has to be shown can be. -/
structure JsFunction.Undisturbed (f : JsFunction) (u : Use) : Prop where
  response : responds f.methodString u.given.args = true → u.refuses = false
  oblivious : ∀ given, Varies f.methodString u.given given →
    f.apply u.receiver given = f.apply u.receiver u.given
  forwards : (f.apply u.receiver u.given).Asks
    (Forwards f.methodString u.given.args)
  shown : (f.apply u.receiver u.given).Ends
    (Shown f.methodString u.given.args)
  constructed : f.ConstructedAsCalled u

namespace Wrapped

variable {w : Wrapped} {f : JsFunction} {u u' : Use} {moments : Nat → Moment}

/-- The first hook returns, so the original is called unless the response
refuses its new methods. -/
theorem apply_eq (w : Wrapped) (f : JsFunction) (u : Use)
    (moments : Nat → Moment) :
    w.apply f u moments =
      if responds w.methodString u.given.args && u.refuses then
        .done (some (.hookThrew
          (.typeError "cannot assign to a read only property")))
      else
        (f.apply u.receiver (w.passed u.given)).relay
          (fun n => w.forward u (moments n))
          (fun n outcome => ((moments n).state.leave
            (method w.fullName w.methodString)
            ⟨u.receiver, .string w.fullName, u.given.args⟩
            (moments n).clock outcome).seen) 1 := by
  have henter : ((moments 0).state.enter (method w.fullName w.methodString)
      ⟨u.receiver, .string w.fullName, u.given.args⟩ (moments 0).clock).seen =
        some (.called u.receiver ((method w.fullName w.methodString).passed
          ⟨u.receiver, .string w.fullName, u.given.args⟩)) :=
    CallState.enter_seen.mpr ⟨(), _, rfl⟩
  unfold apply
  dsimp only
  rw [henter]

/-- A call of the wrapper is one of the original with the arguments passed on,
exactly if the response takes its methods and all hooks return. -/
theorem apply_eq_map_iff :
    w.apply f u moments =
        (f.apply u.receiver (w.passed u.given)).map finished ↔
      (responds w.methodString u.given.args = true → u.refuses = false) ∧
        (f.apply u.receiver (w.passed u.given)).Asks
          (Forwards w.methodString u.given.args) ∧
        (f.apply u.receiver (w.passed u.given)).Ends
          (Shown w.methodString u.given.args) := by
  rw [apply_eq]
  by_cases hrefused :
      responds w.methodString u.given.args = true ∧ u.refuses = true
  · rw [if_pos (by simp [hrefused])]
    refine iff_of_false ?_ fun h => ?_
    · intro h
      generalize f.apply u.receiver (w.passed u.given) = d at h
      cases d <;> cases h
    · rw [h.1 hrefused.1] at hrefused
      exact Bool.false_ne_true hrefused.2
  · have htakes : responds w.methodString u.given.args = true →
        u.refuses = false := by
      intro hresponds
      by_contra hnot
      exact hrefused ⟨hresponds, by simpa using hnot⟩
    rw [if_neg (by simpa using hrefused), and_iff_right htakes]
    exact Dialogue.relay_eq_map_iff (fun _ _ _ => forward_passed)
      (fun _ _ => forward_of_forwards) fun _ _ => leave_finished

/-- The conditions for a call are the same for all functions in the place of
those that the probe replaces, and so is what the original is applied to. -/
theorem apply_eq_map_of_varies (hu' : u.Varies w.methodString u') :
    w.apply f u' moments =
        (f.apply u.receiver (w.passed u.given)).map finished ↔
      (responds w.methodString u.given.args = true → u.refuses = false) ∧
        (f.apply u.receiver (w.passed u.given)).Asks
          (Forwards w.methodString u.given.args) ∧
        (f.apply u.receiver (w.passed u.given)).Ends
          (Shown w.methodString u.given.args) := by
  have halike := hu'.given.alike
  rw [← passed_of_varies hu'.given, ← hu'.receiver, ← hu'.refuses,
    ← halike.responds, ← halike.forwards, ← halike.shown]
  exact apply_eq_map_iff

/-- A call of the wrapper gives what a call of the original gives. -/
theorem apply_of_use
    (huses : ∀ u', u.Varies f.methodString u' →
      w.use f u' moments = f.seen u') {given : Given}
    (hvaries : Varies f.methodString u.given given) :
    w.apply f (u.instead false given) moments =
      (f.apply u.receiver given).map finished := by
  have huse := huses _ (Use.varies_called hvaries)
  unfold use at huse
  rwa [Use.finish_of_not_constructs rfl, Dialogue.map_id] at huse

section Used

variable (hw : w.methodString = f.methodString)

include hw

/-- What the original is applied to could have been given to it, so nothing
disturbs it if the wrapper makes no difference. -/
theorem undisturbed_of_use
    (huses : ∀ u', u.Varies f.methodString u' →
      w.use f u' moments = f.seen u') : f.Undisturbed u := by
  have hvaried {given : Given} (hvaries : Varies f.methodString u.given given) :
      u.Varies w.methodString (u.instead false given) := by
    rw [hw]
    exact Use.varies_called hvaries
  have hown : Varies f.methodString u.given (w.passed u.given) :=
    hw ▸ w.varies_passed u.given
  have hconditions := (apply_eq_map_of_varies (hvaried hown)).mp
    (apply_of_use huses hown)
  have hpassed {given : Given} (hvaries : Varies f.methodString u.given given) :
      f.apply u.receiver (w.passed u.given) = f.apply u.receiver given := by
    apply Dialogue.map_injective finished_injective
    rw [← apply_of_use huses hvaries]
    exact ((apply_eq_map_of_varies (hvaried hvaries)).mpr hconditions).symm
  have hconstructed (hconstructs : u.constructs = true) (given : Given)
      (hvaries : Varies f.methodString u.given given) :
      f.construct u.receiver given =
        (f.apply u.receiver given).map (constructed u.receiver) := by
    have hu' : u.Varies f.methodString (u.instead true given) :=
      Use.varies_instead (fun _ => hconstructs) hvaries
    have huse := huses _ hu'
    unfold use at huse
    rw [(apply_eq_map_of_varies (hw ▸ hu')).mpr hconditions, hpassed hvaries,
      Use.finish_map] at huse
    exact (Dialogue.map_injective finished_injective huse).symm
  obtain ⟨hresponse, hforwards, hshown⟩ := hconditions
  rw [hpassed .same] at hforwards hshown
  rw [hw] at hresponse hforwards hshown
  exact ⟨hresponse,
    fun given hvaries => (hpassed hvaries).symm.trans (hpassed .same),
    hforwards, hshown, hconstructed⟩

theorem use_of_undisturbed (hf : f.Undisturbed u)
    (hu' : u.Varies f.methodString u') : w.use f u' moments = f.seen u' := by
  have hpassed : f.apply u.receiver (w.passed u.given) =
      f.apply u.receiver u.given :=
    hf.oblivious _ (hw ▸ w.varies_passed u.given)
  have hcall : w.apply f u' moments =
      (f.apply u.receiver u.given).map finished := by
    rw [← hpassed]
    refine (apply_eq_map_of_varies (hw ▸ hu')).mpr ?_
    rw [hw, hpassed]
    exact ⟨hf.response, hf.forwards, hf.shown⟩
  unfold use
  rw [hcall, Use.finish_map, hu'.receiver, ← hf.oblivious _ hu'.given]
  unfold JsFunction.seen JsFunction.use
  rw [hu'.receiver]
  cases hconstructs : u'.constructs with
  | false => rfl
  | true => rw [hf.constructed (hu'.constructs hconstructs) _ hu'.given]

/-- Using the function that has been put around another one gives what the
other one gives, for all functions in the place of those that the probe
replaces, exactly if nothing disturbs this. -/
theorem use_iff :
    (∀ u', u.Varies f.methodString u' → w.use f u' moments = f.seen u') ↔
      f.Undisturbed u :=
  ⟨undisturbed_of_use hw, fun hf _ => use_of_undisturbed hw hf⟩

end Used

end Wrapped

end Trace

end Appmetrics
