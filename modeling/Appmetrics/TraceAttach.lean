/-
probes/trace-probe.js: how `attach` instruments the functions of a module of
the application, and what a call of an instrumented function does.

Objects and functions are described by what the probe reads of them; functions
that several objects share are described for each.  The code of a function is
any dialogue with the functions that it is given.
-/
import Appmetrics.Dialogue
import Appmetrics.SiteNeeds

namespace Appmetrics

open Effect

namespace Trace

/-! ## Functions -/

/-- Generators, for one, cannot be constructed. -/
inductive FunctionKind
  | ordinary
  | classConstructor
  | notConstructor
deriving Repr, DecidableEq

/-- A function that code was given: an argument, or a method of one. -/
inductive Callee
  | argument (i : Nat)
  | method (i : Nat) (name : String)
deriving Repr, DecidableEq

/-- A call that code makes while it runs. -/
structure Invocation where
  callee : Callee
  receiver : JsValue
  args : List JsValue

abbrev Activity (A : Type) := Dialogue Invocation Outcome A

/-- What code is called with.  A response among the arguments is the same
object whatever has been assigned to it; `send` and `render` are what these
methods of it show of themselves. -/
structure Given where
  args : List JsValue
  send : FunctionInfo
  render : FunctionInfo

/-- `arguments[arguments.length - 1] = ..`. -/
def Given.withCallback (given : Given) (f : FunctionInfo) : Given :=
  { given with
    args := given.args.modify (given.args.length - 1) fun _ => .function f }

structure JsFunction where
  /-- `'' + method` -/
  text : Except JsError String
  keys : List String
  kind : FunctionKind
  /-- what the code of the function does, given whether it has a `new.target`,
  its receiver and its arguments -/
  body : Bool → JsValue → Given → Activity Outcome

/-- How the application uses a function.  If it is constructed, `receiver` is
the new object, and `created` is the one that a function with a prototype of
its own gets.  A response among the arguments may refuse an assignment. -/
structure Use where
  constructs : Bool
  receiver : JsValue
  created : JsValue
  given : Given
  refuses : Bool

/-- `new` gives the new object unless the constructor returns another one. -/
def constructed (receiver : JsValue) : Outcome → Outcome
  | .returned v =>
      .returned (if v.isObject || v.isFunction then v else receiver)
  | .threw e => .threw e

namespace JsFunction

def methodString (f : JsFunction) : String :=
  match f.text with
  | .ok s => s
  | .error _ => ""

/-- `method.apply(receiver, args)`. -/
def apply (f : JsFunction) (receiver : JsValue) (given : Given) :
    Activity Outcome :=
  match f.kind with
  | .classConstructor =>
      .done (.threw
        (.typeError "class constructor cannot be invoked without new"))
  | _ => f.body false receiver given

def construct (f : JsFunction) (receiver : JsValue) (given : Given) :
    Activity Outcome :=
  match f.kind with
  | .notConstructor => .done (.threw (.typeError "not a constructor"))
  | _ => (f.body true receiver given).map (constructed receiver)

def use (f : JsFunction) (u : Use) : Activity Outcome :=
  if u.constructs then f.construct u.receiver u.given
  else f.apply u.receiver u.given

end JsFunction

def finished (outcome : Outcome) : Option Observation :=
  some (.finished outcome)

/-- What the application gets to see without a wrapper. -/
def JsFunction.seen (f : JsFunction) (u : Use) :
    Activity (Option Observation) :=
  (f.use u).map finished

/-- A function on a prototype; `prototype` has the keys of its own prototype,
`none` if that is `undefined` or `null`. -/
structure PrototypeMethod extends JsFunction where
  prototype : Option (List String)

inductive ItemValue
  | method (m : PrototypeMethod)
  | other

/-- What `for (var item in p)` finds; a getter may throw when it is read. -/
structure Item where
  name : String
  read : Except JsError ItemValue
  writable : Bool

/-- A function that a module exports.  `superclass` and `instrumented` are
`__super__` and `__ddInstrumented__`, and `prototype` is `none` if it is not
truthy. -/
structure TraceFunction extends JsFunction where
  superclass : Bool
  instrumented : Bool
  prototype : Option (List Item)

/-! ## `instrument` -/

/-- `text.split(')')[0].split('(')[1]` is there. -/
def hasParameters (methodString : String) : Bool :=
  (methodString.toList.takeWhile (· != ')')).contains '('

/-- The function that takes the place of a method. -/
structure Wrapped where
  fullName : String
  methodString : String
deriving Repr, DecidableEq

def instrument (text : Except JsError String) (writable : Bool)
    (fullName : String) : Except JsError Wrapped := do
  let methodString ← text
  if hasParameters methodString then
    if writable then return ⟨fullName, methodString⟩
    else .error (.typeError "cannot assign to a read only property")
  else .error (.typeError "cannot read property of a nullish value")

/-- The request is answered through the last argument but one. -/
def responds (methodString : String) (args : List JsValue) : Bool :=
  isCallback methodString args && isResponseMethod args

/-- When a hook runs, and in which state. -/
structure Moment where
  clock : Clock
  state : CallState

namespace Wrapped

/-- What the original is applied to. -/
def passed (w : Wrapped) (given : Given) : Given :=
  if responds w.methodString given.args then
    { given with send := forwarderInfo, render := forwarderInfo }
  else if isCallback w.methodString given.args then
    given.withCallback forwarderInfo
  else given

/-- The original calls one of the functions it was given; those that replace
others run their hook first. -/
def forward (w : Wrapped) (u : Use) (m : Moment) (q : Invocation) :
    Except Outcome Invocation :=
  let args := u.given.args
  if responds w.methodString args then
    if q.callee = .method (args.length - 2) "send" ∨
        q.callee = .method (args.length - 2) "render" then
      let call : Call := ⟨q.receiver, .string w.fullName, q.args⟩
      match (respond args).before call m.clock m.state.hooks with
      | (.ok _, _) => .ok { q with receiver := (respond args).receiver call }
      | (.error e, _) => .error (.threw e)
    else .ok q
  else if isCallback w.methodString args then
    if q.callee = .argument (args.length - 1) then
      let call : Call := ⟨u.receiver, .string w.fullName, args⟩
      match (method w.fullName w.methodString).hookBefore call q.receiver
          q.args m.clock m.state.hooks with
      | (.ok _, _) => .ok q
      | (.error e, _) => .error (.threw e)
    else .ok q
  else .ok q

/-- A call of the wrapper around `f`.  It enters at the first of the moments,
and the `n`-th call that the original makes, or else its end, is at the `n`-th
of those that follow. -/
def apply (w : Wrapped) (f : JsFunction) (u : Use) (moments : Nat → Moment) :
    Activity (Option Observation) :=
  let advice := method w.fullName w.methodString
  let call : Call := ⟨u.receiver, .string w.fullName, u.given.args⟩
  match ((moments 0).state.enter advice call (moments 0).clock).seen with
  | some (.called receiver _) =>
      if responds w.methodString u.given.args && u.refuses then
        .done (some (.hookThrew
          (.typeError "cannot assign to a read only property")))
      else
        (f.apply receiver (w.passed u.given)).relay
          (fun n => w.forward u (moments n))
          (fun n outcome => ((moments n).state.leave advice call
            (moments n).clock outcome).seen) 1
  | seen => .done seen

end Wrapped

/-- What constructing an ordinary function gives, if calling it gives this. -/
def Use.finish (u : Use) : Option Observation → Option Observation
  | some (.finished outcome) =>
      finished
        (if u.constructs then constructed u.receiver outcome else outcome)
  | seen => seen

/-- The wrapper is an ordinary function, and shares the prototype of `f`. -/
def Wrapped.use (w : Wrapped) (f : JsFunction) (u : Use)
    (moments : Nat → Moment) : Activity (Option Observation) :=
  (w.apply f u moments).map u.finish

/-! ## `instrumentMethods` -/

/-- A property that `for (var name in target)` finds; `own` is false if it is
inherited, and `getter` is `target.__lookupGetter__(name)`. -/
inductive ExportValue
  | function (f : TraceFunction)
  | other

structure Export where
  name : String
  own : Bool
  getter : Bool
  writable : Bool
  value : ExportValue

structure ExportsObject where
  /-- whether `__lookupGetter__` is inherited -/
  lookupGetter : Bool
  exports : List Export

/-- What has been put around an export and around the items of its
prototype. -/
structure Traced where
  method : Wrapped
  items : List (Option Wrapped)

def traceItem (fullName : String) (item : Item) :
    Except JsError (Option Wrapped) := do
  match ← item.read with
  | .other => return none
  | .method m =>
      if m.keys.isEmpty then
        match m.prototype with
        | none => .error (.typeError "cannot convert a nullish value to an object")
        | some keys =>
            if keys.isEmpty then
              let w ← instrument m.text item.writable
                (fullName ++ "." ++ item.name)
              return some w
            else return none
      else return none

def traceMethod (moduleName : String) (e : Export) (f : TraceFunction) :
    Except JsError (Option Traced) := do
  if f.instrumented then return none
  else
    let fullName := moduleName ++ "." ++ e.name
    let method ← instrument f.text e.writable fullName
    let items ← (f.prototype.getD []).mapM (traceItem fullName)
    return some ⟨method, items⟩

def instrumentExport (moduleName : String) (target : ExportsObject)
    (e : Export) : Except JsError (Option Traced) :=
  if target.lookupGetter then
    match e.value with
    | .other => return none
    | .function f =>
        if !e.getter && !f.superclass && f.prototype.isSome && f.keys.isEmpty then
          traceMethod moduleName e f
        else return none
  else .error (.typeError "target.__lookupGetter__ is not a function")

def instrumentMethods (moduleName : String) (target : ExportsObject) :
    Except JsError (List (Option Traced)) :=
  target.exports.mapM (instrumentExport moduleName target)

/-- A place on an object: a method, or an item of the prototype of one. -/
inductive Spot
  | method (i : Nat)
  | item (i j : Nat)
deriving Repr, DecidableEq

/-- The function that has been put in this place. -/
def wrapped (exports : List (Option Traced)) : Spot → Option Wrapped
  | .method i => exports[i]?.join.map Traced.method
  | .item i j => exports[i]?.join.bind fun traced => traced.items[j]?.join

/-- The application uses the function in this place, which was `f`. -/
def useAt (exports : List (Option Traced)) (spot : Spot) (f : JsFunction)
    (u : Use) (moments : Nat → Moment) : Activity (Option Observation) :=
  match wrapped exports spot with
  | some w => w.use f u moments
  | none => f.seen u

/-- The object has `f` in this place. -/
def ExportsObject.At (target : ExportsObject) : Spot → JsFunction → Prop
  | .method i, f => ∃ e g, target.exports[i]? = some e ∧
      e.value = .function g ∧ g.toJsFunction = f
  | .item i j, f => ∃ e g item m, target.exports[i]? = some e ∧
      e.value = .function g ∧ (g.prototype.getD [])[j]? = some item ∧
      item.read = .ok (.method m) ∧ m.toJsFunction = f

/-! ## `attach` -/

/-- A module that is a function; `properties` is what `for (var name in rc)`
finds on an object that it returns. -/
structure ModuleFunction extends JsFunction where
  properties : JsValue → ExportsObject

/-- On `null` and `undefined` there is nothing. -/
def ModuleFunction.enumerated (f : ModuleFunction) (rc : JsValue) :
    ExportsObject :=
  if rc.nullish then ⟨true, []⟩ else f.properties rc

/-- What a module exports; `marked` is `__ddProbeAttached__`, which can be
assigned if the value is `markable`. -/
inductive Target
  | primitive
  | object (marked markable : Bool) (properties : ExportsObject)
  | function (marked markable : Bool) (f : ModuleFunction)
      (prototype : Option ExportsObject)

namespace Target

def marked : Target → Bool
  | primitive => false
  | object marked _ _ => marked
  | function marked _ _ _ => marked

/-- The object whose methods are instrumented. -/
def instrumented : Target → Option ExportsObject
  | primitive => none
  | object _ _ properties => some properties
  | function _ _ _ prototype => prototype

end Target

/-- The same use of a function with a prototype of its own. -/
def Use.renewed (u : Use) : Use :=
  { u with receiver := if u.constructs then u.created else u.receiver }

/-- `ret = function() { .. }`, around the module itself; it does not get the
prototype of the module. -/
structure ModuleWrapper where
  moduleName : String
  target : ModuleFunction

namespace ModuleWrapper

/-- `instrumentMethods(moduleName, rc); return rc`. -/
def handOn (w : ModuleWrapper) : Outcome → Option Observation
  | .returned rc =>
      match instrumentMethods w.moduleName (w.target.enumerated rc) with
      | .ok _ => finished (.returned rc)
      | .error e => some (.hookThrew e)
  | .threw e => finished (.threw e)

def use (w : ModuleWrapper) (u : Use) : Activity (Option Observation) :=
  ((w.target.apply u.renewed.receiver u.given).map w.handOn).map
    u.renewed.finish

end ModuleWrapper

inductive Attached
  | unchanged
  /-- `ret` if a function has been put around the module itself -/
  | instrumented (exports : List (Option Traced)) (ret : Option ModuleWrapper)

/-- Where the application finds a function: it is the module itself, on the
object that was instrumented, or on what the module has returned. -/
inductive Place
  | module
  | exported (spot : Spot)
  | result (rc : JsValue) (spot : Spot)

namespace Attached

def exports : Attached → List (Option Traced)
  | unchanged => []
  | instrumented exports _ => exports

def ret : Attached → Option ModuleWrapper
  | unchanged => none
  | instrumented _ ret => ret

/-- The application uses the function in this place, which was `f`. -/
def use (a : Attached) (f : JsFunction) (u : Use) (moments : Nat → Moment) :
    Place → Activity (Option Observation)
  | .module =>
      match a.ret with
      | some w => w.use u
      | none => f.seen u
  | .exported spot => useAt a.exports spot f u moments
  | .result rc spot =>
      match a.ret with
      | some w =>
          match instrumentMethods w.moduleName (w.target.enumerated rc) with
          | .ok exports => useAt exports spot f u moments
          | .error e => .done (some (.hookThrew e))
      | none => f.seen u

end Attached

/-- `ret.__ddProbeAttached__ = ..`. -/
def mark (markable : Bool) : Except JsError Unit :=
  if markable then return ()
  else .error (.typeError "cannot assign to a read only property")

/-- Its keys, once its methods have been instrumented. -/
def ownKeys (target : ExportsObject) (exports : List (Option Traced)) :
    List String :=
  (target.exports.zip exports).filterMap fun p =>
    if p.1.own || p.2.isSome then some p.1.name else none

def instrumentTarget (moduleName : String) : Target → Except JsError Attached
  | .primitive =>
      .error (.typeError "cannot create property on a primitive value")
  | .object _ markable properties => do
      let exports ← instrumentMethods moduleName properties
      mark markable
      return .instrumented exports none
  | .function _ markable _ none => do
      mark markable
      return .instrumented [] none
  | .function _ markable f (some prototype) => do
      let exports ← instrumentMethods moduleName prototype
      if (ownKeys prototype exports).isEmpty && f.keys.isEmpty then
        return .instrumented exports (some ⟨moduleName, f⟩)
      else
        mark markable
        return .instrumented exports none

def stopList : List String := ["./commands/base_command", "./aspects"]

/-- `stack` has the lines of `trace.stack`. -/
def isAppInnerRequire (stack : List String) : Except JsError Bool :=
  match stack[6]? with
  | some callerLine =>
      return !contains callerLine "node_modules" && !contains callerLine "ibmapm"
  | none => .error (.typeError "cannot read property of a nullish value")

/-- A call of `require` that has loaded a module; `target` is `none` if it
exports `null` or `undefined`. -/
structure Require where
  moduleName : String
  stack : List String
  excludeModules : List String
  target : Option Target

namespace Require

def attach (r : Require) (target : Target) : Except JsError Attached :=
  if r.moduleName.toList.head? ≠ some '.' || stopList.contains r.moduleName then
    return .unchanged
  else do
    let inner ← isAppInnerRequire r.stack
    if !inner || r.excludeModules.contains r.moduleName then return .unchanged
    else if target.marked then return .unchanged
    else instrumentTarget r.moduleName target

/-- The hook on `module.__proto__.require`, with trace enabled; no other probe
has a name that starts with a dot. -/
def hook (r : Require) : Except JsError Attached :=
  match r.target with
  | none => return .unchanged
  | some target =>
      if target.marked then return .unchanged else r.attach target

/-- The function in this place is `f`. -/
def At (r : Require) : Place → JsFunction → Prop
  | .module, f => ∃ marked markable g prototype,
      r.target = some (.function marked markable g prototype) ∧
        g.toJsFunction = f
  | .exported spot, f => ∃ target properties, r.target = some target ∧
      target.instrumented = some properties ∧ properties.At spot f
  | .result rc spot, f => ∃ marked markable g prototype,
      r.target = some (.function marked markable g prototype) ∧
        (g.enumerated rc).At spot f

end Require

end Trace

end Appmetrics
