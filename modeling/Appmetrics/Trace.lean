/-
probes/trace-probe.js: what `instrument` puts around a method of one of the
application's own modules.  Its hooks have no switches.
-/
import Appmetrics.Aspect
import Mathlib.Data.List.Infix

namespace Appmetrics

open Effect

namespace Trace

/-- `text.indexOf(part) >= 0`. -/
def contains (text part : String) : Bool := part.toList <:+: text.toList

/-- The last name between the first parentheses of the method's text; a text
without any is refused when the method is instrumented. -/
def lastMethodArg (methodString : String) : String :=
  let args := methodString.toList.takeWhile (· != ')')
  let args := ((args.dropWhile (· != '(')).drop 1).takeWhile (· != '(')
  let last := (args.reverse.takeWhile (· != ',')).reverse.filter (· != ' ')
  if last.isEmpty then "undefined" else String.ofList last

/-- What a function that forwards shows of itself. -/
def forwarderInfo : FunctionInfo := ⟨"", "function() { .. }", [], some []⟩

def functionInfo : JsValue → Option FunctionInfo
  | .function f => some f
  | .forwarder _ => some forwarderInfo
  | _ => none

/-- Whether the last argument is taken for a callback. -/
def isCallback (methodString : String) (args : List JsValue) : Bool :=
  let lastMethodArg := lastMethodArg methodString
  match args.getLast?.bind functionInfo with
  | none => false
  | some f =>
      f.keys.isEmpty && f.prototype.all List.isEmpty &&
        !contains methodString (lastMethodArg ++ ".call") &&
        !contains methodString (lastMethodArg ++ ".apply") &&
        !contains f.source "instrumentedMethodKNJ"

/-- `arguments[arguments.length - 2]`. -/
def resArg (args : List JsValue) : JsValue :=
  args.getD (args.length - 2) .undefined

/-- The last but one argument is a response. -/
def isResponseMethod (args : List JsValue) : Bool :=
  1 < args.length && (resArg args).isObject &&
    ((resArg args).ownProperty "send").any JsValue.isFunction &&
    ((resArg args).ownProperty "render").any JsValue.isFunction

/-- How `cxtFunc` shows one argument. -/
def contextValue (arg : JsValue) : Except JsError JsValue :=
  match arg with
  | .null => .ok (.string "object")
  | .object .. => .ok (.string "object")
  | arg =>
      match functionInfo arg with
      | some f =>
          if f.keys.isEmpty && f.prototype.any List.isEmpty then
            -- `arg.name != 0` compares numbers, so blank names are 0.
            .ok (.string ("function " ++
              if JsValue.numericText f.name = some 0 then "<anonymous>"
              else f.name))
          else .ok (.string f.source)
      | none => do return .string (← arg.text)

/-- `cxtFunc()`, from the argument with this index on. -/
def cxtFunc : Nat → List JsValue → Except JsError Fields
  | _, [] => .ok []
  | i, arg :: args => do
      let value ← contextValue arg
      let rest ← cxtFunc (i + 1) args
      return ("arg" ++ toString i, .value value) :: rest

/-- `req.stop(cxtFunc())`. -/
def stop (args : List JsValue) (clock : Clock) : Js Unit := do
  let _ ← Comp.eval (cxtFunc 0 args)
  Comp.modify fun s =>
    match s.probeData.req with
    | some r =>
        { s with
          tracker := s.tracker.stop clock r
          stopped := s.stopped ++ [r] }
    | none => s

/-- `if (!isCallback) req.stop(cxtFunc())`. -/
def stopWithoutCallback (methodString : String) (args : List JsValue)
    (clock : Clock) : Js Unit :=
  if isCallback methodString args then pure () else stop args clock

/-- `f`: the request ends in the callback, in a method of the response or,
if there is no callback, after the call. -/
def method (fullName methodString : String) : Advice where
  fresh := true
  before _ clock :=
    Comp.modify fun s =>
      { s with
        tracker := s.tracker.startMethod clock fullName none
        probeData :=
          { s.probeData with req := some s.tracker.requestCount } }
  callback c :=
    if isCallback methodString c.methodArgs &&
        !isResponseMethod c.methodArgs then
      some (c.methodArgs.length - 1)
    else none
  hookBefore c _ _ clock :=
    stop (Aspect.replaceAt c.methodArgs (some (c.methodArgs.length - 1)))
      clock
  hookAfter _ _ _ _ := pure ()
  after := some fun c rc clock => do
    stopWithoutCallback methodString c.methodArgs clock
    return rc

/-- `resArg.send` and `resArg.render` of a traced call with the arguments
`args`; the original is applied to the response itself. -/
def respond (args : List JsValue) : Advice where
  fresh := false
  receiver _ := resArg args
  before _ clock := stop args clock
  callback _ := none
  hookBefore _ _ _ _ := pure ()
  hookAfter _ _ _ _ := pure ()
  after := some fun _ rc _ => pure rc

end Trace

end Appmetrics
