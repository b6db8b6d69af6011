/-
JavaScript values as the hooks see them: what they test, which properties
they read, and which of these operations throw.
-/
import Mathlib.Data.Rat.Lemmas

namespace Appmetrics

/-- What the trace probe reads of a function; `prototype` has the keys of its
own prototype, if there is one. -/
structure FunctionInfo where
  name : String
  source : String
  keys : List String
  prototype : Option (List String)
deriving Repr, DecidableEq

/-- `forwarder f` is the function that `aspect.aroundCallback` puts in the
place of `f`.  An object has the properties `own`; it may lack the prototype
that others inherit from, and `JSON.stringify` may throw on it. -/
inductive JsValue
  | undefined
  | null
  | boolean (b : Bool)
  | number (n : Rat)
  | nan
  | bigint (n : Int)
  | string (s : String)
  | symbol (description : String)
  | function (f : FunctionInfo)
  | forwarder (callback : JsValue)
  | object (own : List (String × JsValue)) (inherits json : Bool)

inductive JsError
  | typeError (reason : String)
  | referenceError (name : String)
  | uriError
  /-- thrown by the application or by the library -/
  | thrown (value : JsValue)

namespace JsValue

/-- `v == undefined`. -/
def nullish : JsValue → Bool
  | undefined => true
  | null => true
  | _ => false

/-- `typeof v === 'function'`. -/
def isFunction : JsValue → Bool
  | function _ => true
  | forwarder _ => true
  | _ => false

def isObject : JsValue → Bool
  | object .. => true
  | _ => false

def isSymbol : JsValue → Bool
  | symbol _ => true
  | _ => false

/-- `v === s`. -/
def isText (v : JsValue) (s : String) : Bool :=
  match v with
  | string t => t = s
  | _ => false

/-- A request only passes its name on; one that is no string is left blank. -/
def asName : JsValue → String
  | string s => s
  | _ => ""

def truthy : JsValue → Bool
  | undefined => false
  | null => false
  | boolean b => b
  | number n => n ≠ 0
  | nan => false
  | bigint n => n ≠ 0
  | string s => s ≠ ""
  | _ => true

/-- `s.length`, in UTF-16 units. -/
def utf16Length (s : String) : Nat :=
  (s.toList.map fun c => if c.toNat < 65536 then 1 else 2).sum

/-- The characters that fit in the first `n` UTF-16 units. -/
def takeUnits : Nat → List Char → List Char
  | _, [] => []
  | n, c :: cs =>
      let width := if c.toNat < 65536 then 1 else 2
      if width ≤ n then c :: takeUnits (n - width) cs else []

/-- The properties an object has itself. -/
def ownProperty (v : JsValue) (p : String) : Option JsValue :=
  match v with
  | object own _ _ => own.lookup p
  | string s =>
      if p = "length" then some (number (utf16Length s)) else none
  | function _ => if p = "length" then some (number 0) else none
  | forwarder _ => if p = "length" then some (number 0) else none
  | _ => none

/-- `v[p]`; it throws only on `undefined` and `null`. -/
def get (v : JsValue) (p : String) : Except JsError JsValue :=
  if v.nullish then .error (.typeError "cannot read property of a nullish value")
  else .ok ((v.ownProperty p).getD undefined)

/-- `v[p] = ..` in strict mode, which throws on primitive values. -/
def put (v : JsValue) : Except JsError Unit :=
  if v.isObject || v.isFunction then .ok ()
  else .error (.typeError "cannot create property on a primitive value")

/-- `v.hasOwnProperty(p)`: the method is inherited, and may be missing or
hidden. -/
def hasOwnProperty (v : JsValue) (p : String) : Except JsError Bool :=
  match v with
  | undefined => .error (.typeError "cannot read property of a nullish value")
  | null => .error (.typeError "cannot read property of a nullish value")
  | object own inherits _ =>
      let method := own.lookup "hasOwnProperty"
      if method.elim inherits isFunction then .ok (own.lookup p).isSome
      else .error (.typeError "hasOwnProperty is not a function")
  | v => .ok (v.ownProperty p).isSome

/-- `JSON.stringify(v)` returns. -/
def stringifies : JsValue → Bool
  | bigint _ => false
  | object _ _ json => json
  | _ => true

/-- `ToPrimitive(v)` of a plain object or a function is its text; an object
without the usual prototype has none to give. -/
def toPrimitive : JsValue → Except JsError JsValue
  | object _ inherits _ =>
      if inherits then .ok (string "[object Object]")
      else .error (.typeError "cannot convert object to primitive value")
  | function f => .ok (string f.source)
  | forwarder _ => .ok (string "function() { .. }")
  | v => .ok v

/-- The text of a number, which is the usual one for integers. -/
def numberText (n : Rat) : String :=
  if n.den = 1 then toString n.num else toString n

/-- `ToString(v)` of a primitive value. -/
def text : JsValue → Except JsError String
  | undefined => .ok "undefined"
  | null => .ok "null"
  | boolean b => .ok (if b then "true" else "false")
  | number n => .ok (numberText n)
  | nan => .ok "NaN"
  | bigint n => .ok (toString n)
  | string s => .ok s
  | _ => .error (.typeError "cannot convert a symbol to a string")

/-- `Number(s)` for an integer in decimal digits; `none` is `NaN`. -/
def numericText (s : String) : Option Rat :=
  if s.trimAscii.isEmpty then some 0 else s.toInt?.map fun n => n

/-- `ToNumber(v)` of a primitive value; `none` is `NaN`. -/
def toNumber : JsValue → Option Rat
  | null => some 0
  | boolean b => some (if b then 1 else 0)
  | number n => some n
  | string s => numericText s
  | _ => none

/-- The sum of two numbers; `none` is `NaN`. -/
def sum : Option Rat → Option Rat → JsValue
  | some m, some n => number (m + n)
  | _, _ => nan

/-- `a + b`. -/
def plus (a b : JsValue) : Except JsError JsValue := do
  let a ← a.toPrimitive
  let b ← b.toPrimitive
  match a, b with
  | string s, b => return string (s ++ (← b.text))
  | a, string t => return string ((← a.text) ++ t)
  | symbol _, _ => .error (.typeError "cannot convert a symbol to a number")
  | _, symbol _ => .error (.typeError "cannot convert a symbol to a number")
  | bigint m, bigint n => return bigint (m + n)
  | bigint _, _ => .error (.typeError "cannot mix bigint and other types")
  | _, bigint _ => .error (.typeError "cannot mix bigint and other types")
  | a, b => return sum a.toNumber b.toNumber

/-- `v > bound`. -/
def exceeds (v : JsValue) (bound : Rat) : Except JsError Bool := do
  match ← v.toPrimitive with
  | symbol _ => .error (.typeError "cannot convert a symbol to a number")
  | bigint n => return decide (bound < n)
  | v => return v.toNumber.any fun n => bound < n

/-- `v[p](..)` of a method that returns. -/
def method (v : JsValue) (p : String) : Except JsError Unit := do
  if (← v.get p).isFunction then return ()
  else .error (.typeError "not a function")

end JsValue

end Appmetrics
