/-
lib/serializer.js: flattening a graph of objects to JSON, with strings
`CIRCULAR-` + id for objects seen before, and inflating it again.

JSON text is represented by the tree it denotes: `JSON.stringify` and
`JSON.parse` are exact and keep the order of keys.  The properties of an object
are listed in the order of `for (var prop in obj)`.  Both functions recurse
with fuel.
-/
import Appmetrics.Effect
import Appmetrics.ObjectGraph
import Appmetrics.Text
import Appmetrics.Utf16
import Mathlib.Data.Rat.Lemmas

namespace Appmetrics

open Effect ObjectGraph

namespace Serializer

/-- A string is a sequence of UTF-16 units. -/
abbrev JsString := List UInt16

def units (s : String) : JsString := Utf16.ofText s.toList

def decimal (n : Nat) : JsString := Utf16.ofText (showNat n)

/-- 0 and -0 are one number, as for `===`. -/
inductive Number
  | finite (q : ℚ)
  | infinity (negative : Bool)
  | nan
deriving Repr, DecidableEq

/-- `builtin` stands for the functions and objects of the language itself,
which have no properties that `for (.. in ..)` lists. -/
inductive Prim
  | undefined
  | null
  | boolean (b : Bool)
  | number (n : Number)
  | string (s : JsString)
  | builtin (name : JsString)
deriving Repr, DecidableEq

abbrev PlainValue := Value Prim

abbrev PlainNode := Node JsString Prim

abbrev PlainHeap := Heap JsString Prim

abbrev PlainTree := Tree JsString Prim

/-- What JavaScript makes of values that only a property of the application
named `idCount` or a string of its own that looks like a reference brings in:
comparisons and texts that take more than a number, and the members that arrays
and objects inherit. -/
structure Engine where
  /-- the text that `JSON.stringify` writes -/
  jsonText : PlainTree → JsString
  /-- `v == 0` for a value that is no number; `none` where it throws -/
  equalsZero : PlainHeap → PlainValue → Option Bool
  primText : Prim → JsString
  /-- `'' + obj`; `none` where it throws -/
  objectText : PlainHeap → Nat → Option JsString
  arrayMembers : JsString → Bool
  objectMembers : JsString → Bool
  arrayLength : List (JsString × Nat) → Nat

inductive Halt
  | outOfFuel
  | typeError
  | rangeError
deriving Repr, DecidableEq

/-! ## Properties -/

def idCount : JsString := units "idCount"

def hasOwnProperty : JsString := units "hasOwnProperty"

def proto : JsString := units "__proto__"

/-- `obj[k] = v`; `obj.__proto__ = v` makes no property. -/
def put {A : Type} (fields : List (JsString × A)) (k : JsString) (v : A) :
    List (JsString × A) :=
  if k = proto then fields
  else if k ∈ fields.map Prod.fst then
    fields.map fun f => if f.1 = k then (k, v) else f
  else fields ++ [(k, v)]

/-- The elements of an array and the units of a string have their positions
for keys. -/
def indexed {A : Type} (vs : List A) : List (JsString × A) :=
  vs.zipIdx.map fun vi => (decimal vi.2, vi.1)

/-- What `for (var prop in ..)` finds in a node. -/
def nodeProperties : PlainNode → List (JsString × PlainValue)
  | .object fs => fs
  | .array es => indexed es

def properties (h : PlainHeap) : PlainValue → List (JsString × PlainValue)
  | .ref a => (h[a]?.map nodeProperties).getD []
  | .prim (.string s) => indexed (s.map fun u => .prim (.string [u]))
  | .prim _ => []

/-- `obj[k]` for a property of its own. -/
def property (h : PlainHeap) (a : Nat) (k : JsString) : PlainValue :=
  ((properties h (.ref a)).lookup k).getD (.prim .undefined)

/-! ## `serialize` -/

def CIRCULAR : JsString := units "CIRCULAR-"

/-- `CIRCULAR + id`. -/
def circular (id : Nat) : Prim := .string (CIRCULAR ++ decimal id)

/-- `v === w`. -/
def strictEquals : PlainValue → PlainValue → Bool
  | .prim (.number .nan), _ => false
  | v, w => v = w

/-- `objCache.indexOf(v)`; `none` is -1. -/
def indexOf (objCache : List PlainValue) (v : PlainValue) : Option Nat :=
  objCache.findIdx? (strictEquals v)

/-- `objCache.indexOf(v)` as a number. -/
def indexNumber (objCache : List PlainValue) (v : PlainValue) : Number :=
  match indexOf objCache v with
  | some i => .finite i
  | none => .finite (-1)

structure Serializing where
  heap : PlainHeap
  objCache : List PlainValue

/-- What `serialize` returns; `text t` is the text of `t`. -/
inductive Returned
  | text (t : PlainTree)
  | value (v : PlainValue)

def Returned.toValue (E : Engine) : Returned → PlainValue
  | .text t => .prim (.string (E.jsonText t))
  | .value v => v

def alloc (node : PlainNode) : Comp Halt Serializing PlainValue := fun s =>
  (.ok (.ref s.heap.length), { s with heap := s.heap ++ [node] })

section Serialize

variable (serialize : PlainValue → Number → Comp Halt Serializing PlainValue)

/-- A reference to what is in the cache; anything else is pushed and
serialized. -/
def reference (v : PlainValue) : Comp Halt Serializing PlainValue := do
  let s ← Comp.get
  match indexOf s.objCache v with
  | some id => return .prim (circular id)
  | none =>
      Comp.modify fun s => { s with objCache := s.objCache ++ [v] }
      serialize v (indexNumber (s.objCache ++ [v]) v)

def elements : List PlainValue → Comp Halt Serializing (List PlainValue)
  | [] => return []
  | v :: vs => do
      let w ← reference serialize v
      let ws ← elements vs
      return w :: ws

/-- What `newObj[prop]` becomes when `obj[prop]` is `v`. -/
def flatten (v : PlainValue) : Comp Halt Serializing PlainValue := do
  let s ← Comp.get
  match v with
  | .prim _ => return v
  | .ref a =>
      match s.heap[a]? with
      | some (.array []) => return v
      | some (.array es) => do
          let ws ← elements serialize es
          alloc (.array ws)
      | _ => reference serialize v

def walk : List (JsString × PlainValue) → List (JsString × PlainValue) →
    Comp Halt Serializing (List (JsString × PlainValue))
  | newObj, [] => return newObj
  | newObj, (prop, v) :: props => do
      let w ← flatten serialize v
      walk (put newObj prop w) props

/-- `newObj`, up to the last `if`.  The first `obj.hasOwnProperty(prop)` throws
if that is a property of the application. -/
def build (obj : PlainValue) (id : Number) :
    Comp Halt Serializing PlainValue := do
  let s ← Comp.get
  let props := properties s.heap obj
  if hasOwnProperty ∈ props.map Prod.fst then Comp.throw .typeError
  else do
    let newObj ← walk serialize [(idCount, .prim (.number id))] props
    alloc (.object newObj)

end Serialize

mutual

/-- What `JSON.stringify` writes of a value. -/
def stringified : PlainTree → PlainTree
  | .prim p =>
      match p with
      | .undefined => .prim .null
      | .number (.infinity _) => .prim .null
      | .number .nan => .prim .null
      | .builtin _ => .prim .null
      | p => .prim p
  | .object ms => .object (stringifiedMembers ms)
  | .array ts => .array (stringifiedElements ts)

def stringifiedMembers : List (JsString × PlainTree) →
    List (JsString × PlainTree)
  | [] => []
  | (k, t) :: ms =>
      match t with
      | .prim .undefined => stringifiedMembers ms
      | .prim (.builtin _) => stringifiedMembers ms
      | t => (k, stringified t) :: stringifiedMembers ms

def stringifiedElements : List PlainTree → List PlainTree
  | [] => []
  | t :: ts => stringified t :: stringifiedElements ts

end

/-- `newObj.idCount == 0`. -/
def isZero (E : Engine) (h : PlainHeap) : PlainValue → Option Bool
  | .prim (.number n) => some (n = .finite 0)
  | v => E.equalsZero h v

/-- The last `if`.  `JSON.stringify` throws on a cycle. -/
def finish (E : Engine) (newObj : PlainValue) :
    Comp Halt Serializing Returned := do
  let s ← Comp.get
  match isZero E s.heap
      (((properties s.heap newObj).lookup idCount).getD (.prim .undefined)) with
  | none => Comp.throw .typeError
  | some false => return .value newObj
  | some true =>
      match unfold s.heap (s.heap.length + 1) newObj with
      | none => Comp.throw .typeError
      | some t => return .text (stringified t)

def serialize (E : Engine) :
    Nat → PlainValue → Number → Comp Halt Serializing Returned
  | 0, _, _ => Comp.throw .outOfFuel
  | n + 1, obj, id => do
      let newObj ← build (fun v id => do
        let r ← serialize E n v id
        return r.toValue E) obj id
      finish E newObj

/-- A call of `serialize` for a part of `newObj`. -/
def nested (E : Engine) (n : Nat) (v : PlainValue) (id : Number) :
    Comp Halt Serializing PlainValue := do
  let r ← serialize E n v id
  return r.toValue E

/-- `newObj` in `serialize(obj)`. -/
def newObject (E : Engine) (n : Nat) (h : PlainHeap) (obj : PlainValue) :
    Except Halt PlainValue × Serializing :=
  build (nested E n) obj (.finite 0) { heap := h, objCache := [obj] }

/-- `serialize(obj)`. -/
def serializeGraph (E : Engine) (n : Nat) (h : PlainHeap) (obj : PlainValue) :
    Except Halt Returned × Serializing :=
  serialize E n obj (.finite 0) { heap := h, objCache := [obj] }

/-! ## `deserialize` -/

/-- The array `objCache`: what was assigned to it, the last assignment first,
and the object that took the place of its prototype. -/
structure ObjCache where
  entries : List (JsString × Nat)
  proto : Option Nat
deriving Repr, DecidableEq

structure Deserializing where
  heap : PlainHeap
  objCache : ObjCache

/-- The key that a value is as a property name. -/
def propertyKey (E : Engine) (h : PlainHeap) : PlainValue → Option JsString
  | .prim .undefined => some (units "undefined")
  | .prim .null => some (units "null")
  | .prim (.boolean b) => some (units (if b then "true" else "false"))
  | .prim (.number (.finite q)) =>
      if q.den = 1 ∧ 0 ≤ q.num then some (decimal q.num.toNat)
      else some (E.primText (.number (.finite q)))
  | .prim (.string s) => some s
  | .prim p => some (E.primText p)
  | .ref a => E.objectText h a

/-- `objCache[key] = obj`; an object is no length. -/
def ObjCache.set (c : ObjCache) (key : JsString) (a : Nat) : Option ObjCache :=
  if key = units "length" then none
  else if key = Serializer.proto then some { c with proto := some a }
  else some { c with entries := (key, a) :: c.entries }

/-- `objCache[index]`. -/
def ObjCache.get (E : Engine) (h : PlainHeap) (c : ObjCache)
    (index : JsString) : PlainValue :=
  match c.entries.lookup index with
  | some a => .ref a
  | none =>
      if index = units "length" then
        .prim (.number (.finite (E.arrayLength c.entries)))
      else
        match c.proto with
        | none =>
            .prim (if E.arrayMembers index then .builtin index else .undefined)
        | some a =>
            if index = Serializer.proto then .ref a
            else
              ((properties h (.ref a)).lookup index).getD
                (.prim (if E.objectMembers index then .builtin index
                  else .undefined))

/-- `delete obj[k]`. -/
def deleteProperty (k : JsString) : PlainNode → PlainNode
  | .object fs => .object (fs.filter fun f => f.1 ≠ k)
  | .array es => .array es

/-- `obj[k] = v` for a property that is there. -/
def setProperty (k : JsString) (v : PlainValue) : PlainNode → PlainNode
  | .object fs => .object (put fs k v)
  | .array es => .array ((put (indexed es) k v).map Prod.snd)

section Deserialize

variable (E : Engine) (deserialize : Nat → Comp Halt Deserializing Unit)

/-- `if (obj[prop].indexOf(CIRCULAR) === 0)`: the rest of the text is an index
of the cache. -/
def inflate (s : Deserializing) (t : JsString) : Option PlainValue :=
  if CIRCULAR <+: t then some (s.objCache.get E s.heap (t.drop 9)) else none

/-- One turn of the loop over the properties of `obj`. -/
def visit (a : Nat) (prop : JsString) : Comp Halt Deserializing Unit := do
  let s ← Comp.get
  match property s.heap a prop with
  | .ref b => deserialize b
  | .prim _ => pure ()
  let s ← Comp.get
  match property s.heap a prop with
  | .prim (.string t) =>
      match inflate E s t with
      | some v =>
          Comp.modify fun s =>
            { s with heap := s.heap.modify a (setProperty prop v) }
      | none => pure ()
  | _ => pure ()

def visitAll (a : Nat) : List JsString → Comp Halt Deserializing Unit
  | [] => pure ()
  | prop :: props => do
      visit E deserialize a prop
      visitAll a props

end Deserialize

/-- Take the `idCount` of an object and enter the object in the cache. -/
def register (E : Engine) (a : Nat) : Comp Halt Deserializing Unit := fun s =>
  let heap := s.heap.modify a (deleteProperty idCount)
  match propertyKey E heap (property s.heap a idCount) with
  | none => (.error .typeError, { s with heap })
  | some key =>
      match s.objCache.set key a with
      | none => (.error .rangeError, { s with heap })
      | some objCache => (.ok (), { heap, objCache })

def deserialize (E : Engine) : Nat → Nat → Comp Halt Deserializing Unit
  | 0, _ => Comp.throw .outOfFuel
  | n + 1, a => do
      register E a
      let s ← Comp.get
      visitAll E (deserialize E n) a ((properties s.heap (.ref a)).map Prod.fst)

/-- `deserialize(obj)`; a text is parsed first. -/
def deserializeGraph (E : Engine) (n : Nat) (h : PlainHeap) (obj : Returned) :
    Except Halt PlainValue × Deserializing :=
  let (v, heap) :=
    match obj with
    | .text t => load t h
    | .value v => (v, h)
  let s : Deserializing := { heap, objCache := { entries := [], proto := none } }
  match v with
  | .ref a => (do deserialize E n a; return v : Comp Halt Deserializing _) s
  | .prim p =>
      if p = .undefined ∨ p = .null then (.error .typeError, s) else (.ok v, s)

/-- `deserialize(serialize(obj))`, with fuel for each. -/
def roundTrip (E : Engine) (n m : Nat) (h : PlainHeap) (obj : PlainValue) :
    Except Halt PlainValue × PlainHeap :=
  match serializeGraph E n h obj with
  | (.error e, s) => (.error e, s.heap)
  | (.ok r, s) =>
      let (r, s) := deserializeGraph E m s.heap r
      (r, s.heap)

end Serializer

end Appmetrics
