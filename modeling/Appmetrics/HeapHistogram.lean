/-
src/objecttracker.cpp: `getObjectHistogram` counts the nodes of a heap
snapshot in an ordinary JavaScript object, where names are looked up along
the prototype chain.
-/
import Mathlib.Algebra.BigOperators.Group.List.Basic
import Mathlib.Algebra.GroupWithZero.Nat
import Mathlib.Logic.Function.Basic

namespace Appmetrics

namespace ObjectTracker

/-! ## Objects -/

/-- `primitive` has its integer value, if it has one, and the prototype chain
of the object that wraps it. -/
inductive Value
  | undefined
  | null
  | primitive (integer : Option Int) (chain : List Nat)
  | ref (r : Nat)
deriving Repr, DecidableEq

namespace Value

/-- `IsNull() || IsUndefined()`. -/
def nullish : Value → Bool
  | undefined => true
  | null => true
  | _ => false

end Value

/-- Own properties, and the objects of the prototype chain. -/
structure Obj where
  own : String → Option Value
  chain : List Nat

/-- The objects below `next` exist. -/
structure Heap where
  objects : Nat → Obj
  next : Nat

/-- The built-in objects of the context; `integerOf` is the integer that an
object is converted to, if that does not throw. -/
structure World where
  objectPrototype : Nat
  numberChain : List Nat
  integerOf : Nat → Option Int

namespace Heap

def lookup (h : Heap) (name : String) (chain : List Nat) : Option Value :=
  chain.findSome? fun r => (h.objects r).own name

/-- `Nan::Get(object, name)`.  `__proto__` is an accessor that all objects
inherit. -/
def get (w : World) (h : Heap) (r : Nat) (name : String) : Value :=
  match h.lookup name (r :: (h.objects r).chain) with
  | some v => v
  | none =>
      if name = "__proto__" ∧ w.objectPrototype ∈ r :: (h.objects r).chain
      then
        match (h.objects r).chain with
        | [] => .null
        | prototype :: _ => .ref prototype
      else .undefined

/-- `object->Set(context, name, v)`, not reached for an accessor. -/
def set (h : Heap) (r : Nat) (name : String) (v : Value) : Heap :=
  { h with
    objects := Function.update h.objects r
      { h.objects r with
        own := Function.update (h.objects r).own name (some v) } }

/-- An object without properties. -/
def alloc (h : Heap) (chain : List Nat) : Heap where
  objects := Function.update h.objects h.next ⟨fun _ => none, chain⟩
  next := h.next + 1

end Heap

namespace World

/-- The prototypes of `Object::New(isolate)`. -/
def objectChain (w : World) (h : Heap) : List Nat :=
  w.objectPrototype :: (h.objects w.objectPrototype).chain

def number (w : World) (n : Int) : Value := .primitive (some n) w.numberChain

/-- `v->IntegerValue(context).FromJust()`; `none` aborts the process. -/
def integerValue (w : World) : Value → Option Int
  | .undefined => some 0
  | .null => some 0
  | .primitive integer _ => integer
  | .ref r => w.integerOf r

end World

/-- `Nan::To<Object>(v)`, which throws on `undefined` and `null`. -/
def toObject (h : Heap) : Value → Option (Nat × Heap)
  | .ref r => some (r, h)
  | .primitive _ chain => some (h.next, h.alloc chain)
  | .undefined => none
  | .null => none

/-! ## The histogram -/

inductive NodeType
  | hidden
  | array
  | string
  | object
  | code
  | closure
  | regExp
  | heapNumber
  | native
  | synthetic
  | consString
  | slicedString
  | symbol
  | bigInt
deriving Repr, DecidableEq

structure HeapGraphNode where
  type : NodeType
  name : String
  shallowSize : Nat
deriving Repr, DecidableEq

/-- The name under which a node is counted. -/
def HeapGraphNode.className (node : HeapGraphNode) : Option String :=
  match node.type with
  | .object => some node.name
  | .string => some "(string)"
  | .array => some "(array)"
  | _ => none

/-- The last part of the loop body. -/
def setTuple (w : World) (h : Heap) (tuple : Nat) (count size : Int) : Heap :=
  (h.set tuple "count" (w.number count)).set tuple "size" (w.number size)

/-- The loop body for a node that is counted. -/
def countNode (w : World) (histogram : Nat) (h : Heap) (name : String)
    (shallowSize : Nat) : Option Heap :=
  let tupleval := h.get w histogram name
  if tupleval.nullish then
    let tuple := h.next
    let h := (h.alloc (w.objectChain h)).set histogram name (.ref tuple)
    some (setTuple w h tuple 1 shallowSize)
  else do
    let (tuple, h) ← toObject h tupleval
    let ncount ← w.integerValue (h.get w tuple "count")
    let nsize ← w.integerValue (h.get w tuple "size")
    some (setTuple w h tuple (ncount + 1) (nsize + shallowSize))

def visitNode (w : World) (histogram : Nat) (h : Heap) (node : HeapGraphNode) :
    Option Heap :=
  match node.className with
  | none => some h
  | some name => countNode w histogram h name node.shallowSize

/-- The nodes are those of the snapshot; the result is the histogram and the
heap after the call. -/
def getObjectHistogram (w : World) (h : Heap) (nodes : List HeapGraphNode) :
    Option (Nat × Heap) :=
  (nodes.foldlM (visitNode w h.next) (h.alloc (w.objectChain h))).map
    fun h' => (h.next, h')

/-! ## Exact histograms -/

/-- The nodes with a class name. -/
def ofClass (nodes : List HeapGraphNode) (name : String) :
    List HeapGraphNode :=
  nodes.filter (·.className = some name)

def classSize (nodes : List HeapGraphNode) (name : String) : Nat :=
  ((ofClass nodes name).map HeapGraphNode.shallowSize).sum

/-- The histogram has a tuple for each class that occurs, with its nodes and
their size, and the objects that were there before are as they were. -/
structure HistogramOf (w : World) (h : Heap) (nodes : List HeapGraphNode)
    (histogram : Nat) (h' : Heap) : Prop where
  own : ∀ name, ((h'.objects histogram).own name).isSome ↔
    ∃ node ∈ nodes, node.className = some name
  tuple : ∀ name v, (h'.objects histogram).own name = some v →
    ∃ tuple, v = .ref tuple ∧ h.next < tuple ∧
      (h'.objects tuple).own "count" =
        some (w.number (ofClass nodes name).length) ∧
      (h'.objects tuple).own "size" =
        some (w.number (classSize nodes name))
  fresh : histogram = h.next
  frame : ∀ r < h.next, h'.objects r = h.objects r

def Exact (w : World) (h : Heap) (nodes : List HeapGraphNode) : Prop :=
  ∃ histogram h', getObjectHistogram w h nodes = some (histogram, h') ∧
    HistogramOf w h nodes histogram h'

/-- The prototypes exist, and references lead to objects that exist. -/
structure Heap.Closed (w : World) (h : Heap) : Prop where
  chain : ∀ r ∈ w.objectChain h, r < h.next
  values : ∀ r < h.next, ∀ name s,
    (h.objects r).own name = some (.ref s) → s < h.next

/-- What a new object inherits under a name. -/
def inherited (w : World) (h : Heap) (name : String) : Value :=
  match h.lookup name (w.objectChain h) with
  | some v => v
  | none =>
      if name = "__proto__" then .ref w.objectPrototype else .undefined

/-- No class that is counted has the name of an inherited property. -/
def Unshadowed (w : World) (h : Heap) (nodes : List HeapGraphNode) : Prop :=
  ∀ node ∈ nodes, ∀ name ∈ node.className, (inherited w h name).nullish = true

/-! ## Properties -/

namespace Heap

variable {w : World} {h : Heap} {r t : Nat} {name : String} {v : Value}

@[simp] theorem set_next : (h.set r name v).next = h.next := rfl

@[simp] theorem set_chain :
    ((h.set r name v).objects t).chain = (h.objects t).chain := by
  by_cases heq : t = r
  · subst heq
    simp [set]
  · simp [set, heq]

theorem set_objects_of_ne (hne : t ≠ r) :
    (h.set r name v).objects t = h.objects t := Function.update_of_ne hne ..

theorem set_own :
    ((h.set r name v).objects r).own =
      Function.update (h.objects r).own name (some v) := by
  simp [set]

@[simp] theorem alloc_next {chain : List Nat} :
    (h.alloc chain).next = h.next + 1 := rfl

theorem alloc_objects_of_ne {chain : List Nat} (hne : t ≠ h.next) :
    (h.alloc chain).objects t = h.objects t := Function.update_of_ne hne ..

theorem alloc_objects_next {chain : List Nat} :
    (h.alloc chain).objects h.next = ⟨fun _ => none, chain⟩ :=
  Function.update_self ..

theorem get_of_own (hown : (h.objects r).own name = some v) :
    h.get w r name = v := by
  simp [get, lookup, hown]

/-- What is not an own property is inherited. -/
theorem get_of_chain (hchain : (h.objects r).chain = w.objectChain h) :
    h.get w r name = ((h.objects r).own name).getD (inherited w h name) := by
  cases hown : (h.objects r).own name with
  | some v => exact get_of_own hown
  | none =>
      have hlookup : h.lookup name (r :: (h.objects r).chain) =
          h.lookup name (w.objectChain h) := by
        rw [hchain]
        simp [lookup, hown]
      unfold get inherited
      rw [hlookup, hchain]
      cases h.lookup name (w.objectChain h) with
      | some v => rfl
      | none => simp [World.objectChain]

theorem lookup_congr {h h' : Heap} {chain : List Nat}
    (hsame : ∀ r ∈ chain, h'.objects r = h.objects r) :
    h'.lookup name chain = h.lookup name chain := by
  induction chain with
  | nil => rfl
  | cons r chain ih =>
      have ih := ih fun t ht => hsame t (by simp [ht])
      unfold lookup at ih ⊢
      rw [List.findSome?_cons, List.findSome?_cons, ih, hsame r (by simp)]

/-- A property that is set is found, or makes no difference. -/
theorem lookup_set (h : Heap) (r : Nat) (key name : String) (v : Value)
    (chain : List Nat) :
    (h.set r key v).lookup name chain = h.lookup name chain ∨
      (h.set r key v).lookup name chain = some v := by
  induction chain with
  | nil => exact Or.inl rfl
  | cons t chain ih =>
      unfold lookup at ih ⊢
      rw [List.findSome?_cons, List.findSome?_cons]
      have hown : ((h.set r key v).objects t).own name =
          (h.objects t).own name ∨
            ((h.set r key v).objects t).own name = some v := by
        by_cases ht : t = r
        · subst ht
          rw [set_own]
          by_cases hkey : name = key
          · subst hkey
            exact Or.inr (Function.update_self ..)
          · exact Or.inl (Function.update_of_ne hkey ..)
        · exact Or.inl (by rw [set_objects_of_ne ht])
      rcases hown with hown | hown
      · rw [hown]
        cases (h.objects t).own name with
        | some u => exact Or.inl rfl
        | none => exact ih
      · rw [hown]
        exact Or.inr rfl

end Heap

section SetTuple

variable {w : World} {h : Heap} {r tuple : Nat} {count size : Int}

theorem setTuple_objects_of_ne (hne : r ≠ tuple) :
    (setTuple w h tuple count size).objects r = h.objects r := by
  rw [setTuple, Heap.set_objects_of_ne hne, Heap.set_objects_of_ne hne]

theorem setTuple_count :
    ((setTuple w h tuple count size).objects tuple).own "count" =
      some (w.number count) := by
  simp [setTuple, Heap.set_own]

theorem setTuple_size :
    ((setTuple w h tuple count size).objects tuple).own "size" =
      some (w.number size) := by
  simp [setTuple, Heap.set_own]

/-- Only references that were there before are read afterwards. -/
theorem set_number_ref {key name : String} {n : Int} {s : Nat}
    (hown : ((h.set tuple name (w.number n)).objects r).own key =
      some (.ref s)) : (h.objects r).own key = some (.ref s) := by
  by_cases hr : r = tuple
  · subst hr
    rw [Heap.set_own] at hown
    by_cases hkey : key = name
    · subst hkey
      rw [Function.update_self] at hown
      cases hown
    · rwa [Function.update_of_ne hkey] at hown
  · rwa [Heap.set_objects_of_ne hr] at hown

theorem setTuple_ref {key : String} {s : Nat}
    (hown : ((setTuple w h tuple count size).objects r).own key =
      some (.ref s)) : (h.objects r).own key = some (.ref s) :=
  set_number_ref (set_number_ref hown)

end SetTuple

theorem objectChain_congr {w : World} {h h' : Heap}
    (hchain : (h'.objects w.objectPrototype).chain =
      (h.objects w.objectPrototype).chain) :
    w.objectChain h' = w.objectChain h := by
  rw [World.objectChain, World.objectChain, hchain]

/-- Prototypes that stay as they are hand on the same properties. -/
theorem inherited_congr {w : World} {h h' : Heap} (hclosed : h.Closed w)
    (hframe : ∀ r < h.next, h'.objects r = h.objects r) :
    w.objectChain h' = w.objectChain h ∧
      ∀ name, inherited w h' name = inherited w h name := by
  have hprototype := hframe _ (hclosed.chain w.objectPrototype (by
    simp [World.objectChain]))
  have hchain : w.objectChain h' = w.objectChain h :=
    objectChain_congr (by rw [hprototype])
  refine ⟨hchain, fun name => ?_⟩
  unfold inherited
  rw [hchain, Heap.lookup_congr fun r hr => hframe r (hclosed.chain r hr)]

/-! ## Names that are not inherited -/

theorem ofClass_append (nodes : List HeapGraphNode) (node : HeapGraphNode)
    (name : String) :
    ofClass (nodes ++ [node]) name = ofClass nodes name ++
      if node.className = some name then [node] else [] := by
  unfold ofClass
  rw [List.filter_append]
  by_cases h : node.className = some name <;> simp [h]

theorem ofClass_of_ne (nodes : List HeapGraphNode) {node : HeapGraphNode}
    {name : String} (hne : node.className ≠ some name) :
    ofClass (nodes ++ [node]) name = ofClass nodes name := by
  simp [ofClass_append, hne]

theorem classSize_of_ne (nodes : List HeapGraphNode) {node : HeapGraphNode}
    {name : String} (hne : node.className ≠ some name) :
    classSize (nodes ++ [node]) name = classSize nodes name := by
  rw [classSize, ofClass_of_ne nodes hne, classSize]

/-- The histogram tells the nodes visited so far. -/
structure Tallied (w : World) (h₀ : Heap) (nodes : List HeapGraphNode)
    (h : Heap) : Prop where
  frame : ∀ r < h₀.next, h.objects r = h₀.objects r
  next : h₀.next < h.next
  chain : (h.objects h₀.next).chain = w.objectChain h₀
  own : ∀ name, ((h.objects h₀.next).own name).isSome ↔
    ∃ node ∈ nodes, node.className = some name
  tuple : ∀ name v, (h.objects h₀.next).own name = some v →
    ∃ tuple, v = .ref tuple ∧ h₀.next < tuple ∧ tuple < h.next ∧
      (h.objects tuple).own "count" =
        some (w.number (ofClass nodes name).length) ∧
      (h.objects tuple).own "size" = some (w.number (classSize nodes name))
  distinct : ∀ name name' tuple,
    (h.objects h₀.next).own name = some (.ref tuple) →
    (h.objects h₀.next).own name' = some (.ref tuple) → name = name'
  numbers : ∀ r, h₀.next < r → r < h.next → ∀ name s,
    (h.objects r).own name ≠ some (.ref s)

namespace Tallied

variable {w : World} {h₀ h : Heap} {nodes : List HeapGraphNode}
  {node : HeapGraphNode} {name : String}

theorem start (h₀ : Heap) :
    Tallied w h₀ [] (h₀.alloc (w.objectChain h₀)) where
  frame r hr := Heap.alloc_objects_of_ne (by omega)
  next := Nat.lt_succ_self _
  chain := by rw [Heap.alloc_objects_next]
  own name := by simp [Heap.alloc_objects_next]
  tuple name v hown := by simp [Heap.alloc_objects_next] at hown
  distinct name name' tuple hown := by
    simp [Heap.alloc_objects_next] at hown
  numbers r hlow hhigh := by
    rw [Heap.alloc_next] at hhigh
    omega

theorem skip (hinv : Tallied w h₀ nodes h) (hnode : node.className = none) :
    Tallied w h₀ (nodes ++ [node]) h := by
  have hne (name : String) : node.className ≠ some name := by simp [hnode]
  refine { hinv with own := fun name => ?_, tuple := fun name v hown => ?_ }
  · rw [hinv.own]
    simp [hnode]
  · obtain ⟨tuple, hv, hlow, hhigh, hcount, hsize⟩ := hinv.tuple name v hown
    refine ⟨tuple, hv, hlow, hhigh, ?_, ?_⟩
    · rw [ofClass_of_ne nodes (hne name), hcount]
    · rw [classSize_of_ne nodes (hne name), hsize]

/-- One more node for the tuple `t`, which may be new. -/
theorem count (hinv : Tallied w h₀ nodes h) (t : Nat) (h₁ : Heap)
    (hnode : node.className = some name) (hlow : h₀.next < t)
    (hhigh : t < h₁.next) (hnext : h.next ≤ h₁.next)
    (hhistogram : h₁.objects h₀.next = { h.objects h₀.next with
      own := Function.update (h.objects h₀.next).own name (some (.ref t)) })
    (hother : ∀ r < h.next, r ≠ h₀.next → h₁.objects r = h.objects r)
    (hunique : ∀ name', (h.objects h₀.next).own name' = some (.ref t) →
      name' = name)
    (hnumbers : ∀ r, h₀.next < r → r < h₁.next → ∀ name s,
      (h₁.objects r).own name ≠ some (.ref s)) :
    Tallied w h₀ (nodes ++ [node]) (setTuple w h₁ t
      ((ofClass nodes name).length + 1)
      (classSize nodes name + node.shallowSize)) := by
  have hnext' := hinv.next
  have hobject : (setTuple w h₁ t ((ofClass nodes name).length + 1)
      (classSize nodes name + node.shallowSize)).objects h₀.next =
        h₁.objects h₀.next := setTuple_objects_of_ne (by omega)
  -- the histogram has the tuple under the name, and is else as it was
  have hself : (h₁.objects h₀.next).own name = some (.ref t) := by
    rw [hhistogram]
    exact Function.update_self ..
  have hown {name' : String} (hne : name' ≠ name) :
      (h₁.objects h₀.next).own name' = (h.objects h₀.next).own name' := by
    rw [hhistogram]
    exact Function.update_of_ne hne ..
  have hsame {name' : String}
      (hname' : (h₁.objects h₀.next).own name' = some (.ref t)) :
      name' = name := by
    by_contra hne
    exact hne (hunique name' (hown hne ▸ hname'))
  constructor
  case frame =>
    intro r hr
    rw [setTuple_objects_of_ne (by omega), hother r (by omega) (by omega),
      hinv.frame r hr]
  case next => exact Nat.lt_of_lt_of_le hinv.next hnext
  case chain =>
    rw [hobject, hhistogram]
    exact hinv.chain
  case own =>
    intro name'
    rw [hobject]
    by_cases heq : name' = name
    · subst heq
      simp [hnode, hself]
    · rw [hown heq, hinv.own]
      simp [hnode, Ne.symm heq]
  case tuple =>
    intro name' v hv
    rw [hobject] at hv
    by_cases heq : name' = name
    · subst heq
      cases hself.symm.trans hv
      refine ⟨t, rfl, hlow, hhigh, ?_, ?_⟩
      · rw [setTuple_count, ofClass_append, if_pos hnode]
        simp
      · rw [setTuple_size, classSize, classSize, ofClass_append,
          if_pos hnode]
        simp
    · obtain ⟨tuple, rfl, hlow', hhigh', hcount, hsize⟩ :=
        hinv.tuple name' v (hown heq ▸ hv)
      have hne : tuple ≠ t := fun htuple => heq (hsame (htuple ▸ hv))
      have hclass : node.className ≠ some name' := by
        simp [hnode, Ne.symm heq]
      refine ⟨tuple, rfl, hlow', Nat.lt_of_lt_of_le hhigh' hnext, ?_, ?_⟩
      · rw [setTuple_objects_of_ne hne, hother _ hhigh' (by omega),
          ofClass_of_ne nodes hclass, hcount]
      · rw [setTuple_objects_of_ne hne, hother _ hhigh' (by omega),
          classSize_of_ne nodes hclass, hsize]
  case distinct =>
    intro name' name'' tuple hname' hname''
    rw [hobject] at hname' hname''
    by_cases htuple : tuple = t
    · subst htuple
      exact (hsame hname').trans (hsame hname'').symm
    · have hne {other : String}
          (hother : (h₁.objects h₀.next).own other = some (.ref tuple)) :
          other ≠ name := by
        rintro rfl
        cases hself.symm.trans hother
        exact htuple rfl
      rw [hown (hne hname')] at hname'
      rw [hown (hne hname'')] at hname''
      exact hinv.distinct name' name'' tuple hname' hname''
  case numbers =>
    intro r hlow' hhigh' key s href
    exact hnumbers r hlow' hhigh' key s (setTuple_ref href)

theorem ofClass_eq_nil (hinv : Tallied w h₀ nodes h)
    (hown : (h.objects h₀.next).own name = none) : ofClass nodes name = [] := by
  rw [ofClass, List.filter_eq_nil_iff]
  intro node hnode
  have hnone := mt (hinv.own name).mpr (by simp [hown])
  simpa using fun hclass => hnone ⟨node, hnode, hclass⟩

/-- The first node of its class gets a new tuple. -/
theorem count_first (hinv : Tallied w h₀ nodes h)
    (hnode : node.className = some name)
    (hown : (h.objects h₀.next).own name = none) :
    Tallied w h₀ (nodes ++ [node])
      (setTuple w ((h.alloc (w.objectChain h)).set h₀.next name
        (.ref h.next)) h.next 1 node.shallowSize) := by
  have hnext := hinv.next
  have hnil := hinv.ofClass_eq_nil hown
  have hcount := hinv.count h.next
    ((h.alloc (w.objectChain h)).set h₀.next name (.ref h.next))
    hnode hnext (by simp) (by simp) ?histogram ?other ?unique ?numbers
  · simpa [classSize, hnil] using hcount
  case histogram =>
    simp [Heap.set, Heap.alloc_objects_of_ne (Nat.ne_of_lt hnext)]
  case other =>
    intro r hr hne
    rw [Heap.set_objects_of_ne hne, Heap.alloc_objects_of_ne (Nat.ne_of_lt hr)]
  case unique =>
    intro name' hname'
    obtain ⟨tuple, heq, _, hlt, _⟩ := hinv.tuple name' _ hname'
    cases heq
    omega
  case numbers =>
    intro r hlow hhigh key s
    rw [Heap.set_objects_of_ne (Nat.ne_of_gt hlow)]
    by_cases hr : r = h.next
    · rw [hr, Heap.alloc_objects_next]
      exact (Option.some_ne_none _).symm
    · rw [Heap.alloc_objects_of_ne hr]
      have hlt : r < h.next := by
        simp only [Heap.set_next, Heap.alloc_next] at hhigh
        omega
      exact hinv.numbers r hlow hlt key s

/-- One node whose name nothing is inherited under. -/
theorem visit (hinv : Tallied w h₀ nodes h) (hclosed : h₀.Closed w)
    (hnode : ∀ name ∈ node.className,
      (inherited w h₀ name).nullish = true) :
    ∃ h', visitNode w h₀.next h node = some h' ∧
      Tallied w h₀ (nodes ++ [node]) h' := by
  cases hclass : node.className with
  | none => exact ⟨h, by rw [visitNode, hclass], hinv.skip hclass⟩
  | some name =>
      have hnullish := hnode name hclass
      obtain ⟨hobject, hinherited⟩ := inherited_congr hclosed hinv.frame
      have hget : h.get w h₀.next name =
          ((h.objects h₀.next).own name).getD (inherited w h₀ name) := by
        rw [Heap.get_of_chain (by rw [hinv.chain, hobject]), hinherited]
      simp only [visitNode, hclass]
      unfold countNode
      cases hown : (h.objects h₀.next).own name with
      | none =>
          rw [hown, Option.getD_none] at hget
          refine ⟨_, ?_, hinv.count_first hclass hown⟩
          rw [hget, if_pos hnullish]
      | some v =>
          obtain ⟨tuple, rfl, hlow, hhigh, hcount, hsize⟩ :=
            hinv.tuple name v hown
          rw [hown, Option.getD_some] at hget
          have hmore := hinv.count tuple h hclass hlow hhigh
            (Nat.le_refl _) ?_ (fun _ _ _ => rfl)
            (fun name' hname' => hinv.distinct name' name tuple hname' hown)
            hinv.numbers
          · refine ⟨_, ?_, hmore⟩
            rw [hget]
            simp [Value.nullish, toObject, Heap.get_of_own hcount,
              Heap.get_of_own hsize, World.integerValue, World.number]
          · rw [← hown, Function.update_eq_self]

theorem run (hclosed : h₀.Closed w) (rest : List HeapGraphNode)
    (hinv : Tallied w h₀ nodes h) (hrest : Unshadowed w h₀ rest) :
    ∃ h', rest.foldlM (visitNode w h₀.next) h = some h' ∧
      Tallied w h₀ (nodes ++ rest) h' := by
  induction rest generalizing nodes h with
  | nil => exact ⟨h, rfl, by rwa [List.append_nil]⟩
  | cons node rest ih =>
      obtain ⟨hnode, hrest⟩ := List.forall_mem_cons.mp hrest
      obtain ⟨h₁, hvisit, hinv₁⟩ := hinv.visit hclosed hnode
      obtain ⟨h', hrun, hinv'⟩ := ih hinv₁ hrest
      refine ⟨h', ?_, by simpa using hinv'⟩
      rw [List.foldlM_cons, hvisit]
      exact hrun

theorem histogramOf (hinv : Tallied w h₀ nodes h) :
    HistogramOf w h₀ nodes h₀.next h where
  own := hinv.own
  tuple name v hown := by
    obtain ⟨tuple, hv, hlow, _, hcount, hsize⟩ := hinv.tuple name v hown
    exact ⟨tuple, hv, hlow, hcount, hsize⟩
  fresh := rfl
  frame := hinv.frame

theorem closed (hinv : Tallied w h₀ nodes h) (hclosed : h₀.Closed w) :
    h.Closed w where
  chain r hr := by
    rw [(inherited_congr hclosed hinv.frame).1] at hr
    exact Nat.lt_trans (hclosed.chain r hr) hinv.next
  values r hr name s hs := by
    rcases Nat.lt_trichotomy r h₀.next with hlt | rfl | hgt
    · rw [hinv.frame r hlt] at hs
      exact Nat.lt_trans (hclosed.values r hlt name s hs) hinv.next
    · obtain ⟨tuple, heq, _, hhigh, _⟩ := hinv.tuple name _ hs
      cases heq
      exact hhigh
    · exact absurd hs (hinv.numbers r hgt hr name s)

end Tallied

/-- Without names that are inherited the histogram is exact. -/
theorem getObjectHistogram_unshadowed {w : World} {h : Heap}
    {nodes : List HeapGraphNode} (hclosed : h.Closed w)
    (hnodes : Unshadowed w h nodes) :
    ∃ h', getObjectHistogram w h nodes = some (h.next, h') ∧
      Tallied w h nodes h' := by
  obtain ⟨h', hrun, hinv⟩ := (Tallied.start h).run hclosed nodes hnodes
  refine ⟨h', ?_, hinv⟩
  rw [getObjectHistogram, hrun]
  rfl

/-! ## Names that are inherited -/

/-- The histogram has no property of its own under an inherited name. -/
structure Shadowed (w : World) (h₀ : Heap) (name : String) (h : Heap) :
    Prop where
  next : h₀.next < h.next
  chain : (h.objects h₀.next).chain = w.objectChain h
  below : ∀ r ∈ w.objectChain h, r < h₀.next
  values : ∀ r < h₀.next, ∀ key s,
    (h.objects r).own key = some (.ref s) → s < h₀.next
  own : ∀ key s, (h.objects h₀.next).own key = some (.ref s) → h₀.next < s
  missing : (h.objects h₀.next).own name = none
  inherited : (inherited w h name).nullish = false

namespace Shadowed

variable {w : World} {h₀ h : Heap} {name : String}

theorem start {name : String} (hclosed : h₀.Closed w)
    (hname : (ObjectTracker.inherited w h₀ name).nullish = false) :
    Shadowed w h₀ name (h₀.alloc (w.objectChain h₀)) := by
  have hframe (r : Nat) (hr : r < h₀.next) :
      (h₀.alloc (w.objectChain h₀)).objects r = h₀.objects r :=
    Heap.alloc_objects_of_ne (Nat.ne_of_lt hr)
  obtain ⟨hchain, hinherited⟩ := inherited_congr hclosed hframe
  constructor
  · exact Nat.lt_succ_self _
  · rw [Heap.alloc_objects_next, hchain]
  · rw [hchain]
    exact hclosed.chain
  · intro r hr
    rw [hframe r hr]
    exact hclosed.values r hr
  · simp [Heap.alloc_objects_next]
  · rw [Heap.alloc_objects_next]
  · rw [hinherited, hname]

/-- A new object, and perhaps its entry, change nothing. -/
theorem congr {h' : Heap} (hinv : Shadowed w h₀ name h)
    (hnext : h.next ≤ h'.next)
    (hframe : ∀ r < h₀.next, h'.objects r = h.objects r)
    (hchain : (h'.objects h₀.next).chain = (h.objects h₀.next).chain)
    (hown : ∀ key s, (h'.objects h₀.next).own key = some (.ref s) →
      h₀.next < s)
    (hmissing : (h'.objects h₀.next).own name = none) :
    Shadowed w h₀ name h' := by
  have hobject : w.objectChain h' = w.objectChain h :=
    objectChain_congr (by
      rw [hframe _ (hinv.below _ (by simp [World.objectChain]))])
  constructor
  · exact Nat.lt_of_lt_of_le hinv.next hnext
  · rw [hchain, hobject]
    exact hinv.chain
  · rw [hobject]
    exact hinv.below
  · intro r hr
    rw [hframe r hr]
    exact hinv.values r hr
  · exact hown
  · exact hmissing
  · have hsame : ObjectTracker.inherited w h' name =
        ObjectTracker.inherited w h name := by
      unfold ObjectTracker.inherited
      rw [hobject, Heap.lookup_congr fun r hr => hframe r (hinv.below r hr)]
    rw [hsame, hinv.inherited]

/-- Setting a number in another object changes nothing that matters here,
even if it is one of the prototypes. -/
theorem set (hinv : Shadowed w h₀ name h) {r : Nat} (hr : r ≠ h₀.next)
    (key : String) (n : Int) :
    Shadowed w h₀ name (h.set r key (w.number n)) := by
  have hobject : w.objectChain (h.set r key (w.number n)) =
      w.objectChain h := objectChain_congr Heap.set_chain
  constructor
  · exact hinv.next
  · rw [Heap.set_chain, hobject]
    exact hinv.chain
  · rw [hobject]
    exact hinv.below
  · intro t ht key' s hs
    exact hinv.values t ht key' s (set_number_ref hs)
  · intro key' s hs
    exact hinv.own key' s (set_number_ref hs)
  · rw [Heap.set_objects_of_ne hr.symm]
    exact hinv.missing
  · have hinherited := hinv.inherited
    unfold ObjectTracker.inherited at hinherited ⊢
    rw [hobject]
    rcases h.lookup_set r key name (w.number n) (w.objectChain h) with
      hsame | hnumber
    · rw [hsame]
      exact hinherited
    · rw [hnumber]
      rfl

theorem setTuple (hinv : Shadowed w h₀ name h) {tuple : Nat}
    (htuple : tuple ≠ h₀.next) (count size : Int) :
    Shadowed w h₀ name (ObjectTracker.setTuple w h tuple count size) :=
  (hinv.set htuple "count" count).set htuple "size" size

/-- The property that was found is not the histogram. -/
theorem get_ne (hinv : Shadowed w h₀ name h) {key : String} {s : Nat}
    (hget : h.get w h₀.next key = .ref s) : s ≠ h₀.next := by
  rw [Heap.get_of_chain hinv.chain] at hget
  cases hown : (h.objects h₀.next).own key with
  | some v =>
      rw [hown] at hget
      exact Nat.ne_of_gt (hinv.own key s (hown.trans (congrArg some hget)))
  | none =>
      rw [hown, Option.getD_none] at hget
      unfold ObjectTracker.inherited at hget
      cases hlookup : h.lookup key (w.objectChain h) with
      | some v =>
          rw [hlookup] at hget
          obtain ⟨r, hr, hv⟩ := List.exists_of_findSome?_eq_some hlookup
          exact Nat.ne_of_lt
            (hinv.values r (hinv.below r hr) key s (hv.trans
              (congrArg some hget)))
      | none =>
          rw [hlookup] at hget
          have hprototype := hinv.below w.objectPrototype
            (by simp [World.objectChain])
          dsimp only at hget
          split at hget
          · cases hget
            exact Nat.ne_of_lt hprototype
          · cases hget

/-- A new tuple under another name. -/
theorem insert (hinv : Shadowed w h₀ name h) {key : String}
    (hkey : name ≠ key) :
    Shadowed w h₀ name
      ((h.alloc (w.objectChain h)).set h₀.next key (.ref h.next)) := by
  have hnext := hinv.next
  have hfresh : h₀.next ≠ h.next := Nat.ne_of_lt hnext
  have hown : (((h.alloc (w.objectChain h)).set h₀.next key
      (.ref h.next)).objects h₀.next).own =
        Function.update (h.objects h₀.next).own key (some (.ref h.next)) := by
    rw [Heap.set_own, Heap.alloc_objects_of_ne hfresh]
  refine hinv.congr (by simp) ?frame ?chain ?own ?missing
  case frame =>
    intro r hr
    rw [Heap.set_objects_of_ne (Nat.ne_of_lt hr),
      Heap.alloc_objects_of_ne (by omega)]
  case chain => rw [Heap.set_chain, Heap.alloc_objects_of_ne hfresh]
  case own =>
    intro key' s hs
    rw [hown] at hs
    by_cases heq : key' = key
    · subst heq
      rw [Function.update_self] at hs
      cases hs
      exact hnext
    · rw [Function.update_of_ne heq] at hs
      exact hinv.own key' s hs
  case missing => rw [hown, Function.update_of_ne hkey, hinv.missing]

/-- Nor is the histogram the object that is made of what was found. -/
theorem toObject (hinv : Shadowed w h₀ name h) {key : String} {tuple : Nat}
    {h' : Heap} (hobject : ObjectTracker.toObject h (h.get w h₀.next key) =
      some (tuple, h')) : tuple ≠ h₀.next ∧ Shadowed w h₀ name h' := by
  have hnext := hinv.next
  have hfresh : h₀.next ≠ h.next := Nat.ne_of_lt hnext
  cases hget : h.get w h₀.next key with
  | undefined =>
      rw [hget] at hobject
      cases hobject
  | null =>
      rw [hget] at hobject
      cases hobject
  | ref s =>
      rw [hget] at hobject
      cases hobject
      exact ⟨hinv.get_ne hget, hinv⟩
  | primitive integer chain =>
      rw [hget] at hobject
      cases hobject
      have hsame : (h.alloc chain).objects h₀.next = h.objects h₀.next :=
        Heap.alloc_objects_of_ne hfresh
      refine ⟨hfresh.symm, hinv.congr (by simp) ?_ ?_ ?_ ?_⟩
      · intro r hr
        rw [Heap.alloc_objects_of_ne (by omega)]
      · rw [hsame]
      · rw [hsame]
        exact hinv.own
      · rw [hsame, hinv.missing]

theorem visit (hinv : Shadowed w h₀ name h) {h' : Heap} {node : HeapGraphNode}
    (hvisit : visitNode w h₀.next h node = some h') :
    Shadowed w h₀ name h' := by
  unfold visitNode at hvisit
  cases hclass : node.className with
  | none =>
      rw [hclass] at hvisit
      cases hvisit
      exact hinv
  | some key =>
      simp only [hclass] at hvisit
      unfold countNode at hvisit
      dsimp only at hvisit
      split at hvisit
      · next hnullish =>
          have hkey : name ≠ key := by
            rintro rfl
            rw [Heap.get_of_chain hinv.chain, hinv.missing,
              Option.getD_none, hinv.inherited] at hnullish
            cases hnullish
          cases hvisit
          exact (hinv.insert hkey).setTuple (Nat.ne_of_gt hinv.next) _ _
      · obtain ⟨⟨tuple, h₁⟩, hobject, hvisit⟩ :=
          Option.bind_eq_some_iff.mp hvisit
        obtain ⟨ncount, _, hvisit⟩ := Option.bind_eq_some_iff.mp hvisit
        obtain ⟨nsize, _, hvisit⟩ := Option.bind_eq_some_iff.mp hvisit
        obtain ⟨htuple, hinv₁⟩ := hinv.toObject hobject
        cases hvisit
        exact hinv₁.setTuple htuple _ _

theorem run (nodes : List HeapGraphNode) {h' : Heap}
    (hinv : Shadowed w h₀ name h)
    (hrun : nodes.foldlM (visitNode w h₀.next) h = some h') :
    Shadowed w h₀ name h' := by
  induction nodes generalizing h with
  | nil =>
      cases hrun
      exact hinv
  | cons node nodes ih =>
      rw [List.foldlM_cons] at hrun
      obtain ⟨h₁, hvisit, hrun⟩ := Option.bind_eq_some_iff.mp hrun
      exact ih (hinv.visit hvisit) hrun

end Shadowed

/-- One call, in any heap. -/
theorem exact_iff {w : World} {h : Heap} (hclosed : h.Closed w)
    (nodes : List HeapGraphNode) :
    Exact w h nodes ↔ Unshadowed w h nodes := by
  constructor
  · rintro ⟨histogram, h', hcall, hexact⟩ node hnode name hname
    obtain ⟨h'', hrun, heq⟩ := Option.map_eq_some_iff.mp hcall
    cases heq
    by_contra hfound
    have hinv := Shadowed.run nodes
      (Shadowed.start hclosed (Bool.eq_false_iff.mpr hfound)) hrun
    have hsome := (hexact.own name).mpr ⟨node, hnode, hname⟩
    rw [hinv.missing] at hsome
    cases hsome
  · intro hnodes
    obtain ⟨h', hcall, hinv⟩ := getObjectHistogram_unshadowed hclosed hnodes
    exact ⟨h.next, h', hcall, hinv.histogramOf⟩

/-! ## Calls one after the other -/

/-- Each call is exact in the heap that the calls before it leave. -/
def RunExact (w : World) : Heap → List (List HeapGraphNode) → Prop
  | _, [] => True
  | h, nodes :: calls =>
      Exact w h nodes ∧ ∀ histogram h',
        getObjectHistogram w h nodes = some (histogram, h') →
          RunExact w h' calls

/-- Over every sequence of calls, for all nodes in the snapshots: each call is
exact if and only if no class that is counted has the name of a property that
is inherited at the start. -/
theorem runExact_iff {w : World} {h : Heap} (hclosed : h.Closed w)
    (calls : List (List HeapGraphNode)) :
    RunExact w h calls ↔ ∀ nodes ∈ calls, Unshadowed w h nodes := by
  induction calls generalizing h with
  | nil => exact iff_of_true trivial (by simp)
  | cons nodes calls ih =>
      rw [RunExact, exact_iff hclosed, List.forall_mem_cons]
      refine and_congr_right fun hnodes => ?_
      obtain ⟨h', hcall, hinv⟩ := getObjectHistogram_unshadowed hclosed hnodes
      have hinherited := (inherited_congr hclosed hinv.frame).2
      have hrest : (∀ nodes ∈ calls, Unshadowed w h' nodes) ↔
          ∀ nodes ∈ calls, Unshadowed w h nodes := by
        simp only [Unshadowed, hinherited]
      rw [← hrest, ← ih (hinv.closed hclosed)]
      constructor
      · intro hrun
        exact hrun h.next h' hcall
      · intro hrun histogram h'' hcall'
        rw [hcall] at hcall'
        cases hcall'
        exact hrun

end ObjectTracker

namespace HeapHistogramWitness

open ObjectTracker

def world : World := ⟨0, [0], fun _ => some 0⟩

/-- `Object.prototype` with the function `Object` as its `constructor`. -/
def heap : Heap where
  objects
    | 0 => ⟨fun name => if name = "constructor" then some (.ref 1) else none, []⟩
    | _ => ⟨fun _ => none, [0]⟩
  next := 2

theorem heap_closed : heap.Closed world where
  chain := by simp [World.objectChain, world, heap]
  values r hr name s hs := by
    match r with
    | 0 =>
        have hconstructor : name = "constructor" ∧ 1 = s := by
          simpa [heap] using hs
        rw [← hconstructor.2]
        decide
    | 1 => simp [heap] at hs

def snapshot : List HeapGraphNode :=
  [⟨.object, "Timer", 40⟩, ⟨.string, "abc", 24⟩, ⟨.object, "Timer", 48⟩]

theorem snapshots_exact : RunExact world heap [snapshot, snapshot] := by
  refine (runExact_iff heap_closed _).mpr ?_
  simp [Unshadowed, snapshot, HeapGraphNode.className, inherited,
    Heap.lookup, World.objectChain, world, heap, Value.nullish]

/-- A class that is called like a property of `Object.prototype`. -/
def shadowed : List HeapGraphNode := [⟨.object, "constructor", 16⟩]

/-- The function `Object` has been used as the tuple. -/
theorem constructor_missing : ¬RunExact world heap [shadowed] := by
  rintro ⟨⟨histogram, h', hcall, hexact⟩, _⟩
  have hresult : getObjectHistogram world heap shadowed = some (2,
      setTuple world (heap.alloc [0]) 1 1 16) := rfl
  rw [hresult] at hcall
  cases hcall
  have hsame := hexact.frame 1 (by decide)
  have hcount := congrArg (fun o => o.own "count") hsame
  rw [setTuple_count] at hcount
  cases hcount

end HeapHistogramWitness

end Appmetrics
