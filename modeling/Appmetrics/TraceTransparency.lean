/-
What the trace probe needs of a module of the application to instrument it and
for no use of its functions to be changed by this: of the module itself, of
its methods and the items on their prototypes, and of those on what a module
returns that is a function.
-/
import Appmetrics.TraceUses

namespace Appmetrics

open Effect

namespace Trace

/-! ## What `instrument` needs -/

/-- The text of a function has parameters in parentheses. -/
def HasParameters (text : Except JsError String) : Prop :=
  ∃ s, text = .ok s ∧ hasParameters s = true

theorem instrument_of_parameters {s fullName : String}
    (hparameters : hasParameters s = true) :
    instrument (.ok s) true fullName = .ok ⟨fullName, s⟩ := by
  change (if hasParameters s then _ else _) = _
  rw [if_pos hparameters]
  rfl

theorem instrument_gives {text : Except JsError String} {writable : Bool}
    {fullName : String} :
    Gives (instrument text writable fullName) ↔
      HasParameters text ∧ writable = true := by
  constructor
  · intro hgives
    obtain ⟨s, rfl, hrest⟩ := gives_bind.mp hgives
    split at hrest
    · rename_i hparameters
      cases writable with
      | true => exact ⟨⟨s, rfl, hparameters⟩, rfl⟩
      | false => exact absurd hrest (not_gives_error _)
    · exact absurd hrest (not_gives_error _)
  · rintro ⟨⟨s, rfl, hparameters⟩, rfl⟩
    exact ⟨_, instrument_of_parameters hparameters⟩

/-- What is put around a method has its text. -/
theorem methodString_of_instrument {text : Except JsError String}
    {writable : Bool} {fullName : String} {w : Wrapped}
    (hw : instrument text writable fullName = .ok w) :
    text = .ok w.methodString := by
  obtain ⟨⟨s, rfl, hparameters⟩, rfl⟩ := instrument_gives.mp ⟨w, hw⟩
  rw [instrument_of_parameters hparameters] at hw
  cases hw
  rfl

/-! ## What `instrumentMethods` needs -/

/-- A function on a prototype is left alone, or has a prototype to read the
keys of and can be instrumented. -/
def PrototypeMethod.Fine (m : PrototypeMethod) (writable : Bool) : Prop :=
  m.keys = [] → ∃ keys, m.prototype = some keys ∧
    (keys = [] → HasParameters m.text ∧ writable = true)

def Item.Fine (item : Item) : Prop :=
  ∃ value, item.read = .ok value ∧
    ∀ m, value = .method m → m.Fine item.writable

/-- This item is instrumented, and is the function `m`. -/
structure Item.Traces (item : Item) (m : PrototypeMethod) : Prop where
  read : item.read = .ok (.method m)
  keys : m.keys = []
  prototype : m.prototype = some []

/-- What `instrumentMethods` asks of a function. -/
structure TraceFunction.Accepted (f : TraceFunction) : Prop where
  superclass : f.superclass = false
  prototype : f.prototype.isSome = true
  keys : f.keys = []

/-- This export is instrumented, and is the function `f`. -/
structure Export.Traces (e : Export) (f : TraceFunction) : Prop where
  value : e.value = .function f
  getter : e.getter = false
  accepted : f.Accepted
  instrumented : f.instrumented = false

def Export.Fine (e : Export) : Prop :=
  ∀ f, e.Traces f → HasParameters f.text ∧ e.writable = true ∧
    ∀ item ∈ f.prototype.getD [], item.Fine

def ExportsObject.Fine (target : ExportsObject) : Prop :=
  ∀ e ∈ target.exports, target.lookupGetter = true ∧ e.Fine

theorem traceItem_gives {fullName : String} {item : Item} :
    Gives (traceItem fullName item) ↔ item.Fine := by
  unfold traceItem Item.Fine
  rw [gives_bind]
  refine exists_congr fun value => and_congr_right fun _ => ?_
  cases value with
  | other => exact iff_of_true (gives_pure _) (by simp)
  | method m =>
      have hmethod : (∀ m', ItemValue.method m = .method m' →
          m'.Fine item.writable) ↔ m.Fine item.writable := by simp
      rw [hmethod, PrototypeMethod.Fine]
      dsimp only
      cases hkeys : m.keys with
      | cons key keys => exact iff_of_true (gives_pure _) (by simp)
      | nil =>
          cases hprototype : m.prototype with
          | none => exact iff_of_false (not_gives_error _) (by simp)
          | some keys =>
              cases keys with
              | cons key keys => exact iff_of_true (gives_pure _) (by simp)
              | nil =>
                  refine gives_map.trans (instrument_gives.trans ?_)
                  simp

theorem traceMethod_gives {moduleName : String} {e : Export}
    {f : TraceFunction} (hinstrumented : f.instrumented = false) :
    Gives (traceMethod moduleName e f) ↔
      HasParameters f.text ∧ e.writable = true ∧
        ∀ item ∈ f.prototype.getD [], item.Fine := by
  unfold traceMethod
  rw [if_neg (by simp [hinstrumented]),
    gives_bind_const fun _ => gives_map.trans gives_mapM, instrument_gives,
    and_assoc]
  simp only [traceItem_gives]

/-- `w` is what takes the place of this item. -/
structure Item.TracedBy (item : Item) (w : Option Wrapped) : Prop where
  some : ∀ m, item.Traces m → ∃ w', w = some w' ∧ m.text = .ok w'.methodString
  none : (∀ m, ¬item.Traces m) → w = none

theorem traceItem_tracedBy {fullName : String} {item : Item}
    {w : Option Wrapped} (hitem : traceItem fullName item = .ok w) :
    item.TracedBy w := by
  unfold traceItem at hitem
  obtain ⟨value, hread, hrest⟩ := bind_eq_ok.mp hitem
  cases value with
  | other =>
      cases hrest
      refine ⟨fun m hm => ?_, fun _ => rfl⟩
      cases hread.symm.trans hm.read
  | method m =>
      have hunique (m' : PrototypeMethod) (hm' : item.Traces m') : m' = m := by
        cases hread.symm.trans hm'.read
        rfl
      by_cases htraces : item.Traces m
      · simp only [htraces.keys, htraces.prototype, List.isEmpty_nil,
          ↓reduceIte] at hrest
        obtain ⟨w', hw', hw⟩ := bind_eq_ok.mp hrest
        cases hw
        refine ⟨fun m' hm' => ?_, fun hnot => absurd htraces (hnot m)⟩
        rw [hunique m' hm']
        exact ⟨w', rfl, methodString_of_instrument hw'⟩
      · refine ⟨fun m' hm' => absurd (hunique m' hm' ▸ hm') htraces,
          fun _ => ?_⟩
        dsimp only at hrest
        split at hrest
        · rename_i hkeys
          split at hrest
          · cases hrest
          · rename_i keys hprototype
            split at hrest
            · rename_i hempty
              rw [List.isEmpty_iff] at hkeys hempty
              exact absurd ⟨hread, hkeys, hempty ▸ hprototype⟩ htraces
            · cases hrest
              rfl
        · cases hrest
          rfl

/-- New functions, which are put around the one with this text and around the
items of its prototype. -/
theorem traceMethod_traced {moduleName : String} {e : Export}
    {f : TraceFunction} {traced : Option Traced}
    (hinstrumented : f.instrumented = false)
    (htraced : traceMethod moduleName e f = .ok traced) :
    ∃ t, traced = some t ∧ f.text = .ok t.method.methodString ∧
      List.Forall₂ Item.TracedBy (f.prototype.getD []) t.items := by
  unfold traceMethod at htraced
  rw [if_neg (by simp [hinstrumented])] at htraced
  obtain ⟨w, hw, hrest⟩ := bind_eq_ok.mp htraced
  obtain ⟨items, hitems, hall⟩ := bind_eq_ok.mp hrest
  cases hall
  exact ⟨_, rfl, methodString_of_instrument hw,
    (forall₂_of_mapM hitems).imp fun _ _ => traceItem_tracedBy⟩

theorem Export.Traces.unique {e : Export} {f f' : TraceFunction}
    (hf : e.Traces f) (hf' : e.Traces f') : f = f' := by
  have hvalue := hf.value.symm.trans hf'.value
  cases hvalue
  rfl

theorem instrumentExport_of_traces {moduleName : String}
    {target : ExportsObject} {e : Export} {f : TraceFunction}
    (htarget : target.lookupGetter = true) (hf : e.Traces f) :
    instrumentExport moduleName target e = traceMethod moduleName e f := by
  unfold instrumentExport
  rw [if_pos htarget, hf.value]
  dsimp only
  apply if_pos
  simp [hf.getter, hf.accepted.superclass, hf.accepted.prototype,
    hf.accepted.keys]

/-- An export that is not instrumented is left alone. -/
theorem instrumentExport_of_not_traces {moduleName : String}
    {target : ExportsObject} {e : Export}
    (htarget : target.lookupGetter = true) (he : ∀ f, ¬e.Traces f) :
    instrumentExport moduleName target e = .ok none := by
  unfold instrumentExport
  rw [if_pos htarget]
  cases hvalue : e.value with
  | other => rfl
  | function f =>
      dsimp only
      split
      · rename_i hasked
        simp only [Bool.and_eq_true, Bool.not_eq_true', List.isEmpty_iff]
          at hasked
        obtain ⟨⟨⟨hgetter, hsuper⟩, hprototype⟩, hkeys⟩ := hasked
        have hinstrumented : f.instrumented = true := by
          by_contra hnot
          exact he f ⟨hvalue, hgetter, ⟨hsuper, hprototype, hkeys⟩,
            by simpa using hnot⟩
        unfold traceMethod
        rw [if_pos hinstrumented]
        rfl
      · rfl

theorem instrumentExport_gives {moduleName : String} {target : ExportsObject}
    {e : Export} :
    Gives (instrumentExport moduleName target e) ↔
      target.lookupGetter = true ∧ e.Fine := by
  cases htarget : target.lookupGetter with
  | false =>
      unfold instrumentExport
      rw [htarget]
      exact iff_of_false (not_gives_error _) (by simp)
  | true =>
      refine Iff.trans ?_ (and_iff_right rfl).symm
      by_cases htraces : ∃ f, e.Traces f
      · obtain ⟨f, hf⟩ := htraces
        rw [instrumentExport_of_traces htarget hf,
          traceMethod_gives hf.instrumented]
        constructor
        · intro hfine f' hf'
          rw [hf'.unique hf]
          exact hfine
        · intro hfine
          exact hfine f hf
      · have hnot : ∀ f, ¬e.Traces f := fun f hf => htraces ⟨f, hf⟩
        rw [instrumentExport_of_not_traces htarget hnot]
        exact iff_of_true (gives_ok _) fun f hf => absurd hf (hnot f)

/-- `traced` is what takes the place of this export. -/
structure Export.TracedBy (e : Export) (traced : Option Traced) : Prop where
  some : ∀ f, e.Traces f →
    ∃ t, traced = some t ∧ f.text = .ok t.method.methodString ∧
      List.Forall₂ Item.TracedBy (f.prototype.getD []) t.items
  none : (∀ f, ¬e.Traces f) → traced = none

theorem instrumentExport_tracedBy {moduleName : String}
    {target : ExportsObject} {e : Export} {traced : Option Traced}
    (hexport : instrumentExport moduleName target e = .ok traced) :
    e.TracedBy traced := by
  have htarget : target.lookupGetter = true :=
    (instrumentExport_gives.mp ⟨traced, hexport⟩).1
  constructor
  · intro f hf
    rw [instrumentExport_of_traces htarget hf] at hexport
    exact traceMethod_traced hf.instrumented hexport
  · intro hnot
    rw [instrumentExport_of_not_traces htarget hnot] at hexport
    cases hexport
    rfl

theorem instrumentMethods_gives {moduleName : String}
    {target : ExportsObject} :
    Gives (instrumentMethods moduleName target) ↔ target.Fine :=
  gives_mapM.trans (forall₂_congr fun _ _ => instrumentExport_gives)

theorem instrumentMethods_tracedBy {moduleName : String}
    {target : ExportsObject} {exports : List (Option Traced)}
    (hmethods : instrumentMethods moduleName target = .ok exports) :
    List.Forall₂ Export.TracedBy target.exports exports :=
  (forall₂_of_mapM hmethods).imp fun _ _ => instrumentExport_tracedBy

/-- Nothing of the object's own is left, and nothing has been put on it. -/
def ExportsObject.Bare (target : ExportsObject) : Prop :=
  ∀ e ∈ target.exports, e.own = false ∧ ∀ f, ¬e.Traces f

theorem ownKeys_eq_nil {target : ExportsObject}
    {exports : List (Option Traced)}
    (htraced : List.Forall₂ Export.TracedBy target.exports exports) :
    ownKeys target exports = [] ↔ target.Bare := by
  unfold ownKeys ExportsObject.Bare
  generalize target.exports = es at htraced ⊢
  induction htraced with
  | nil => simp
  | @cons e traced es exports htraced _ ih =>
      have hone : traced.isSome = false ↔ ∀ f, ¬e.Traces f := by
        constructor
        · intro hnone f hf
          obtain ⟨t, rfl, _, _⟩ := htraced.some f hf
          cases hnone
        · intro hnot
          rw [htraced.none hnot]
          rfl
      rw [List.zip_cons_cons, List.forall_mem_cons, ← ih, ← hone]
      cases hown : e.own <;> cases traced <;> simp [hown]

/-! ## What `attach` needs -/

/-- The module can be instrumented: its methods can, and so can the mark be
set, unless a new function gets it. -/
def Target.Fine : Target → Prop
  | primitive => False
  | object _ markable properties => properties.Fine ∧ markable = true
  | function _ markable _ none => markable = true
  | function _ markable f (some prototype) =>
      prototype.Fine ∧ (markable = true ∨ f.keys = [] ∧ prototype.Bare)

theorem mark_gives {markable : Bool} :
    Gives (mark markable) ↔ markable = true := by
  cases markable with
  | false => exact iff_of_false (not_gives_error _) (by simp)
  | true => exact iff_of_true (gives_pure _) rfl

/-- A function without keys gets another one around it. -/
theorem markOrWrap_gives {moduleName : String} {markable : Bool}
    {f : ModuleFunction} {prototype : ExportsObject}
    {exports : List (Option Traced)}
    (hmethods : instrumentMethods moduleName prototype = .ok exports) :
    Gives (if (ownKeys prototype exports).isEmpty && f.keys.isEmpty
      then return .instrumented exports (some ⟨moduleName, f⟩)
      else do
        mark markable
        return .instrumented exports none :
      Except JsError Attached) ↔
      markable = true ∨ f.keys = [] ∧ prototype.Bare := by
  have hbare := ownKeys_eq_nil (instrumentMethods_tracedBy hmethods)
  split
  · rename_i hempty
    simp only [Bool.and_eq_true, List.isEmpty_iff] at hempty
    exact iff_of_true (gives_pure _) (Or.inr ⟨hempty.2, hbare.mp hempty.1⟩)
  · rename_i hempty
    simp only [Bool.and_eq_true, List.isEmpty_iff] at hempty
    refine gives_map.trans (mark_gives.trans (or_iff_left ?_).symm)
    rintro ⟨hkeys, hproto⟩
    exact hempty ⟨hbare.mpr hproto, hkeys⟩

theorem instrumentTarget_gives {moduleName : String} {target : Target} :
    Gives (instrumentTarget moduleName target) ↔ target.Fine := by
  cases target with
  | primitive => exact iff_of_false (not_gives_error _) id
  | object marked markable properties =>
      refine (gives_bind_const fun _ => gives_map).trans ?_
      rw [instrumentMethods_gives, mark_gives]
      rfl
  | function marked markable f prototype =>
      cases prototype with
      | none => exact gives_map.trans mark_gives
      | some prototype =>
          refine gives_bind.trans ?_
          constructor
          · rintro ⟨exports, hmethods, hgives⟩
            exact ⟨instrumentMethods_gives.mp ⟨exports, hmethods⟩,
              (markOrWrap_gives hmethods).mp hgives⟩
          · rintro ⟨hfine, hmark⟩
            obtain ⟨exports, hmethods⟩ := instrumentMethods_gives.mpr hfine
            exact ⟨exports, hmethods, (markOrWrap_gives hmethods).mpr hmark⟩

/-- A module with this name is left alone, whatever it exports. -/
def Require.Skipped (r : Require) : Prop :=
  r.moduleName.toList.head? ≠ some '.' ∨ r.moduleName ∈ stopList

/-- The line does not show a caller of the application's own. -/
def isLibraryLine (callerLine : String) : Bool :=
  contains callerLine "node_modules" || contains callerLine "ibmapm"

/-- The probe looks for the caller that requires this module. -/
structure Require.Reaches (r : Require) (target : Target) : Prop where
  loaded : r.target = some target
  unmarked : target.marked = false
  skipped : ¬r.Skipped

/-- It is one of the application's own, and the module is not excluded. -/
structure Require.Instruments (r : Require) (target : Target) : Prop
    extends r.Reaches target where
  caller : ∃ line, r.stack[6]? = some line ∧ isLibraryLine line = false
  excluded : r.moduleName ∉ r.excludeModules

/-- The caller can be found, and what is to be instrumented can be. -/
def Require.Attachable (r : Require) : Prop :=
  ∀ target, r.Reaches target →
    r.stack[6]? ≠ none ∧ (r.Instruments target → target.Fine)

namespace Require

variable {r : Require} {target : Target}

theorem Reaches.unique {target' : Target} (h : r.Reaches target)
    (h' : r.Reaches target') : target = target' := by
  have hsame := h.loaded.symm.trans h'.loaded
  cases hsame
  rfl

theorem hook_of_not_reaches (hnot : ∀ target, ¬r.Reaches target) :
    r.hook = .ok .unchanged := by
  unfold hook
  cases htarget : r.target with
  | none => rfl
  | some target =>
      dsimp only
      cases hmarked : target.marked with
      | true => rfl
      | false =>
          have hskipped : r.Skipped := by
            by_contra hskipped
            exact hnot target ⟨htarget, hmarked, hskipped⟩
          unfold attach
          rw [if_neg Bool.false_ne_true]
          exact if_pos (by simpa [Skipped] using hskipped)

theorem hook_of_reaches (hreaches : r.Reaches target) :
    r.hook = isAppInnerRequire r.stack >>= fun inner =>
      if !inner || r.excludeModules.contains r.moduleName then
        return .unchanged
      else instrumentTarget r.moduleName target := by
  have hskipped := hreaches.skipped
  unfold hook
  rw [hreaches.loaded]
  dsimp only
  unfold attach
  rw [hreaches.unmarked, if_neg Bool.false_ne_true,
    if_neg (by simpa [Skipped] using hskipped)]
  rfl

theorem isAppInnerRequire_of_line {stack : List String} {line : String}
    (hline : stack[6]? = some line) :
    isAppInnerRequire stack = .ok (!isLibraryLine line) := by
  unfold isAppInnerRequire isLibraryLine
  rw [hline, Bool.not_or]
  rfl

theorem hook_of_instruments (hinstruments : r.Instruments target) :
    r.hook = instrumentTarget r.moduleName target := by
  obtain ⟨line, hline, hinner⟩ := hinstruments.caller
  rw [hook_of_reaches hinstruments.toReaches,
    isAppInnerRequire_of_line hline, hinner]
  exact if_neg (by simpa using hinstruments.excluded)

/-- A caller has been found, but the module is not to be instrumented. -/
theorem hook_of_not_instruments (hreaches : r.Reaches target)
    (hstack : r.stack[6]? ≠ none) (hnot : ¬r.Instruments target) :
    r.hook = .ok .unchanged := by
  obtain ⟨line, hline⟩ := Option.ne_none_iff_exists'.mp hstack
  rw [hook_of_reaches hreaches, isAppInnerRequire_of_line hline]
  apply if_pos
  cases hinner : isLibraryLine line with
  | true => rfl
  | false =>
      have hexcluded : r.moduleName ∈ r.excludeModules := by
        by_contra hexcluded
        exact hnot ⟨hreaches, ⟨line, hline, hinner⟩, hexcluded⟩
      simpa using hexcluded

theorem hook_gives (r : Require) : Gives r.hook ↔ r.Attachable := by
  by_cases hreaches : ∃ target, r.Reaches target
  · obtain ⟨target, hreaches⟩ := hreaches
    have hattachable : r.Attachable ↔
        r.stack[6]? ≠ none ∧ (r.Instruments target → target.Fine) := by
      constructor
      · intro h
        exact h target hreaches
      · intro h target' hreaches'
        rw [hreaches'.unique hreaches]
        exact h
    rw [hattachable]
    by_cases hstack : r.stack[6]? = none
    · rw [hook_of_reaches hreaches, isAppInnerRequire, hstack]
      exact iff_of_false (not_gives_error _) fun h => h.1 rfl
    · by_cases hinstruments : r.Instruments target
      · rw [hook_of_instruments hinstruments, instrumentTarget_gives]
        simp [hstack, hinstruments]
      · rw [hook_of_not_instruments hreaches hstack hinstruments]
        simp [hstack, hinstruments]
  · have hnot : ∀ target, ¬r.Reaches target :=
      fun target h => hreaches ⟨target, h⟩
    rw [hook_of_not_reaches hnot]
    exact iff_of_true (gives_ok _) fun target h => absurd h (hnot target)

end Require

/-! ## Uses of what has been instrumented -/

/-- The function in this place is instrumented, and is `f`. -/
def ExportsObject.Traces (target : ExportsObject) : Spot → JsFunction → Prop
  | .method i, f => ∃ e g, target.exports[i]? = some e ∧ e.Traces g ∧
      g.toJsFunction = f
  | .item i j, f => ∃ e g item m, target.exports[i]? = some e ∧ e.Traces g ∧
      (g.prototype.getD [])[j]? = some item ∧ item.Traces m ∧
      m.toJsFunction = f

theorem ExportsObject.Traces.found {target : ExportsObject} {spot : Spot}
    {f : JsFunction} (hf : target.Traces spot f) : target.At spot f := by
  cases spot with
  | method i =>
      obtain ⟨e, g, he, hg, hsame⟩ := hf
      exact ⟨e, g, he, hg.value, hsame⟩
  | item i j =>
      obtain ⟨e, g, item, m, he, hg, hitem, hm, hsame⟩ := hf
      exact ⟨e, g, item, m, he, hg.value, hitem, hm.read, hsame⟩

theorem getElem?_of_forall₂ {A B : Type} {R : A → B → Prop} {as : List A}
    {bs : List B} (hall : List.Forall₂ R as bs) {i : Nat} {a : A}
    (ha : as[i]? = some a) : ∃ b, bs[i]? = some b ∧ R a b := by
  obtain ⟨hi, rfl⟩ := List.getElem?_eq_some_iff.mp ha
  have hi' : i < bs.length := hall.length_eq ▸ hi
  exact ⟨bs[i], List.getElem?_eq_getElem hi', hall.get hi hi'⟩

section Spots

variable {moduleName : String} {target : ExportsObject}
  {exports : List (Option Traced)} {spot : Spot} {f : JsFunction}

theorem traced_of_export
    (hmethods : instrumentMethods moduleName target = .ok exports) {i : Nat}
    {e : Export} (he : target.exports[i]? = some e) :
    e.TracedBy exports[i]?.join := by
  obtain ⟨traced, htraced, htracedBy⟩ :=
    getElem?_of_forall₂ (instrumentMethods_tracedBy hmethods) he
  rw [htraced]
  exact htracedBy

/-- A new function, put around the one with this text. -/
theorem wrapped_of_traces
    (hmethods : instrumentMethods moduleName target = .ok exports)
    (hf : target.Traces spot f) :
    ∃ w, wrapped exports spot = some w ∧ f.text = .ok w.methodString := by
  cases spot with
  | method i =>
      obtain ⟨e, g, he, hg, rfl⟩ := hf
      obtain ⟨t, ht, htext, _⟩ := (traced_of_export hmethods he).some g hg
      exact ⟨t.method, by rw [wrapped, ht]; rfl, htext⟩
  | item i j =>
      obtain ⟨e, g, item, m, he, hg, hitem, hm, rfl⟩ := hf
      obtain ⟨t, ht, _, hitems⟩ := (traced_of_export hmethods he).some g hg
      obtain ⟨w, hw, htracedBy⟩ := getElem?_of_forall₂ hitems hitem
      obtain ⟨w', rfl, htext⟩ := htracedBy.some m hm
      exact ⟨w', by rw [wrapped, ht]; simp [hw], htext⟩

/-- Other functions stay as they are. -/
theorem wrapped_of_not_traces
    (hmethods : instrumentMethods moduleName target = .ok exports)
    (hf : target.At spot f) (hnot : ¬target.Traces spot f) :
    wrapped exports spot = none := by
  cases spot with
  | method i =>
      obtain ⟨e, g, he, hvalue, rfl⟩ := hf
      have htraced := (traced_of_export hmethods he).none fun g' hg' => by
        cases hvalue.symm.trans hg'.value
        exact hnot ⟨e, g, he, hg', rfl⟩
      rw [wrapped, htraced]
      rfl
  | item i j =>
      obtain ⟨e, g, item, m, he, hvalue, hitem, hread, rfl⟩ := hf
      have htracedBy := traced_of_export hmethods he
      by_cases hg : e.Traces g
      · obtain ⟨t, ht, _, hitems⟩ := htracedBy.some g hg
        obtain ⟨w, hw, hitemTraced⟩ := getElem?_of_forall₂ hitems hitem
        have hnone := hitemTraced.none fun m' hm' => by
          cases hread.symm.trans hm'.read
          exact hnot ⟨e, g, item, m, he, hg, hitem, hm', rfl⟩
        rw [wrapped, ht]
        simp [hw, hnone]
      · have htraced := htracedBy.none fun g' hg' => by
          cases hvalue.symm.trans hg'.value
          exact hg hg'
        rw [wrapped, htraced]
        rfl

theorem JsFunction.methodString_of_text {s : String} (htext : f.text = .ok s) :
    s = f.methodString := by
  rw [methodString, htext]

/-- The function in a place is used as before, exactly if it has not been
instrumented or nothing disturbs this. -/
theorem useAt_iff
    (hmethods : instrumentMethods moduleName target = .ok exports)
    (hf : target.At spot f) {u : Use} {moments : Nat → Moment} :
    (∀ u', u.Varies f.methodString u' →
      useAt exports spot f u' moments = f.seen u') ↔
      (target.Traces spot f → f.Undisturbed u) := by
  unfold useAt
  by_cases htraces : target.Traces spot f
  · obtain ⟨w, hw, htext⟩ := wrapped_of_traces hmethods htraces
    rw [hw, forall_prop_of_true htraces]
    exact Wrapped.use_iff (JsFunction.methodString_of_text htext)
  · rw [wrapped_of_not_traces hmethods hf htraces]
    exact iff_of_true (fun _ _ => rfl) fun h => absurd h htraces

end Spots

/-- The methods of what a call returns can be instrumented. -/
def ModuleFunction.Returns (f : ModuleFunction) (receiver : JsValue)
    (given : Given) : Prop :=
  (f.apply receiver given).Ends fun outcome =>
    ∀ rc, outcome = .returned rc → (f.enumerated rc).Fine

/-- The methods of what the module returns can be instrumented, and
constructing it gives what calling it on another new object does. -/
structure ModuleFunction.HandsOn (f : ModuleFunction) (u : Use) : Prop where
  called : ∀ given, Varies f.methodString u.given given →
    f.Returns u.receiver given
  constructed : u.constructs = true →
    ∀ given, Varies f.methodString u.given given →
      f.Returns u.created given ∧
        f.construct u.receiver given =
          (f.apply u.created given).map (constructed u.created)

namespace ModuleWrapper

variable {w : ModuleWrapper} {u : Use}

theorem handOn_eq_finished {outcome : Outcome} :
    w.handOn outcome = finished outcome ↔
      ∀ rc, outcome = .returned rc → (w.target.enumerated rc).Fine := by
  cases outcome with
  | threw e => simp [handOn]
  | returned rc =>
      have hgives : Gives (instrumentMethods w.moduleName
            (w.target.enumerated rc)) ↔
          (w.target.enumerated rc).Fine :=
        instrumentMethods_gives
      unfold handOn
      dsimp only
      cases hmethods :
          instrumentMethods w.moduleName (w.target.enumerated rc) with
      | ok exports =>
          refine iff_of_true rfl fun rc' hrc' => ?_
          cases hrc'
          exact hgives.mp ⟨exports, hmethods⟩
      | error e =>
          refine iff_of_false nofun fun h => ?_
          obtain ⟨exports, hok⟩ := hgives.mpr (h rc rfl)
          cases hmethods.symm.trans hok

theorem map_handOn_iff {receiver : JsValue} {given : Given} :
    (w.target.apply receiver given).map w.handOn =
        (w.target.apply receiver given).map finished ↔
      w.target.Returns receiver given := by
  rw [Dialogue.map_eq_map_iff]
  exact ⟨fun h => h.imp fun _ => handOn_eq_finished.mp,
    fun h => h.imp fun _ => handOn_eq_finished.mpr⟩

/-- What is seen as finished has been handed on. -/
theorem handOn_of_finish {outcome outcome' : Outcome}
    (hfinish : u.finish (w.handOn outcome) = finished outcome') :
    w.handOn outcome = finished outcome := by
  cases outcome with
  | threw e => rfl
  | returned rc =>
      unfold handOn at hfinish ⊢
      dsimp only at hfinish ⊢
      split
      · rfl
      · next e hmethods =>
          rw [hmethods] at hfinish
          cases hfinish

theorem use_called (given : Given) :
    w.use (u.instead false given) =
      (w.target.apply u.receiver given).map w.handOn := by
  unfold use
  rw [Use.finish_of_not_constructs rfl, Dialogue.map_id]
  rfl

theorem use_constructed (given : Given) :
    w.use (u.instead true given) =
      ((w.target.apply u.created given).map w.handOn).map
        (u.instead true given).renewed.finish := rfl

/-- Constructing the function around a module gives what constructing the
module gives, exactly if a call on the other new object does. -/
theorem use_constructed_iff {given : Given} :
    w.use (u.instead true given) = w.target.seen (u.instead true given) ↔
      w.target.Returns u.created given ∧
        w.target.construct u.receiver given =
          (w.target.apply u.created given).map (constructed u.created) := by
  have hseen : w.target.seen (u.instead true given) =
      (w.target.construct u.receiver given).map finished := rfl
  rw [use_constructed, hseen]
  constructor
  · intro h
    have hreturns : w.target.Returns u.created given := by
      apply map_handOn_iff.mp
      rw [Dialogue.map_map] at h
      refine Dialogue.map_eq_map_iff.mpr
        ((Dialogue.ends_of_map_eq_map h).imp fun outcome hends => ?_)
      obtain ⟨outcome', hfinish⟩ := hends
      exact handOn_of_finish hfinish
    rw [map_handOn_iff.mpr hreturns, Use.finish_map] at h
    exact ⟨hreturns, (Dialogue.map_injective finished_injective h).symm⟩
  · rintro ⟨hreturns, hconstruct⟩
    rw [map_handOn_iff.mpr hreturns, Use.finish_map, hconstruct]
    rfl

/-- The function around a module gives what the module gives, exactly if this
is handed on. -/
theorem use_iff :
    (∀ u', u.Varies w.target.methodString u' →
      w.use u' = w.target.seen u') ↔ w.target.HandsOn u := by
  constructor
  · intro h
    refine ⟨fun given hvaries => ?_, fun hconstructs given hvaries => ?_⟩
    · have huse := h _ (Use.varies_called hvaries)
      rw [use_called] at huse
      exact map_handOn_iff.mp huse
    · exact use_constructed_iff.mp
        (h _ (Use.varies_instead (fun _ => hconstructs) hvaries))
  · rintro ⟨hcalled, hconstructed⟩ ⟨constructs, receiver, created, given,
      refuses⟩ ⟨hreceiver, hcreated, hrefuses, hconstructs, hvaries⟩
    cases hreceiver
    cases hcreated
    cases hrefuses
    cases constructs with
    | false =>
        have huse := use_called (w := w) (u := u) given
        rw [map_handOn_iff.mpr (hcalled given hvaries)] at huse
        exact huse
    | true =>
        exact use_constructed_iff.mpr
          (hconstructed (hconstructs rfl) given hvaries)

end ModuleWrapper

/-! ## Modules of the application -/

/-- A new function is put around this one. -/
def Target.Around (target : Target) (g : ModuleFunction) : Prop :=
  ∃ marked markable prototype,
    target = .function marked markable g (some prototype) ∧
      g.keys = [] ∧ prototype.Bare

namespace Require

variable {r : Require} {spot : Spot} {f : JsFunction} {a : Attached}

/-- The hook instruments the function in this place, which is `f`. -/
def Traces (r : Require) (spot : Spot) (f : JsFunction) : Prop :=
  ∃ target properties, r.Instruments target ∧
    target.instrumented = some properties ∧ properties.Traces spot f

/-- The hook puts a function around the module itself, which is `f`. -/
def Wraps (r : Require) (f : ModuleFunction) : Prop :=
  ∃ marked markable prototype,
    r.Instruments (.function marked markable f (some prototype)) ∧
      f.keys = [] ∧ prototype.Bare

theorem Wraps.unique {g g' : ModuleFunction} (hg : r.Wraps g)
    (hg' : r.Wraps g') : g = g' := by
  obtain ⟨_, _, _, hinstruments, _⟩ := hg
  obtain ⟨_, _, _, hinstruments', _⟩ := hg'
  cases hinstruments.toReaches.unique hinstruments'.toReaches
  rfl

theorem exports_of_instrumentTarget {moduleName : String} {target : Target}
    {properties : ExportsObject}
    (hproperties : target.instrumented = some properties)
    (ha : instrumentTarget moduleName target = .ok a) :
    instrumentMethods moduleName properties = .ok a.exports := by
  cases target with
  | primitive => cases hproperties
  | object marked markable properties' =>
      cases hproperties
      obtain ⟨exports, hmethods, hrest⟩ := bind_eq_ok.mp ha
      obtain ⟨_, _, hattached⟩ := bind_eq_ok.mp hrest
      cases hattached
      exact hmethods
  | function marked markable g prototype =>
      cases hproperties
      obtain ⟨exports, hmethods, hrest⟩ := bind_eq_ok.mp ha
      split at hrest
      · cases hrest
        exact hmethods
      · obtain ⟨_, _, hattached⟩ := bind_eq_ok.mp hrest
        cases hattached
        exact hmethods

theorem ret_of_instrumentTarget {moduleName : String} {target : Target}
    (ha : instrumentTarget moduleName target = .ok a) :
    (∃ g, target.Around g ∧ a.ret = some ⟨moduleName, g⟩) ∨
      (∀ g, ¬target.Around g) ∧ a.ret = none := by
  cases target with
  | primitive => cases ha
  | object marked markable properties =>
      obtain ⟨exports, _, hrest⟩ := bind_eq_ok.mp ha
      obtain ⟨_, _, hattached⟩ := bind_eq_ok.mp hrest
      cases hattached
      refine Or.inr ⟨?_, rfl⟩
      rintro g ⟨_, _, _, htarget, _⟩
      cases htarget
  | function marked markable g prototype =>
      cases prototype with
      | none =>
          obtain ⟨_, _, hattached⟩ := bind_eq_ok.mp ha
          cases hattached
          refine Or.inr ⟨?_, rfl⟩
          rintro g ⟨_, _, _, htarget, _⟩
          cases htarget
      | some prototype =>
          obtain ⟨exports, hmethods, hrest⟩ := bind_eq_ok.mp ha
          have hbare := ownKeys_eq_nil (instrumentMethods_tracedBy hmethods)
          split at hrest
          · rename_i hempty
            simp only [Bool.and_eq_true, List.isEmpty_iff] at hempty
            cases hrest
            exact Or.inl ⟨g, ⟨_, _, _, rfl, hempty.2, hbare.mp hempty.1⟩, rfl⟩
          · rename_i hempty
            simp only [Bool.and_eq_true, List.isEmpty_iff] at hempty
            obtain ⟨_, _, hattached⟩ := bind_eq_ok.mp hrest
            cases hattached
            refine Or.inr ⟨?_, rfl⟩
            rintro g' ⟨_, _, _, htarget, hkeys, hproto⟩
            cases htarget
            exact hempty ⟨hbare.mpr hproto, hkeys⟩

/-- A module that is not instrumented stays as it is. -/
theorem unchanged_of_not_instruments (ha : r.hook = .ok a) {target : Target}
    (htarget : r.target = some target) (hnot : ¬r.Instruments target) :
    a = .unchanged := by
  have hunchanged : r.hook = .ok .unchanged := by
    by_cases hreaches : ∃ target, r.Reaches target
    · obtain ⟨target', hreaches⟩ := hreaches
      cases hreaches.loaded.symm.trans htarget
      exact hook_of_not_instruments hreaches
        ((hook_gives r).mp ⟨a, ha⟩ target hreaches).1 hnot
    · exact hook_of_not_reaches fun target h => hreaches ⟨target, h⟩
  exact Except.ok.inj (ha.symm.trans hunchanged)

/-- What has been put around the module itself. -/
theorem ret_of_hook (ha : r.hook = .ok a) {target : Target}
    (htarget : r.target = some target) :
    (∃ g, r.Wraps g ∧ a.ret = some ⟨r.moduleName, g⟩) ∨
      (∀ g, ¬r.Wraps g) ∧ a.ret = none := by
  by_cases hinstruments : r.Instruments target
  · rw [hook_of_instruments hinstruments] at ha
    rcases ret_of_instrumentTarget ha with
      ⟨g, ⟨marked, markable, prototype, rfl, haround⟩, hret⟩ | ⟨hnot, hret⟩
    · exact Or.inl ⟨g, ⟨_, _, _, hinstruments, haround⟩, hret⟩
    · refine Or.inr ⟨?_, hret⟩
      rintro g ⟨_, _, _, hinstruments', haround⟩
      cases hinstruments.toReaches.unique hinstruments'.toReaches
      exact hnot g ⟨_, _, _, rfl, haround⟩
  · cases unchanged_of_not_instruments ha htarget hinstruments
    refine Or.inr ⟨?_, rfl⟩
    rintro g ⟨_, _, _, hinstruments', _⟩
    cases htarget.symm.trans hinstruments'.loaded
    exact hinstruments hinstruments'

/-- The module can be loaded, and using the function in this place gives what
it would give without the probe, with whatever functions it is given. -/
def Transparent (r : Require) (place : Place) (u : Use)
    (moments : Nat → Moment) : Prop :=
  ∃ a, r.hook = .ok a ∧ ∀ f, r.At place f →
    ∀ u', u.Varies f.methodString u' → a.use f u' moments place = f.seen u'

/-- What this use needs if the function in this place is another one now. -/
def Harmless (r : Require) (u : Use) : Place → Prop
  | .module => ∀ f, r.Wraps f → f.HandsOn u
  | .exported spot => ∀ f, r.Traces spot f → f.Undisturbed u
  | .result rc spot => ∀ g f, r.Wraps g → (g.enumerated rc).At spot f →
      (g.enumerated rc).Fine ∧
        ((g.enumerated rc).Traces spot f → f.Undisturbed u)

/-- What has been put around the module itself makes no difference. -/
theorem module_harmless (ha : r.hook = .ok a) {u : Use}
    {moments : Nat → Moment} :
    (∀ f, r.At .module f → ∀ u', u.Varies f.methodString u' →
      a.use f u' moments .module = f.seen u') ↔ r.Harmless u .module := by
  constructor
  · intro h g hg
    obtain ⟨marked, markable, prototype, hinstruments, haround⟩ := hg
    have hat : r.At .module g.toJsFunction :=
      ⟨_, _, g, _, hinstruments.loaded, rfl⟩
    rcases ret_of_hook ha hinstruments.loaded with
      ⟨g', hg', hret⟩ | ⟨hnot, _⟩
    · cases hg'.unique ⟨_, _, _, hinstruments, haround⟩
      refine (ModuleWrapper.use_iff (w := ⟨r.moduleName, g⟩)).mp ?_
      intro u' hu'
      have huse := h _ hat u' hu'
      unfold Attached.use at huse
      rwa [hret] at huse
    · exact absurd ⟨_, _, _, hinstruments, haround⟩ (hnot g)
  · rintro h f ⟨marked, markable, g, prototype, htarget, rfl⟩ u' hu'
    unfold Attached.use
    rcases ret_of_hook ha htarget with ⟨g', hg', hret⟩ | ⟨_, hret⟩
    · have hsame : g = g' := by
        obtain ⟨_, _, _, hinstruments, _⟩ := hg'
        cases htarget.symm.trans hinstruments.loaded
        rfl
      cases hsame
      rw [hret]
      exact ModuleWrapper.use_iff.mpr (h g hg') u' hu'
    · rw [hret]

/-- What has been put around the functions of a module makes no difference. -/
theorem exported_harmless (ha : r.hook = .ok a) {u : Use}
    {moments : Nat → Moment} :
    (∀ f, r.At (.exported spot) f → ∀ u', u.Varies f.methodString u' →
      a.use f u' moments (.exported spot) = f.seen u') ↔
      r.Harmless u (.exported spot) := by
  refine forall_congr' fun f => ?_
  constructor
  · rintro h ⟨target, properties, hinstruments, hproperties, hf⟩
    have hmethods := exports_of_instrumentTarget hproperties
      ((hook_of_instruments hinstruments).symm.trans ha)
    have hat : properties.At spot f := hf.found
    exact (useAt_iff hmethods hat).mp
      (h ⟨target, properties, hinstruments.loaded, hproperties, hat⟩) hf
  · rintro h ⟨target, properties, htarget, hproperties, hat⟩
    by_cases hinstruments : r.Instruments target
    · have hmethods := exports_of_instrumentTarget hproperties
        ((hook_of_instruments hinstruments).symm.trans ha)
      exact (useAt_iff hmethods hat).mpr fun hf =>
        h ⟨target, properties, hinstruments, hproperties, hf⟩
    · cases unchanged_of_not_instruments ha htarget hinstruments
      intro u' _
      cases spot <;> rfl

/-- What has been put around the functions on a result makes no difference. -/
theorem result_harmless (ha : r.hook = .ok a) {rc : JsValue} {u : Use}
    {moments : Nat → Moment} :
    (∀ f, r.At (.result rc spot) f → ∀ u', u.Varies f.methodString u' →
      a.use f u' moments (.result rc spot) = f.seen u') ↔
      r.Harmless u (.result rc spot) := by
  constructor
  · intro h g f hg hat
    obtain ⟨marked, markable, prototype, hinstruments, haround⟩ := hg
    have huse := h f ⟨_, _, g, _, hinstruments.loaded, hat⟩
    rcases ret_of_hook ha hinstruments.loaded with
      ⟨g', hg', hret⟩ | ⟨hnot, _⟩
    · cases hg'.unique ⟨_, _, _, hinstruments, haround⟩
      unfold Attached.use at huse
      rw [hret] at huse
      dsimp only at huse
      cases hmethods : instrumentMethods r.moduleName (g.enumerated rc) with
      | ok exports =>
          rw [hmethods] at huse
          exact ⟨instrumentMethods_gives.mp ⟨exports, hmethods⟩,
            (useAt_iff hmethods hat).mp huse⟩
      | error e =>
          rw [hmethods] at huse
          have hthrew := huse u ⟨rfl, rfl, rfl, id, .same⟩
          unfold JsFunction.seen at hthrew
          generalize f.use u = d at hthrew
          cases d <;> cases hthrew
    · exact absurd ⟨_, _, _, hinstruments, haround⟩ (hnot g)
  · rintro h f ⟨marked, markable, g, prototype, htarget, hat⟩ u' hu'
    unfold Attached.use
    rcases ret_of_hook ha htarget with ⟨g', hg', hret⟩ | ⟨_, hret⟩
    · have hsame : g = g' := by
        obtain ⟨_, _, _, hinstruments, _⟩ := hg'
        cases htarget.symm.trans hinstruments.loaded
        rfl
      cases hsame
      obtain ⟨hfine, hundisturbed⟩ := h g f hg' hat
      obtain ⟨exports, hmethods⟩ :
          Gives (instrumentMethods r.moduleName (g.enumerated rc)) :=
        instrumentMethods_gives.mpr hfine
      rw [hret]
      dsimp only
      rw [hmethods]
      exact (useAt_iff hmethods hat).mpr hundisturbed u' hu'
    · rw [hret]

end Require

namespace TraceTransparencyWitness

/-- A class with this text, whose constructor does nothing. -/
def aClass (text : String) : TraceFunction where
  text := .ok text
  keys := []
  superclass := false
  instrumented := false
  prototype := some []
  kind := .classConstructor
  body _ _ _ := .done (.returned .undefined)

def exported (f : TraceFunction) : Export :=
  ⟨"A", true, false, true, .function f⟩

/-- `require('./a')` in a module of the application. -/
def requiring (target : Target) : Require where
  moduleName := "./a"
  stack := ["Error", "at isAppInnerRequire", "at TraceProbe.attach",
    "at hookAfter", "at newFunc", "at require", "at /app/main.js"]
  excludeModules := []
  target := some target

/-- `./a` exports one function. -/
def required (f : TraceFunction) : Require :=
  requiring (.object false true ⟨true, [exported f]⟩)

/-- `./a` is a function. -/
def requiredItself (f : ModuleFunction) : Require :=
  requiring (.function false true f (some ⟨true, []⟩))

def emptyClass : TraceFunction := aClass "class A {}"

def constructedClass : TraceFunction :=
  aClass "class A { constructor(x) {} }"

def moduleClass : ModuleFunction where
  toJsFunction := constructedClass.toJsFunction
  properties _ := ⟨true, []⟩

/-- The new object is constructed without arguments. -/
def constructing (receiver created : JsValue) : Use :=
  ⟨true, receiver, created, ⟨[], forwarderInfo, forwarderInfo⟩, false⟩

theorem requiring_instruments (target : Target)
    (hmarked : target.marked = false) :
    (requiring target).Instruments target where
  loaded := rfl
  unmarked := hmarked
  skipped := by
    rintro (h | h)
    · exact h (by decide : "./a".toList.head? = some '.')
    · exact absurd h (by decide : "./a" ∉ stopList)
  caller := ⟨"at /app/main.js", rfl, by decide⟩
  excluded := List.not_mem_nil

theorem exported_traces (text : String) :
    (exported (aClass text)).Traces (aClass text) :=
  ⟨rfl, rfl, ⟨rfl, rfl, rfl⟩, rfl⟩

/-- Calling a class throws, so this is not what constructing it gives. -/
theorem construct_ne_apply (receiver created : JsValue) (given : Given) :
    constructedClass.construct receiver given ≠
      (constructedClass.apply created given).map (constructed created) := by
  intro h
  cases h

end TraceTransparencyWitness

end Trace

end Appmetrics
