/-
lib/aspect.js: what `before`, `around` and `after` make of a method when they
are applied one after another.  Several probes wrap the same method, so what
one of them calls the original may be the wrapper of another.
-/
import Appmetrics.Effect
import Mathlib.Data.List.Basic
import Mathlib.Logic.Function.Basic

namespace Appmetrics

open Effect

namespace AspectStack

/-- The state of the application, and how many objects it has created. -/
structure World (U : Type) where
  state : U
  created : Nat

/-- Code of the application or of a probe.  It may do anything but take back
the creation of an object. -/
structure Code (U A B : Type) where
  run : A → World U → B × World U
  grows : ∀ a w, w.created ≤ (run a w).2.created

/-- The context that a hook gets: an object made by the library, or the one
that `after` was given. -/
inductive HookContext (C : Type)
  | fresh (object : Nat)
  | given (context : C)

/-- `this`, `methodName`, `arguments` and `context`. -/
structure HookCall (R V C : Type) where
  receiver : R
  methodName : String
  args : List V
  context : HookContext C

/-- A hook may throw, and may change `arguments`. -/
abbrev HookBefore (U R V E C : Type) :=
  Code U (HookCall R V C) (Except E (List V))

abbrev HookAfter (U R V E C : Type) :=
  Code U (HookCall R V C × V) (Except E V)

inductive Event (U R V E C : Type)
  | hookBefore (hook : HookBefore U R V E C) (call : HookCall R V C)
  | method (receiver : R) (args : List V) (world : World U)
  | hookAfter (hook : HookAfter U R V E C) (call : HookCall R V C) (ret : V)

/-- The world, and what the wrappers of one call have called so far. -/
structure Running (U R V E C : Type) where
  world : World U
  log : List (Event U R V E C)

variable {U R V E C : Type}

abbrev Method (U R V E C : Type) :=
  R → List V → Comp E (Running U R V E C) V

/-! ## The wrappers -/

/-- `var context = {}`. -/
def newContext : Comp E (Running U R V E C) (HookContext C) := fun s =>
  (.ok (.fresh s.world.created),
    { s with world := { s.world with created := s.world.created + 1 } })

/-- `hookBefore(this, methodName, arguments, context)`; the value is what
`arguments` holds afterwards. -/
def callBefore (hook : HookBefore U R V E C) (call : HookCall R V C) :
    Comp E (Running U R V E C) (List V) := fun s =>
  let (args, world) := hook.run call s.world
  (args, ⟨world, s.log ++ [.hookBefore hook call]⟩)

/-- `hookAfter(this, methodName, arguments, context, ret)`. -/
def callAfter (hook : HookAfter U R V E C) (call : HookCall R V C)
    (ret : V) : Comp E (Running U R V E C) V := fun s =>
  let (ret', world) := hook.run (call, ret) s.world
  (ret', ⟨world, s.log ++ [.hookAfter hook call ret]⟩)

/-- The method before anything is applied to it. -/
def original (f : Code U (R × List V) (Except E V)) : Method U R V E C :=
  fun this args s =>
    let (ret, world) := f.run (this, args) s.world
    (ret, ⟨world, s.log ++ [.method this args s.world]⟩)

/-- One application of `before`, `around` or `after`. -/
inductive Layer (U R V E C : Type)
  | before (hookBefore : HookBefore U R V E C)
  | around (hookBefore : HookBefore U R V E C)
      (hookAfter : HookAfter U R V E C)
  | after (context : C) (hookAfter : HookAfter U R V E C)

/-- The function that takes the place of `existing`. -/
def Layer.newFunc (methodName : String) (existing : Method U R V E C) :
    Layer U R V E C → Method U R V E C
  | .before hookBefore => fun this args => do
      let context ← newContext
      let args ← callBefore hookBefore ⟨this, methodName, args, context⟩
      existing this args
  | .around hookBefore hookAfter => fun this args => do
      let context ← newContext
      let args ← callBefore hookBefore ⟨this, methodName, args, context⟩
      let ret ← existing this args
      callAfter hookAfter ⟨this, methodName, args, context⟩ ret
  | .after context hookAfter => fun this args => do
      let ret ← existing this args
      callAfter hookAfter ⟨this, methodName, args, .given context⟩ ret

/-- The methods of an object; `none` for one that is missing. -/
abbrev Target (U R V E C : Type) := String → Option (Method U R V E C)

/-- `meths.forEach(..)`: a missing method is left alone. -/
def apply (layer : Layer U R V E C) (target : Target U R V E C) :
    List String → Target U R V E C
  | [] => target
  | methodName :: meths =>
      match target methodName with
      | none => apply layer target meths
      | some existing =>
          apply layer (Function.update target methodName
            (some (layer.newFunc methodName existing))) meths

/-- `exports.before`. -/
def before (target : Target U R V E C) (meths : List String)
    (hookBefore : HookBefore U R V E C) : Target U R V E C :=
  apply (.before hookBefore) target meths

/-- `exports.around`. -/
def around (target : Target U R V E C) (meths : List String)
    (hookBefore : HookBefore U R V E C) (hookAfter : HookAfter U R V E C) :
    Target U R V E C :=
  apply (.around hookBefore hookAfter) target meths

/-- `exports.after`. -/
def after (target : Target U R V E C) (meths : List String) (context : C)
    (hookAfter : HookAfter U R V E C) : Target U R V E C :=
  apply (.after context hookAfter) target meths

/-- A call of one of the three functions of the library. -/
structure Application (U R V E C : Type) where
  layer : Layer U R V E C
  meths : List String

def Application.perform (a : Application U R V E C)
    (target : Target U R V E C) : Target U R V E C :=
  match a.layer with
  | .before hookBefore => AspectStack.before target a.meths hookBefore
  | .around hookBefore hookAfter =>
      AspectStack.around target a.meths hookBefore hookAfter
  | .after context hookAfter =>
      AspectStack.after target a.meths context hookAfter

/-! ## The layers around a method -/

/-- The method under its layers, the outermost one first. -/
def wrapped (methodName : String) (f : Method U R V E C) :
    List (Layer U R V E C) → Method U R V E C
  | [] => f
  | layer :: layers => layer.newFunc methodName (wrapped methodName f layers)

/-- The layers that a sequence of applications puts around a method, the
outermost one first. -/
def layersOf (methodName : String) (apps : List (Application U R V E C)) :
    List (Layer U R V E C) :=
  (apps.flatMap fun a =>
    (a.meths.filter (· = methodName)).map fun _ => a.layer).reverse

theorem wrapped_append (methodName : String) (f : Method U R V E C)
    (outer inner : List (Layer U R V E C)) :
    wrapped methodName f (outer ++ inner) =
      wrapped methodName (wrapped methodName f inner) outer := by
  induction outer with
  | nil => rfl
  | cons layer outer ih => rw [List.cons_append, wrapped, ih, wrapped]

theorem apply_method (layer : Layer U R V E C) (meths : List String)
    (target : Target U R V E C) (methodName : String) :
    apply layer target meths methodName =
      (target methodName).map fun f => wrapped methodName f
        ((meths.filter (· = methodName)).map fun _ => layer).reverse := by
  induction meths generalizing target with
  | nil =>
      rw [apply]
      cases target methodName <;> rfl
  | cons name meths ih =>
      rw [apply]
      by_cases hname : name = methodName
      · subst hname
        rw [List.filter_cons_of_pos (by simp), List.map_cons,
          List.reverse_cons]
        cases hexisting : target name with
        | none =>
            dsimp only
            rw [ih, hexisting]
            rfl
        | some existing =>
            dsimp only
            rw [ih, Function.update_self, Option.map_some, Option.map_some,
              wrapped_append]
            rfl
      · rw [List.filter_cons_of_neg (by simpa using hname)]
        cases target name with
        | none => exact ih target
        | some existing =>
            dsimp only
            rw [ih, Function.update_of_ne (Ne.symm hname)]

theorem Application.perform_method (a : Application U R V E C)
    (target : Target U R V E C) (methodName : String) :
    a.perform target methodName =
      (target methodName).map fun f => wrapped methodName f
        (layersOf methodName [a]) := by
  have happly : a.perform target = apply a.layer target a.meths := by
    unfold perform
    cases a.layer <;> rfl
  rw [happly, apply_method, layersOf, List.flatMap_singleton]

/-- Applications add layers from the inside outwards. -/
theorem perform_all (apps : List (Application U R V E C))
    (target : Target U R V E C) (methodName : String) :
    apps.foldl (fun t a => a.perform t) target methodName =
      (target methodName).map fun f => wrapped methodName f
        (layersOf methodName apps) := by
  induction apps generalizing target with
  | nil =>
      rw [List.foldl_nil]
      cases target methodName <;> rfl
  | cons a apps ih =>
      have hlayers : layersOf methodName (a :: apps) =
          layersOf methodName apps ++ layersOf methodName [a] := by
        rw [layersOf, List.flatMap_cons, List.reverse_append, layersOf,
          layersOf, List.flatMap_singleton]
      rw [List.foldl_cons, ih, a.perform_method, Option.map_map, hlayers]
      congr 1
      funext f
      exact (wrapped_append methodName f _ _).symm

/-! ## A call of a wrapped method -/

/-- The hooks return normally and leave `arguments` alone, and the hook after
the call returns the result it is given. -/
def Layer.Polite : Layer U R V E C → Prop
  | .before hookBefore =>
      ∀ call w, (hookBefore.run call w).1 = .ok call.args
  | .around hookBefore hookAfter =>
      (∀ call w, (hookBefore.run call w).1 = .ok call.args) ∧
        ∀ call ret w, (hookAfter.run (call, ret) w).1 = .ok ret
  | .after _ hookAfter =>
      ∀ call ret w, (hookAfter.run (call, ret) w).1 = .ok ret

/-- What a layer calls on the way in. -/
def Layer.opening (call : HookCall R V C) :
    Layer U R V E C → List (Event U R V E C)
  | .before hookBefore => [.hookBefore hookBefore call]
  | .around hookBefore _ => [.hookBefore hookBefore call]
  | .after _ _ => []

/-- What a layer calls on the way out, which is nothing when the method has
thrown. -/
def Layer.closing (call : HookCall R V C) :
    Except E V → Layer U R V E C → List (Event U R V E C)
  | .ok ret, .around _ hookAfter => [.hookAfter hookAfter call ret]
  | .ok ret, .after _ hookAfter => [.hookAfter hookAfter call ret]
  | _, _ => []

/-- The context of a layer in a call during which the objects from `lo` to
`hi` are created. -/
def Layer.Context (lo hi : Nat) (context : HookContext C) :
    Layer U R V E C → Prop
  | .after given _ => context = .given given
  | _ => ∃ object, context = .fresh object ∧ lo ≤ object ∧ object < hi

def HookContext.object? : HookContext C → Option Nat
  | .fresh object => some object
  | .given _ => none

/-- The call of a method `f` under its layers, each with the context it got,
when the call leads from `s` to `s'` with the outcome `r`.  There is one call
of `f`, in the world `w`; the hooks before it are called from the outside in,
those after it from the inside out, and only if it returns. -/
structure Composes (f : Code U (R × List V) (Except E V))
    (methodName : String) (this : R) (args : List V)
    (layers : List (Layer U R V E C × HookContext C)) (w : World U)
    (s : Running U R V E C) (r : Except E V) (s' : Running U R V E C) :
    Prop where
  outcome : r = (f.run (this, args) w).1
  log : s'.log = s.log ++
    (layers.flatMap fun l => l.1.opening ⟨this, methodName, args, l.2⟩) ++
    .method this args w :: layers.reverse.flatMap fun l =>
      l.1.closing ⟨this, methodName, args, l.2⟩ r
  context : ∀ l ∈ layers, l.1.Context s.world.created s'.world.created l.2
  distinct : (layers.filterMap fun l => l.2.object?).Pairwise (· < ·)
  grows : s.world.created ≤ s'.world.created

theorem Layer.Context.mono {layer : Layer U R V E C} {lo lo' hi hi' : Nat}
    {context : HookContext C} (h : layer.Context lo hi context)
    (hlo : lo' ≤ lo) (hhi : hi ≤ hi') : layer.Context lo' hi' context := by
  cases layer with
  | after given hookAfter => exact h
  | _ =>
      obtain ⟨object, hobject, hge, hlt⟩ := h
      exact ⟨object, hobject, Nat.le_trans hlo hge, Nat.lt_of_lt_of_le hlt hhi⟩

/-- An object that is made for a context is new. -/
theorem Layer.Context.object_mem {layer : Layer U R V E C}
    {lo hi object : Nat} {context : HookContext C}
    (h : layer.Context lo hi context)
    (hobject : context.object? = some object) : lo ≤ object ∧ object < hi := by
  cases layer with
  | after given hookAfter =>
      rw [h] at hobject
      cases hobject
  | _ =>
      obtain ⟨n, rfl, hbounds⟩ := h
      cases hobject
      exact hbounds

/-- One more layer: `t` is the state after its opening, `t'` the one before
its closing. -/
theorem Composes.cons {f : Code U (R × List V) (Except E V)}
    {methodName : String} {this : R} {args : List V}
    {layers : List (Layer U R V E C × HookContext C)} {w : World U}
    {s t t' s' : Running U R V E C} {r : Except E V}
    {layer : Layer U R V E C} {context : HookContext C}
    (hopen : t.log = s.log ++
      layer.opening ⟨this, methodName, args, context⟩)
    (hcreated : s.world.created ≤ t.world.created)
    (hcontext : layer.Context s.world.created t.world.created context)
    (hinner : Composes f methodName this args layers w t r t')
    (hclose : s'.log = t'.log ++
      layer.closing ⟨this, methodName, args, context⟩ r)
    (hgrows : t'.world.created ≤ s'.world.created) :
    Composes f methodName this args ((layer, context) :: layers) w s r s' where
  outcome := hinner.outcome
  log := by
    rw [hclose, hinner.log, hopen]
    simp
  context := by
    refine List.forall_mem_cons.mpr ⟨?_, fun l hl => ?_⟩
    · exact hcontext.mono (Nat.le_refl _)
        (Nat.le_trans hinner.grows hgrows)
    · exact (hinner.context l hl).mono hcreated hgrows
  distinct := by
    cases hobject : context.object? with
    | none =>
        simp only [List.filterMap_cons, hobject]
        exact hinner.distinct
    | some object =>
        simp only [List.filterMap_cons, hobject, List.pairwise_cons]
        refine ⟨fun n hn => ?_, hinner.distinct⟩
        obtain ⟨l, hl, hn⟩ := List.mem_filterMap.mp hn
        have hnew := (hcontext.object_mem hobject).2
        have hlater := ((hinner.context l hl).object_mem hn).1
        exact Nat.lt_of_lt_of_le hnew hlater
  grows := Nat.le_trans hcreated (Nat.le_trans hinner.grows hgrows)

/-- The state after a hook before the call, for which a context has been
made. -/
def openedBy (hook : HookBefore U R V E C) (methodName : String) (this : R)
    (args : List V) (s : Running U R V E C) : Running U R V E C :=
  let call : HookCall R V C :=
    ⟨this, methodName, args, .fresh s.world.created⟩
  ⟨(hook.run call ⟨s.world.state, s.world.created + 1⟩).2,
    s.log ++ [.hookBefore hook call]⟩

theorem openedBy_grows (hook : HookBefore U R V E C) (methodName : String)
    (this : R) (args : List V) (s : Running U R V E C) :
    s.world.created < (openedBy hook methodName this args s).world.created :=
  hook.grows _ ⟨s.world.state, s.world.created + 1⟩

/-- The opening of a polite layer, before anything else. -/
theorem open_polite {hook : HookBefore U R V E C}
    (hpolite : ∀ call w, (hook.run call w).1 = .ok call.args)
    (methodName : String) (this : R) (args : List V)
    (rest : HookContext C → List V → Comp E (Running U R V E C) V)
    (s : Running U R V E C) :
    (do
      let context ← newContext
      let args ← callBefore hook ⟨this, methodName, args, context⟩
      rest context args : Comp E (Running U R V E C) V) s =
      rest (.fresh s.world.created) args
        (openedBy hook methodName this args s) := by
  have hargs := hpolite ⟨this, methodName, args, .fresh s.world.created⟩
    ⟨s.world.state, s.world.created + 1⟩
  rw [Comp.bind_ok (m := newContext) rfl, Comp.bind_ok]
  rw [callBefore]
  exact Prod.ext hargs rfl

/-- The closing of a polite layer, after any outcome. -/
theorem close_polite {hook : HookAfter U R V E C}
    (hpolite : ∀ call ret w, (hook.run (call, ret) w).1 = .ok ret)
    (call : HookCall R V C) (m : Comp E (Running U R V E C) V)
    (t : Running U R V E C) :
    ((m >>= callAfter hook call) t).1 = (m t).1 ∧
      ((m >>= callAfter hook call) t).2.log = (m t).2.log ++
        (match (m t).1 with
          | .ok ret => [.hookAfter hook call ret]
          | .error _ => []) ∧
      (m t).2.world.created ≤
        ((m >>= callAfter hook call) t).2.world.created := by
  rw [Comp.bind_apply]
  rcases m t with ⟨e | ret, t'⟩
  · simp
  · exact ⟨hpolite call ret t'.world, rfl, hook.grows (call, ret) t'.world⟩

/-- A call of `f` under any layers whose hooks keep to the rules. -/
theorem wrapped_composes (f : Code U (R × List V) (Except E V))
    (methodName : String) (this : R) (args : List V)
    {layers : List (Layer U R V E C)} (hpolite : ∀ l ∈ layers, l.Polite)
    (s : Running U R V E C) :
    ∃ contexts w, contexts.length = layers.length ∧
      Composes f methodName this args (layers.zip contexts) w s
        (wrapped methodName (original f) layers this args s).1
        (wrapped methodName (original f) layers this args s).2 := by
  induction layers generalizing s with
  | nil =>
      refine ⟨[], s.world, rfl, rfl, ?_, nofun, List.Pairwise.nil,
        f.grows (this, args) s.world⟩
      simp [wrapped, original]
  | cons layer layers ih =>
      rw [List.forall_mem_cons] at hpolite
      have ih := ih hpolite.2
      cases layer with
      | before hook =>
          let t := openedBy hook methodName this args s
          obtain ⟨contexts, w, hlength, hinner⟩ := ih t
          have hgrows := openedBy_grows hook methodName this args s
          have hcall : wrapped methodName (original f)
              (.before hook :: layers) this args s =
                wrapped methodName (original f) layers this args t :=
            open_polite hpolite.1 methodName this args
              (fun _ args => wrapped methodName (original f) layers this args) s
          refine ⟨.fresh s.world.created :: contexts, w, by simp [hlength], ?_⟩
          rw [hcall]
          refine .cons rfl (Nat.le_of_lt hgrows) ?_ hinner ?_ (Nat.le_refl _)
          · exact ⟨s.world.created, rfl, Nat.le_refl _, hgrows⟩
          · cases (wrapped methodName (original f) layers this args t).1 <;>
              exact (List.append_nil _).symm
      | around hook hook' =>
          let t := openedBy hook methodName this args s
          obtain ⟨contexts, w, hlength, hinner⟩ := ih t
          have hgrows := openedBy_grows hook methodName this args s
          have hcall : wrapped methodName (original f)
              (.around hook hook' :: layers) this args s =
                (wrapped methodName (original f) layers this args >>=
                  callAfter hook' ⟨this, methodName, args,
                    .fresh s.world.created⟩) t :=
            open_polite hpolite.1.1 methodName this args
              (fun context args =>
                wrapped methodName (original f) layers this args >>=
                  callAfter hook' ⟨this, methodName, args, context⟩) s
          obtain ⟨houtcome, hlog, hgrows'⟩ := close_polite hpolite.1.2
            ⟨this, methodName, args, .fresh s.world.created⟩
            (wrapped methodName (original f) layers this args) t
          refine ⟨.fresh s.world.created :: contexts, w, by simp [hlength], ?_⟩
          rw [hcall, houtcome]
          refine .cons rfl (Nat.le_of_lt hgrows) ?_ hinner ?_ hgrows'
          · exact ⟨s.world.created, rfl, Nat.le_refl _, hgrows⟩
          · rw [hlog]
            cases (wrapped methodName (original f) layers this args t).1 <;> rfl
      | after given hook =>
          obtain ⟨contexts, w, hlength, hinner⟩ := ih s
          obtain ⟨houtcome, hlog, hgrows⟩ := close_polite hpolite.1
            ⟨this, methodName, args, .given given⟩
            (wrapped methodName (original f) layers this args) s
          refine ⟨.given given :: contexts, w, by simp [hlength], ?_⟩
          simp only [wrapped, Layer.newFunc, List.zip_cons_cons]
          rw [houtcome]
          refine .cons (t := s) ?_ (Nat.le_refl _) rfl hinner ?_ hgrows
          · exact (List.append_nil _).symm
          · rw [hlog]
            cases (wrapped methodName (original f) layers this args s).1 <;> rfl

/-- Aspects that are applied to a method in any order and number compose to
one transparent call. -/
theorem stacked_aspects (f : Code U (R × List V) (Except E V))
    (target : Target U R V E C) (methodName : String)
    (hf : target methodName = some (original f))
    (apps : List (Application U R V E C))
    (hpolite : ∀ a ∈ apps, a.layer.Polite) (this : R) (args : List V)
    (s : Running U R V E C) :
    ∃ method,
      apps.foldl (fun t a => a.perform t) target methodName = some method ∧
      ∃ contexts w,
        contexts.length = (layersOf methodName apps).length ∧
        Composes f methodName this args
          ((layersOf methodName apps).zip contexts) w s
          (method this args s).1 (method this args s).2 := by
  have hlayers : ∀ l ∈ layersOf methodName apps, l.Polite := by
    intro l hl
    obtain ⟨a, ha, hl⟩ := List.mem_flatMap.mp (List.mem_reverse.mp hl)
    obtain ⟨_, _, rfl⟩ := List.mem_map.mp hl
    exact hpolite a ha
  refine ⟨wrapped methodName (original f) (layersOf methodName apps), ?_,
    wrapped_composes f methodName this args hlayers s⟩
  rw [perform_all, hf, Option.map_some]

end AspectStack

namespace AspectStackWitness

open AspectStack

/-- Hooks that do nothing but count their calls in the state. -/
def countBefore : HookBefore Nat Unit Nat String Unit where
  run call w := (.ok call.args, ⟨w.state + 1, w.created⟩)
  grows _ _ := Nat.le_refl _

def countAfter : HookAfter Nat Unit Nat String Unit where
  run call w := (.ok call.2, ⟨w.state + 1, w.created⟩)
  grows _ _ := Nat.le_refl _

/-- A method that throws when it has no arguments. -/
def total : Code Nat (Unit × List Nat) (Except String Nat) where
  run call w :=
    (if call.2 = [] then .error "no arguments" else .ok call.2.length, w)
  grows _ _ := Nat.le_refl _

def target : Target Nat Unit Nat String Unit := fun name =>
  if name = "query" then some (original total) else none

/-- Two probes and a plain hook around one method. -/
def probes : List (Application Nat Unit Nat String Unit) :=
  [⟨.around countBefore countAfter, ["query", "execute"]⟩,
    ⟨.before countBefore, ["query"]⟩, ⟨.after () countAfter, ["query"]⟩]

theorem query_composes :
    ∃ method,
      probes.foldl (fun t a => a.perform t) target "query" = some method ∧
      ∃ contexts w,
        contexts.length = (layersOf "query" probes).length ∧
        Composes total "query" () [3, 4]
          ((layersOf "query" probes).zip contexts) w ⟨⟨0, 0⟩, []⟩
          (method () [3, 4] ⟨⟨0, 0⟩, []⟩).1
          (method () [3, 4] ⟨⟨0, 0⟩, []⟩).2 :=
  stacked_aspects total target "query" rfl probes
    (by
      intro a ha
      simp only [probes, List.mem_cons, List.not_mem_nil, or_false] at ha
      rcases ha with rfl | rfl | rfl
      · exact ⟨fun _ _ => rfl, fun _ _ _ => rfl⟩
      · exact fun _ _ => rfl
      · exact fun _ _ _ => rfl)
    () [3, 4] ⟨⟨0, 0⟩, []⟩

end AspectStackWitness

end Appmetrics
