/-
index.js as a singleton of the process.  The first copy that is evaluated
leaves its exports in a global before it loads the native addon, which may
refuse; every other evaluation, of this copy or of another one, takes its
exports from there.
-/
import Appmetrics.Machine

namespace Appmetrics

open StepMachine

/-! ## The native addon -/

/-- `compare` at the difference of the lengths, which are below `2 ^ 31`. -/
def comparesAtEnd (potentialMatch ending : List Char) : Bool :=
  let startAt : Int := potentialMatch.length - ending.length
  0 ≤ startAt &&
    (potentialMatch.drop startAt.toNat).take ending.length == ending

def isAppMetricsFile (expected potentialMatch : List Char) : Bool :=
  comparesAtEnd potentialMatch ("appmetrics/".toList ++ expected) ||
    comparesAtEnd potentialMatch ("appmetrics\\".toList ++ expected)

/-- The `parent` of a module: missing for the main module and for one that was
imported; its `filename` need not be a string. -/
inductive ModuleParent
  | missing
  | module (filename : Option (List Char))
deriving Repr, DecidableEq

/-- For an addon that `filename` requires; `none` where `ToLocalChecked` ends
the process.  The paths are ASCII and have no NUL. -/
def isGlobalAgent (filename : List Char) (parent : ModuleParent) :
    Option Bool :=
  if isAppMetricsFile "index.js".toList filename then
    match parent with
    | .missing => none
    | .module none => some false
    | .module (some gpfilename) =>
        some (isAppMetricsFile "launcher.js".toList gpfilename)
  else some false

def isGlobalAgentAlreadyLoaded (cache : List (List Char)) : Bool :=
  cache.any (isAppMetricsFile "launcher.js".toList)

/-- A path that ends in a directory called appmetrics and the file. -/
def IsAppMetricsFile (expected potentialMatch : List Char) : Prop :=
  "appmetrics/".toList ++ expected <:+ potentialMatch ∨
    "appmetrics\\".toList ++ expected <:+ potentialMatch

instance (expected potentialMatch : List Char) :
    Decidable (IsAppMetricsFile expected potentialMatch) :=
  inferInstanceAs (Decidable (_ ∨ _))

theorem comparesAtEnd_iff {potentialMatch ending : List Char} :
    comparesAtEnd potentialMatch ending = true ↔ ending <:+ potentialMatch := by
  simp only [comparesAtEnd, Bool.and_eq_true, decide_eq_true_eq, beq_iff_eq]
  constructor
  · rintro ⟨-, htake⟩
    rw [List.take_of_length_le (by rw [List.length_drop]; omega)] at htake
    exact htake ▸ List.drop_suffix _ _
  · intro hsuffix
    have hle := hsuffix.length_le
    obtain ⟨front, rfl⟩ := hsuffix
    have hstart : ((front ++ ending).length - ending.length : Int).toNat =
        front.length := by
      rw [List.length_append]
      omega
    refine ⟨by omega, ?_⟩
    rw [hstart, List.drop_left, List.take_length]

theorem isAppMetricsFile_iff {expected potentialMatch : List Char} :
    isAppMetricsFile expected potentialMatch = true ↔
      IsAppMetricsFile expected potentialMatch := by
  rw [isAppMetricsFile, Bool.or_eq_true, comparesAtEnd_iff, comparesAtEnd_iff]
  rfl

/-! ## The loader -/

/-- `complete` once all functions are exported. -/
structure ExportsObject where
  version : String
  complete : Bool
deriving Repr, DecidableEq

/-- What `require.cache` holds: copies of index.js, and other files. -/
inductive CachedModule
  | copy (filename : List Char) (exports : Nat)
  | other (filename : List Char)
deriving Repr, DecidableEq

def CachedModule.filename : CachedModule → List Char
  | copy filename _ => filename
  | other filename => filename

/-- An `AssertionError`, and the two errors of the addon. -/
inductive LoadError
  | incompatible
  | conflicting
  | noAgentCore
deriving Repr, DecidableEq

inductive RequireResult
  | exports (object : Nat)
  | throws (error : LoadError)
deriving Repr, DecidableEq

structure RequireCall where
  filename : List Char
  result : RequireResult
deriving Repr, DecidableEq

/-- `appmetrics` is the global, a reference to one of the `objects`; `requires`
are the calls that have ended, and their results. -/
structure ModuleLoader where
  cache : List CachedModule
  objects : List ExportsObject
  appmetrics : Option Nat
  initialised : Nat
  crashed : Bool
  requires : List RequireCall
deriving Repr, DecidableEq

inductive LoaderStep
  | load (filename : List Char)
  /-- `delete require.cache[filename]` -/
  | uncache (filename : List Char)
  /-- `core` tells whether the agent core's library is found -/
  | require (filename : List Char) (parent : ModuleParent) (core : Bool)
deriving Repr, DecidableEq

namespace ModuleLoader

variable (version : List Char → String)

def initial : ModuleLoader := ⟨[], [], none, 0, false, []⟩

def cached (s : ModuleLoader) (filename : List Char) : Option Nat :=
  s.cache.findSome? fun
    | .copy name object => if name = filename then some object else none
    | .other _ => none

def ends (filename : List Char) (result : RequireResult) (s : ModuleLoader) :
    ModuleLoader :=
  { s with requires := s.requires ++ [⟨filename, result⟩] }

/-- A module whose evaluation throws is taken out of the cache. -/
def fails (filename : List Char) (error : LoadError) (s : ModuleLoader) :
    ModuleLoader :=
  s.ends filename (.throws error)

def succeeds (filename : List Char) (object : Nat) (s : ModuleLoader) :
    ModuleLoader :=
  ModuleLoader.ends filename (.exports object)
    { s with cache := s.cache ++ [.copy filename object] }

/-- `init` of the addon, which index.js in `filename` loads; its own exports
are `object`. -/
def loadAddon (filename : List Char) (parent : ModuleParent) (core : Bool)
    (object : Nat) (s : ModuleLoader) : ModuleLoader :=
  match isGlobalAgent filename parent with
  | none => { s with crashed := true }
  | some globalAgent =>
      if !globalAgent && isGlobalAgentAlreadyLoaded
          (filename :: s.cache.map CachedModule.filename) then
        s.fails filename .conflicting
      else if !core then s.fails filename .noAgentCore
      else
        ModuleLoader.succeeds filename object
          { s with
            objects := s.objects.set object ⟨version filename, true⟩
            initialised := s.initialised + 1 }

/-- The evaluation of index.js. -/
def evaluate (filename : List Char) (parent : ModuleParent) (core : Bool)
    (s : ModuleLoader) : ModuleLoader :=
  match s.appmetrics with
  | some g =>
      if s.objects[g]?.map ExportsObject.version = some (version filename) then
        s.succeeds filename g
      else s.fails filename .incompatible
  | none =>
      ModuleLoader.loadAddon version filename parent core s.objects.length
        { s with
          objects := s.objects ++ [⟨version filename, false⟩]
          appmetrics := some s.objects.length }

def step (s : ModuleLoader) (e : LoaderStep) : Option ModuleLoader :=
  if s.crashed then none
  else
    match e with
    | .load filename => some { s with cache := s.cache ++ [.other filename] }
    | .uncache filename =>
        some { s with cache := s.cache.filter (·.filename ≠ filename) }
    | .require filename parent core =>
        match s.cached filename with
        | some object => some (s.ends filename (.exports object))
        | none => some (s.evaluate version filename parent core)

def machine : Machine ModuleLoader LoaderStep where
  init := initial
  step := step version

/-- The call gets the object `g` if it asks for the version of `o`. -/
def Answered (g : Nat) (o : ExportsObject) (call : RequireCall) : Prop :=
  call.result = if version call.filename = o.version then .exports g
    else .throws .incompatible

/-- The call has made `o`, of its own version, the global's object `g`: it
ended well and `o` is complete, or the addon refused. -/
structure Founded (g : Nat) (o : ExportsObject) (call : RequireCall) :
    Prop where
  version : o.version = version call.filename
  outcome : (call.result = .exports g ∧ o.complete = true) ∨
    ((call.result = .throws .conflicting ∨
      call.result = .throws .noAgentCore) ∧ o.complete = false)

/-- The global is the object `o`. -/
structure Holds (s : ModuleLoader) (g : Nat) (o : ExportsObject) : Prop where
  object : s.objects[g]? = some o
  copies : ∀ filename object, .copy filename object ∈ s.cache →
    object = g ∧ version filename = o.version
  initialised : s.initialised = o.complete.toNat
  started : s.requires = [] → s.crashed = true
  founded : ∀ call ∈ s.requires.head?, Founded version g o call
  answered : ∀ call ∈ s.requires.tail, Answered version g o call

/-- Nothing has been required. -/
structure Unloaded (s : ModuleLoader) : Prop where
  copies : ∀ filename object, .copy filename object ∉ s.cache
  initialised : s.initialised = 0
  crashed : s.crashed = false
  requires : s.requires = []

def Single (s : ModuleLoader) : Prop :=
  match s.appmetrics with
  | none => s.Unloaded
  | some g => ∃ o, s.Holds version g o

variable {version} {s s' : ModuleLoader} {g : Nat} {o : ExportsObject}

theorem cached_eq_some {filename : List Char} {object : Nat}
    (hcached : s.cached filename = some object) :
    .copy filename object ∈ s.cache := by
  obtain ⟨entry, hentry, hsome⟩ := List.exists_of_findSome?_eq_some hcached
  cases entry with
  | copy name object' =>
      obtain ⟨rfl, hobject⟩ := Option.ite_none_right_eq_some.mp hsome
      cases hobject
      exact hentry
  | other name => cases hsome

/-! ## Later calls -/

theorem Holds.of_cache {cache : List CachedModule} (hs : s.Holds version g o)
    (hcache : ∀ filename object, .copy filename object ∈ cache →
      .copy filename object ∈ s.cache ∨
        (object = g ∧ version filename = o.version)) :
    ModuleLoader.Holds version { s with cache := cache } g o where
  object := hs.object
  copies filename object hmem :=
    (hcache filename object hmem).elim (hs.copies filename object) id
  initialised := hs.initialised
  started := hs.started
  founded := hs.founded
  answered := hs.answered

theorem Holds.ends (hs : s.Holds version g o) (hlive : s.crashed = false)
    {filename : List Char} {result : RequireResult}
    (hanswered : Answered version g o ⟨filename, result⟩) :
    (s.ends filename result).Holds version g o := by
  have hne : s.requires ≠ [] := fun h =>
    absurd (hlive.symm.trans (hs.started h)) (by decide)
  refine ⟨hs.object, hs.copies, hs.initialised, fun h => ?_, ?_, ?_⟩
  · exact absurd h (List.append_ne_nil_of_left_ne_nil hne _)
  · intro call hcall
    change call ∈ (s.requires ++ _).head? at hcall
    rw [List.head?_append_of_ne_nil _ hne] at hcall
    exact hs.founded call hcall
  · intro call hcall
    change call ∈ (s.requires ++ _).tail at hcall
    rw [List.tail_append_of_ne_nil hne, List.mem_append,
      List.mem_singleton] at hcall
    rcases hcall with hold | rfl
    · exact hs.answered call hold
    · exact hanswered

theorem Holds.evaluate (hs : s.Holds version g o)
    (happmetrics : s.appmetrics = some g) (hlive : s.crashed = false)
    (filename : List Char) (parent : ModuleParent) (core : Bool) :
    (s.evaluate version filename parent core).Holds version g o := by
  rw [ModuleLoader.evaluate, happmetrics]
  dsimp only
  rw [hs.object, Option.map_some]
  split
  · next hversion =>
      have heq : version filename = o.version :=
        (Option.some.inj hversion).symm
      have hcache : ModuleLoader.Holds version
          { s with cache := s.cache ++ [.copy filename g] } g o := by
        refine hs.of_cache fun name object hmem => ?_
        rcases List.mem_append.mp hmem with hold | hnew
        · exact Or.inl hold
        · cases List.mem_singleton.mp hnew
          exact Or.inr ⟨rfl, heq⟩
      exact hcache.ends hlive (if_pos heq).symm
  · next hversion =>
      have hne : version filename ≠ o.version := fun h =>
        hversion (congrArg some h.symm)
      exact hs.ends hlive (if_neg hne).symm

/-! ## The first call -/

/-- The call that has made the global is the first one. -/
theorem Holds.first {filename : List Char} {result : RequireResult}
    (hobject : s.objects[g]? = some o)
    (hcopies : ∀ filename object, .copy filename object ∈ s.cache →
      object = g ∧ version filename = o.version)
    (hinitialised : s.initialised = o.complete.toNat)
    (hrequires : s.requires = [])
    (hfounded : Founded version g o ⟨filename, result⟩) :
    (s.ends filename result).Holds version g o := by
  have hcalls : (s.ends filename result).requires = [⟨filename, result⟩] := by
    rw [ModuleLoader.ends, hrequires, List.nil_append]
  refine ⟨hobject, hcopies, hinitialised, fun h => ?_, ?_, ?_⟩
  · rw [hcalls] at h
    cases h
  · intro call hcall
    rw [hcalls] at hcall
    cases hcall
    exact hfounded
  · intro call hcall
    rw [hcalls] at hcall
    exact absurd hcall List.not_mem_nil

theorem loadAddon_appmetrics (filename : List Char) (parent : ModuleParent)
    (core : Bool) (object : Nat) (s : ModuleLoader) :
    (s.loadAddon version filename parent core object).appmetrics =
      s.appmetrics := by
  unfold loadAddon
  split
  · rfl
  · split_ifs <;> rfl

theorem Unloaded.evaluate (hs : s.Unloaded) (happmetrics : s.appmetrics = none)
    (filename : List Char) (parent : ModuleParent) (core : Bool) :
    (s.evaluate version filename parent core).appmetrics =
        some s.objects.length ∧
      ∃ o, (s.evaluate version filename parent core).Holds version
        s.objects.length o := by
  rw [ModuleLoader.evaluate, happmetrics]
  dsimp only
  refine ⟨loadAddon_appmetrics _ _ _ _ _, ?_⟩
  have hobject : (s.objects ++ [⟨version filename, false⟩])[s.objects.length]? =
      some ⟨version filename, false⟩ := List.getElem?_concat_length
  unfold loadAddon
  split
  · -- the process ends before the call does
    refine ⟨⟨version filename, false⟩, hobject,
      fun name object h => absurd h (hs.copies name object), hs.initialised,
      fun _ => rfl, fun call hcall => ?_, fun call hcall => ?_⟩
    · change call ∈ s.requires.head? at hcall
      rw [hs.requires] at hcall
      cases hcall
    · change call ∈ s.requires.tail at hcall
      rw [hs.requires] at hcall
      exact absurd hcall List.not_mem_nil
  · split_ifs
    · exact ⟨_, Holds.first hobject
        (fun name object h => absurd h (hs.copies name object))
        hs.initialised hs.requires ⟨rfl, Or.inr ⟨Or.inl rfl, rfl⟩⟩⟩
    · exact ⟨_, Holds.first hobject
        (fun name object h => absurd h (hs.copies name object))
        hs.initialised hs.requires ⟨rfl, Or.inr ⟨Or.inr rfl, rfl⟩⟩⟩
    · refine ⟨⟨version filename, true⟩, Holds.first ?_ ?_ ?_ hs.requires
        ⟨rfl, Or.inl ⟨rfl, rfl⟩⟩⟩
      · simp
      · intro name object hmem
        rcases List.mem_append.mp hmem with hold | hnew
        · exact absurd hold (hs.copies name object)
        · cases List.mem_singleton.mp hnew
          exact ⟨rfl, rfl⟩
      · change s.initialised + 1 = 1
        rw [hs.initialised]

theorem evaluate_appmetrics (happmetrics : s.appmetrics = some g)
    (filename : List Char) (parent : ModuleParent) (core : Bool) :
    (s.evaluate version filename parent core).appmetrics = some g := by
  rw [ModuleLoader.evaluate, happmetrics]
  dsimp only
  split_ifs <;> exact happmetrics

/-! ## Runs -/

theorem step_live {e : LoaderStep} (hstep : s.step version e = some s') :
    s.crashed = false := by
  cases hcrashed : s.crashed with
  | false => rfl
  | true =>
      simp [step, hcrashed] at hstep

theorem step_cases {e : LoaderStep} (hstep : s.step version e = some s') :
    (∃ filename, e = .load filename ∧
      s' = { s with cache := s.cache ++ [.other filename] }) ∨
    (∃ filename, e = .uncache filename ∧
      s' = { s with cache := s.cache.filter (·.filename ≠ filename) }) ∨
    (∃ filename parent core object, e = .require filename parent core ∧
      .copy filename object ∈ s.cache ∧
      s' = s.ends filename (.exports object)) ∨
    ∃ filename parent core, e = .require filename parent core ∧
      s' = s.evaluate version filename parent core := by
  have hlive : ¬ s.crashed = true := by simp [step_live hstep]
  unfold step at hstep
  rw [if_neg hlive] at hstep
  cases e with
  | load filename => exact Or.inl ⟨filename, rfl, (Option.some.inj hstep).symm⟩
  | uncache filename =>
      exact Or.inr (Or.inl ⟨filename, rfl, (Option.some.inj hstep).symm⟩)
  | require filename parent core =>
      cases hcached : s.cached filename with
      | some object =>
          simp only [hcached] at hstep
          exact Or.inr (Or.inr (Or.inl ⟨filename, parent, core, object, rfl,
            cached_eq_some hcached, (Option.some.inj hstep).symm⟩))
      | none =>
          simp only [hcached] at hstep
          exact Or.inr (Or.inr (Or.inr ⟨filename, parent, core, rfl,
            (Option.some.inj hstep).symm⟩))

theorem Unloaded.single (hs : s.Unloaded)
    (happmetrics : s.appmetrics = none) : s.Single version := by
  rw [Single, happmetrics]
  exact hs

theorem Holds.single (hs : s.Holds version g o)
    (happmetrics : s.appmetrics = some g) : s.Single version := by
  rw [Single, happmetrics]
  exact ⟨o, hs⟩

theorem Unloaded.step (hs : s.Unloaded) (happmetrics : s.appmetrics = none)
    {e : LoaderStep} (hstep : s.step version e = some s') :
    s'.Single version := by
  rcases step_cases hstep with ⟨filename, -, rfl⟩ | ⟨filename, -, rfl⟩ |
    ⟨filename, parent, core, object, -, hcopy, -⟩ |
    ⟨filename, parent, core, -, rfl⟩
  · refine Unloaded.single ⟨fun name object hmem => ?_, hs.initialised,
      hs.crashed, hs.requires⟩ happmetrics
    rcases List.mem_append.mp hmem with hold | hnew
    · exact hs.copies name object hold
    · cases List.mem_singleton.mp hnew
  · exact Unloaded.single ⟨fun name object hmem =>
      hs.copies name object (List.mem_of_mem_filter hmem), hs.initialised,
      hs.crashed, hs.requires⟩ happmetrics
  · exact absurd hcopy (hs.copies filename object)
  · obtain ⟨hglobal, o, hholds⟩ :=
      hs.evaluate happmetrics filename parent core
    exact hholds.single hglobal

theorem Holds.step (hs : s.Holds version g o)
    (happmetrics : s.appmetrics = some g) {e : LoaderStep}
    (hstep : s.step version e = some s') :
    s'.appmetrics = some g ∧ s'.Holds version g o := by
  have hlive := step_live hstep
  rcases step_cases hstep with ⟨filename, -, rfl⟩ | ⟨filename, -, rfl⟩ |
    ⟨filename, parent, core, object, -, hcopy, rfl⟩ |
    ⟨filename, parent, core, -, rfl⟩
  · refine ⟨happmetrics, hs.of_cache fun name object hmem => ?_⟩
    rcases List.mem_append.mp hmem with hold | hnew
    · exact Or.inl hold
    · cases List.mem_singleton.mp hnew
  · exact ⟨happmetrics, hs.of_cache fun name object hmem =>
      Or.inl (List.mem_of_mem_filter hmem)⟩
  · obtain ⟨rfl, hversion⟩ := hs.copies filename object hcopy
    exact ⟨happmetrics, hs.ends hlive (if_pos hversion).symm⟩
  · exact ⟨evaluate_appmetrics happmetrics filename parent core,
      hs.evaluate happmetrics hlive filename parent core⟩

theorem single (version : List Char → String) :
    (machine version).Inductive (fun _ _ => True) (Single version) where
  init := ⟨fun _ _ => List.not_mem_nil, rfl, rfl, rfl⟩
  step := by
    intro s e s' hs _ hstep
    cases happmetrics : s.appmetrics with
    | none =>
        rw [Single, happmetrics] at hs
        exact Unloaded.step hs happmetrics hstep
    | some g =>
        rw [Single, happmetrics] at hs
        obtain ⟨o, hholds⟩ := hs
        obtain ⟨hglobal, hnext⟩ := hholds.step happmetrics hstep
        exact hnext.single hglobal

/-! ## Without a launcher -/

/-- No launcher comes in; the core library is found; and index.js is neither
the main module nor imported from its own directory. -/
def Ordinary : LoaderStep → Prop
  | .load filename => ¬ IsAppMetricsFile "launcher.js".toList filename
  | .uncache _ => True
  | .require filename parent core =>
      core = true ∧ ¬ IsAppMetricsFile "launcher.js".toList filename ∧
        (parent = .missing → ¬ IsAppMetricsFile "index.js".toList filename)

instance (e : LoaderStep) : Decidable (Ordinary e) :=
  match e with
  | .load _ => inferInstanceAs (Decidable (¬ _))
  | .uncache _ => isTrue trivial
  | .require _ _ _ => inferInstanceAs (Decidable (_ ∧ _))

structure Clean (s : ModuleLoader) : Prop where
  cache : ∀ entry ∈ s.cache,
    ¬ IsAppMetricsFile "launcher.js".toList entry.filename
  crashed : s.crashed = false
  complete : ∀ o ∈ s.objects, o.complete = true

theorem isGlobalAgent_ne_none {filename : List Char} {parent : ModuleParent}
    (hparent : parent = .missing →
      ¬ IsAppMetricsFile "index.js".toList filename) :
    isGlobalAgent filename parent ≠ none := by
  unfold isGlobalAgent
  split
  · next hindex =>
      cases parent with
      | missing => exact absurd (isAppMetricsFile_iff.mp hindex) (hparent rfl)
      | module filename? => cases filename? <;> simp
  · simp

theorem Clean.alreadyLoaded (hs : s.Clean) {filename : List Char}
    (hfilename : ¬ IsAppMetricsFile "launcher.js".toList filename) :
    isGlobalAgentAlreadyLoaded (filename :: s.cache.map CachedModule.filename) =
      false := by
  rw [isGlobalAgentAlreadyLoaded, List.any_eq_false]
  intro name hname
  rw [isAppMetricsFile_iff]
  rcases List.mem_cons.mp hname with rfl | hcached
  · exact hfilename
  · obtain ⟨entry, hentry, rfl⟩ := List.mem_map.mp hcached
    exact hs.cache entry hentry

theorem Clean.succeeds (hs : s.Clean) {filename : List Char}
    (hfilename : ¬ IsAppMetricsFile "launcher.js".toList filename)
    (object : Nat) : (s.succeeds filename object).Clean where
  cache entry hentry := by
    rcases List.mem_append.mp hentry with hold | hnew
    · exact hs.cache entry hold
    · cases List.mem_singleton.mp hnew
      exact hfilename
  crashed := hs.crashed
  complete := hs.complete

theorem Clean.evaluate (hs : s.Clean) {filename : List Char}
    {parent : ModuleParent} {core : Bool}
    (hordinary : Ordinary (.require filename parent core)) :
    (s.evaluate version filename parent core).Clean := by
  obtain ⟨rfl, hfilename, hparent⟩ := hordinary
  unfold ModuleLoader.evaluate
  split
  · split_ifs
    · exact hs.succeeds hfilename _
    · exact ⟨hs.cache, hs.crashed, hs.complete⟩
  · obtain ⟨globalAgent, hagent⟩ :=
      Option.ne_none_iff_exists'.mp (isGlobalAgent_ne_none hparent)
    unfold loadAddon
    simp only [hagent, hs.alreadyLoaded hfilename, Bool.and_false,
      Bool.false_eq_true, Bool.not_true, if_false]
    apply Clean.succeeds _ hfilename
    refine ⟨hs.cache, hs.crashed, fun o ho => ?_⟩
    simp only [List.set_append_right _ _ (Nat.le_refl _), Nat.sub_self,
      List.set_cons_zero, List.mem_append, List.mem_singleton] at ho
    rcases ho with hold | rfl
    · exact hs.complete o hold
    · rfl

theorem clean (version : List Char → String) :
    (machine version).Inductive (fun _ e => Ordinary e) Clean where
  init := ⟨fun _ h => absurd h List.not_mem_nil, rfl,
    fun _ h => absurd h List.not_mem_nil⟩
  step := by
    intro s e s' hs hordinary hstep
    rcases step_cases hstep with ⟨filename, rfl, rfl⟩ | ⟨filename, -, rfl⟩ |
      ⟨filename, parent, core, object, -, -, rfl⟩ |
      ⟨filename, parent, core, rfl, rfl⟩
    · refine ⟨fun entry hentry => ?_, hs.crashed, hs.complete⟩
      rcases List.mem_append.mp hentry with hold | hnew
      · exact hs.cache entry hold
      · cases List.mem_singleton.mp hnew
        exact hordinary
    · exact ⟨fun entry hentry =>
        hs.cache entry (List.mem_of_mem_filter hentry), hs.crashed,
        hs.complete⟩
    · exact ⟨hs.cache, hs.crashed, hs.complete⟩
    · exact hs.evaluate hordinary

end ModuleLoader

/-- Over every run of requires of any copies of index.js, other modules that
are loaded and deletions from the cache: the addon is initialised at most
once; the first call decides what the global is, and every later one gets the
same object without an error if it asks for its version, and an error
otherwise.  That object has nothing but a version if the first call has
failed, and it never does if no launcher comes in, the core library is found
and index.js has a parent module. -/
theorem module_loading (version : List Char → String)
    {steps : List LoaderStep} {s : ModuleLoader}
    (hrun : (ModuleLoader.machine version).run .initial steps = some s) :
    s.initialised ≤ 1 ∧
    (s.requires ≠ [] → ∃ g o, s.appmetrics = some g ∧
      s.objects[g]? = some o ∧ s.initialised = o.complete.toNat ∧
      (∀ call ∈ s.requires.head?, ModuleLoader.Founded version g o call) ∧
      ∀ call ∈ s.requires.tail, ModuleLoader.Answered version g o call) ∧
    ((∀ e ∈ steps, ModuleLoader.Ordinary e) →
      s.crashed = false ∧ ∀ o ∈ s.objects, o.complete = true) := by
  have hsingle := (ModuleLoader.single version).run (guarded_true _ _) hrun
  refine ⟨?_, fun hcalls => ?_, fun hordinary => ?_⟩
  · unfold ModuleLoader.Single at hsingle
    split at hsingle
    · rw [hsingle.initialised]
      exact Nat.zero_le 1
    · obtain ⟨o, hholds⟩ := hsingle
      rw [hholds.initialised]
      exact Bool.toNat_le o.complete
  · unfold ModuleLoader.Single at hsingle
    split at hsingle
    · exact absurd hsingle.requires hcalls
    · next g happmetrics =>
        obtain ⟨o, hholds⟩ := hsingle
        exact ⟨g, o, happmetrics, hholds.object, hholds.initialised,
          hholds.founded, hholds.answered⟩
  · have hclean := (ModuleLoader.clean version).run
      (guarded_of_forall fun _ e he => hordinary e he) hrun
    exact ⟨hclean.crashed, hclean.complete⟩

namespace ModuleLoadingWitness

def version (filename : List Char) : String :=
  if filename = "/old/index.js".toList then "5.1.0" else "5.1.1"

/-- The copy of another version, and one whose cache entry was deleted. -/
def copies : List LoaderStep :=
  [.require "/a/index.js".toList (.module (some "/app.js".toList)) true,
    .require "/old/index.js".toList (.module (some "/b.js".toList)) true,
    .uncache "/a/index.js".toList,
    .require "/a/index.js".toList (.module none) true]

theorem module_loading_copies : ∃ s : ModuleLoader,
    s.requires.map RequireCall.result =
      [.exports 0, .throws .incompatible, .exports 0] ∧
    s.initialised ≤ 1 ∧ s.crashed = false ∧
    ∃ g o, s.appmetrics = some g ∧ s.objects[g]? = some o ∧
      ∀ call ∈ s.requires.tail, ModuleLoader.Answered version g o call := by
  have hrun : (ModuleLoader.machine version).run .initial copies =
      some (((ModuleLoader.machine version).run .initial copies).getD
        .initial) := by decide
  obtain ⟨hone, hcalls, hordinary⟩ := module_loading version hrun
  obtain ⟨g, o, hglobal, hobject, -, -, hanswered⟩ := hcalls (by decide)
  exact ⟨_, by decide, hone, (hordinary (by decide)).1, g, o, hglobal,
    hobject, hanswered⟩

/-- The library is not found at first: the second call gets an object without
functions. -/
example : ((ModuleLoader.machine version).run .initial
    [.require "/a/index.js".toList (.module none) false,
      .require "/a/index.js".toList (.module none) true]).map
      (fun s => (s.requires.map RequireCall.result, s.objects)) =
    some ([.throws .noAgentCore, .exports 0], [⟨"5.1.1", false⟩]) := by
  decide

end ModuleLoadingWitness

end Appmetrics
