/-
lib/probe.js, probes/http-probe.js and probes/https-probe.js: `setConfig` on
filter objects that the application keeps and passes again, and the filters
that `filterUrl` then meets.
-/
import Appmetrics.SiteNeeds

namespace Appmetrics

open Effect

/-- A filter as the application made it; `regex` is undefined until the
pattern has been compiled. -/
structure FilterObject where
  pattern : JsValue
  toUrl : JsValue
  regex : Option (String → Bool)

/-- The argument of `setConfig`; the filters are objects of the application. -/
structure NewConfig where
  filters : Option (List Nat)
  others : List (String × JsValue)

structure ProbeConfig where
  filters : Option (List Nat)
  others : List (String × JsValue)

/-- The filter objects there are, and `this.config`. -/
structure ConfigState where
  filterObjects : Nat → FilterObject
  config : ProbeConfig

/-- `this.config[prop] = newConfig[prop]`, unless that is undefined. -/
def setOther (others : List (String × JsValue)) :
    String × JsValue → List (String × JsValue)
  | (_, .undefined) => others
  | (prop, value) =>
      if (others.lookup prop).isSome then
        others.map fun p => if p.1 = prop then (prop, value) else p
      else others ++ [(prop, value)]

def NewConfig.refs (newConfig : NewConfig) : List Nat :=
  newConfig.filters.getD []

namespace ProbeConfig

/-- `for (var prop in newConfig) ..` -/
def merge (config : ProbeConfig) (newConfig : NewConfig) : ProbeConfig where
  filters := newConfig.filters.or config.filters
  others := newConfig.others.foldl setOther config.others

def refs (config : ProbeConfig) : List Nat := config.filters.getD []

end ProbeConfig

namespace ConfigState

def merge (newConfig : NewConfig) (s : ConfigState) : ConfigState :=
  { s with config := s.config.merge newConfig }

def setRegex (ref : Nat) (regex : String → Bool) (s : ConfigState) :
    ConfigState :=
  { s with
    filterObjects := Function.update s.filterObjects ref
      { s.filterObjects ref with regex := some regex } }

end ConfigState

section SetConfig

-- `new RegExp(pattern)`
variable (RegExp : JsValue → Except JsError (String → Bool))

def compileFilter (ref : Nat) : Comp JsError ConfigState Unit := do
  let s ← Comp.get
  match (s.filterObjects ref).regex with
  | none => do
      let regex ← Comp.eval (RegExp (s.filterObjects ref).pattern)
      Comp.modify (ConfigState.setRegex ref regex)
  | some _ => pure ()

/-- `filters.forEach(..)`. -/
def compileFilters : List Nat → Comp JsError ConfigState Unit
  | [] => pure ()
  | ref :: refs => do
      compileFilter RegExp ref
      compileFilters refs

/-- `Probe.prototype.setConfig`: the merged filters are compiled. -/
def Probe.setConfig (newConfig : NewConfig) :
    Comp JsError ConfigState Unit := do
  Comp.modify (ConfigState.merge newConfig)
  let s ← Comp.get
  compileFilters RegExp s.config.refs

/-- The passed filters are compiled, then merged. -/
def compileThenMerge (newConfig : NewConfig) :
    Comp JsError ConfigState Unit := do
  compileFilters RegExp newConfig.refs
  Comp.modify (ConfigState.merge newConfig)

def HttpProbe.setConfig (newConfig : NewConfig) :
    Comp JsError ConfigState Unit := compileThenMerge RegExp newConfig

def HttpsProbe.setConfig (newConfig : NewConfig) :
    Comp JsError ConfigState Unit := compileThenMerge RegExp newConfig

inductive ProbeClass
  | base
  | http
  | https
deriving DecidableEq

namespace ProbeClass

def config : ProbeClass → ProbeConfig
  | base => ⟨none, []⟩
  | http => ⟨some [], []⟩
  | https => ⟨some [], []⟩

def setConfig : ProbeClass → NewConfig → Comp JsError ConfigState Unit
  | base => Probe.setConfig RegExp
  | http => HttpProbe.setConfig RegExp
  | https => HttpsProbe.setConfig RegExp

/-- The state of a new probe. -/
def construct (c : ProbeClass) (filterObjects : Nat → FilterObject) :
    ConfigState := ⟨filterObjects, c.config⟩

/-- The calls one after the other, whether they throw or not. -/
def run (c : ProbeClass) (s : ConfigState) (calls : List NewConfig) :
    ConfigState :=
  calls.foldl (fun s newConfig => (c.setConfig RegExp newConfig s).2) s

end ProbeClass

end SetConfig

namespace ConfigState

/-- `filter.regex.test(identifier)` for each filter; `undefined` has no
`test`. -/
def testFilters (s : ConfigState) (identifier : String) (resultUrl : JsValue) :
    List Nat → Except JsError JsValue
  | [] => .ok resultUrl
  | ref :: refs =>
      match (s.filterObjects ref).regex with
      | none => .error (.typeError "cannot read property of a nullish value")
      | some regex =>
          if regex identifier then .ok (s.filterObjects ref).toUrl
          else testFilters s identifier resultUrl refs

/-- `this.filterUrl(req)`. -/
def filterUrl (s : ConfigState) (req : JsValue) : Except JsError JsValue := do
  match ← req.get "url" with
  | .string url =>
      let resultUrl := JsValue.string (Server.parse url)
      match s.config.filters with
      | none => .error (.typeError "cannot read property of a nullish value")
      | some filters =>
          if filters.isEmpty then return resultUrl
          else
            let identifier ← (← req.get "method").plus (.string " ")
            let identifier ← identifier.plus resultUrl
            s.testFilters identifier.asName resultUrl filters
  | _ => .error (.typeError "not a function")

def Compiled (s : ConfigState) (ref : Nat) : Prop :=
  (s.filterObjects ref).regex.isSome = true

/-- A compiled filter, as the hooks of a server use it. -/
def compiledFilter (s : ConfigState) (ref : Nat) : Option Server.Filter :=
  (s.filterObjects ref).regex.map (⟨·, (s.filterObjects ref).toUrl⟩)

def compiledFilters (s : ConfigState) : List Server.Filter :=
  s.config.refs.filterMap s.compiledFilter

theorem testFilters_eq {s : ConfigState} {refs : List Nat}
    (hcompiled : ∀ ref ∈ refs, s.Compiled ref) (identifier : String)
    (resultUrl : JsValue) :
    s.testFilters identifier resultUrl refs =
      match (refs.filterMap s.compiledFilter).find? (·.regex identifier) with
      | some filter => .ok filter.toUrl
      | none => .ok resultUrl := by
  induction refs with
  | nil => rfl
  | cons ref refs ih =>
      obtain ⟨regex, hregex⟩ :=
        Option.isSome_iff_exists.mp (hcompiled ref (by simp))
      have ih := ih fun ref href => hcompiled ref (by simp [href])
      unfold testFilters
      cases htest : regex identifier <;>
        simp [compiledFilter, hregex, htest, ih]

theorem isEmpty_compiled {s : ConfigState} {refs : List Nat}
    (hcompiled : ∀ ref ∈ refs, s.Compiled ref) :
    (refs.filterMap s.compiledFilter).isEmpty = refs.isEmpty := by
  cases refs with
  | nil => rfl
  | cons ref refs =>
      obtain ⟨regex, hregex⟩ :=
        Option.isSome_iff_exists.mp (hcompiled ref (by simp))
      simp [compiledFilter, hregex]

/-- With compiled filters only, this is the `filterUrl` of the hooks. -/
theorem filterUrl_eq {s : ConfigState} (hfilters : s.config.filters.isSome)
    (hcompiled : ∀ ref ∈ s.config.refs, s.Compiled ref) (req : JsValue) :
    s.filterUrl req = Server.filterUrl s.compiledFilters req := by
  obtain ⟨filters, hsome⟩ := Option.isSome_iff_exists.mp hfilters
  have hrefs : s.config.refs = filters := by
    rw [ProbeConfig.refs, hsome]
    rfl
  rw [hrefs] at hcompiled
  unfold filterUrl Server.filterUrl
  refine congrArg (req.get "url" >>= ·) (funext fun url => ?_)
  cases url with
  | string url =>
      have hnil := isEmpty_compiled hcompiled
      have htest (identifier : String) :=
        testFilters_eq hcompiled identifier (.string (Server.parse url))
      simp only [hsome, htest, compiledFilters, hrefs, hnil]
      split
      · rfl
      · refine congrArg (req.get "method" >>= ·) (funext fun method => ?_)
        refine congrArg (method.plus (.string " ") >>= ·) (funext fun a => ?_)
        exact congrArg (a.plus _ >>= ·) (funext fun _ => rfl)
  | _ => rfl

end ConfigState

section Runs

variable {RegExp : JsValue → Except JsError (String → Bool)}

variable (RegExp) in
/-- The filter is compiled, or its pattern is valid. -/
def Compilable (s : ConfigState) (ref : Nat) : Prop :=
  s.Compiled ref ∨ Gives (RegExp (s.filterObjects ref).pattern)

variable (RegExp) in
/-- The passed filters do not need an invalid pattern. -/
def NewConfig.Valid (newConfig : NewConfig) (s : ConfigState) : Prop :=
  ∀ ref ∈ newConfig.refs, Compilable RegExp s ref

variable (RegExp) in
/-- Some filters have been compiled, and nothing else has happened to them. -/
structure Compiles (s s' : ConfigState) : Prop where
  keeps : ∀ ref, s.Compiled ref → s'.filterObjects ref = s.filterObjects ref
  pattern : ∀ ref,
    (s'.filterObjects ref).pattern = (s.filterObjects ref).pattern
  compilable : ∀ ref, s'.Compiled ref → Compilable RegExp s ref

namespace Compiles

variable {s s' s'' : ConfigState} {ref : Nat}

theorem refl (s : ConfigState) : Compiles RegExp s s :=
  ⟨fun _ _ => rfl, fun _ => rfl, fun _ => Or.inl⟩

theorem compiled (h : Compiles RegExp s s') (href : s.Compiled ref) :
    s'.Compiled ref := by
  rw [ConfigState.Compiled, h.keeps ref href]
  exact href

theorem compilable_iff (h : Compiles RegExp s s') (ref : Nat) :
    Compilable RegExp s' ref ↔ Compilable RegExp s ref := by
  constructor
  · rintro (hcompiled | hgives)
    · exact h.compilable ref hcompiled
    · exact Or.inr (h.pattern ref ▸ hgives)
  · rintro (hcompiled | hgives)
    · exact Or.inl (h.compiled hcompiled)
    · exact Or.inr ((h.pattern ref).symm ▸ hgives)

theorem valid_iff (h : Compiles RegExp s s') (newConfig : NewConfig) :
    newConfig.Valid RegExp s' ↔ newConfig.Valid RegExp s :=
  forall₂_congr fun ref _ => h.compilable_iff ref

theorem trans (h : Compiles RegExp s s') (h' : Compiles RegExp s' s'') :
    Compiles RegExp s s'' where
  keeps ref href := (h'.keeps ref (h.compiled href)).trans (h.keeps ref href)
  pattern ref := (h'.pattern ref).trans (h.pattern ref)
  compilable ref href := (h.compilable_iff ref).mp (h'.compilable ref href)

theorem setRegex {regex : String → Bool}
    (hregex : RegExp (s.filterObjects ref).pattern = .ok regex)
    (hnone : (s.filterObjects ref).regex = none) :
    Compiles RegExp s (s.setRegex ref regex) where
  keeps ref' href' := by
    apply Function.update_of_ne
    rintro rfl
    rw [ConfigState.Compiled, hnone] at href'
    cases href'
  pattern ref' := by
    by_cases heq : ref' = ref
    · subst heq
      simp [ConfigState.setRegex]
    · simp [ConfigState.setRegex, heq]
  compilable ref' href' := by
    by_cases heq : ref' = ref
    · subst heq
      exact Or.inr ⟨regex, hregex⟩
    · refine Or.inl ?_
      simpa [ConfigState.Compiled, ConfigState.setRegex, heq] using href'

end Compiles

/-! ## Compiling -/

theorem compileFilter_ok {s : ConfigState} {ref : Nat}
    (href : Compilable RegExp s ref) :
    ∃ s', compileFilter RegExp ref s = (.ok (), s') ∧ Compiles RegExp s s' ∧
      s'.config = s.config ∧ s'.Compiled ref := by
  unfold compileFilter
  rw [Comp.bind_ok (Comp.get_apply s)]
  cases hregex : (s.filterObjects ref).regex with
  | some regex =>
      exact ⟨s, rfl, .refl s, rfl, by rw [ConfigState.Compiled, hregex]; rfl⟩
  | none =>
      rcases href with hcompiled | ⟨regex, hgives⟩
      · rw [ConfigState.Compiled, hregex] at hcompiled
        cases hcompiled
      · refine ⟨s.setRegex ref regex, ?_, .setRegex hgives hregex, rfl, ?_⟩
        · rw [hgives]
          rfl
        · simp [ConfigState.Compiled, ConfigState.setRegex]

theorem compileFilter_error {s : ConfigState} {ref : Nat}
    (href : ¬Compilable RegExp s ref) :
    ∃ e, compileFilter RegExp ref s = (.error e, s) := by
  obtain ⟨hcompiled, hgives⟩ := not_or.mp href
  unfold compileFilter
  rw [Comp.bind_ok (Comp.get_apply s), Option.not_isSome_iff_eq_none.mp hcompiled]
  cases hregex : RegExp (s.filterObjects ref).pattern with
  | ok regex => exact absurd ⟨regex, hregex⟩ hgives
  | error e => exact ⟨e, rfl⟩

theorem compileFilters_ok {refs : List Nat} {s : ConfigState}
    (hrefs : ∀ ref ∈ refs, Compilable RegExp s ref) :
    ∃ s', compileFilters RegExp refs s = (.ok (), s') ∧
      Compiles RegExp s s' ∧ s'.config = s.config ∧
      ∀ ref ∈ refs, s'.Compiled ref := by
  induction refs generalizing s with
  | nil => exact ⟨s, rfl, .refl s, rfl, by simp⟩
  | cons ref refs ih =>
      obtain ⟨t, hrun, ht, hconfig, href⟩ :=
        compileFilter_ok (hrefs ref (by simp))
      obtain ⟨s', hrest, hs', hconfig', hall⟩ := ih fun ref' href' =>
        (ht.compilable_iff ref').mpr (hrefs ref' (by simp [href']))
      refine ⟨s', (Comp.bind_ok hrun _).trans hrest, ht.trans hs',
        hconfig'.trans hconfig, ?_⟩
      rw [List.forall_mem_cons]
      exact ⟨hs'.compiled href, hall⟩

/-- The filters before the invalid one have been compiled. -/
theorem compileFilters_error {refs : List Nat} {s : ConfigState}
    (hrefs : ¬∀ ref ∈ refs, Compilable RegExp s ref) :
    ∃ e s', compileFilters RegExp refs s = (.error e, s') ∧
      Compiles RegExp s s' ∧ s'.config = s.config ∧
      ∃ ref ∈ refs, ¬s'.Compiled ref := by
  induction refs generalizing s with
  | nil => exact absurd (by simp) hrefs
  | cons ref refs ih =>
      by_cases href : Compilable RegExp s ref
      · obtain ⟨t, hrun, ht, hconfig, _⟩ := compileFilter_ok href
        obtain ⟨e, s', hrest, hs', hconfig', ref', href', hnot⟩ := ih
          (s := t) fun hall => hrefs <| List.forall_mem_cons.mpr
            ⟨href, fun ref' href' =>
              (ht.compilable_iff ref').mp (hall ref' href')⟩
        exact ⟨e, s', (Comp.bind_ok hrun _).trans hrest, ht.trans hs',
          hconfig'.trans hconfig, ref', by simp [href'], hnot⟩
      · obtain ⟨e, hrun⟩ := compileFilter_error href
        exact ⟨e, s, Comp.bind_error hrun _, .refl s, rfl, ref, by simp,
          mt Or.inl href⟩

/-! ## The calls -/

theorem mem_refs_merge {config : ProbeConfig} {newConfig : NewConfig}
    {ref : Nat} (href : ref ∈ (config.merge newConfig).refs) :
    ref ∈ newConfig.refs ∨ ref ∈ config.refs := by
  unfold ProbeConfig.merge ProbeConfig.refs at href
  cases hfilters : newConfig.filters with
  | some filters =>
      refine Or.inl ?_
      simpa [NewConfig.refs, hfilters] using href
  | none =>
      refine Or.inr ?_
      simpa [ProbeConfig.refs, hfilters] using href

theorem refs_merge_of_mem {config : ProbeConfig} {newConfig : NewConfig}
    {ref : Nat} (href : ref ∈ newConfig.refs) :
    (config.merge newConfig).refs = newConfig.refs := by
  unfold NewConfig.refs at href
  cases hfilters : newConfig.filters with
  | some filters =>
      simp [ProbeConfig.merge, ProbeConfig.refs, NewConfig.refs, hfilters]
  | none =>
      rw [hfilters] at href
      cases href

/-- A request has the texts of its method and URL. -/
structure IsRequest (req : JsValue) : Prop where
  notNullish : req.nullish = false
  url : ∃ url, req.property "url" = .string url
  method : (req.property "method").hasText = true

variable (RegExp) in
/-- What the call does to the config and to its filters. -/
structure CallAtomic (c : ProbeClass) (newConfig : NewConfig)
    (s : ConfigState) : Prop where
  unchanged : ∀ e s', c.setConfig RegExp newConfig s = (.error e, s') →
    s'.config = s.config ∧
      ∀ ref ∈ s.config.refs, s'.filterObjects ref = s.filterObjects ref
  succeeds : newConfig.Valid RegExp s →
    (c.setConfig RegExp newConfig).Returns s
  compiled : ∀ ref ∈ (c.setConfig RegExp newConfig s).2.config.refs,
    (c.setConfig RegExp newConfig s).2.Compiled ref
  filterUrl : c ≠ .base → ∀ req, IsRequest req →
    Gives ((c.setConfig RegExp newConfig s).2.filterUrl req)

/-- Between calls the filters are compiled, and a server has some. -/
structure ConfigState.Ready (c : ProbeClass) (s : ConfigState) : Prop where
  compiled : ∀ ref ∈ s.config.refs, s.Compiled ref
  filters : c ≠ .base → s.config.filters.isSome

namespace ConfigState.Ready

variable {c : ProbeClass} {newConfig : NewConfig} {s s' : ConfigState}

theorem construct (c : ProbeClass) (filterObjects : Nat → FilterObject) :
    (c.construct filterObjects).Ready c where
  compiled := by cases c <;> rintro _ ⟨⟩
  filters hc := by
    cases c with
    | base => exact absurd rfl hc
    | http => rfl
    | https => rfl

/-- The filters of the new config are the old ones and the passed ones. -/
theorem merge (h : s.Ready c) (hconfig : s'.config = s.config.merge newConfig)
    (hs' : Compiles RegExp s s') (hnew : ∀ ref ∈ newConfig.refs, s'.Compiled ref) :
    s'.Ready c where
  compiled ref href := by
    rw [hconfig] at href
    rcases mem_refs_merge href with hmem | hmem
    · exact hnew ref hmem
    · exact hs'.compiled (h.compiled ref hmem)
  filters hc := by
    rw [hconfig, ProbeConfig.merge]
    cases newConfig.filters with
    | some filters => rfl
    | none => exact h.filters hc

theorem keep (h : s.Ready c) (hconfig : s'.config = s.config)
    (hs' : Compiles RegExp s s') : s'.Ready c where
  compiled ref href :=
    hs'.compiled (h.compiled ref (by rwa [hconfig] at href))
  filters hc := by
    rw [hconfig]
    exact h.filters hc

theorem filterUrl (h : s.Ready c) (hc : c ≠ .base) {req : JsValue}
    (hreq : IsRequest req) : Gives (s.filterUrl req) := by
  rw [filterUrl_eq (h.filters hc) h.compiled, Server.filterUrl_gives]
  exact ⟨hreq.notNullish, hreq.url, fun _ => hreq.method⟩

end ConfigState.Ready

section Calls

variable {c : ProbeClass} {newConfig : NewConfig} {s : ConfigState}

/-- A valid call of any class leaves a config with compiled filters. -/
theorem setConfig_valid (h : s.Ready c) (hvalid : newConfig.Valid RegExp s) :
    ∃ s', c.setConfig RegExp newConfig s = (.ok (), s') ∧
      Compiles RegExp s s' ∧ s'.Ready c := by
  have hbefore : ∃ s', compileThenMerge RegExp newConfig s = (.ok (), s') ∧
      Compiles RegExp s s' ∧ s'.Ready c := by
    obtain ⟨t, hrun, ht, hconfig, hall⟩ := compileFilters_ok hvalid
    have hs' : Compiles RegExp s (t.merge newConfig) :=
      ⟨ht.keeps, ht.pattern, ht.compilable⟩
    refine ⟨t.merge newConfig, Comp.bind_ok hrun _, hs',
      h.merge ?_ hs' hall⟩
    rw [← hconfig]
    rfl
  cases c with
  | base =>
      have hmerged : ∀ ref ∈ (s.merge newConfig).config.refs,
          Compilable RegExp (s.merge newConfig) ref := by
        intro ref href
        rcases mem_refs_merge href with hmem | hmem
        · exact hvalid ref hmem
        · exact Or.inl (h.compiled ref hmem)
      obtain ⟨s', hrun, ht, hconfig, hall⟩ := compileFilters_ok hmerged
      have hs' : Compiles RegExp s s' :=
        ⟨ht.keeps, ht.pattern, ht.compilable⟩
      refine ⟨s', hrun, hs', ?_, fun hc => absurd rfl hc⟩
      rw [hconfig]
      exact hall
  | http => exact hbefore
  | https => exact hbefore

/-- A server that is passed an invalid pattern keeps its config. -/
theorem setConfig_invalid (h : s.Ready c) (hc : c ≠ .base)
    (hinvalid : ¬newConfig.Valid RegExp s) :
    ∃ e s', c.setConfig RegExp newConfig s = (.error e, s') ∧
      Compiles RegExp s s' ∧ s'.config = s.config := by
  obtain ⟨e, s', hrun, hs', hconfig, _⟩ := compileFilters_error hinvalid
  have hthrow : compileThenMerge RegExp newConfig s = (.error e, s') :=
    Comp.bind_error hrun _
  cases c with
  | base => exact absurd rfl hc
  | http => exact ⟨e, s', hthrow, hs', hconfig⟩
  | https => exact ⟨e, s', hthrow, hs', hconfig⟩

/-- The base class has merged the invalid filter already. -/
theorem base_invalid (hinvalid : ¬newConfig.Valid RegExp s) :
    ¬CallAtomic RegExp .base newConfig s := by
  have hsome : ∃ ref ∈ newConfig.refs, ¬Compilable RegExp s ref := by
    simpa [NewConfig.Valid] using hinvalid
  obtain ⟨ref, href, hnot⟩ := hsome
  have hrefs : (s.merge newConfig).config.refs = newConfig.refs :=
    refs_merge_of_mem href
  have hmerged : ¬∀ ref ∈ (s.merge newConfig).config.refs,
      Compilable RegExp (s.merge newConfig) ref := by
    intro hall
    exact hnot (hall ref (hrefs ▸ href))
  obtain ⟨e, s', hrun, _, hconfig, ref', href', hcompiled⟩ :=
    compileFilters_error hmerged
  have hcall : ProbeClass.base.setConfig RegExp newConfig s = (.error e, s') :=
    hrun
  intro hatomic
  have hall := hatomic.compiled
  rw [hcall] at hall
  exact hcompiled (hall ref' (hconfig ▸ href'))

/-- With filters that are compiled after the call, `filterUrl` does not
throw. -/
theorem CallAtomic.of_ready
    (hready : (c.setConfig RegExp newConfig s).2.Ready c)
    (hunchanged : ∀ e s', c.setConfig RegExp newConfig s = (.error e, s') →
      s'.config = s.config ∧
        ∀ ref ∈ s.config.refs, s'.filterObjects ref = s.filterObjects ref)
    (hsucceeds : newConfig.Valid RegExp s →
      (c.setConfig RegExp newConfig).Returns s) :
    CallAtomic RegExp c newConfig s where
  unchanged := hunchanged
  succeeds := hsucceeds
  compiled := hready.compiled
  filterUrl hc _ hreq := hready.filterUrl hc hreq

/-- One call of a server, or one that is valid. -/
theorem setConfig_ready (h : s.Ready c)
    (hcall : c ≠ .base ∨ newConfig.Valid RegExp s) :
    CallAtomic RegExp c newConfig s ∧
      (c.setConfig RegExp newConfig s).2.Ready c ∧
      Compiles RegExp s (c.setConfig RegExp newConfig s).2 := by
  by_cases hvalid : newConfig.Valid RegExp s
  · obtain ⟨s', hrun, hs', hready⟩ := setConfig_valid h hvalid
    have hafter : (c.setConfig RegExp newConfig s).2 = s' := by rw [hrun]
    rw [← hafter] at hs' hready
    refine ⟨.of_ready hready ?_ fun _ => ⟨(), s', hrun⟩, hready, hs'⟩
    intro e t hthrow
    rw [hrun] at hthrow
    cases hthrow
  · have hc := hcall.resolve_right hvalid
    obtain ⟨e, s', hrun, hs', hconfig⟩ := setConfig_invalid h hc hvalid
    have hafter : (c.setConfig RegExp newConfig s).2 = s' := by rw [hrun]
    rw [← hafter] at hs' hconfig
    have hready := h.keep hconfig hs'
    refine ⟨.of_ready hready ?_ fun hv => absurd hv hvalid, hready, hs'⟩
    intro e' t hthrow
    rw [hthrow] at hconfig hs'
    exact ⟨hconfig, fun ref href => hs'.keeps ref (h.compiled ref href)⟩

end Calls

/-! ## Sequences of calls -/

variable (RegExp) in
/-- Each call is atomic in the state that the calls before it leave. -/
def RunAtomic (c : ProbeClass) (s : ConfigState) (calls : List NewConfig) :
    Prop :=
  ∀ earlier newConfig later, calls = earlier ++ newConfig :: later →
    CallAtomic RegExp c newConfig (c.run RegExp s earlier)

theorem runAtomic_cons {c : ProbeClass} {s : ConfigState}
    {newConfig : NewConfig} {calls : List NewConfig} :
    RunAtomic RegExp c s (newConfig :: calls) ↔
      CallAtomic RegExp c newConfig s ∧
        RunAtomic RegExp c (c.setConfig RegExp newConfig s).2 calls := by
  constructor
  · intro h
    refine ⟨h [] newConfig calls rfl, ?_⟩
    rintro earlier newConfig' later rfl
    exact h (newConfig :: earlier) newConfig' later rfl
  · rintro ⟨hcall, hrest⟩ earlier newConfig' later heq
    cases earlier with
    | nil =>
        cases heq
        exact hcall
    | cons first earlier =>
        cases heq
        exact hrest earlier newConfig' later rfl

theorem runAtomic_iff {c : ProbeClass} {s : ConfigState} (h : s.Ready c)
    (calls : List NewConfig) :
    RunAtomic RegExp c s calls ↔
      c ≠ .base ∨ ∀ newConfig ∈ calls, newConfig.Valid RegExp s := by
  induction calls generalizing s with
  | nil =>
      refine iff_of_true ?_ (Or.inr (by simp))
      intro earlier newConfig later heq
      simp at heq
  | cons newConfig calls ih =>
      rw [runAtomic_cons]
      by_cases hcall : c ≠ .base ∨ newConfig.Valid RegExp s
      · obtain ⟨hatomic, hready, hs'⟩ := setConfig_ready h hcall
        rw [ih hready, List.forall_mem_cons]
        have hrest : (∀ n ∈ calls, n.Valid RegExp
            (c.setConfig RegExp newConfig s).2) ↔
              ∀ n ∈ calls, n.Valid RegExp s :=
          forall₂_congr fun n _ => hs'.valid_iff n
        rw [hrest]
        tauto
      · obtain ⟨hc, hinvalid⟩ := not_or.mp hcall
        have hbase := not_not.mp hc
        subst hbase
        refine iff_of_false (fun h => base_invalid hinvalid h.1) ?_
        rintro (hne | hall)
        · exact hne rfl
        · exact hinvalid (hall newConfig (by simp))

/-- Over every sequence of calls on a new probe, whichever filters they share:
each call is atomic, valid calls succeed and all filters of the config are
compiled, if and only if the probe is a server's or no pattern is invalid. -/
theorem setConfig_atomic_iff (c : ProbeClass)
    (filterObjects : Nat → FilterObject) (calls : List NewConfig) :
    RunAtomic RegExp c (c.construct filterObjects) calls ↔
      c ≠ .base ∨ ∀ newConfig ∈ calls,
        newConfig.Valid RegExp (c.construct filterObjects) :=
  runAtomic_iff (ConfigState.Ready.construct c filterObjects) calls

end Runs

namespace ProbeConfigWitness

/-- A lone opening bracket is not a pattern. -/
def bracketRegExp (pattern : JsValue) : Except JsError (String → Bool) :=
  if pattern.isText "(" then .error (.thrown (.string "SyntaxError"))
  else .ok fun _ => false

def invalidFilters : NewConfig := ⟨some [0], []⟩

def laterCall : NewConfig := ⟨none, [("threshold", .number 1)]⟩

def objects (_ : Nat) : FilterObject := ⟨.string "(", .string "", none⟩

/-- The second call is valid, and throws. -/
theorem later_call_throws :
    ¬RunAtomic bracketRegExp .base (ProbeClass.base.construct objects)
      [invalidFilters, laterCall] := by
  intro h
  obtain ⟨_, _, hreturns⟩ :=
    (h [invalidFilters] laterCall [] rfl).succeeds fun _ href => nomatch href
  cases hreturns

end ProbeConfigWitness

end Appmetrics
