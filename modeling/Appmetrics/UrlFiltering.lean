/-
`filterUrl` of probes/http-probe.js and probes/https-probe.js on all of a
request's URL, and what the hooks of a server do with the result: query and
fragment have no part in it.
-/
import Appmetrics.ProbeConfig
import Appmetrics.Scanning

namespace Appmetrics

open Effect

namespace JsValue

/-- `v + s` is the text of `v`, and then `s`. -/
theorem plus_text {v w : JsValue} {t : String}
    (hprimitive : v.toPrimitive = .ok w) (htext : w.text = .ok t)
    (s : String) :
    v.plus (.string s) = .ok (.string (t ++ s)) := by
  unfold plus
  rw [hprimitive]
  cases w <;> simp_all [text, toPrimitive, bind, Except.bind, pure, Except.pure]

end JsValue

theorem Instrument.endHooks_congr (i : Instrument) {c : Call}
    {extra extra' : List JsValue}
    (hmetrics : i.metrics c extra = i.metrics c extra')
    (hcontext : i.context c extra = i.context c extra') (clock : Clock) :
    i.endHooks c extra clock = i.endHooks c extra' clock := by
  unfold endHooks metricsProbeEnd metricsEnd requestProbeEnd requestEnd
  rw [hmetrics, hcontext]

def HttpProbe.filterUrl (s : ConfigState) (req : JsValue) :
    Except JsError JsValue := s.filterUrl req

def HttpsProbe.filterUrl (s : ConfigState) (req : JsValue) :
    Except JsError JsValue := s.filterUrl req

namespace Server

/-! ## Paths -/

def NoQuery (t : List Char) : Prop := '?' ∉ t ∧ '#' ∉ t

/-- The longest start of the URL with neither separator. -/
structure IsPath (url p : String) : Prop where
  starts : p.toList <+: url.toList
  noQuery : NoQuery p.toList
  longest : ∀ q, q <+: url.toList → NoQuery q → q.length ≤ p.toList.length

theorem prefix_parse_iff {url : String} {q : List Char} :
    q <+: (parse url).toList ↔ q <+: url.toList ∧ NoQuery q := by
  have hnone (x : Char) : (∀ c ∈ q, (c != x) = true) ↔ x ∉ q := by
    simp only [bne_iff_ne]
    exact ⟨fun h hx => h x hx rfl, fun h c hc heq => h (heq ▸ hc)⟩
  unfold parse NoQuery
  rw [String.toList_ofList, Scanning.prefix_takeWhile_iff,
    Scanning.prefix_takeWhile_iff, hnone, hnone, and_assoc]

/-- The two cuts of `parse` leave the path, in either order of the
separators. -/
theorem isPath_iff {url p : String} : IsPath url p ↔ p = parse url := by
  have hself := prefix_parse_iff.mp (List.prefix_refl (parse url).toList)
  constructor
  · intro h
    have hle := prefix_parse_iff.mpr ⟨h.starts, h.noQuery⟩
    refine String.toList_inj.mp (hle.eq_of_length ?_)
    exact Nat.le_antisymm hle.length_le (h.longest _ hself.1 hself.2)
  · rintro rfl
    exact ⟨hself.1, hself.2, fun q hq hnone =>
      (prefix_parse_iff.mpr ⟨hq, hnone⟩).length_le⟩

/-! ## The result -/

/-- The text of `req.method`. -/
def methodText (req : JsValue) : Except JsError String := do
  let method ← req.get "method"
  let method ← method.toPrimitive
  method.text

/-- `to` of the first filter that matches, or else the path. -/
inductive Chosen (filters : List Filter) (identifier : String)
    (path : JsValue) : JsValue → Prop
  | first {before after : List Filter} {filter : Filter} :
      filters = before ++ filter :: after →
      (∀ f ∈ before, f.regex identifier = false) →
      filter.regex identifier = true →
      Chosen filters identifier path filter.toUrl
  | none : (∀ f ∈ filters, f.regex identifier = false) →
      Chosen filters identifier path path

theorem chosen_iff {filters : List Filter} {identifier : String}
    {path r : JsValue} :
    Chosen filters identifier path r ↔
      r = ((filters.find? (·.regex identifier)).map Filter.toUrl).getD
        path := by
  constructor
  · rintro (⟨rfl, hbefore, hmatch⟩ | hnone)
    · rw [List.find?_append, List.find?_eq_none.mpr (by simpa using hbefore),
        Option.none_or]
      simp [hmatch]
    · rw [List.find?_eq_none.mpr (by simpa using hnone)]
      rfl
  · rintro rfl
    cases hfind : filters.find? (·.regex identifier) with
    | none => exact .none (by simpa using List.find?_eq_none.mp hfind)
    | some filter =>
        obtain ⟨hmatch, before, after, heq, hbefore⟩ :=
          List.find?_eq_some_iff_append.mp hfind
        exact .first heq (by simpa using hbefore) hmatch

theorem filterUrl_of_path {filters : List Filter} {req : JsValue}
    {url p method : String} (hreq : req.nullish = false)
    (hurl : req.property "url" = .string url) (hpath : IsPath url p)
    (hmethod : filters ≠ [] → methodText req = .ok method) :
    filterUrl filters req =
      .ok (((filters.find? (·.regex (method ++ " " ++ p))).map
        Filter.toUrl).getD (.string p)) := by
  cases isPath_iff.mp hpath
  unfold filterUrl
  rw [JsValue.get_eq hreq, hurl]
  cases filters with
  | nil => rfl
  | cons filter filters =>
      have htext := hmethod (List.cons_ne_nil _ _)
      rw [methodText, JsValue.get_eq hreq] at htext
      obtain ⟨w, hprimitive, htext⟩ :
          ∃ w, (req.property "method").toPrimitive = .ok w ∧
            w.text = .ok method := bind_eq_ok.mp htext
      have hplus : (JsValue.string (method ++ " ")).plus
          (.string (parse url)) = .ok (.string (method ++ " " ++ parse url)) :=
        JsValue.plus_text rfl rfl _
      rw [JsValue.get_eq hreq]
      simp only [bind, Except.bind, List.isEmpty_cons, Bool.false_eq_true,
        if_false, JsValue.plus_text hprimitive htext, hplus, JsValue.asName]
      cases (filter :: filters).find? (·.regex (method ++ " " ++ parse url)) <;>
        rfl

/-- What the hook does before the listener of a request. -/
theorem hookBefore_def (https : Bool) (filters : List Filter) (c : Call)
    (target httpReq : JsValue) (rest : List JsValue) (clock : Clock) :
    (listen https filters).hookBefore c target (httpReq :: rest) clock =
      (Comp.eval (filterUrl filters httpReq) >>= fun traceUrl =>
        if traceUrl.isText "" then Advice.idle
        else trace https c httpReq (rest.getD 0 .undefined) traceUrl clock) :=
  rfl

theorem hookBefore_ok {filters : List Filter} {httpReq traceUrl : JsValue}
    (hurl : filterUrl filters httpReq = .ok traceUrl) (https : Bool) (c : Call)
    (target : JsValue) (rest : List JsValue) (clock : Clock) :
    (listen https filters).hookBefore c target (httpReq :: rest) clock =
      if traceUrl.isText "" then Advice.idle
      else trace https c httpReq (rest.getD 0 .undefined) traceUrl clock := by
  rw [hookBefore_def, hurl]
  rfl

/-! ## Two requests -/

/-- The requests have one method, and URLs of one path. -/
structure SamePath (req req' : JsValue) : Prop where
  given : req.nullish = false
  given' : req'.nullish = false
  url : ∃ url url' p, req.property "url" = .string url ∧
    req'.property "url" = .string url' ∧ IsPath url p ∧ IsPath url' p
  method : req.property "method" = req'.property "method"

namespace SamePath

variable {req req' : JsValue} (h : SamePath req req')

include h

theorem filterUrl_eq (filters : List Filter) :
    filterUrl filters req = filterUrl filters req' := by
  obtain ⟨url, url', p, hurl, hurl', hpath, hpath'⟩ := h.url
  have hparse : parse url = parse url' := by
    rw [← isPath_iff.mp hpath, ← isPath_iff.mp hpath']
  unfold filterUrl
  rw [JsValue.get_eq h.given, JsValue.get_eq h.given', hurl, hurl',
    JsValue.get_eq h.given, JsValue.get_eq h.given', h.method]
  simp only [bind, Except.bind, hparse]

theorem trace_eq (https : Bool) (c : Call) (res traceUrl : JsValue)
    (clock : Clock) :
    trace https c req res traceUrl clock =
      trace https c req' res traceUrl clock := by
  unfold trace
  rw [JsValue.get_eq h.given, JsValue.get_eq h.given', h.method]

theorem hookBefore_eq (https : Bool) (filters : List Filter) (c : Call)
    (target : JsValue) (rest : List JsValue) (clock : Clock) :
    (listen https filters).hookBefore c target (req :: rest) clock =
      (listen https filters).hookBefore c target (req' :: rest) clock := by
  simp only [hookBefore_def, h.filterUrl_eq filters, h.trace_eq]

end SamePath

/-- The requests differ in the query and the fragment of their URLs, if in
anything. -/
structure OnlyQuery (req req' : JsValue) : Prop extends SamePath req req' where
  others : ∀ name, name ≠ "url" → req.property name = req'.property name

namespace OnlyQuery

variable {req req' : JsValue} (h : OnlyQuery req req')

include h

theorem get {name : String} (hname : name ≠ "url") :
    req.get name = req'.get name := by
  rw [JsValue.get_eq h.given, JsValue.get_eq h.given', h.others name hname]

theorem finish_eq (https : Bool) (traceUrl res : JsValue) :
    finish https traceUrl res req = finish https traceUrl res req' := by
  have hmethod : req.get "method" = req'.get "method" := h.get (by decide)
  have hheaders : req.get "headers" = req'.get "headers" := h.get (by decide)
  have hends (c : Call) (clock : Clock) :
      (instrument (topic https)).endHooks c [res, req] clock =
        (instrument (topic https)).endHooks c [res, req'] clock :=
    Instrument.endHooks_congr _ (by simp [instrument, hheaders])
      (by simp [instrument, hheaders]) clock
  unfold finish
  simp only [hends, hmethod]

end OnlyQuery

/-- What `filterUrl` and the hooks of a server make of the URL. -/
structure ByPath (filters : List Filter) : Prop where
  /-- the probes, once the filters of their configuration are compiled -/
  probes : ∀ s : ConfigState, s.config.filters.isSome = true →
    (∀ ref ∈ s.config.refs, s.Compiled ref) → s.compiledFilters = filters →
    ∀ req, HttpProbe.filterUrl s req = filterUrl filters req ∧
      HttpsProbe.filterUrl s req = filterUrl filters req
  /-- one request, whose method has a text where it is needed -/
  result : ∀ req url p method, req.nullish = false →
    req.property "url" = .string url → IsPath url p →
    (filters ≠ [] → methodText req = .ok method) →
    ∀ r, filterUrl filters req = .ok r ↔
      Chosen filters (method ++ " " ++ p) (.string p) r
  same : ∀ req req', SamePath req req' →
    filterUrl filters req = filterUrl filters req'
  /-- the two requests are both ignored, or both reported with one URL -/
  reported : ∀ req req' traceUrl, SamePath req req' →
    filterUrl filters req = .ok traceUrl →
    ∀ https c target rest clock,
      ∃ hook, (hook = Advice.idle ∧ traceUrl = .string "" ∨
          hook = trace https c req (rest.getD 0 .undefined) traceUrl clock ∧
            traceUrl ≠ .string "") ∧
        (listen https filters).hookBefore c target (req :: rest) clock = hook ∧
        (listen https filters).hookBefore c target (req' :: rest) clock = hook
  /-- so is the end of a reported request, which includes its headers -/
  ended : ∀ req req', OnlyQuery req req' → ∀ https traceUrl res,
    finish https traceUrl res req = finish https traceUrl res req'

/-- For all filters and requests, and for both probes. -/
theorem filterUrl_by_path (filters : List Filter) : ByPath filters where
  probes s hsome hcompiled hfilters req := by
    have heq := ConfigState.filterUrl_eq hsome hcompiled req
    rw [hfilters] at heq
    exact ⟨heq, heq⟩
  result req url p method hreq hurl hpath hmethod r := by
    rw [filterUrl_of_path hreq hurl hpath hmethod, chosen_iff,
      Except.ok.injEq, eq_comm]
  same req req' h := h.filterUrl_eq filters
  reported req req' traceUrl h hurl https c target rest clock := by
    refine ⟨_, ?_, rfl, (h.hookBefore_eq ..).symm⟩
    rw [hookBefore_ok hurl]
    by_cases hblank : traceUrl = .string ""
    · rw [if_pos (JsValue.isText_iff.mpr hblank)]
      exact Or.inl ⟨rfl, hblank⟩
    · rw [if_neg (mt JsValue.isText_iff.mp hblank)]
      exact Or.inr ⟨rfl, hblank⟩
  ended req req' h https traceUrl res := h.finish_eq https traceUrl res

end Server

namespace UrlFilteringWitness

open Server

def filters : List Filter :=
  [⟨(· = "GET /login"), .string "/account"⟩, ⟨fun _ => true, .string ""⟩]

def login (url : String) : JsValue :=
  .object [("method", .string "GET"), ("url", .string url)] true true

-- either separator first
example : parse "/login?next=#a" = "/login" ∧ parse "/login#a?b" = "/login" ∧
    parse "?b" = "" := by decide

theorem login_onlyQuery :
    OnlyQuery (login "/login?next=#a") (login "/login#a?b") where
  given := rfl
  given' := rfl
  url := ⟨_, _, "/login", rfl, rfl, isPath_iff.mpr (by decide),
    isPath_iff.mpr (by decide)⟩
  method := rfl
  others name hname := by
    have hne : (name == "url") = false := by simpa using hname
    simp [login, JsValue.property, JsValue.ownProperty, List.lookup_cons,
      hne]

/-- A login and its fragment are reported alike. -/
theorem login_by_path :
    filterUrl filters (login "/login?next=#a") = .ok (.string "/account") ∧
      filterUrl filters (login "/login#a?b") = .ok (.string "/account") := by
  have hresult : filterUrl filters (login "/login?next=#a") =
      .ok (.string "/account") := by
    refine ((filterUrl_by_path filters).result _ _ "/login" "GET" rfl rfl
      (isPath_iff.mpr (by decide)) (fun _ => rfl) _).mpr ?_
    exact .first (show filters = [] ++ _ from rfl) (by simp) (by decide)
  refine ⟨hresult, ?_⟩
  rw [← (filterUrl_by_path filters).same _ _ login_onlyQuery.toSamePath]
  exact hresult

end UrlFilteringWitness

end Appmetrics
