/-
What each instrumented method needs for its hooks to return, and that this
is exact.  Over every run of a call, with switches set and reset at any time,
the application's code runs if and only if these conditions are met.
-/
import Appmetrics.HookSafety

namespace Appmetrics

open Effect StepMachine

/-- An operation of an instrument with nothing else to read, whose end hooks
are given the same things each time. -/
theorem Needs.reading_exact {r : Reads} {i : Instrument} (hr : r.Of i)
    (around passes : Bool) (more : List JsValue) :
    (operation (fun _ => True) r.start fun c _ =>
      r.Ends i.tests c more).Exact
      (.operation i around passes (fun _ => .ok ()) fun _ _ => .ok more) :=
  operation_exact (fun _ => iff_of_true (gives_ok _) trivial) hr.start
    fun c _ p d => by
      rw [← hr.ends]
      constructor
      · rintro ⟨_, ⟨⟩, hends⟩
        exact hends
      · intro hends
        exact ⟨more, rfl, hends⟩

/-- A listener of such an instrument with nothing else to read. -/
theorem Needs.simple_listener_exact {i : Instrument} (hi : i.Harmless)
    (htests : i.tests = true) (applies : Call → Bool)
    (started ended : Call → List JsValue → Call) (extra : List JsValue) :
    free.Exact
      (.listener i applies (fun _ => .ok ()) started ended extra) :=
  free_listener_exact hi htests fun _ => iff_of_true (gives_ok _) trivial

theorem Mqtt.listen_exact : Needs.free.Exact listen :=
  Needs.simple_listener_exact harmless rfl _ _ _ _

theorem Socketio.listen_exact : Needs.free.Exact listen :=
  Needs.simple_listener_exact harmless rfl _ _ _ _

theorem StrongMq.listen_exact (socketType : String) :
    Needs.free.Exact (listen socketType) :=
  Needs.simple_listener_exact harmless rfl _ _ _ _

namespace Axon

/-- The event's name becomes part of a text. -/
def listenNeeds : Needs :=
  .listener (fun c => (c.arg 0).hasText = true) fun _ _ _ _ => True

theorem listen_exact (socketType : JsValue) :
    listenNeeds.Exact (listen socketType) :=
  Needs.free_listener_exact harmless rfl fun c =>
    gives_map.trans (JsValue.string_plus "axon: " (c.arg 0)).gives

end Axon

namespace Leveldown

/-- No call can be started while requests are on. -/
def needs : Needs :=
  .operation (fun _ => True) (fun _ => False) fun c _ => reads.Ends true c []

theorem exact : needs.Exact (.plain instrument false true) :=
  Needs.reading_exact reads_of false true []

end Leveldown

namespace Oracle

/-- No call can be ended while requests are on unless one was started. -/
def needs : Needs :=
  .operation (fun _ => True) (fun _ => True) fun _ _ p d =>
    p.requestProbeEnd = .live → d.req ≠ none

theorem exact : needs.Exact (.plain instrument true true) :=
  Needs.operation_exact (fun _ => iff_of_true (gives_ok _) trivial)
    reads_of.start fun c _ p d => by
      have hends : instrument.EndsSafely c [] p d ↔
          (p.requestProbeEnd = .live → d.req ≠ none) := by
        rw [reads_of.ends, Reads.Ends]
        have htests : instrument.tests = false := rfl
        by_cases hreq : d.req = none <;> simp [Reads.free, hreq, htests]
      rw [← hends]
      constructor
      · rintro ⟨_, ⟨⟩, hends⟩
        exact hends
      · intro hends
        exact ⟨[], rfl, hends⟩

end Oracle

namespace Mysql

def needs : Needs :=
  .operation (fun _ => True) (fun _ => True) fun c _ => reads.Ends true c []

theorem exact : needs.Exact (.plain instrument false true) :=
  Needs.reading_exact reads_of false true []

end Mysql

namespace Mqlight

def sendNeeds (client : JsValue) : Needs :=
  .operation (fun _ => True) (fun _ => True) fun c _ =>
    reads.Ends true c [client]

theorem send_exact (client : JsValue) :
    (sendNeeds client).Exact (send client) :=
  Needs.reading_exact reads_of true true [client]

def listenNeeds (client : JsValue) : Needs :=
  .listener (fun _ => True) fun c args =>
    reads.Ends true (c.event (.string "message") args) [client]

theorem listen_exact (client : JsValue) :
    (listenNeeds client).Exact (listen client) :=
  Needs.listener_exact (fun _ => iff_of_true (gives_ok _) trivial)
    (fun c => (reads_of.start c).mpr trivial) fun _ _ p d =>
      reads_of.ends _ _ p d

end Mqlight

namespace Mongo

/-- The end hooks get through with a count that can be worked out if `counts`
and shown if `shows`. -/
def Ends (c : Call) (name : JsValue) (counts shows : Prop) (p : Probe)
    (d : ProbeData) : Prop :=
  counts ∧
    (p.metricsProbeEnd = .live → d.timer ≠ none →
      (c.arg 0).stringifies = true ∧ c.methodName.stringifies = true ∧
        name.stringifies = true ∧ shows) ∧
    (p.requestProbeEnd = .live → d.req ≠ none →
      (c.arg 0).stringifies = true)

def collectionName (c : Call) : JsValue := c.target.property "collectionName"

def collectionNeeds : Needs :=
  .operation (fun c => c.target.nullish = false) reads.start
    fun c args p d => c.target.nullish = false ∧
      match args with
      | some args =>
          Ends c (collectionName c) (Counts c args) (CountShows c args) p d
      | none => Ends c (collectionName c) True True p d

def findNeeds : Needs :=
  { Needs.free with
    before := fun c p => p.requestProbeStart = .live → reads.start c
    after := fun c rc p d => c.target.nullish = false ∧
      (rc.nullish = true → Ends c (collectionName c) True True p d) }

/-- The end hooks are those of the `find` before. -/
def toArrayNeeds (find : Call) : Needs :=
  { Needs.free with
    hookBefore := fun _ args p d =>
      Ends find (collectionName find) (ArrayCounts args)
        (ArrayCountShows args) p d }

theorem endsSafely_iff {c : Call} {name count : JsValue} {shows : Prop}
    {p : Probe} {d : ProbeData} (hshows : count.stringifies = true ↔ shows) :
    instrument.EndsSafely c [name, count] p d ↔
      Ends c name True shows p d := by
  rw [reads_of.ends, Reads.Ends, Ends]
  have htests : instrument.tests = true := rfl
  by_cases hreq : d.req = none <;> simp [reads, hshows, hreq, htests]

theorem endsSafely_eval_iff {c : Call} {name : JsValue}
    {count : Except JsError JsValue} {counts shows : Prop} {p : Probe}
    {d : ProbeData} (hcounts : Gives count ↔ counts)
    (hshows : ∀ v, count = .ok v → (v.stringifies = true ↔ shows)) :
    (∃ v, count = .ok v ∧ instrument.EndsSafely c [name, v] p d) ↔
      Ends c name counts shows p d := by
  constructor
  · rintro ⟨v, hv, hends⟩
    exact ⟨hcounts.mp ⟨v, hv⟩, ((endsSafely_iff (hshows v hv)).mp hends).2⟩
  · rintro ⟨hgives, hrest⟩
    obtain ⟨v, hv⟩ := hcounts.mpr hgives
    exact ⟨v, hv, (endsSafely_iff (hshows v hv)).mpr ⟨trivial, hrest⟩⟩

theorem collection_exact : collectionNeeds.Exact collectionMethod :=
  Needs.operation_exact (fun c => gives_map.trans JsValue.gives_get)
    reads_of.start fun c args p d => by
      cases htarget : c.target.nullish with
      | true =>
          refine iff_of_false (fun ⟨more, hmore, _⟩ => ?_) (by simp)
          have hget := (JsValue.gives_get_bind.mp ⟨more, hmore⟩).1
          rw [htarget] at hget
          cases hget
      | false =>
          simp only [JsValue.get_eq htarget, true_and]
          refine exists_map.trans ?_
          cases args with
          | some args =>
              exact endsSafely_eval_iff (collectionCount_gives c args)
                fun v hv => collectionCount_stringifies hv
          | none =>
              refine endsSafely_eval_iff
                (iff_of_true (gives_ok _) trivial) fun v hv => ?_
              cases hv
              exact iff_of_true rfl trivial

theorem find_exact : findNeeds.Exact find where
  before c clock s := by
    change (instrument.startHooks c clock).Returns s ↔ _
    rw [instrument.startHooks_returns, reads_of.start]
    rfl
  hookBefore _ _ _ _ _ _ := iff_of_true (Comp.returns_pure _ _) trivial
  hookAfter _ _ _ _ _ := iff_of_true (Comp.returns_pure _ _) trivial
  after hook hhook c rc clock s := by
    cases hhook
    change (Comp.eval (c.target.get "collectionName") >>= fun name =>
      endUnlessCursor c rc name clock >>= fun _ => pure rc).Returns s ↔ _
    rw [Comp.returns_eval_bind]
    simp only [Comp.returns_bind_pure]
    constructor
    · rintro ⟨name, hname, hends⟩
      have htarget : c.target.nullish = false :=
        JsValue.gives_get.mp ⟨name, hname⟩
      refine ⟨htarget, fun hrc => ?_⟩
      rw [JsValue.get_eq htarget] at hname
      cases hname
      rw [endUnlessCursor, if_pos hrc, instrument.endHooks_returns] at hends
      exact (endsSafely_iff (iff_of_true rfl trivial)).mp hends
    · rintro ⟨htarget, hends⟩
      refine ⟨collectionName c, JsValue.get_eq htarget _, ?_⟩
      unfold endUnlessCursor
      split
      · rename_i hrc
        rw [instrument.endHooks_returns]
        exact (endsSafely_iff (iff_of_true rfl trivial)).mpr (hends hrc)
      · exact Comp.returns_pure _ _

theorem toArray_exact (call : Call) :
    (toArrayNeeds call).Exact (toArray call) where
  before _ _ _ := iff_of_true (Comp.returns_pure _ _) trivial
  hookBefore c _ target args clock s := by
    change (Comp.eval (arrayCount args) >>= fun count =>
      instrument.endHooks call [collectionName call, count] clock).Returns s
      ↔ _
    rw [Comp.returns_eval_bind]
    simp only [instrument.endHooks_returns]
    exact endsSafely_eval_iff (arrayCount_gives args)
      fun v hv => arrayCount_stringifies hv
  hookAfter _ _ _ _ _ := iff_of_true (Comp.returns_pure _ _) trivial
  after _ hhook := nomatch hhook

end Mongo

namespace Outbound

/-- The response that the end hooks look into. -/
def response : Option (List JsValue) → JsValue
  | some args => args.getD 0 .undefined
  | none => .object [] true true

/-- The options are read in any case, the response only by hooks that are
on. -/
def needs (urlParses : String → Bool) : Needs :=
  .operation (fun _ => True) (fun _ => True) fun c args p d =>
    Requests urlParses (c.arg 0) ∧
      reads.Ends true c [.undefined, .undefined, response args] p d

theorem topic_not_native (https : Bool) : topic https ∉ nativeTopics := by
  cases https <;> decide

theorem request_exact (https : Bool) (urlParses : String → Bool) :
    (needs urlParses).Exact (request https urlParses) :=
  Needs.operation_exact (fun _ => iff_of_true (gives_ok _) trivial)
    (reads_of (topic_not_native https)).start fun c args p d => by
      have hends (items : JsValue × JsValue × JsValue) :
          (instrument (topic https)).EndsSafely c
              [items.1, items.2.1, response args, items.2.2] p d ↔
            reads.Ends true c [.undefined, .undefined, response args] p d :=
        (reads_of (topic_not_native https)).ends c _ p d
      rw [← getRequestItems_gives (protocol https)]
      change (∃ more, (getRequestItems (protocol https) urlParses (c.arg 0) >>=
        fun items => pure [items.1, items.2.1, response args, items.2.2]) =
          .ok more ∧ _) ↔ _
      rw [exists_map]
      simp only [hends]
      exact exists_and_right

end Outbound

namespace Server

/-- A request that can be filtered. -/
def Filters (filters : List Filter) (httpReq : JsValue) : Prop :=
  httpReq.nullish = false ∧ (∃ url, httpReq.property "url" = .string url) ∧
    (filters ≠ [] → (httpReq.property "method").hasText = true)

/-- The marker can be read and, if it is not there, set. -/
def Marks (https : Bool) (target : JsValue) : Prop :=
  target.nullish = false ∧
    ((target.property (marker https)).truthy = true ∨
      target.isObject = true ∨ target.isFunction = true)

def listenNeeds (https : Bool) (filters : List Filter) : Needs :=
  { Needs.free with
    before := fun c _ =>
      (c.arg 0).isText "request" = true → Marks https c.target
    hookBefore := fun _ args _ _ =>
      Filters filters (args.getD 0 .undefined) ∧
        (filterUrl filters (args.getD 0 .undefined) ≠ .ok (.string "") →
          (args.getD 1 .undefined).nullish = false) }

def finishNeeds (https : Bool) (traceUrl res httpReq : JsValue) : Needs :=
  { Needs.free with
    after := fun c _ p d => httpReq.nullish = false ∧
      (reads (topic https)).Ends true
        (told c (httpReq.property "method") traceUrl) [res, httpReq] p d }

theorem filterUrl_gives (filters : List Filter) (httpReq : JsValue) :
    Gives (filterUrl filters httpReq) ↔ Filters filters httpReq := by
  unfold filterUrl
  rw [JsValue.gives_get_bind, Filters]
  refine and_congr_right fun hreq => ?_
  cases hurl : httpReq.property "url" with
  | string url =>
      cases filters with
      | nil => simp
      | cons filter filters =>
          simp only [List.isEmpty_cons, Bool.false_eq_true, ↓reduceIte]
          rw [gives_bind_of_ok (JsValue.get_eq hreq _)]
          have hmethod :=
            JsValue.plus_string (httpReq.property "method") " "
          constructor
          · intro h
            obtain ⟨s, hs, _⟩ := gives_bind.mp h
            exact ⟨⟨url, rfl⟩, fun _ => hmethod.2 ⟨s, hs⟩⟩
          · rintro ⟨_, htext⟩
            obtain ⟨s, hs⟩ := hmethod.1 (htext (List.cons_ne_nil _ _))
            obtain ⟨t, ht⟩ :=
              (JsValue.string_plus_string s (parse url)).1 trivial
            refine gives_bind.mpr ⟨_, hs, gives_bind.mpr ⟨_, ht, ?_⟩⟩
            split <;> exact gives_pure _
  | _ => simp

theorem mark_gives (https : Bool) (target : JsValue) :
    Gives (mark https target) ↔ Marks https target := by
  unfold mark
  rw [JsValue.gives_get_bind, Marks]
  refine and_congr_right fun _ => ?_
  cases hmarked : (target.property (marker https)).truthy with
  | true => simp
  | false => simp [JsValue.gives_put]

theorem trace_returns (https : Bool) (c : Call)
    (httpReq res traceUrl : JsValue) (clock : Clock) (s : HookState) :
    (trace https c httpReq res traceUrl clock).Returns s ↔
      httpReq.nullish = false ∧ res.nullish = false := by
  have hstart (method : JsValue) (s : HookState) :
      ((instrument (topic https)).startHooks (told c method traceUrl)
        clock).Returns s :=
    ((instrument (topic https)).startHooks_returns _ clock s).mpr fun _ =>
      ((reads_of (topic https)).start _).mpr trivial
  unfold trace
  rw [Comp.returns_eval_bind]
  simp only [Comp.returns_bind_of_ok (Comp.modify_apply _ _)]
  constructor
  · rintro ⟨method, hmethod, hrest⟩
    obtain ⟨_, _, _, hres⟩ := Comp.returns_bind.mp hrest
    rw [Comp.returns_bind_pure, Comp.returns_eval, JsValue.gives_get] at hres
    exact ⟨JsValue.gives_get.mp ⟨method, hmethod⟩, hres⟩
  · rintro ⟨hreq, hres⟩
    obtain ⟨_, _, hstarted⟩ := hstart (httpReq.property "method") _
    refine ⟨_, JsValue.get_eq hreq _,
      Comp.returns_bind.mpr ⟨_, _, hstarted, ?_⟩⟩
    rw [Comp.returns_bind_pure, Comp.returns_eval]
    exact JsValue.gives_get.mpr hres

theorem listen_exact (https : Bool) (filters : List Filter) :
    (listenNeeds https filters).Exact (listen https filters) where
  before c clock s := by
    change Comp.Returns (if (c.arg 0).isText "request" then
      Comp.eval (mark https c.target) else Advice.idle) s ↔
        ((c.arg 0).isText "request" = true → Marks https c.target)
    cases (c.arg 0).isText "request" with
    | true =>
        exact Comp.returns_eval.trans ((mark_gives https c.target).trans
          (by simp))
    | false => exact iff_of_true (Comp.returns_pure _ _) nofun
  hookBefore c _ target args clock s := by
    change (Comp.eval (filterUrl filters (args.getD 0 .undefined)) >>=
      fun traceUrl => if traceUrl.isText "" then Advice.idle else
        trace https c (args.getD 0 .undefined) (args.getD 1 .undefined)
          traceUrl clock).Returns s ↔ _
    rw [Comp.returns_eval_bind]
    change _ ↔ Filters filters (args.getD 0 .undefined) ∧ _
    rw [← filterUrl_gives]
    constructor
    · rintro ⟨traceUrl, hurl, hrest⟩
      refine ⟨⟨traceUrl, hurl⟩, fun hne => ?_⟩
      split at hrest
      · rename_i hblank
        rw [JsValue.isText_iff.mp hblank] at hurl
        exact absurd hurl hne
      · exact ((trace_returns ..).mp hrest).2
    · rintro ⟨⟨traceUrl, hurl⟩, hres⟩
      refine ⟨traceUrl, hurl, ?_⟩
      split
      · exact Comp.returns_pure _ _
      · rename_i hnot
        have hreq := ((filterUrl_gives ..).mp ⟨traceUrl, hurl⟩).1
        refine (trace_returns ..).mpr ⟨hreq, hres fun hblank => hnot ?_⟩
        rw [hblank] at hurl
        cases hurl
        rfl
  hookAfter _ _ _ _ _ := iff_of_true (Comp.returns_pure _ _) trivial
  after _ hhook := nomatch hhook

theorem finish_exact (https : Bool) (traceUrl res httpReq : JsValue) :
    (finishNeeds https traceUrl res httpReq).Exact
      (finish https traceUrl res httpReq) where
  before _ _ _ := iff_of_true (Comp.returns_pure _ _) trivial
  hookBefore _ _ _ _ _ _ := iff_of_true (Comp.returns_pure _ _) trivial
  hookAfter _ _ _ _ _ := iff_of_true (Comp.returns_pure _ _) trivial
  after hook hhook c rc clock s := by
    cases hhook
    change (Comp.eval (httpReq.get "method") >>= fun method =>
      (instrument (topic https)).endHooks (told c method traceUrl)
        [res, httpReq] clock >>= fun _ =>
          pure JsValue.undefined).Returns s ↔ _
    rw [Comp.returns_eval_bind]
    simp only [Comp.returns_bind_pure, Instrument.endHooks_returns,
      (reads_of (topic https)).ends]
    constructor
    · rintro ⟨method, hmethod, hends⟩
      have hreq := JsValue.gives_get.mp ⟨method, hmethod⟩
      rw [JsValue.get_eq hreq] at hmethod
      cases hmethod
      exact ⟨hreq, hends⟩
    · rintro ⟨hreq, hends⟩
      exact ⟨_, JsValue.get_eq hreq _, hends⟩

end Server

namespace Trace

/-- No argument is a symbol, which has no text. -/
def NoSymbols (args : List JsValue) : Prop :=
  ∀ v ∈ args, v.isSymbol = false

def methodNeeds (methodString : String) : Needs :=
  { Needs.free with
    hookBefore := fun c _ _ _ => NoSymbols c.methodArgs
    after := fun c _ _ _ =>
      isCallback methodString c.methodArgs = false → NoSymbols c.methodArgs }

def respondNeeds (args : List JsValue) : Needs :=
  { Needs.free with before := fun _ _ => NoSymbols args }

theorem contextValue_gives (v : JsValue) :
    Gives (contextValue v) ↔ v.isSymbol = false := by
  cases v with
  | function f =>
      refine iff_of_true ?_ rfl
      unfold contextValue functionInfo
      dsimp only
      split <;> exact gives_ok _
  | symbol d => exact iff_of_false (not_gives_error _) nofun
  | _ => exact iff_of_true ⟨_, rfl⟩ rfl

theorem cxtFunc_gives (args : List JsValue) (i : Nat) :
    Gives (cxtFunc i args) ↔ NoSymbols args := by
  induction args generalizing i with
  | nil => exact iff_of_true (gives_ok _) nofun
  | cons v vs ih =>
      rw [cxtFunc, gives_bind_const fun _ => gives_map.trans (ih (i + 1)),
        contextValue_gives]
      simp [NoSymbols]

theorem stop_returns (args : List JsValue) (clock : Clock) (s : HookState) :
    (stop args clock).Returns s ↔ NoSymbols args := by
  unfold stop
  rw [Comp.returns_eval_then, cxtFunc_gives]
  exact and_iff_left ⟨(), _, rfl⟩

theorem isCallback_last {methodString : String} {args : List JsValue}
    (hcallback : isCallback methodString args = true) :
    ∃ v, args.getLast? = some v ∧ v.isFunction = true := by
  unfold isCallback at hcallback
  split at hcallback
  · cases hcallback
  · rename_i f hf
    obtain ⟨v, hv, hinfo⟩ := Option.bind_eq_some_iff.mp hf
    refine ⟨v, hv, ?_⟩
    cases v <;> first | rfl | cases hinfo

/-- The last argument is a callback, so putting another function in its
place brings no symbol in and takes none out. -/
theorem noSymbols_replaced {methodString : String} {args : List JsValue}
    (hcallback : isCallback methodString args = true) :
    NoSymbols (Aspect.replaceAt args (some (args.length - 1))) ↔
      NoSymbols args := by
  obtain ⟨v, hv, hcall⟩ := isCallback_last hcallback
  have hfunction : v.isSymbol = false := by
    cases v <;> first | rfl | cases hcall
  obtain ⟨init, rfl⟩ := List.getLast?_eq_some_iff.mp hv
  have hmodify : Aspect.replaceAt (init ++ [v])
      (some ((init ++ [v]).length - 1)) = init ++ [v.forwarder] := by
    simp [Aspect.replaceAt, List.modify_eq_take_drop]
  have hforwarder : v.forwarder.isSymbol = false := rfl
  rw [hmodify]
  simp [NoSymbols, or_imp, forall_and, hfunction, hforwarder]

theorem method_exact (fullName methodString : String) :
    (methodNeeds methodString).Exact (method fullName methodString) where
  before _ _ _ := iff_of_true ⟨(), _, rfl⟩ trivial
  hookBefore c hcallback target args clock s := by
    have hiscallback : isCallback methodString c.methodArgs = true := by
      by_contra hnot
      simp [method, hnot] at hcallback
    exact (stop_returns _ clock s).trans (noSymbols_replaced hiscallback)
  hookAfter _ _ _ _ _ := iff_of_true (Comp.returns_pure _ _) trivial
  after hook hhook c rc clock s := by
    cases hhook
    rw [Comp.returns_bind_pure]
    change (stopWithoutCallback methodString c.methodArgs clock).Returns s ↔
      (isCallback methodString c.methodArgs = false →
        NoSymbols c.methodArgs)
    unfold stopWithoutCallback
    cases isCallback methodString c.methodArgs with
    | true => exact iff_of_true (Comp.returns_pure _ _) nofun
    | false => exact (stop_returns _ clock s).trans (by simp)

theorem respond_exact (args : List JsValue) :
    (respondNeeds args).Exact (respond args) where
  before _ clock s := stop_returns args clock s
  hookBefore _ _ _ _ _ _ := iff_of_true (Comp.returns_pure _ _) trivial
  hookAfter _ _ _ _ _ := iff_of_true (Comp.returns_pure _ _) trivial
  after hook hhook c rc clock s := by
    cases hhook
    exact iff_of_true (Comp.returns_pure _ _) trivial

end Trace

/-! ## Methods that hand out objects -/

/-- A connection that was seen before or can be marked. -/
def Attachable (connection : JsValue) : Prop :=
  connection.nullish = false ∧
    ((connection.property seenBefore).truthy = true ∨
      connection.isObject = true ∨ connection.isFunction = true)

theorem attachOnce_gives {connection : JsValue} {meth : String}
    {meths : List String} :
    Gives (attachOnce connection (meth :: meths)) ↔
      Attachable connection := by
  unfold attachOnce
  rw [JsValue.gives_get_bind, Attachable]
  refine and_congr_right fun hconnection => ?_
  cases hseen : (connection.property seenBefore).truthy with
  | true => simp
  | false =>
      simp only [Bool.false_eq_true, ↓reduceIte, false_or]
      rw [gives_bind_const fun _ => Needs.attach_gives, JsValue.gives_put]
      exact and_iff_left hconnection

/-- The callback either failed or got a proper object. -/
def FailedOr (P : JsValue → Prop) (args : List JsValue) : Prop :=
  (args.getD 0 .undefined).truthy = false → P (args.getD 1 .undefined)

theorem unlessFailed_gives {attaches : JsValue → Except JsError Unit}
    {P : JsValue → Prop} (hattaches : ∀ v, Gives (attaches v) ↔ P v)
    (args : List JsValue) :
    Gives (unlessFailed attaches args) ↔ FailedOr P args := by
  unfold unlessFailed FailedOr
  cases (args.getD 0 .undefined).truthy with
  | true => exact iff_of_true (gives_ok _) nofun
  | false => simpa using hattaches _

/-- Any object will do. -/
def NotNullish (v : JsValue) : Prop := v.nullish = false

theorem Axon.methods_ne_nil (socketType : JsValue) :
    methods socketType ≠ [] := by
  unfold methods
  split
  · rename_i hsend
    cases socketType with
    | string s =>
        obtain ⟨m, hm⟩ := Option.isSome_iff_exists.mp hsend
        rw [JsValue.asName, hm]
        exact List.cons_ne_nil _ _
    | _ => cases hsend
  · exact List.cons_ne_nil _ _

theorem Axon.socket_exact : Needs.product.Exact socket :=
  Needs.product_exact fun c => methods_ne_nil (c.arg 0)

namespace Oracle

/-- Preparing a statement never ends well. -/
def prepareNeeds : Needs := { Needs.free with after := fun _ _ _ _ => False }

theorem prepare_exact : prepareNeeds.Exact prepare where
  before _ _ _ := iff_of_true (Comp.returns_pure _ _) trivial
  hookBefore _ _ _ _ _ _ := iff_of_true (Comp.returns_pure _ _) trivial
  hookAfter _ _ _ _ _ := iff_of_true (Comp.returns_pure _ _) trivial
  after hook hhook _ _ _ _ := by
    cases hhook
    exact iff_of_false (Comp.not_returns_throw _ _) id

end Oracle

namespace Postgres

def clientConnectNeeds : Needs :=
  { Needs.free with after := fun c _ _ _ => c.target.nullish = false }

theorem clientConnect_exact : clientConnectNeeds.Exact clientConnect where
  before _ _ _ := iff_of_true (Comp.returns_pure _ _) trivial
  hookBefore _ _ _ _ _ _ := iff_of_true (Comp.returns_pure _ _) trivial
  hookAfter _ _ _ _ _ := iff_of_true (Comp.returns_pure _ _) trivial
  after hook hhook c rc clock s := by
    cases hhook
    rw [Comp.returns_bind_pure, Comp.returns_eval, Needs.attach_gives]
    rfl

end Postgres

namespace Site

/-- What the hooks of each method need. -/
def needs : Site → Needs
  | axonListen _ => Axon.listenNeeds
  | outbound _ urlParses => Outbound.needs urlParses
  | serverListen https filters => Server.listenNeeds https filters
  | serverEnd https traceUrl res httpReq =>
      Server.finishNeeds https traceUrl res httpReq
  | leveldown => Leveldown.needs
  | mongoFind => Mongo.findNeeds
  | mongoToArray find => Mongo.toArrayNeeds find
  | mongoCollection => Mongo.collectionNeeds
  | mqlightSend client => Mqlight.sendNeeds client
  | mqlightListen client => Mqlight.listenNeeds client
  | mysqlQuery => Mysql.needs
  | oracleExecute => Oracle.needs
  | traceMethod _ methodString => Trace.methodNeeds methodString
  | traceRespond args => Trace.respondNeeds args
  | axonSocket => .product
  | mqlightCreateClient => .product
  | mqttConnect => .product
  | mysqlCreateConnection => .product
  | redisMulti => .product
  | strongMqCreate => .product
  | strongMqCreateQueue _ => .product
  | oracleConnect => .handed (FailedOr NotNullish)
  | oraclePrepare => Oracle.prepareNeeds
  | oracledbGetConnection => .handed (FailedOr NotNullish)
  | oracledbCreatePool => .handed (FailedOr NotNullish)
  | oracledbPoolGetConnection => .handed (FailedOr Attachable)
  | strongOracleConnect => .handed (FailedOr Attachable)
  | postgresConnect => .handed fun args => Attachable (args.getD 1 .undefined)
  | postgresClientConnect => Postgres.clientConnectNeeds
  | socketioOn => .handed fun args => (args.getD 0 .undefined).nullish = false
  | _ => .free

theorem needs_exact (site : Site) : site.needs.Exact site.advice := by
  have hfree {i : Instrument} {around passes : Bool} (hi : i.Harmless)
      (htests : i.tests = true) :
      Needs.free.Exact (.plain i around passes) :=
    Needs.free_operation_exact hi htests fun _ _ => gives_ok _
  have hattach (meth : String) (meths : List String) (v : JsValue) :
      Gives (Aspect.attach v (meth :: meths)) ↔ NotNullish v :=
    Needs.attach_gives
  cases site with
  | axonSend socketType =>
      exact Needs.free_operation_exact Axon.harmless rfl
        fun _ _ => gives_ok _
  | axonListen socketType => exact Axon.listen_exact socketType
  | riak => exact hfree Riak.harmless rfl
  | outbound https urlParses => exact Outbound.request_exact https urlParses
  | serverListen https filters => exact Server.listen_exact https filters
  | serverEnd https traceUrl res httpReq =>
      exact Server.finish_exact https traceUrl res httpReq
  | leveldown => exact Leveldown.exact
  | loopback => exact hfree Loopback.harmless rfl
  | memcached => exact hfree Memcached.harmless rfl
  | mongoFind => exact Mongo.find_exact
  | mongoToArray find => exact Mongo.toArray_exact find
  | mongoCollection => exact Mongo.collection_exact
  | mqlightSend client => exact Mqlight.send_exact client
  | mqlightListen client => exact Mqlight.listen_exact client
  | mqttPublish => exact hfree Mqtt.harmless rfl
  | mqttListen => exact Mqtt.listen_exact
  | mysqlQuery => exact Mysql.exact
  | oracleExecute => exact Oracle.exact
  | oracledbExecute => exact hfree (Oracledb.harmless (by decide)) rfl
  | strongOracleExecute => exact hfree (Oracledb.harmless (by decide)) rfl
  | postgresQuery => exact hfree Postgres.harmless rfl
  | redisCommand => exact Redis.operation_exact _
  | redisExec eventName => exact Redis.operation_exact _
  | socketioBroadcast => exact enclosing_exact Socketio.harmless rfl
  | socketioEmit => exact enclosing_exact Socketio.harmless rfl
  | socketioListen => exact Socketio.listen_exact
  | strongMqPublish socketType =>
      change Needs.free.Exact (StrongMq.publish socketType)
      exact Needs.free_operation_exact StrongMq.harmless rfl
        fun _ _ => gives_ok _
  | strongMqListen socketType => exact StrongMq.listen_exact socketType
  | traceMethod fullName methodString =>
      exact Trace.method_exact fullName methodString
  | traceRespond args => exact Trace.respond_exact args
  | axonSocket => exact Axon.socket_exact
  | oraclePrepare => exact Oracle.prepare_exact
  | oracleConnect =>
      exact Needs.handed_exact (unlessFailed_gives (hattach _ _))
  | oracledbGetConnection =>
      exact Needs.handed_exact (unlessFailed_gives (hattach _ _))
  | oracledbCreatePool =>
      exact Needs.handed_exact (unlessFailed_gives (hattach _ _))
  | oracledbPoolGetConnection =>
      exact Needs.handed_exact (unlessFailed_gives fun _ => attachOnce_gives)
  | strongOracleConnect =>
      exact Needs.handed_exact (unlessFailed_gives fun _ => attachOnce_gives)
  | postgresConnect => exact Needs.handed_exact fun _ => attachOnce_gives
  | postgresClientConnect => exact Postgres.clientConnect_exact
  | socketioOn => exact Needs.handed_exact fun _ => hattach _ _ _
  | strongMqCreateQueue listens =>
      exact Needs.product_exact fun _ => by cases listens <;> exact nofun
  | _ => exact Needs.product_exact fun _ => List.cons_ne_nil _ _

end Site

/-- For every instrumented method, every call of it, every state of the
switches and the requests, and every run in which the switches are set and
reset at any time: the hooks return and let the application's code run
throughout if and only if each hook that runs has what it needs. -/
theorem hooks_return_iff (site : Site) (c : Call) (init : HookState)
    {run : List CallTurn} {t : CallState}
    (hrun : (callMachine site.advice c init).run
      (callMachine site.advice c init).init run = some t) :
    (callMachine site.advice c init).Guarded (site.needs.Met site.advice c)
        (callMachine site.advice c init).init run ↔
      (callMachine site.advice c init).Each
        (fun _ t s' => CallState.Runs site.advice c t s')
        (callMachine site.advice c init).init run :=
  CallState.guarded_met_iff_each_runs site.needs_exact hrun

namespace HookWitness

/-- After `start`, with metrics on and requests off. -/
def metricsOnly (name : String) : HookState where
  tracker := Tracker.initial
  flags := ⟨true, false, true⟩
  probe := ⟨name, .live, .live, .stub, .stub⟩
  probeData := .empty
  emitted := []
  stopped := []

/-- After `start` and `enable('requests')`. -/
def allOn (name : String) : HookState where
  tracker := Tracker.initial
  flags := ⟨true, true, true⟩
  probe := ⟨name, .live, .live, .live, .live⟩
  probeData := .empty
  emitted := []
  stopped := []

def clock (n : Nat) : Clock := ⟨n, n⟩

def object : JsValue := .object [] true true

def callback : JsValue := .function ⟨"done", "function done() {}", [], some []⟩

/-- A statement without a callback. -/
def execute : Call :=
  ⟨object, .string "execute", [.string "SELECT 1 FROM dual"]⟩

/-- Requests are enabled while the statement is executed. -/
def enabledMeanwhile : List CallTurn :=
  [⟨[], clock 1, .enter⟩, ⟨[], clock 2, .switch .enableRequests true⟩,
    ⟨[], clock 3, .leave (.returned .undefined)⟩]

def put : Call :=
  ⟨object, .string "put", [.string "key", .string "value", callback]⟩

/-- A message of 26 bytes, in a buffer. -/
def send : Call :=
  ⟨object, .string "send",
    [.string "topic", .object [("length", .number 26)] true true, callback]⟩

def delivered : List CallTurn :=
  [⟨[], clock 1, .enter⟩, ⟨[], clock 2, .leave (.returned (.boolean true))⟩,
    ⟨[], clock 3, .invoke .undefined []⟩]

/-- The library's own method is not called, its result is lost, or the
application's callback is not called. -/
theorem hooks_throw :
    (∃ s, (callMachine Site.oracleExecute.advice execute
        (metricsOnly "oracle")).run
        (callMachine Site.oracleExecute.advice execute
          (metricsOnly "oracle")).init enabledMeanwhile = some s ∧
      s.seen = some (.hookThrew
        (.typeError "cannot read property of a nullish value"))) ∧
    (∃ s, (callMachine Site.leveldown.advice put (allOn "leveldown")).run
        (callMachine Site.leveldown.advice put (allOn "leveldown")).init
        [⟨[], clock 1, .enter⟩] = some s ∧
      s.seen = some (.hookThrew (.referenceError "req"))) ∧
    (∃ s, (callMachine (Site.mqlightSend object).advice send
        (metricsOnly "mqlight")).run
        (callMachine (Site.mqlightSend object).advice send
          (metricsOnly "mqlight")).init delivered = some s ∧
      s.seen = some (.hookThrew (.typeError "not a function"))) :=
  ⟨⟨_, rfl, rfl⟩, ⟨_, rfl, rfl⟩, ⟨_, rfl, rfl⟩⟩

theorem hooks_return_iff_execute :
    (callMachine Site.oracleExecute.advice execute
        (metricsOnly "oracle")).Guarded
        (Site.oracleExecute.needs.Met Site.oracleExecute.advice execute)
        (callMachine Site.oracleExecute.advice execute
          (metricsOnly "oracle")).init enabledMeanwhile ↔
      (callMachine Site.oracleExecute.advice execute
        (metricsOnly "oracle")).Each
        (fun _ t s' => CallState.Runs Site.oracleExecute.advice execute t s')
        (callMachine Site.oracleExecute.advice execute
          (metricsOnly "oracle")).init enabledMeanwhile :=
  hooks_return_iff Site.oracleExecute execute (metricsOnly "oracle") rfl

end HookWitness

end Appmetrics
