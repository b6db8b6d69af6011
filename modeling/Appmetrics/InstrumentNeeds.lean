/-
What the hooks of each probe read of their arguments, and when that throws.
-/
import Appmetrics.Coercions
import Appmetrics.HookEffects
import Appmetrics.Instruments

namespace Appmetrics

open Effect

/-- What must hold of its arguments for `requestStart` to get through, and
for the end hooks on a timer and a request that are set. -/
structure Reads where
  start : Call → Prop
  metrics : Call → List JsValue → Prop
  context : Call → List JsValue → Prop

namespace Reads

/-- These are exactly what the hooks of `i` read. -/
structure Of (r : Reads) (i : Instrument) : Prop where
  start : ∀ c, i.StartsRequest c ↔ r.start c
  metrics : ∀ c extra, i.EndsMetrics c extra ↔ r.metrics c extra
  context : ∀ c extra, i.EndsRequest c extra ↔ r.context c extra

/-- The hooks take any arguments. -/
def free : Reads := ⟨fun _ => True, fun _ _ => True, fun _ _ => True⟩

/-- The end hooks get through. -/
def Ends (r : Reads) (tests : Bool) (c : Call) (extra : List JsValue)
    (p : Probe) (d : ProbeData) : Prop :=
  (p.metricsProbeEnd = .live → d.timer ≠ none → r.metrics c extra) ∧
    (p.requestProbeEnd = .live →
      if d.req = none then tests = true else r.context c extra)

theorem Of.ends {r : Reads} {i : Instrument} (hr : r.Of i) (c : Call)
    (extra : List JsValue) (p : Probe) (d : ProbeData) :
    i.EndsSafely c extra p d ↔ r.Ends i.tests c extra p d := by
  rw [Instrument.EndsSafely, Ends, hr.metrics, hr.context]

theorem free_ends (c : Call) (extra : List JsValue) (p : Probe)
    (d : ProbeData) : free.Ends true c extra p d := by
  refine ⟨fun _ _ => trivial, fun _ => ?_⟩
  split
  · rfl
  · trivial

end Reads

namespace Instrument

/-- Whatever it is given, the instrument reads nothing that throws. -/
structure Harmless (i : Instrument) : Prop where
  request : ∀ c, Gives (i.request c)
  metrics : ∀ c extra, Gives (i.metrics c extra)
  context : ∀ c extra, Gives (i.context c extra)
  assigns : i.assigns = true
  topic : i.topic ∉ nativeTopics

theorem publishes_of_not_native {topic : String}
    (htopic : topic ∉ nativeTopics) (fields : Fields) :
    publishes topic fields = true := by
  simp [publishes, htopic]

theorem endsMetrics_iff {i : Instrument} (htopic : i.topic ∉ nativeTopics)
    {c : Call} {extra : List JsValue} :
    i.EndsMetrics c extra ↔ Gives (i.metrics c extra) :=
  ⟨fun ⟨event, hevent, _⟩ => ⟨event, hevent⟩,
    fun ⟨event, hevent⟩ =>
      ⟨event, hevent, fun _ _ => publishes_of_not_native htopic _⟩⟩

theorem endsRequest_iff {i : Instrument} (hassigns : i.assigns = true)
    {c : Call} {extra : List JsValue} :
    i.EndsRequest c extra ↔ Gives (i.context c extra) :=
  and_iff_left hassigns

/-- An event that can be made is published if its fields can be shown. -/
theorem endsMetrics_of_eq {i : Instrument} {c : Call}
    {extra : List JsValue} {fields : Fields}
    (hfields : i.metrics c extra = .ok (some fields)) :
    i.EndsMetrics c extra ↔ publishes i.topic fields = true := by
  rw [EndsMetrics, hfields]
  simp

theorem Harmless.reads {i : Instrument} (hi : i.Harmless) :
    Reads.free.Of i where
  start c := iff_of_true ⟨hi.request c, hi.assigns⟩ trivial
  metrics c extra :=
    iff_of_true ((endsMetrics_iff hi.topic).mpr (hi.metrics c extra)) trivial
  context c extra := iff_of_true ⟨hi.context c extra, hi.assigns⟩ trivial

theorem plain_harmless {topic type : String} {root : Call → Bool}
    {metrics context : Call → List JsValue → Fields}
    (htopic : topic ∉ nativeTopics) :
    (Instrument.plain topic type root metrics context).Harmless where
  request _ := gives_ok _
  metrics _ _ := gives_ok _
  context _ _ := gives_ok _
  assigns := rfl
  topic := htopic

end Instrument

/-! ## Probes that only pass values on -/

theorem Axon.harmless : Axon.instrument.Harmless :=
  Instrument.plain_harmless (by decide)

theorem Memcached.harmless : Memcached.instrument.Harmless :=
  Instrument.plain_harmless (by decide)

theorem Redis.harmless : Redis.instrument.Harmless :=
  Instrument.plain_harmless (by decide)

theorem Socketio.harmless : Socketio.instrument.Harmless :=
  Instrument.plain_harmless (by decide)

theorem Oracledb.harmless {name : String} (hname : name ∉ nativeTopics) :
    (Oracledb.instrument name).Harmless :=
  Instrument.plain_harmless hname

/-- Another name for the request does no harm. -/
theorem Instrument.Harmless.renamed {i : Instrument} (hi : i.Harmless)
    {request : Call → Except JsError RequestSpec}
    (hrequest : ∀ c, Gives (request c)) :
    { i with request := request }.Harmless :=
  ⟨hrequest, hi.metrics, hi.context, hi.assigns, hi.topic⟩

theorem Riak.harmless : Riak.instrument.Harmless :=
  (Instrument.plain_harmless (by decide)).renamed fun _ => gives_ok _

theorem Postgres.harmless : Postgres.instrument.Harmless :=
  (Instrument.plain_harmless (by decide)).renamed fun _ => gives_ok _

theorem Loopback.harmless : Loopback.instrument.Harmless :=
  (Instrument.plain_harmless (by decide)).renamed fun _ => gives_ok _

theorem StrongMq.harmless : StrongMq.instrument.Harmless :=
  (Instrument.plain_harmless (by decide)).renamed fun c => by
    split <;> exact gives_ok _

namespace Mqtt

/-- Options that are there can be read. -/
theorem gives_qos (c : Call) : Gives (qos c) := by
  unfold qos
  split
  · rename_i hoptions
    rw [Bool.and_eq_true] at hoptions
    exact JsValue.gives_get.mpr (JsValue.nullish_of_truthy hoptions.1)
  · exact gives_ok _

theorem harmless : instrument.Harmless where
  request _ := gives_ok _
  metrics c _ := gives_map.mpr (gives_qos c)
  context c _ := gives_map.mpr (gives_qos c)
  assigns := rfl
  topic := by decide

end Mqtt

/-! ## Probes whose hooks can throw -/

/-- The missing braces of `requestEnd` do not matter to what it reads. -/
theorem Oracle.reads_of : Reads.free.Of Oracle.instrument :=
  have hi : (Oracledb.instrument "oracle").Harmless :=
    Oracledb.harmless (by decide)
  ⟨hi.reads.start, hi.reads.metrics, hi.reads.context⟩

theorem Call.named_unique {c : Call} {m n : String} (hm : c.named m = true)
    (hn : c.named n = true) : m = n := by
  have heq := (JsValue.isText_iff.mp hm).symm.trans (JsValue.isText_iff.mp hn)
  cases heq
  rfl

namespace Leveldown

/-- No request can be started or stopped. -/
def reads : Reads where
  start _ := False
  metrics c _ := c.named "batch" = true → (c.arg 0).nullish = false
  context _ _ := False

theorem metrics_gives (c : Call) (extra : List JsValue) :
    Gives (instrument.metrics c extra) ↔
      (c.named "batch" = true → (c.arg 0).nullish = false) := by
  simp only [instrument]
  split
  · rename_i hput
    exact iff_of_true (gives_ok _) fun hbatch =>
      absurd (Call.named_unique hput hbatch) (by decide)
  · split
    · rename_i hdel
      refine iff_of_true (gives_ok _) fun hbatch => ?_
      rcases Bool.or_eq_true_iff.mp hdel with h | h <;>
        exact absurd (Call.named_unique h hbatch) (by decide)
    · split
      · rename_i hbatch
        rw [gives_map, JsValue.gives_get]
        simp [hbatch]
      · rename_i hbatch
        exact iff_of_true (gives_ok _) fun h => absurd h hbatch

theorem reads_of : reads.Of instrument where
  start _ := iff_of_false (fun h => Bool.noConfusion h.2) id
  metrics c extra :=
    (Instrument.endsMetrics_iff (by decide)).trans (metrics_gives c extra)
  context _ _ := iff_of_false (fun h => Bool.noConfusion h.2) id

end Leveldown

theorem gives_jsonField {v : JsValue} :
    Gives (jsonField v) ↔ v.stringifies = true := by
  unfold jsonField
  cases v.stringifies <;> simp

theorem jsonField_eq {v : JsValue} (hv : v.stringifies = true) :
    jsonField v = .ok (.json v) := by
  simp [jsonField, hv]

namespace Mysql

/-- The query is shown as JSON. -/
def reads : Reads where
  start _ := True
  metrics c _ := (c.arg 0).stringifies = true
  context c _ := (c.arg 0).stringifies = true

theorem reads_of : reads.Of instrument where
  start _ := iff_of_true ⟨gives_ok _, rfl⟩ trivial
  metrics c extra := by
    by_cases hquery : (c.arg 0).stringifies = true
    · have hfields : instrument.metrics c extra =
          .ok (some [("query", .json (c.arg 0))]) := by
        simp only [instrument, jsonField_eq hquery]
        rfl
      exact iff_of_true ((Instrument.endsMetrics_of_eq hfields).mpr rfl)
        hquery
    · refine iff_of_false (fun ⟨event, hevent, _⟩ => hquery ?_) hquery
      exact gives_jsonField.mp (gives_map.mp ⟨event, hevent⟩)
  context c extra :=
    (Instrument.endsRequest_iff rfl).trans (gives_map.trans gives_jsonField)

end Mysql

namespace Mongo

/-- The call, the collection's name and the count are shown as JSON. -/
def reads : Reads where
  start c := c.methodName.hasText = true ∧ c.target.nullish = false ∧
    (c.target.property "collectionName").hasText = true
  metrics c extra := (c.arg 0).stringifies = true ∧
    c.methodName.stringifies = true ∧
    (extra.getD 0 .undefined).stringifies = true ∧
    (extra.getD 1 .undefined).stringifies = true
  context c _ := (c.arg 0).stringifies = true

theorem requestName_textIf (c : Call) :
    JsValue.TextIf (reads.start c) (requestName c) := by
  unfold requestName
  refine JsValue.TextIf.bind (JsValue.plus_string _ _) fun s => ?_
  cases htarget : c.target.nullish with
  | true =>
      have hthrows : ¬Gives (c.target.get "collectionName") := by
        simp [JsValue.gives_get, htarget]
      refine ⟨fun h => Bool.noConfusion h.1, fun h => ?_⟩
      obtain ⟨v, hv, _⟩ := gives_bind.mp h
      exact absurd ⟨v, hv⟩ hthrows
  | false =>
      rw [JsValue.get_eq htarget]
      have hrest : JsValue.TextIf _
          ((JsValue.string s).plus (c.target.property "collectionName") >>=
            fun name => name.plus (.string ")")) :=
        .bind (JsValue.string_plus s _) fun t => JsValue.string_plus t _
      exact hrest.congr (by simp [JsValue.hasText])

theorem reads_of : reads.Of instrument where
  start c :=
    (and_iff_left rfl).trans (gives_map.trans (requestName_textIf c).gives)
  metrics c extra := by
    by_cases hquery : (c.arg 0).stringifies = true
    · have hfields : instrument.metrics c extra =
          .ok (some [("query", .json (c.arg 0)),
            given "method" c.methodName,
            given "collection" (extra.getD 0 .undefined),
            given "count" (extra.getD 1 .undefined)]) := by
        simp only [instrument, jsonField_eq hquery]
        rfl
      rw [Instrument.endsMetrics_of_eq hfields]
      simp [publishes, instrument, nativeTopics, given, Field.stringifies,
        reads, hquery]
    · refine iff_of_false (fun ⟨event, hevent, _⟩ => hquery ?_)
        fun h => hquery h.1
      exact gives_jsonField.mp (gives_map.mp ⟨event, hevent⟩)
  context c extra :=
    (Instrument.endsRequest_iff rfl).trans (gives_map.trans gives_jsonField)

theorem not_nullish_of_hasChecks {v : JsValue} (hv : v.hasChecks = true) :
    v.nullish = false := by
  cases v <;> first | rfl | cases hv

/-- What `firstCount` finds in a result that can be asked. -/
def found (res : JsValue) (names : List String) : JsValue :=
  match names.find? fun p => (res.ownProperty p).isSome with
  | some p => res.property p
  | none =>
      match res with
      | .number n => .number n
      | .nan => .nan
      | _ => .undefined

theorem firstCount_eq {res : JsValue} (hres : res.hasChecks = true)
    (names : List String) : firstCount res names = .ok (found res names) := by
  induction names with
  | nil => cases res <;> rfl
  | cons p ps ih =>
      have hnullish := not_nullish_of_hasChecks hres
      rw [firstCount, JsValue.hasOwnProperty_eq hres]
      cases hp : (res.ownProperty p).isSome with
      | true =>
          have hfound : found res (p :: ps) = res.property p := by
            simp [found, hp]
          rw [hfound, ← JsValue.get_eq hnullish]
          rfl
      | false =>
          have hfound : found res (p :: ps) = found res ps := by
            simp [found, hp]
          rw [hfound, ← ih]
          rfl

/-- The four counts of a bulk write. -/
def bulkCounts (res : JsValue) : List JsValue :=
  ["modifiedCount", "insertedCount", "deletedCount", "upsertedCount"].map
    res.property

theorem bulkCount_eq {res : JsValue} (hres : res.nullish = false) :
    bulkCount res =
      JsValue.plusAll (res.property "modifiedCount")
        [res.property "insertedCount", res.property "deletedCount",
          res.property "upsertedCount"] := by
  unfold bulkCount
  simp only [JsValue.get_eq hres, JsValue.plusAll_three]
  rfl

/-- The second argument of the callback, if there is one. -/
def result (args : List JsValue) : JsValue := args.getD 1 .undefined

/-- The callback got something that is asked for a count. -/
def Asked (args : List JsValue) : Prop :=
  1 < args.length ∧ (result args).truthy = true

theorem collectionCount_of_asked {c : Call} {args : List JsValue}
    (hasked : Asked args) :
    collectionCount c args = do
      let count ← firstCount (result args) countNames
      if c.named "bulkWrite" then bulkCount (result args)
      else return count := by
  have hguard : (1 < args.length && (args.getD 1 .undefined).truthy)
      = true := by
    rw [Bool.and_eq_true, decide_eq_true_eq]
    exact hasked
  rw [collectionCount, if_pos hguard]
  rfl

theorem collectionCount_of_not_asked {c : Call} {args : List JsValue}
    (hasked : ¬Asked args) : collectionCount c args = .ok .undefined := by
  have hguard : ¬(1 < args.length && (args.getD 1 .undefined).truthy)
      = true := by
    rw [Bool.and_eq_true, decide_eq_true_eq]
    exact hasked
  rw [collectionCount, if_neg hguard]

/-- The count of documents can be worked out. -/
def Counts (c : Call) (args : List JsValue) : Prop :=
  Asked args → (result args).hasChecks = true ∧
    (c.named "bulkWrite" = true → JsValue.AddsUp (bulkCounts (result args)))

/-- The count of documents can be shown as JSON. -/
def CountShows (c : Call) (args : List JsValue) : Prop :=
  Asked args →
    if c.named "bulkWrite" = true then
      ¬∀ v ∈ bulkCounts (result args), v.kind = .big
    else (found (result args) countNames).stringifies = true

theorem firstCount_gives {res : JsValue} :
    Gives (firstCount res countNames) ↔ res.hasChecks = true := by
  cases hres : res.hasChecks with
  | true => simp [firstCount_eq hres]
  | false =>
      refine iff_of_false (fun h => ?_) (by simp)
      rw [countNames, firstCount] at h
      obtain ⟨b, hb, _⟩ := gives_bind.mp h
      rw [JsValue.gives_hasOwnProperty.mp ⟨b, hb⟩] at hres
      cases hres

theorem collectionCount_gives (c : Call) (args : List JsValue) :
    Gives (collectionCount c args) ↔ Counts c args := by
  by_cases hasked : Asked args
  · have hnullish := JsValue.nullish_of_truthy hasked.2
    rw [collectionCount_of_asked hasked, Counts, ← firstCount_gives]
    cases hbulk : c.named "bulkWrite" with
    | true =>
        have hbulkCount : Gives (bulkCount (result args)) ↔
            JsValue.AddsUp (bulkCounts (result args)) := by
          rw [bulkCount_eq hnullish]
          exact JsValue.gives_plusAll _ _ _
        simpa [hasked, ← hbulkCount] using
          gives_bind_const fun _ => Iff.rfl
    | false => simp [hasked]
  · rw [collectionCount_of_not_asked hasked]
    exact iff_of_true (gives_ok _) fun h => absurd h hasked

theorem collectionCount_stringifies {c : Call} {args : List JsValue}
    {count : JsValue} (hcount : collectionCount c args = .ok count) :
    count.stringifies = true ↔ CountShows c args := by
  by_cases hasked : Asked args
  · have hnullish := JsValue.nullish_of_truthy hasked.2
    have hchecks :=
      ((collectionCount_gives c args).mp ⟨count, hcount⟩ hasked).1
    rw [collectionCount_of_asked hasked, firstCount_eq hchecks] at hcount
    rw [CountShows, imp_iff_right hasked]
    cases hbulk : c.named "bulkWrite" with
    | true =>
        rw [hbulk] at hcount
        have hsum : bulkCount (result args) = .ok count := hcount
        rw [bulkCount_eq hnullish] at hsum
        simpa [bulkCounts] using JsValue.stringifies_plusAll hsum
    | false =>
        rw [hbulk] at hcount
        cases hcount
        simp
  · rw [collectionCount_of_not_asked hasked] at hcount
    cases hcount
    exact iff_of_true rfl fun h => absurd h hasked

/-- The same for `toArray`. -/
def ArrayCounts (args : List JsValue) : Prop :=
  Asked args → (result args).hasChecks = true

def ArrayCountShows (args : List JsValue) : Prop :=
  Asked args → ((result args).property "length").stringifies = true

theorem arrayCount_of_asked {args : List JsValue} (hasked : Asked args) :
    arrayCount args = do
      if ← (result args).hasOwnProperty "length" then
        (result args).get "length"
      else return .undefined := by
  have hguard : (1 < args.length && (args.getD 1 .undefined).truthy)
      = true := by
    rw [Bool.and_eq_true, decide_eq_true_eq]
    exact hasked
  rw [arrayCount, if_pos hguard]
  rfl

theorem arrayCount_of_not_asked {args : List JsValue}
    (hasked : ¬Asked args) : arrayCount args = .ok .undefined := by
  have hguard : ¬(1 < args.length && (args.getD 1 .undefined).truthy)
      = true := by
    rw [Bool.and_eq_true, decide_eq_true_eq]
    exact hasked
  rw [arrayCount, if_neg hguard]

/-- A property that is missing is `undefined` either way. -/
theorem arrayCount_eq {args : List JsValue} (hasked : Asked args)
    (hchecks : (result args).hasChecks = true) :
    arrayCount args = .ok ((result args).property "length") := by
  have hnullish := JsValue.nullish_of_truthy hasked.2
  rw [arrayCount_of_asked hasked, JsValue.hasOwnProperty_eq hchecks,
    JsValue.get_eq hnullish]
  cases hown : (result args).ownProperty "length" <;>
    simp [JsValue.property, hown] <;> rfl

theorem arrayCount_gives (args : List JsValue) :
    Gives (arrayCount args) ↔ ArrayCounts args := by
  by_cases hasked : Asked args
  · rw [ArrayCounts, imp_iff_right hasked]
    constructor
    · intro h
      rw [arrayCount_of_asked hasked] at h
      obtain ⟨b, hb, _⟩ := gives_bind.mp h
      exact JsValue.gives_hasOwnProperty.mp ⟨b, hb⟩
    · intro hchecks
      exact ⟨_, arrayCount_eq hasked hchecks⟩
  · rw [arrayCount_of_not_asked hasked]
    exact iff_of_true (gives_ok _) fun h => absurd h hasked

theorem arrayCount_stringifies {args : List JsValue} {count : JsValue}
    (hcount : arrayCount args = .ok count) :
    count.stringifies = true ↔ ArrayCountShows args := by
  by_cases hasked : Asked args
  · have hchecks := (arrayCount_gives args).mp ⟨count, hcount⟩ hasked
    rw [arrayCount_eq hasked hchecks] at hcount
    cases hcount
    rw [ArrayCountShows, imp_iff_right hasked]
  · rw [arrayCount_of_not_asked hasked] at hcount
    cases hcount
    exact iff_of_true rfl fun h => absurd h hasked

end Mongo

end Appmetrics
