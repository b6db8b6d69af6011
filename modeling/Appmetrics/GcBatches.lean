/-
The garbage collection messages.  `afterGC` writes one line for each
collection; the agent may send several lines in one message, and `formatGC`
raises an event for each of them.
-/
import Appmetrics.Doubles
import Appmetrics.Text

namespace Appmetrics

/-! ## The native writer -/

/-- The kinds of collection that V8 tells the callback. -/
inductive GCType
  | markSweepCompact
  | scavenge
  | incrementalMarking
  | processWeakCallbacks
  | unrecognized
deriving Repr, DecidableEq

/-- The letter for a kind. -/
def gcType : GCType → Char
  | .markSweepCompact => 'M'
  | .scavenge => 'S'
  | .incrementalMarking => 'I'
  | .processWeakCallbacks => 'W'
  | .unrecognized => 'S'

/-- What `afterGC` asks the clocks and V8 for; `timingOK` tells whether both
readings of the steady clock succeeded. -/
structure GCReading where
  type : GCType
  timingOK : Bool
  gcSteadyStart : Nat
  gcSteadyEnd : Nat
  gcRealEnd : Nat
  totalHeapSize : Nat
  usedHeapSize : Nat
deriving Repr, DecidableEq

/-- The numbers and the letter that go into a line. -/
structure GCRecord where
  time : Nat
  type : Char
  size : Nat
  used : Nat
  duration : Nat
deriving Repr, DecidableEq

/-- `CalculateDuration`, in milliseconds from nanoseconds, on `uint64_t`. -/
def calculateDuration (start finish : Nat) : Nat :=
  (finish + 2 ^ 64 - start) % 2 ^ 64 / 1000000

def GCReading.record (r : GCReading) : GCRecord where
  time := r.gcRealEnd
  type := gcType r.type
  size := r.totalHeapSize
  used := r.usedHeapSize
  duration :=
    if r.timingOK then calculateDuration r.gcSteadyStart r.gcSteadyEnd else 0

namespace GCRecord

def fields (r : GCRecord) : List (List Char) :=
  ["NodeGCData".toList, showNat r.time, [r.type], showNat r.size,
    showNat r.used, showNat r.duration]

/-- A line before its newline. -/
def line (r : GCRecord) : List Char := [','].intercalate r.fields

/-- The content that is pushed for a record. -/
def content (r : GCRecord) : List Char := r.line ++ ['\n']

end GCRecord

def afterGC (r : GCReading) : List Char := r.record.content

/-! ## The reader of the API -/

/-- Drop the repetitions in each run of `a`. -/
def squeeze (a : Char) : List Char → List Char
  | [] => []
  | [c] => [c]
  | c :: d :: s =>
      if c = a ∧ d = a then squeeze a (d :: s) else c :: squeeze a (d :: s)

/-- `line.split(/[,]+/)`: a run of commas is one separator. -/
def splitCommas (line : List Char) : List (List Char) :=
  (squeeze ',' line).splitOn ','

/-- `parseInt(value)` as a number; `none` is `NaN`, which is also what a
missing value gives. -/
def parseNumber (value : Option (List Char)) : Option Int :=
  (value.bind parseInt).map intToDouble

/-- A `gc` event; an inner `none` is `NaN` or `undefined`. -/
structure GCEvent where
  time : Option Int
  type : Option (List Char)
  size : Option Int
  used : Option Int
  duration : Option Int
deriving Repr, DecidableEq

/-- The event that is emitted for a line. -/
def gcEvent (line : List Char) : GCEvent :=
  let values := splitCommas line
  { time := parseNumber values[1]?
    type := values[2]?
    size := parseNumber values[3]?
    used := parseNumber values[4]?
    duration := parseNumber values[5]? }

/-- The events that `formatGC` emits, in their order. -/
def formatGC (message : List Char) : List GCEvent :=
  ((jsTrim message).splitOn '\n').map gcEvent

namespace GCRecord

/-- `afterGC` writes the letter, and the numbers are exact in JavaScript. -/
structure Writable (r : GCRecord) : Prop where
  type : ∃ t, r.type = gcType t
  time : r.time < 2 ^ 53
  size : r.size < 2 ^ 53
  used : r.used < 2 ^ 53
  duration : r.duration < 2 ^ 53

/-- The event that says the same as the record. -/
def event (r : GCRecord) : GCEvent where
  time := some r.time
  type := some [r.type]
  size := some r.size
  used := some r.used
  duration := some r.duration

end GCRecord

/-! ## Reading a line -/

/-- Fields that are not empty and have no separator in them are not merged. -/
theorem squeeze_intercalate {a : Char} {fields : List (List Char)}
    (hfields : ∀ f ∈ fields, f ≠ [] ∧ a ∉ f) :
    squeeze a ([a].intercalate fields) = [a].intercalate fields := by
  -- a field before anything that does not begin with the separator
  have hfield {f s : List Char} (hf : a ∉ f) (hs : squeeze a s = s) :
      squeeze a (f ++ s) = f ++ s := by
    induction f with
    | nil => exact hs
    | cons c f ih =>
        rw [List.mem_cons, not_or] at hf
        cases hrest : f ++ s with
        | nil => rw [List.cons_append, hrest]; rfl
        | cons d u =>
            rw [List.cons_append, hrest, squeeze,
              if_neg fun h => hf.1 h.1.symm, ← hrest, ih hf.2]
  induction fields with
  | nil => rfl
  | cons f fs ih =>
      rw [List.forall_mem_cons] at hfields
      cases fs with
      | nil =>
          rw [List.intercalate_singleton, ← List.append_nil f]
          exact hfield hfields.1.2 rfl
      | cons g gs =>
          have hg := (List.forall_mem_cons.mp hfields.2).1
          obtain ⟨d, g', rfl⟩ := List.exists_cons_of_ne_nil hg.1
          have hd : d ≠ a := by
            rintro rfl
            exact hg.2 List.mem_cons_self
          have hrest := ih hfields.2
          obtain ⟨u, hu⟩ : ∃ u, [a].intercalate ((d :: g') :: gs) = d :: u := by
            cases gs with
            | nil => exact ⟨g', List.intercalate_singleton⟩
            | cons h hs =>
                exact ⟨_, by rw [List.intercalate_cons_cons]; rfl⟩
          rw [List.intercalate_cons_cons, List.append_assoc]
          refine hfield hfields.1.2 ?_
          rw [hu] at hrest ⊢
          rw [List.singleton_append, squeeze, if_neg fun h => hd h.2, hrest]

theorem splitCommas_intercalate {fields : List (List Char)}
    (hfields : ∀ f ∈ fields, f ≠ [] ∧ ',' ∉ f) (hne : fields ≠ []) :
    splitCommas ([','].intercalate fields) = fields := by
  rw [splitCommas, squeeze_intercalate hfields]
  exact List.splitOn_intercalate ',' (fun f hf => (hfields f hf).2) hne

theorem parseNumber_showNat {n : Nat} (hn : n < 2 ^ 53) :
    parseNumber (some (showNat n)) = some (n : Int) := by
  have hexact : intToDouble n = n := intToDouble_of_lt hn
  rw [parseNumber, Option.bind_some, parseInt_showNat, Option.map_some, hexact]

namespace GCRecord

/-- No character that is neither a digit nor a letter is in a field. -/
theorem mem_fields {r : GCRecord} (hr : r.Writable) {f : List Char}
    (hf : f ∈ r.fields) : f ≠ [] ∧ ',' ∉ f ∧ '\n' ∉ f := by
  have hnat (n : Nat) :
      showNat n ≠ [] ∧ ',' ∉ showNat n ∧ '\n' ∉ showNat n :=
    ⟨Nat.toDigits_ne_nil, not_mem_showNat (by decide) n,
      not_mem_showNat (by decide) n⟩
  have htype : [r.type] ≠ [] ∧ ',' ∉ [r.type] ∧ '\n' ∉ [r.type] := by
    obtain ⟨t, ht⟩ := hr.type
    rw [ht]
    cases t <;> simp [gcType]
  simp only [fields, List.mem_cons, List.not_mem_nil, or_false] at hf
  rcases hf with rfl | rfl | rfl | rfl | rfl | rfl
  · decide
  · exact hnat r.time
  · exact htype
  · exact hnat r.size
  · exact hnat r.used
  · exact hnat r.duration

theorem gcEvent_line {r : GCRecord} (hr : r.Writable) :
    gcEvent r.line = r.event := by
  have hsplit : splitCommas r.line = r.fields :=
    splitCommas_intercalate
      (fun f hf => ⟨(mem_fields hr hf).1, (mem_fields hr hf).2.1⟩)
      (List.cons_ne_nil _ _)
  unfold gcEvent
  rw [hsplit]
  simp only [fields, event, List.getElem?_cons_succ, List.getElem?_cons_zero,
    parseNumber_showNat hr.time, parseNumber_showNat hr.size,
    parseNumber_showNat hr.used, parseNumber_showNat hr.duration]

theorem not_mem_line {r : GCRecord} (hr : r.Writable) : '\n' ∉ r.line :=
  not_mem_intercalate (by decide) fun _ hf => (mem_fields hr hf).2.2

/-- A line ends with a digit. -/
theorem line_ends (r : GCRecord) :
    ∃ s c, r.line = s ++ [c] ∧ c.isDigit = true := by
  have hline : r.line = [','].intercalate
      ["NodeGCData".toList, showNat r.time, [r.type], showNat r.size,
        showNat r.used] ++ ',' :: showNat r.duration := by
    simp [line, fields, List.intercalate_cons_cons]
  obtain hnil | ⟨s, c, hs⟩ := List.eq_nil_or_concat' (showNat r.duration)
  · exact absurd hnil Nat.toDigits_ne_nil
  · have hc : c ∈ showNat r.duration := by
      rw [hs]
      exact List.mem_append_right s List.mem_cons_self
    rw [hline, hs, ← List.cons_append, ← List.append_assoc]
    exact ⟨_, c, rfl, isDigit_of_mem_showNat hc⟩

end GCRecord

/-- Trimming takes the newline off the last of a number of lines. -/
theorem jsTrim_gcLines (rs : List GCRecord) (r : GCRecord) :
    jsTrim ((rs ++ [r]).flatMap GCRecord.content) =
      rs.flatMap GCRecord.content ++ r.line := by
  obtain ⟨s, c, hlast, hdigit⟩ := GCRecord.line_ends r
  have hspace : isJsSpace c = false := (digit_facts hdigit).1
  have hend : (rs ++ [r]).flatMap GCRecord.content =
      (rs.flatMap GCRecord.content ++ s) ++ c :: ['\n'] := by
    rw [List.flatMap_append, List.flatMap_singleton, GCRecord.content, hlast]
    simp only [List.append_assoc, List.singleton_append]
  rw [hend, jsTrim_append_cons ?_ hspace, hlast, List.append_assoc]
  · rfl
  · rw [← hend]
    cases rs <;>
    · rintro x ⟨⟩
      decide

/-- A batch of lines is read back as the records it was written for: one
event for each, in order, with the same contents. -/
theorem gc_batches (rs : List GCRecord) (hne : rs ≠ [])
    (hrs : ∀ r ∈ rs, r.Writable) :
    formatGC (rs.flatMap GCRecord.content) = rs.map GCRecord.event := by
  obtain hnil | ⟨qs, q, rfl⟩ := List.eq_nil_or_concat' rs
  · exact absurd hnil hne
  have hlines : ∀ l ∈ qs.map GCRecord.line, '\n' ∉ l := by
    intro l hl
    obtain ⟨r, hr, rfl⟩ := List.mem_map.mp hl
    exact GCRecord.not_mem_line (hrs r (List.mem_append_left _ hr))
  have hsplit := splitOn_lines hlines (GCRecord.not_mem_line
    (hrs q (List.mem_append_right qs List.mem_cons_self)))
  rw [List.flatMap_map] at hsplit
  change (qs.flatMap GCRecord.content ++ q.line).splitOn '\n' = _ at hsplit
  rw [formatGC, jsTrim_gcLines, hsplit, ← List.map_singleton,
    ← List.map_append, List.map_map]
  exact List.map_congr_left fun r hr => GCRecord.gcEvent_line (hrs r hr)

/-- What `afterGC` reads can be written, as long as the clock and the heap
stay below `2 ^ 53`; a duration in milliseconds always does. -/
theorem GCReading.record_writable {r : GCReading}
    (htime : r.gcRealEnd < 2 ^ 53) (hsize : r.totalHeapSize < 2 ^ 53)
    (hused : r.usedHeapSize < 2 ^ 53) : r.record.Writable where
  type := ⟨r.type, rfl⟩
  time := htime
  size := hsize
  used := hused
  duration := by
    unfold record calculateDuration
    dsimp only
    split <;> omega

namespace GcBatchesWitness

def scavenge : GCReading :=
  ⟨.scavenge, true, 1000000, 8000000, 1413903289280, 48948480, 13828320⟩

def markSweep : GCReading :=
  ⟨.markSweepCompact, false, 8000000, 8000000, 1413903289290, 48948480,
    11828320⟩

theorem two_collections :
    formatGC ([scavenge, markSweep].flatMap afterGC) =
      [⟨some 1413903289280, some ['S'], some 48948480, some 13828320,
          some 7⟩,
        ⟨some 1413903289290, some ['M'], some 48948480, some 11828320,
          some 0⟩] :=
  gc_batches [scavenge.record, markSweep.record] (List.cons_ne_nil _ _)
    (List.forall_mem_cons.mpr
      ⟨GCReading.record_writable (by decide) (by decide) (by decide),
        List.forall_mem_singleton.mpr
          (GCReading.record_writable (by decide) (by decide) (by decide))⟩)

end GcBatchesWitness

end Appmetrics
