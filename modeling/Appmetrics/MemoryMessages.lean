/-
The memory messages.  The plugin writes its readings as `name=value` fields of
one line; `formatMemory` reads the values by their places and takes the free
memory from the total.  Unlike `formatGC` it does not look at lines: of a
batch it reads the first.
-/
import Appmetrics.GcBatches

namespace Appmetrics

/-! ## The native writer -/

/-- What `GetMemoryInformation` asks for, in bytes; `-1` stands for a value
that is not known. -/
structure MemoryReading where
  time : Int
  totalPhysicalMemory : Int
  physicalMemory : Int
  privateMemory : Int
  virtualMemory : Int
  freePhysicalMemory : Int
deriving Repr, DecidableEq

namespace MemoryReading

/-- The readings of the z/OS plugin, which does not know the last two. -/
def zos (time totalPhysicalMemory physicalMemory privateMemory : Int) :
    MemoryReading :=
  ⟨time, totalPhysicalMemory, physicalMemory, privateMemory, -1, -1⟩

/-- `GetMemoryInformation`: the content that is pushed. -/
def content (r : MemoryReading) : List Char :=
  "MemorySource".toList ++ ',' :: showInt r.time ++
    ",totalphysicalmemory=".toList ++ showInt r.totalPhysicalMemory ++
    ",physicalmemory=".toList ++ showInt r.physicalMemory ++
    ",privatememory=".toList ++ showInt r.privateMemory ++
    ",virtualmemory=".toList ++ showInt r.virtualMemory ++
    ",freephysicalmemory=".toList ++ showInt r.freePhysicalMemory ++ ['\n']

end MemoryReading

/-! ## The reader of the API -/

/-- One of the two separators for the other. -/
def commaFor (c : Char) : Char := if c = '=' then ',' else c

/-- `message.split(/[,=]+/)`: in a class of separators it does not matter which
of them is there. -/
def splitMemory (message : List Char) : List (List Char) :=
  splitCommas (message.map commaFor)

/-- A `memory` event; `none` is `NaN`. -/
structure MemoryEvent where
  time : Option Int
  physicalTotal : Option Int
  physicalUsed : Option Int
  physical : Option Int
  private_ : Option Int
  virtual : Option Int
  physicalFree : Option Int
deriving Repr, DecidableEq

/-- `physicalTotal >= 0 && physicalFree >= 0 ? .. : -1`. -/
def physicalUsed (physicalTotal physicalFree : Option Int) : Int :=
  match physicalTotal, physicalFree with
  | some total, some free =>
      if 0 ≤ total ∧ 0 ≤ free then intToDouble (total - free) else -1
  | _, _ => -1

def formatMemory (message : List Char) : MemoryEvent :=
  let values := splitMemory message
  let physicalTotal := parseNumber values[3]?
  let physicalFree := parseNumber values[11]?
  { time := parseNumber values[1]?
    physicalTotal := physicalTotal
    physicalUsed := some (physicalUsed physicalTotal physicalFree)
    physical := parseNumber values[5]?
    private_ := parseNumber values[7]?
    virtual := parseNumber values[9]?
    physicalFree := physicalFree }

/-! ## Reading fields in front of other text -/

/-- The fields, each with a separator behind it, before a text. -/
def fieldsBefore (a : Char) (fields : List (List Char)) (s : List Char) :
    List Char :=
  fields.foldr (fun f s => f ++ a :: s) s

theorem squeeze_append {a : Char} {f s : List Char} (hf : a ∉ f) :
    squeeze a (f ++ s) = f ++ squeeze a s := by
  induction f with
  | nil => rfl
  | cons c f ih =>
      rw [List.mem_cons, not_or] at hf
      cases hrest : f ++ s with
      | nil =>
          obtain ⟨rfl, rfl⟩ := List.append_eq_nil_iff.mp hrest
          rfl
      | cons d u =>
          rw [List.cons_append, hrest, squeeze,
            if_neg fun h => hf.1 h.1.symm, ← hrest, ih hf.2,
            List.cons_append]

theorem squeeze_cons {a : Char} {s : List Char} (hs : s ≠ [])
    (hhead : s.head? ≠ some a) : squeeze a (a :: s) = a :: squeeze a s := by
  cases s with
  | nil => exact absurd rfl hs
  | cons d u =>
      have hd : d ≠ a := fun h => hhead (by rw [h]; rfl)
      rw [squeeze, if_neg fun h => hd h.2]

theorem fieldsBefore_ne_nil (a : Char) (fields : List (List Char))
    {s : List Char} (hs : s ≠ []) : fieldsBefore a fields s ≠ [] := by
  cases fields with
  | nil => exact hs
  | cons f fs => simp [fieldsBefore]

theorem fieldsBefore_head {a : Char} {fields : List (List Char)}
    {s : List Char} (hfields : ∀ f ∈ fields, f ≠ [] ∧ a ∉ f)
    (hhead : s.head? ≠ some a) :
    (fieldsBefore a fields s).head? ≠ some a := by
  cases fields with
  | nil => exact hhead
  | cons f fs =>
      obtain ⟨hne, hmem⟩ := hfields f List.mem_cons_self
      obtain ⟨c, f, rfl⟩ := List.exists_cons_of_ne_nil hne
      intro h
      have hc : c = a := Option.some.inj h
      exact hmem (hc ▸ List.mem_cons_self)

/-- Whatever the text goes on with, the fields in front of it are read. -/
theorem splitCommas_fieldsBefore {fields : List (List Char)} {s : List Char}
    (hfields : ∀ f ∈ fields, f ≠ [] ∧ ',' ∉ f) (hs : s ≠ [])
    (hhead : s.head? ≠ some ',') :
    splitCommas (fieldsBefore ',' fields s) = fields ++ splitCommas s := by
  induction fields with
  | nil => rfl
  | cons f fs ih =>
      rw [List.forall_mem_cons] at hfields
      have hne := fieldsBefore_ne_nil ',' fs hs
      have hfirst := fieldsBefore_head hfields.2 hhead
      have hsplit := ih hfields.2
      change splitCommas (f ++ ',' :: fieldsBefore ',' fs s) = _
      rw [splitCommas, squeeze_append hfields.1.2, squeeze_cons hne hfirst,
        List.splitOn_append_cons_self_of_not_mem hfields.1.2]
      rw [splitCommas] at hsplit
      rw [hsplit]
      rfl

/-- The first field of a text that goes on. -/
theorem splitCommas_head {f s : List Char} (hf : ',' ∉ f) :
    (splitCommas (f ++ s))[0]? = some (f ++ upTo ',' (squeeze ',' s)) := by
  rw [splitCommas, splitOn_head, squeeze_append hf, upTo,
    List.takeWhile_append_of_pos]
  · rfl
  · intro c hc
    rw [decide_eq_true_eq]
    rintro rfl
    exact hf hc

/-- An integer in front of a character that is neither a digit nor an `x`. -/
theorem parseInt_showInt_append (n : Int) {rest : List Char}
    (hrest : ∀ c ∈ rest.head?, c.isDigit = false ∧ c ≠ 'x' ∧ c ≠ 'X') :
    parseInt (showInt n ++ rest) = some n := by
  have hdigits : ∀ c ∈ showNat n.natAbs, c.isDigit = true :=
    fun _ => isDigit_of_mem_showNat
  have hne : showNat n.natAbs ≠ [] := Nat.toDigits_ne_nil
  unfold showInt
  split
  · have h := parseInt_magnitude hdigits hne hrest
    have hparse : parseInt ('-' :: showNat n.natAbs ++ rest) =
        some (-(n.natAbs : Int)) := by
      rw [List.cons_append, parseInt, List.dropWhile_cons_of_neg (by decide)]
      simp only [h, Option.map_some, ofDigitChars_showNat]
    rw [hparse]
    congr 1
    omega
  · rw [parseInt_digits hdigits hne hrest, ofDigitChars_showNat]
    congr 1
    omega

theorem parseNumber_showInt_append {n : Int} (hn : n.natAbs < 2 ^ 53)
    (rest : List Char)
    (hrest : ∀ c ∈ rest.head?, c.isDigit = false ∧ c ≠ 'x' ∧ c ≠ 'X') :
    parseNumber (some (showInt n ++ rest)) = some n := by
  rw [parseNumber, Option.bind_some, parseInt_showInt_append n hrest,
    Option.map_some, intToDouble_of_lt hn]

theorem parseNumber_showInt {n : Int} (hn : n.natAbs < 2 ^ 53) :
    parseNumber (some (showInt n)) = some n := by
  have h := @parseNumber_showInt_append n hn [] nofun
  rwa [List.append_nil] at h

namespace MemoryReading

/-- The readings are doubles. -/
structure Exact (r : MemoryReading) : Prop where
  time : r.time.natAbs < 2 ^ 53
  totalPhysicalMemory : r.totalPhysicalMemory.natAbs < 2 ^ 53
  physicalMemory : r.physicalMemory.natAbs < 2 ^ 53
  privateMemory : r.privateMemory.natAbs < 2 ^ 53
  virtualMemory : r.virtualMemory.natAbs < 2 ^ 53
  freePhysicalMemory : r.freePhysicalMemory.natAbs < 2 ^ 53

/-- The names and values before the last value. -/
def fields (r : MemoryReading) : List (List Char) :=
  ["MemorySource".toList, showInt r.time, "totalphysicalmemory".toList,
    showInt r.totalPhysicalMemory, "physicalmemory".toList,
    showInt r.physicalMemory, "privatememory".toList,
    showInt r.privateMemory, "virtualmemory".toList,
    showInt r.virtualMemory, "freephysicalmemory".toList]

theorem showInt_ne_nil (n : Int) : showInt n ≠ [] := by
  unfold showInt
  split
  · exact List.cons_ne_nil _ _
  · exact Nat.toDigits_ne_nil

theorem mem_fields {r : MemoryReading} {f : List Char} (hf : f ∈ r.fields) :
    f ≠ [] ∧ ',' ∉ f := by
  have hint (n : Int) : showInt n ≠ [] ∧ ',' ∉ showInt n :=
    ⟨showInt_ne_nil n, not_mem_showInt (by decide) (by decide) n⟩
  simp only [fields, List.mem_cons, List.not_mem_nil, or_false] at hf
  rcases hf with rfl | rfl | rfl | rfl | rfl | rfl | rfl | rfl | rfl | rfl |
    rfl <;> first | exact hint _ | decide

theorem map_showInt (n : Int) : (showInt n).map commaFor = showInt n := by
  have hsame : (showInt n).map commaFor = (showInt n).map id := by
    apply List.map_congr_left
    intro c hc
    have hne : c ≠ '=' := by
      rintro rfl
      exact not_mem_showInt (by decide) (by decide) n hc
    rw [commaFor, if_neg hne]
    rfl
  rw [hsame, List.map_id]

/-- A name with its separators. -/
theorem map_name (name : List Char) (hname : '=' ∉ name) :
    (',' :: (name ++ ['='])).map commaFor = ',' :: (name ++ [',']) := by
  have hsame : name.map commaFor = name.map id := by
    apply List.map_congr_left
    intro c hc
    have hne : c ≠ '=' := by
      rintro rfl
      exact hname hc
    rw [commaFor, if_neg hne]
    rfl
  rw [List.map_cons, List.map_append, hsame, List.map_id]
  rfl

/-- With one separator for the other, a message is its fields before the last
value and what follows it. -/
theorem map_content (r : MemoryReading) (rest : List Char) :
    (r.content ++ rest).map commaFor =
      fieldsBefore ',' r.fields (showInt r.freePhysicalMemory ++
        '\n' :: rest.map commaFor) := by
  have htotal := map_name "totalphysicalmemory".toList (by decide)
  have hphysical := map_name "physicalmemory".toList (by decide)
  have hprivate := map_name "privatememory".toList (by decide)
  have hvirtual := map_name "virtualmemory".toList (by decide)
  have hfree := map_name "freephysicalmemory".toList (by decide)
  have hsource : "MemorySource".toList.map commaFor =
      "MemorySource".toList := by decide
  have hcomma : commaFor ',' = ',' := rfl
  have hnewline : ['\n'].map commaFor = ['\n'] := rfl
  change ("MemorySource".toList ++ ',' :: showInt r.time ++
    (',' :: ("totalphysicalmemory".toList ++ ['='])) ++
    showInt r.totalPhysicalMemory ++
    (',' :: ("physicalmemory".toList ++ ['='])) ++ showInt r.physicalMemory ++
    (',' :: ("privatememory".toList ++ ['='])) ++ showInt r.privateMemory ++
    (',' :: ("virtualmemory".toList ++ ['='])) ++ showInt r.virtualMemory ++
    (',' :: ("freephysicalmemory".toList ++ ['='])) ++
    showInt r.freePhysicalMemory ++ ['\n'] ++ rest).map commaFor = _
  simp only [List.map_append, htotal, hphysical, hprivate, hvirtual, hfree,
    hsource, hnewline, map_showInt]
  simp only [List.map_cons, hcomma, map_showInt, fieldsBefore, fields,
    List.foldr_cons, List.foldr_nil, List.append_assoc, List.cons_append,
    List.nil_append]

/-- The last value is read up to the end of its line. -/
theorem splitMemory_content (r : MemoryReading) (rest : List Char) :
    ∃ more values, splitMemory (r.content ++ rest) =
      r.fields ++ (showInt r.freePhysicalMemory ++ '\n' :: more) ::
        values := by
  have hfree : ',' ∉ showInt r.freePhysicalMemory ++ ['\n'] := by
    rw [List.mem_append, not_or]
    exact ⟨not_mem_showInt (by decide) (by decide) _, by decide⟩
  have hhead := splitCommas_head (s := rest.map commaFor) hfree
  rw [List.append_assoc, List.singleton_append] at hhead
  have hno : ',' ∉ showInt r.freePhysicalMemory :=
    not_mem_showInt (by decide) (by decide) _
  have hfirst : (showInt r.freePhysicalMemory ++
      '\n' :: rest.map commaFor).head? ≠ some ',' := by
    obtain ⟨c, u, hc⟩ := List.exists_cons_of_ne_nil
      (showInt_ne_nil r.freePhysicalMemory)
    rw [hc] at hno ⊢
    intro h
    exact hno (Option.some.inj h ▸ List.mem_cons_self)
  have hsplit := splitCommas_fieldsBefore (fun _ => mem_fields (r := r))
    (by simp) hfirst
  cases hpieces : splitCommas (showInt r.freePhysicalMemory ++
      '\n' :: rest.map commaFor) with
  | nil =>
      rw [hpieces] at hhead
      cases hhead
  | cons value values =>
      rw [hpieces] at hhead hsplit
      have hvalue : value = _ := Option.some.inj hhead
      refine ⟨upTo ',' (squeeze ',' (rest.map commaFor)), values, ?_⟩
      rw [splitMemory, map_content, hsplit, hvalue, List.append_assoc,
        List.singleton_append]

/-- The event that says the same as the reading. -/
def event (r : MemoryReading) : MemoryEvent where
  time := some r.time
  physicalTotal := some r.totalPhysicalMemory
  physicalUsed := some
    (if 0 ≤ r.totalPhysicalMemory ∧ 0 ≤ r.freePhysicalMemory then
      r.totalPhysicalMemory - r.freePhysicalMemory
    else -1)
  physical := some r.physicalMemory
  private_ := some r.privateMemory
  virtual := some r.virtualMemory
  physicalFree := some r.freePhysicalMemory

theorem physicalUsed_eq {r : MemoryReading} (hr : r.Exact) :
    physicalUsed (some r.totalPhysicalMemory) (some r.freePhysicalMemory) =
      if 0 ≤ r.totalPhysicalMemory ∧ 0 ≤ r.freePhysicalMemory then
        r.totalPhysicalMemory - r.freePhysicalMemory
      else -1 := by
  rw [physicalUsed]
  split
  · next hknown =>
      have htotal := hr.totalPhysicalMemory
      have hfree := hr.freePhysicalMemory
      exact intToDouble_of_lt (by omega)
  · rfl

end MemoryReading

/-- Whatever follows the line of a reading, be it further readings of a batch
or anything else, `formatMemory` raises the event of that reading: its own
values, and as the used memory the difference of total and free, or `-1` where
one of them is not known. -/
theorem memory_messages {r : MemoryReading} (hr : r.Exact)
    (rest : List Char) : formatMemory (r.content ++ rest) = r.event := by
  obtain ⟨more, values, hsplit⟩ := r.splitMemory_content rest
  have hlast := parseNumber_showInt_append hr.freePhysicalMemory
    ('\n' :: more) (by
      intro c hc
      cases hc
      decide)
  unfold formatMemory
  rw [hsplit]
  simp only [MemoryReading.fields, List.cons_append, List.nil_append,
    List.getElem?_cons_succ, List.getElem?_cons_zero,
    parseNumber_showInt hr.time, parseNumber_showInt hr.totalPhysicalMemory,
    parseNumber_showInt hr.physicalMemory,
    parseNumber_showInt hr.privateMemory,
    parseNumber_showInt hr.virtualMemory, hlast,
    MemoryReading.physicalUsed_eq hr]
  rfl

namespace MemoryMessagesWitness

/-- Two readings of the z/OS plugin in one message. -/
def first : MemoryReading := .zos 1415976582652 16725618688 52428800 8192

def second : MemoryReading := .zos 1415976584652 16725618688 52428900 8192

theorem memory_messages_batch :
    formatMemory (first.content ++ second.content) =
      ⟨some 1415976582652, some 16725618688, some (-1), some 52428800,
        some 8192, some (-1), some (-1)⟩ :=
  memory_messages
    ⟨by decide, by decide, by decide, by decide, by decide, by decide⟩
    second.content

end MemoryMessagesWitness

end Appmetrics
