/-
The JSON of a profile.  The text of a tree is parsed by the shape of the
tree; it is refused for control characters in a name, and faithful where no
hit count is rounded.
-/
import Appmetrics.ProfileText

namespace Appmetrics

open JsonText

/-! ## Numbers -/

theorem whole_showNat (n : Nat) : Whole (showNat n) where
  digits _ := isDigit_of_mem_showNat
  ne_nil := Nat.toDigits_ne_nil
  no_zero h := by rw [showNat_head h]; rfl

theorem comma_head (rest : List Char) : ∀ c ∈ (',' :: rest).head?,
    c.isDigit = false ∧ c ≠ '.' ∧ c ≠ 'e' ∧ c ≠ 'E' := by
  intro c hc
  cases hc
  decide

theorem unsigned_showNat (n : Nat) (rest : List Char) :
    unsigned (showNat n ++ ',' :: rest) = some ((n : ℚ), ',' :: rest) := by
  rw [unsigned_whole (whole_showNat n) (comma_head rest),
    ofDigitChars_showNat]

theorem number_showNat (n : Nat) (rest : List Char) :
    number (showNat n ++ ',' :: rest) = some ((n : ℚ), ',' :: rest) := by
  obtain ⟨c, u, hcons, hc⟩ := (whole_showNat n).exists_cons
  rw [← unsigned_showNat n rest, hcons, List.cons_append, number_of_digit hc]

theorem number_showInt (n : Int) (rest : List Char) :
    number (showInt n ++ ',' :: rest) = some ((n : ℚ), ',' :: rest) := by
  unfold showInt
  split
  · next hneg =>
      have habs : -((n.natAbs : Nat) : ℚ) = (n : ℚ) := by
        have hint : -((n.natAbs : Nat) : Int) = n := by omega
        have hcast := congrArg (Int.cast : Int → ℚ) hint
        rwa [Int.cast_neg, Int.cast_natCast] at hcast
      rw [List.cons_append, number, unsigned_showNat, Option.map_some, habs]
  · next hpos =>
      have habs : ((n.natAbs : Nat) : ℚ) = (n : ℚ) := by
        have hint : ((n.natAbs : Nat) : Int) = n := by omega
        have hcast := congrArg (Int.cast : Int → ℚ) hint
        rwa [Int.cast_natCast] at hcast
      rw [number_showNat, habs]

/-- The number that `stream << (double) n` writes. -/
def shownCount (n : Nat) : Nat :=
  if n < 1000000 then n else (significand n).1 * 10 ^ (significand n).2

theorem showExponent_digits (e : Nat) :
    (∀ c ∈ showExponent e, c.isDigit = true) ∧ showExponent e ≠ [] ∧
      Nat.ofDigitChars 10 (showExponent e) 0 = e := by
  unfold showExponent
  split
  · refine ⟨?_, List.cons_ne_nil _ _, ?_⟩
    · rw [List.forall_mem_cons]
      exact ⟨by decide, fun c => isDigit_of_mem_showNat⟩
    · rw [Nat.ofDigitChars_cons]
      exact ofDigitChars_showNat e
  · exact ⟨fun c => isDigit_of_mem_showNat, Nat.toDigits_ne_nil,
      ofDigitChars_showNat e⟩

/-- The digits of a mantissa and the zeros that are not shown. -/
theorem showNat_mantissa (m : Nat) :
    ∃ z, showNat m = mantissaDigits m ++ List.replicate z '0' := by
  refine ⟨((showNat m).rtakeWhile (· = '0')).length, ?_⟩
  have hzeros : (showNat m).rtakeWhile (· = '0') =
      List.replicate ((showNat m).rtakeWhile (· = '0')).length '0' := by
    apply List.eq_replicate_of_mem
    intro c hc
    simpa using List.mem_rtakeWhile_imp hc
  rw [← hzeros, mantissaDigits]
  exact (List.rdropWhile_append_rtakeWhile ..).symm

theorem scaled_mantissa {m k z : Nat} {d : Char} {ds : List Char}
    (hm : showNat m = (d :: ds) ++ List.replicate z '0') :
    scaled ([d] ++ ds)
        (((showNat m).length - 1 + k : Nat) - (ds.length : Int)) =
      ((m * 10 ^ k : Nat) : ℚ) := by
  have hvalue : m = 10 ^ z * Nat.ofDigitChars 10 (d :: ds) 0 := by
    have h := ofDigitChars_showNat m
    rw [hm, Nat.ofDigitChars_append, Nat.ofDigitChars_replicate_zero] at h
    exact h.symm
  have hexponent : (((showNat m).length - 1 + k : Nat) - (ds.length : Int)) =
      ((z + k : Nat) : Int) := by
    rw [hm, List.length_append, List.length_cons, List.length_replicate]
    omega
  rw [scaled, hexponent, zpow_natCast, hvalue]
  push_cast
  rw [List.singleton_append]
  ring

theorem fractionPart_fraction {ds : List Char}
    (hds : ∀ c ∈ ds, c.isDigit = true) (u : List Char) :
    fractionPart (fraction ds ++ 'e' :: u) = some (ds, 'e' :: u) := by
  cases ds with
  | nil => exact fractionPart_none (by simp [fraction])
  | cons x xs =>
      exact fractionPart_digits hds (by simp) (List.cons_ne_nil _ _)

theorem number_showDouble (n : Nat) (rest : List Char) :
    number (showDouble n ++ ',' :: rest) =
      some ((shownCount n : ℚ), ',' :: rest) := by
  unfold showDouble shownCount
  split
  · exact number_showNat n rest
  · next hn =>
      obtain ⟨d, ds, hdigits, hshow⟩ := showMantissa_eq
        (significand_ne_zero (n := n) (by omega))
      obtain ⟨z, hz⟩ := showNat_mantissa (significand n).1
      rw [hdigits] at hz
      have hall : ∀ c ∈ d :: ds, c.isDigit = true := fun c hc =>
        isDigit_of_mem_mantissaDigits (by rw [hdigits]; exact hc)
      rw [List.forall_mem_cons] at hall
      have hwhole : Whole [d] :=
        ⟨by simpa using hall.1, List.cons_ne_nil _ _, fun _ => rfl⟩
      obtain ⟨hexp, hne, hvalue⟩ := showExponent_digits
        ((showNat (significand n).1).length - 1 + (significand n).2)
      have hexponent := exponentPart_digits hexp
        (fun c hc => (comma_head rest c hc).1) hne
      have hunsigned := unsigned_eq hwhole
        (by cases ds <;> simp [fraction])
        (fractionPart_fraction hall.2 _) hexponent
      rw [hvalue, scaled_mantissa hz] at hunsigned
      dsimp only
      rw [hshow, ← hunsigned, List.cons_append, List.cons_append,
        List.append_assoc, number_of_digit hall.1]
      rfl

/-- A count is shown exactly if it has at most six significant digits. -/
theorem shownCount_eq_iff (n : Nat) :
    shownCount n = n ↔ n % 10 ^ ((showNat n).length - 6) = 0 := by
  unfold shownCount
  split
  · next hn =>
      have hlength : (showNat n).length ≤ 6 :=
        (Nat.length_toDigits_le_iff (by decide) (by decide)).mpr hn
      rw [Nat.sub_eq_zero_of_le hlength, Nat.pow_zero, Nat.mod_one]
      exact iff_of_true rfl rfl
  · next hn =>
      obtain ⟨p, hp⟩ : ∃ p, p = 10 ^ ((showNat n).length - 6) := ⟨_, rfl⟩
      have hpos : 0 < p := hp ▸ Nat.pow_pos (by decide)
      have hsplit := Nat.div_add_mod n p
      have hmod := Nat.mod_lt n hpos
      unfold significand
      dsimp only
      rw [← hp]
      split
      · next hup =>
          have hmul : (n / p + 1) * p = p * (n / p) + p := by ring
          dsimp only
          rw [← hp, hmul]
          omega
      · have hmul : n / p * p = p * (n / p) := by ring
        dsimp only
        rw [← hp, hmul]
        omega

/-! ## Names -/

/-- Two replacements of one character each work character by character. -/
theorem escape_flatMap {c d : Char} {v w : List Char}
    {escape : List Char → List Char}
    (hescape : ∀ s, escape s =
      if s ≠ [] then replaceInString d w (replaceInString c v s) else s)
    (s : List Char) : escape s = s.flatMap fun a => escape [a] := by
  cases s with
  | nil => exact hescape []
  | cons a s =>
      simp only [hescape, replaceInString, ne_eq, reduceCtorEq,
        not_false_eq_true, if_true, List.flatMap_cons, List.flatMap_nil,
        List.append_nil]
      rw [List.flatMap_append, List.flatMap_assoc]

theorem escapeFunction_flatMap (s : List Char) :
    escapeFunction s = s.flatMap fun c => escapeFunction [c] :=
  escape_flatMap (fun _ => rfl) s

theorem escapeScript_flatMap (s : List Char) :
    escapeScript s = s.flatMap fun c => escapeScript [c] :=
  escape_flatMap (fun _ => rfl) s

/-- A script name with slashes for backslashes. -/
def slashed (script : List Char) : List Char :=
  script.map fun c => if c = '\\' then '/' else c

theorem escapeFunction_char (c : Char) :
    escapeFunction [c] = if c = '"' ∨ c = '\\' then ['\\', c] else [c] := by
  by_cases hquote : c = '"'
  · rw [hquote]
    decide
  · by_cases hslash : c = '\\'
    · rw [hslash]
      decide
    · simp [escapeFunction, replaceInString, hquote, hslash]

theorem escapeScript_char (c : Char) :
    escapeScript [c] =
      if c = '"' then ['\\', '"'] else if c = '\\' then ['/'] else [c] := by
  by_cases hquote : c = '"'
  · rw [hquote]
    decide
  · by_cases hslash : c = '\\'
    · rw [hslash]
      decide
    · simp [escapeScript, replaceInString, hquote, hslash]

theorem string_escapeFunction (s u : List Char) :
    string 0 (escapeFunction s ++ '"' :: u) =
      if Printable s then some (s, u) else none := by
  have hchar {c : Char} (hc : ¬ (c = '"' ∨ c = '\\')) (u : List Char) :
      string 0 (escapeFunction [c] ++ u) =
        if 0x20 ≤ c.toNat then (string 0 u).map fun r => (c :: r.1, r.2)
        else none := by
    rw [escapeFunction_char, if_neg hc]
    exact string_char (fun h => hc (Or.inl h)) (fun h => hc (Or.inr h)) u
  have h := string_encoded (e := fun c => escapeFunction [c]) (d := id)
    ?_ ?_ s u
  · rwa [List.map_id, ← escapeFunction_flatMap] at h
  · intro c hc u
    by_cases hesc : c = '"' ∨ c = '\\'
    · rcases hesc with rfl | rfl <;> rfl
    · rw [hchar hesc, if_pos hc]
      rfl
  · intro c hc u
    have hesc : ¬ (c = '"' ∨ c = '\\') := by
      rintro (rfl | rfl) <;> exact absurd hc (by decide)
    rw [hchar hesc, if_neg (Nat.not_le.mpr hc)]

/-- A script is read back with slashes for its backslashes. -/
theorem string_escapeScript (s u : List Char) :
    string 0 (escapeScript s ++ '"' :: u) =
      if Printable s then some (slashed s, u) else none := by
  have hchar {c : Char} (hquote : c ≠ '"') (hslash : c ≠ '\\')
      (u : List Char) : string 0 (escapeScript [c] ++ u) =
        if 0x20 ≤ c.toNat then (string 0 u).map fun r => (c :: r.1, r.2)
        else none := by
    rw [escapeScript_char, if_neg hquote, if_neg hslash]
    exact string_char hquote hslash u
  have h := string_encoded (e := fun c => escapeScript [c])
    (d := fun c => if c = '\\' then '/' else c) ?_ ?_ s u
  · rwa [← escapeScript_flatMap] at h
  · intro c hc u
    by_cases hquote : c = '"'
    · rw [hquote]
      rfl
    · by_cases hslash : c = '\\'
      · rw [hslash]
        rfl
      · rw [hchar hquote hslash, if_pos hc]
        rw [if_neg hslash]
  · intro c hc u
    have hquote : c ≠ '"' := by
      rintro rfl
      exact absurd hc (by decide)
    have hslash : c ≠ '\\' := by
      rintro rfl
      exact absurd hc (by decide)
    rw [hchar hquote hslash, if_neg (Nat.not_le.mpr hc)]

/-! ## Trees -/

/-- No control character in a name as far as it is written. -/
def CpuProfileNode.Legible (x : CpuProfileNode) : Prop :=
  Printable (cText x.functionName) ∧ Printable (cText x.scriptResourceName)

instance (x : CpuProfileNode) : Decidable x.Legible :=
  inferInstanceAs (Decidable (_ ∧ _))

/-- The members of a call, with the children that are shown for it. -/
def callJson (c : VisitCall) (children : List Json) : Json :=
  .obj [("functionName".toList, .str (cText c.node.functionName)),
    ("url".toList, .str (slashed (cText c.node.scriptResourceName))),
    ("lineNumber".toList, .num c.node.lineNumber),
    ("hitCount".toList, .num (shownCount c.node.hitCount)),
    ("id".toList, .num c.id), ("children".toList, .arr children)]

mutual

/-- What the text of a tree denotes. -/
def treeJson (m : Nat) (parent : Option Nat) (k : Nat) :
    CpuProfileNode → Json
  | ⟨functionName, scriptResourceName, lineNumber, hitCount, children⟩ =>
      callJson (callFor m
        ⟨⟨functionName, scriptResourceName, lineNumber, hitCount, children⟩,
          k, parent⟩) (treesJson m k (k + 1) children)

def treesJson (m parent k : Nat) : List CpuProfileNode → List Json
  | [] => []
  | child :: rest =>
      treeJson m (some parent) k child ::
        treesJson m parent (k + child.preorder.length) rest

end

theorem callText_members (c : VisitCall) (rest : List Char) :
    callText true c ++ rest = '\x7b' ::
      stringMember "functionName".toList
        (escapeFunction (cText c.node.functionName))
        (stringMember "url".toList
          (escapeScript (cText c.node.scriptResourceName))
          (numberMember "lineNumber".toList (showInt c.node.lineNumber)
            (numberMember "hitCount".toList (showDouble c.node.hitCount)
              (numberMember "id".toList (showInt c.id)
                ('"' :: ("children".toList ++ '"' :: ':' :: '[' ::
                  rest)))))) := by
  simp [callText, nodeData, stringMember, numberMember]

theorem showInt_head (n : Int) :
    ∃ c, (showInt n).head? = some c ∧ (c.isDigit = true ∨ c = '-') := by
  unfold showInt
  split
  · exact ⟨'-', rfl, Or.inr rfl⟩
  · obtain ⟨c, u, hcons, hc⟩ := (whole_showNat n.natAbs).exists_cons
    exact ⟨c, by rw [hcons]; rfl, Or.inl hc⟩

theorem showDouble_head (n : Nat) :
    ∃ c, (showDouble n).head? = some c ∧ (c.isDigit = true ∨ c = '-') := by
  unfold showDouble
  split
  · obtain ⟨c, u, hcons, hc⟩ := (whole_showNat n).exists_cons
    exact ⟨c, by rw [hcons]; rfl, Or.inl hc⟩
  · next hn =>
      obtain ⟨d, ds, hdigits, hshow⟩ := showMantissa_eq
        (significand_ne_zero (n := n) (by omega))
      refine ⟨d, by dsimp only; rw [hshow]; rfl, Or.inl ?_⟩
      apply isDigit_of_mem_mantissaDigits (m := (significand n).1)
      rw [hdigits]
      exact List.mem_cons_self

theorem value_callText {n : Nat} {c : VisitCall} {rest w : List Char}
    {children : List Json} {q : Prop} [Decidable q]
    (hchildren : value (n + 2) ('[' :: rest) =
      if q then some (.arr children, '\x7d' :: w) else none) :
    value (n + 9) (callText true c ++ rest) =
      if c.node.Legible ∧ q then some (callJson c children, w) else none := by
  have hlast : members (n + 3)
      ('"' :: ("children".toList ++ '"' :: ':' :: '[' :: rest)) =
        if q then some ([("children".toList, .arr children)], w) else none := by
    by_cases hq : q
    · rw [if_pos hq] at hchildren ⊢
      exact members_close rfl hchildren
    · rw [if_neg hq] at hchildren ⊢
      exact members_none rfl hchildren
  obtain ⟨a, ha, hdigit⟩ := showInt_head c.id
  have hid := members_numberMember (n := n + 2) (k := "id".toList)
    (fun _ => rfl) ha hdigit (number_showInt c.id
      ('"' :: ("children".toList ++ '"' :: ':' :: '[' :: rest)))
  obtain ⟨a, ha, hdigit⟩ := showDouble_head c.node.hitCount
  have hcount (rest : List Char) := members_numberMember (n := n + 3)
    (k := "hitCount".toList) (fun _ => rfl) ha hdigit
    (number_showDouble c.node.hitCount rest)
  obtain ⟨a, ha, hdigit⟩ := showInt_head c.node.lineNumber
  have hline (rest : List Char) := members_numberMember (n := n + 4)
    (k := "lineNumber".toList) (fun _ => rfl) ha hdigit
    (number_showInt c.node.lineNumber rest)
  have hurl (rest : List Char) := members_stringMember (n := n + 5)
    (k := "url".toList) (fun _ => rfl) (string_escapeScript
      (cText c.node.scriptResourceName) (',' :: rest))
  have hname (rest : List Char) := members_stringMember (n := n + 6)
    (k := "functionName".toList) (fun _ => rfl) (string_escapeFunction
      (cText c.node.functionName) (',' :: rest))
  have hobject (key encoded rest : List Char) :
      value (n + 9) ('\x7b' :: stringMember key encoded rest) =
        (members (n + 8) (stringMember key encoded rest)).map fun r =>
          (.obj r.1, r.2) := rfl
  rw [callText_members, hobject, hname, hurl, hline, hcount, hid, hlast]
  unfold CpuProfileNode.Legible
  by_cases hf : Printable (cText c.node.functionName)
  · by_cases hs : Printable (cText c.node.scriptResourceName)
    · by_cases hq : q
      · simp only [hf, hs, hq, and_self, if_true]
        rfl
      · simp [hf, hs, hq]
    · simp [hf, hs]
  · simp [hf]

theorem callText_length (c : VisitCall) : 9 ≤ (callText true c).length := by
  have h := congrArg List.length (callText_members c [])
  have hkey : "functionName".toList.length = 12 := rfl
  rw [List.append_nil, List.length_cons, stringMember, List.length_cons,
    List.length_append, hkey] at h
  omega

theorem treesText_head (m parent k : Nat) (child : CpuProfileNode)
    (rest : List CpuProfileNode) :
    ∃ u, treesText true m parent k (child :: rest) = '\x7b' :: u := by
  obtain ⟨functionName, scriptResourceName, lineNumber, hitCount, children⟩ :=
    child
  have h := callText_members (callFor m ⟨⟨functionName, scriptResourceName,
    lineNumber, hitCount, children⟩, k, some parent⟩) []
  rw [List.append_nil] at h
  rw [treesText, treeText, h]
  exact ⟨_, rfl⟩

theorem treeText_node (m : Nat) (parent : Option Nat) (k : Nat)
    (node : CpuProfileNode) : treeText true m parent k node =
      callText true (callFor m ⟨node, k, parent⟩) ++
        (treesText true m k (k + 1) node.children ++ [']', '\x7d']) := by
  cases node
  rw [treeText, if_pos rfl, List.append_assoc]

theorem treeJson_node (m : Nat) (parent : Option Nat) (k : Nat)
    (node : CpuProfileNode) : treeJson m parent k node =
      callJson (callFor m ⟨node, k, parent⟩)
        (treesJson m k (k + 1) node.children) := by
  cases node
  rw [treeJson]

theorem preorder_node (node : CpuProfileNode) :
    node.preorder = node :: preorderAll node.children := by
  cases node
  rw [CpuProfileNode.preorder]

/-- With fuel for the length of its text, a tree is read as what it denotes,
or refused for a control character. -/
def ReadsTree (m : Nat) (t : CpuProfileNode) : Prop :=
  ∀ (parent : Option Nat) (k n : Nat) (rest : List Char),
    (treeText true m parent k t).length ≤ n →
      value n (treeText true m parent k t ++ rest) =
        if ∀ x ∈ t.preorder, x.Legible then
          some (treeJson m parent k t, rest)
        else none

def ReadsTrees (m : Nat) (ts : List CpuProfileNode) : Prop :=
  ∀ (parent k n : Nat) (rest : List Char), ts ≠ [] →
    (treesText true m parent k ts).length + 1 ≤ n →
      elements n (treesText true m parent k ts ++ ']' :: rest) =
        if ∀ x ∈ preorderAll ts, x.Legible then
          some (treesJson m parent k ts, rest)
        else none

/-- The `children` array of a node. -/
theorem ReadsTrees.value {m : Nat} {ts : List CpuProfileNode}
    (hts : ReadsTrees m ts) {parent k n : Nat}
    (hn : (treesText true m parent k ts).length + 1 ≤ n) (rest : List Char) :
    value (n + 1) ('[' :: (treesText true m parent k ts ++ ']' :: rest)) =
      if ∀ x ∈ preorderAll ts, x.Legible then
        some (.arr (treesJson m parent k ts), rest)
      else none := by
  cases ts with
  | nil => exact (if_pos (List.forall_mem_nil _)).symm
  | cons child more =>
      have helements := hts parent k n rest (List.cons_ne_nil child more) hn
      obtain ⟨u, hu⟩ := treesText_head m parent k child more
      have hvalue (v : List Char) :
          JsonText.value (n + 1) ('[' :: '\x7b' :: v) =
            (elements n ('\x7b' :: v)).map fun r => (.arr r.1, r.2) := rfl
      rw [hu, List.cons_append] at helements ⊢
      rw [hvalue, helements]
      split <;> rfl

theorem readsTree_node {m : Nat} {node : CpuProfileNode}
    (hchildren : ReadsTrees m node.children) : ReadsTree m node := by
  intro parent k n rest hn
  have hcall := callText_length (callFor m ⟨node, k, parent⟩)
  have hclose : [']', '\x7d'].length = 2 := rfl
  rw [treeText_node, List.length_append, List.length_append, hclose] at hn
  obtain ⟨n, rfl⟩ : ∃ n', n = n' + 9 := ⟨n - 9, by omega⟩
  have hfuel : (treesText true m k (k + 1) node.children).length + 1 ≤
      n + 1 := by omega
  have harray := hchildren.value hfuel ('\x7d' :: rest)
  rw [treeText_node, List.append_assoc, List.append_assoc, treeJson_node]
  rw [List.cons_append, List.cons_append, List.nil_append,
    value_callText harray]
  refine if_congr ?_ rfl rfl
  rw [preorder_node, List.forall_mem_cons, callFor]

theorem readsTrees_cons {m : Nat} {child : CpuProfileNode}
    {more : List CpuProfileNode} (hchild : ReadsTree m child)
    (hmore : ReadsTrees m more) : ReadsTrees m (child :: more) := by
  intro parent k n rest _ hn
  rw [treesText, List.length_append, List.length_append] at hn
  obtain ⟨n, rfl⟩ : ∃ n', n = n' + 1 := ⟨n - 1, by omega⟩
  have hfirst (u : List Char) := hchild (some parent) k n u (by omega)
  have hiff : (∀ x ∈ preorderAll (child :: more), x.Legible) ↔
      (∀ x ∈ child.preorder, x.Legible) ∧
        ∀ x ∈ preorderAll more, x.Legible := by
    rw [preorderAll, List.forall_mem_append]
  rw [treesText, treesJson]
  by_cases hlegible : ∀ x ∈ child.preorder, x.Legible
  · simp only [if_pos hlegible] at hfirst
    cases more with
    | nil =>
        have hall : ∀ x ∈ preorderAll [child], x.Legible :=
          hiff.mpr ⟨hlegible, List.forall_mem_nil _⟩
        rw [if_neg fun h => h.1 rfl, List.append_nil, treesText,
          List.append_nil, elements_close (hfirst _), if_pos hall, treesJson]
    | cons next more =>
        have hcomma : next :: more ≠ [] ∧ true = true :=
          ⟨List.cons_ne_nil next more, rfl⟩
        rw [if_pos hcomma, List.length_singleton] at hn
        have hrest := hmore parent (k + child.preorder.length) n rest
          hcomma.1 (by omega)
        rw [if_pos hcomma, List.append_assoc, List.append_assoc,
          List.singleton_append, elements_comma (hfirst _), hrest]
        by_cases hmany : ∀ x ∈ preorderAll (next :: more), x.Legible
        · rw [if_pos hmany, if_pos (hiff.mpr ⟨hlegible, hmany⟩)]
          rfl
        · rw [if_neg hmany, if_neg fun h => hmany (hiff.mp h).2]
          rfl
  · simp only [if_neg hlegible] at hfirst
    rw [if_neg fun h => hlegible (hiff.mp h).1, List.append_assoc,
      List.append_assoc, elements_none (hfirst _)]

theorem readsTree (m : Nat) :
    (∀ t, ReadsTree m t) ∧ ∀ ts, ReadsTrees m ts := by
  apply CpuProfileNode.induction
  case node =>
    intro functionName scriptResourceName lineNumber hitCount children ih
    exact readsTree_node ih
  case nil =>
    intro parent k n rest hne
    exact absurd rfl hne
  case cons =>
    intro child more
    exact readsTrees_cons

/-! ## Documents -/

theorem not_mem_replaceInString {x c : Char} {w s : List Char} (hw : x ∉ w)
    (hs : x ∉ s) : x ∉ replaceInString c w s := by
  rw [replaceInString, List.mem_flatMap]
  rintro ⟨d, hd, hmem⟩
  split at hmem
  · exact hw hmem
  · rw [List.mem_singleton.mp hmem] at hs
    exact hs hd

theorem nul_not_mem_callText (c : VisitCall) : '\x00' ∉ callText true c := by
  have hint (n : Int) : '\x00' ∉ showInt n :=
    not_mem_showInt rfl (by decide) n
  have hcount : '\x00' ∉ showDouble c.node.hitCount := fun h => by
    rcases mem_showDouble h with h | h | h | h <;> exact absurd h (by decide)
  have hfunction : '\x00' ∉ escapeFunction (cText c.node.functionName) := by
    unfold escapeFunction
    split
    · exact not_mem_replaceInString (by decide)
        (not_mem_replaceInString (by decide) mem_cText)
    · exact mem_cText
  have hscript : '\x00' ∉
      escapeScript (cText c.node.scriptResourceName) := by
    unfold escapeScript
    split
    · exact not_mem_replaceInString (by decide)
        (not_mem_replaceInString (by decide) mem_cText)
    · exact mem_cText
  unfold callText nodeData
  rw [if_pos rfl]
  simp only [List.mem_append, not_or]
  refine ⟨⟨⟨⟨⟨⟨⟨⟨⟨⟨?_, hfunction⟩, ?_⟩, hscript⟩, ?_⟩, hint _⟩, ?_⟩, hcount⟩,
    ?_⟩, hint _⟩, ?_⟩ <;> decide

theorem nul_not_mem_treeText (m : Nat) :
    (∀ (t : CpuProfileNode) (parent : Option Nat) (k : Nat),
      '\x00' ∉ treeText true m parent k t) ∧
      ∀ (ts : List CpuProfileNode) (parent k : Nat),
        '\x00' ∉ treesText true m parent k ts := by
  apply CpuProfileNode.induction
  case node =>
    intro functionName scriptResourceName lineNumber hitCount children ih
      parent k
    rw [treeText_node, List.mem_append, List.mem_append, not_or, not_or]
    exact ⟨nul_not_mem_callText _, ih k (k + 1), by decide⟩
  case nil =>
    intro parent k
    exact List.not_mem_nil
  case cons =>
    intro child rest hchild hrest parent k
    rw [treesText, List.mem_append, List.mem_append, not_or, not_or]
    refine ⟨⟨hchild _ _, ?_⟩, hrest _ _⟩
    split <;> decide

/-- The text of a document. -/
def documentText (time m : Nat) (t : CpuProfileNode) : List Char :=
  (frameText true time).1 ++ treeText true m none 0 t ++
    (frameText true time).2

theorem cText_documentText (time m : Nat) (t : CpuProfileNode) :
    cText (documentText time m t) = documentText time m t := by
  rw [cText_eq_self_iff, documentText, frameText]
  simp only [if_true, List.mem_append, not_or]
  exact ⟨⟨⟨⟨by decide, not_mem_showNat rfl time⟩, by decide⟩,
    (nul_not_mem_treeText m).1 t none 0⟩, by decide⟩

theorem documentText_members (time m : Nat) (t : CpuProfileNode) :
    documentText time m t = '\x7b' :: numberMember "date".toList
      (showNat time) ('"' :: ("head".toList ++ '"' :: ':' ::
        (treeText true m none 0 t ++ ['\x7d']))) := by
  simp [documentText, frameText, numberMember]

/-- The document as an object. -/
def documentJson (time m : Nat) (t : CpuProfileNode) : Json :=
  .obj [("date".toList, .num time), ("head".toList, treeJson m none 0 t)]

theorem parse_documentText (time m : Nat) (t : CpuProfileNode) :
    parse (documentText time m t) =
      if ∀ x ∈ t.preorder, x.Legible then some (documentJson time m t)
      else none := by
  obtain ⟨n, hn⟩ : ∃ n, 2 * (documentText time m t).length + 2 = n + 3 :=
    ⟨2 * (documentText time m t).length - 1, by
      rw [documentText_members, List.length_cons]
      omega⟩
  have hlength : (treeText true m none 0 t).length ≤ n := by
    rw [documentText, List.length_append, List.length_append] at hn
    omega
  have htree := (readsTree m).1 t none 0 n ['\x7d'] hlength
  obtain ⟨c, u, hcons, hc⟩ := (whole_showNat time).exists_cons
  have hmembers := members_numberMember (n := n) (k := "date".toList)
    (fun _ => rfl) (by rw [hcons]; rfl) (Or.inl hc)
    (number_showNat time ('"' :: ("head".toList ++ '"' :: ':' ::
      (treeText true m none 0 t ++ ['\x7d']))))
  have hobject (digits rest : List Char) :
      value (n + 3) ('\x7b' :: numberMember "date".toList digits rest) =
        (members (n + 2) (numberMember "date".toList digits rest)).map
          fun r => (.obj r.1, r.2) := rfl
  rw [parse, hn, documentText_members, hobject, hmembers]
  by_cases hlegible : ∀ x ∈ t.preorder, x.Legible
  · rw [if_pos hlegible] at htree ⊢
    rw [members_close rfl htree]
    rfl
  · rw [if_neg hlegible] at htree ⊢
    rw [members_none rfl htree]
    rfl

/-! ## What a document shows -/

mutual

/-- A value shows the node of rank `k` after `m` nodes of earlier profiles,
with its children in order. -/
def Shows (m k : Nat) (j : Json) : CpuProfileNode → Prop
  | ⟨functionName, scriptResourceName, lineNumber, hitCount, children⟩ =>
      j.get "functionName" = some (.str functionName) ∧
        j.get "url" = some (.str (slashed scriptResourceName)) ∧
        j.get "lineNumber" = some (.num lineNumber) ∧
        j.get "hitCount" = some (.num hitCount) ∧
        j.get "id" = some (.num (idOf (m + k))) ∧
        ∃ js, j.get "children" = some (.arr js) ∧
          ShowsAll m (k + 1) js children

def ShowsAll (m k : Nat) (js : List Json) : List CpuProfileNode → Prop
  | [] => js = []
  | child :: rest =>
      ∃ first more, js = first :: more ∧ Shows m k first child ∧
        ShowsAll m (k + child.preorder.length) more rest

end

/-- The event of a profile carries a document whose `head` shows the tree. -/
def ShowsProfile (time m : Nat) (t : CpuProfileNode) : Prop :=
  ∃ message j head, constructData true time t (idOf m) = some message ∧
    formatProfiling true message = some (.json j) ∧
    j.get "head" = some head ∧ Shows m 0 head t

/-- Nothing of the node is cut or rounded. -/
def CpuProfileNode.Exact (x : CpuProfileNode) : Prop :=
  cText x.functionName = x.functionName ∧
    cText x.scriptResourceName = x.scriptResourceName ∧
    shownCount x.hitCount = x.hitCount

theorem slashed_cText {s : List Char} :
    slashed (cText s) = slashed s ↔ cText s = s := by
  refine ⟨fun h => ?_, fun h => by rw [h]⟩
  have hlength := congrArg List.length h
  rw [slashed, slashed, List.length_map, List.length_map] at hlength
  exact (List.takeWhile_prefix _).eq_of_length hlength

theorem get_callJson (c : VisitCall) (children : List Json) :
    (callJson c children).get "functionName" =
        some (.str (cText c.node.functionName)) ∧
      (callJson c children).get "url" =
        some (.str (slashed (cText c.node.scriptResourceName))) ∧
      (callJson c children).get "lineNumber" =
        some (.num c.node.lineNumber) ∧
      (callJson c children).get "hitCount" =
        some (.num (shownCount c.node.hitCount)) ∧
      (callJson c children).get "id" = some (.num c.id) ∧
      (callJson c children).get "children" = some (.arr children) :=
  ⟨rfl, rfl, rfl, rfl, rfl, rfl⟩

theorem shows_callJson {m k : Nat} {parent : Option Nat}
    {node : CpuProfileNode} {children : List Json} :
    Shows m k (callJson (callFor m ⟨node, k, parent⟩) children) node ↔
      node.Exact ∧ ShowsAll m (k + 1) children node.children := by
  obtain ⟨hname, hurl, hline, hcount, hid, hchildren⟩ :=
    get_callJson (callFor m ⟨node, k, parent⟩) children
  rw [callFor_id] at hid
  cases node
  rw [Shows, hname, hurl, hline, hcount, hid, hchildren,
    CpuProfileNode.Exact]
  simp only [callFor, Option.some.injEq, Json.str.injEq, Json.num.injEq,
    Json.arr.injEq, slashed_cText, Nat.cast_inj, true_and, exists_eq_left',
    and_assoc]

theorem shows_treeJson (m : Nat) :
    (∀ (t : CpuProfileNode) (parent : Option Nat) (k : Nat),
      Shows m k (treeJson m parent k t) t ↔ ∀ x ∈ t.preorder, x.Exact) ∧
      ∀ (ts : List CpuProfileNode) (parent k : Nat),
        ShowsAll m k (treesJson m parent k ts) ts ↔
          ∀ x ∈ preorderAll ts, x.Exact := by
  apply CpuProfileNode.induction
  case node =>
    intro functionName scriptResourceName lineNumber hitCount children ih
      parent k
    rw [treeJson_node, shows_callJson, ih, preorder_node,
      List.forall_mem_cons]
  case nil =>
    intro parent k
    rw [treesJson, ShowsAll]
    exact iff_of_true rfl (List.forall_mem_nil _)
  case cons =>
    intro child rest hchild hrest parent k
    rw [treesJson, ShowsAll, preorderAll, List.forall_mem_append,
      ← hchild (some parent) k, ← hrest parent (k + child.preorder.length)]
    constructor
    · rintro ⟨first, more, hcons, hfirst, hmore⟩
      cases hcons
      exact ⟨hfirst, hmore⟩
    · rintro ⟨hfirst, hmore⟩
      exact ⟨_, _, rfl, hfirst, hmore⟩

/-- ASCII names from the space on, and a count of at most six significant
digits. -/
structure CpuProfileNode.Quotable (x : CpuProfileNode) : Prop where
  names : ∀ c ∈ x.functionName ++ x.scriptResourceName,
    0x20 ≤ c.toNat ∧ c.toNat < 128
  count : x.hitCount % 10 ^ ((showNat x.hitCount).length - 6) = 0

theorem quotable_iff (x : CpuProfileNode) :
    x.Quotable ↔ x.Ascii ∧ x.Legible ∧ x.Exact := by
  have hcount := shownCount_eq_iff x.hitCount
  have hprintable {s : List Char} :
      Printable (cText s) ∧ cText s = s ↔ Printable s := by
    constructor
    · rintro ⟨hp, hs⟩
      rwa [hs] at hp
    · intro hp
      have hs : cText s = s := by
        rw [cText_eq_self_iff]
        intro hnul
        exact absurd (hp _ hnul) (by decide)
      exact ⟨hs.symm ▸ hp, hs⟩
  have hboth : Printable x.functionName ∧ Printable x.scriptResourceName ↔
      ∀ c ∈ x.functionName ++ x.scriptResourceName, 0x20 ≤ c.toNat :=
    List.forall_mem_append.symm
  constructor
  · intro hx
    obtain ⟨hf, hs⟩ := hboth.mpr fun c hc => (hx.names c hc).1
    obtain ⟨hf, hfcut⟩ := hprintable.mpr hf
    obtain ⟨hs, hscut⟩ := hprintable.mpr hs
    exact ⟨fun c hc => (hx.names c hc).2, ⟨hf, hs⟩, hfcut, hscut,
      hcount.mpr hx.count⟩
  · rintro ⟨hascii, ⟨hf, hs⟩, hfcut, hscut, hexact⟩
    have hlow := hboth.mp ⟨hprintable.mp ⟨hf, hfcut⟩,
      hprintable.mp ⟨hs, hscut⟩⟩
    exact ⟨fun c hc => ⟨hlow c hc, hascii c hc⟩, hcount.mp hexact⟩

theorem showsProfile_iff (time m : Nat) (t : CpuProfileNode) :
    ShowsProfile time m t ↔
      (∀ x ∈ t.preorder, x.Ascii) ∧ (∀ x ∈ t.preorder, x.Legible) ∧
        ∀ x ∈ t.preorder, x.Exact := by
  have hdata := constructData_eq true time t m
  rw [← documentText, cText_documentText] at hdata
  have hhead : (documentJson time m t).get "head" =
      some (treeJson m none 0 t) := rfl
  have hparse := parse_documentText time m t
  rw [← (shows_treeJson m).1 t none 0]
  constructor
  · rintro ⟨message, j, head, hmessage, hj, hget, hshows⟩
    rw [hdata] at hmessage
    split at hmessage
    case isFalse => cases hmessage
    case isTrue hascii =>
      rw [← Option.some.inj hmessage, formatProfiling, if_pos rfl,
        hparse] at hj
      split at hj
      case isFalse => cases hj
      case isTrue hlegible =>
        rw [Option.map_some, Option.some.injEq,
          ProfilingEvent.json.injEq] at hj
        rw [← hj, hhead, Option.some.injEq] at hget
        exact ⟨hascii, hlegible, hget ▸ hshows⟩
  · rintro ⟨hascii, hlegible, hshows⟩
    rw [if_pos hascii] at hdata
    rw [if_pos hlegible] at hparse
    refine ⟨_, _, _, hdata, ?_, hhead, hshows⟩
    rw [formatProfiling, if_pos rfl, hparse]
    rfl

/-- A profile is valid JSON that shows the tree exactly if its names are ASCII
without control characters and its hit counts have at most six significant
digits. -/
theorem profile_json_faithful (time m : Nat) (t : CpuProfileNode) :
    ShowsProfile time m t ↔ ∀ x ∈ t.preorder, x.Quotable := by
  simp only [showsProfile_iff, quotable_iff, forall_and]

namespace ProfileJsonWitness

def newlineInName : CpuProfileNode :=
  ⟨"a\nb".toList, "/a.js".toList, 7, 3, []⟩

def sevenDigits : CpuProfileNode :=
  ⟨"f".toList, "/a.js".toList, 7, 1234567, []⟩

/-- A newline in a name is no JSON, and 1234567 hits are shown as
1.23457e+06. -/
theorem not_shown :
    ¬ ShowsProfile 1 0 newlineInName ∧ ¬ ShowsProfile 1 0 sevenDigits := by
  constructor
  · intro h
    have hlegible := ((showsProfile_iff 1 0 newlineInName).mp h).2.1
      newlineInName List.mem_cons_self
    have hnewline : '\n' ∈ cText newlineInName.functionName := by decide
    exact absurd (hlegible.1 '\n' hnewline) (by decide)
  · intro h
    have hexact := ((showsProfile_iff 1 0 sevenDigits).mp h).2.2
      sevenDigits List.mem_cons_self
    exact absurd hexact.2.2 (by decide)

end ProfileJsonWitness

end Appmetrics
