/-
Writing JSON text without white space, the way `JSON.stringify` does.  The
parser reads back what was written, and the text has no control characters.
-/
import Appmetrics.Json

namespace JsonText

/-! ## Strings -/

def hexLower (n : Nat) : Char := "0123456789abcdef".toList.getD n '0'

theorem hexDigit_hexLower {n : Nat} (hn : n < 16) :
    hexDigit (hexLower n) = some n := by
  revert n
  decide

theorem hexLower_printable {n : Nat} (hn : n < 16) :
    0x20 ≤ (hexLower n).toNat := by
  revert n
  decide

/-- One character of a quoted string. -/
def quoteChar (c : Char) : List Char :=
  if c = '"' then ['\\', '"']
  else if c = '\\' then ['\\', '\\']
  else if c = '\x08' then ['\\', 'b']
  else if c = '\x0c' then ['\\', 'f']
  else if c = '\n' then ['\\', 'n']
  else if c = '\r' then ['\\', 'r']
  else if c = '\t' then ['\\', 't']
  else if c.toNat < 0x20 then
    ['\\', 'u', '0', '0', hexLower (c.toNat / 16), hexLower (c.toNat % 16)]
  else [c]

def quote (s : List Char) : List Char := '"' :: (s.flatMap quoteChar ++ ['"'])

theorem string_quoteChar (c : Char) (u : List Char) :
    string 0 (quoteChar c ++ u) =
      (string 0 u).map fun r => (c :: r.1, r.2) := by
  unfold quoteChar
  split_ifs with hquote hslash hb hf hn hr ht hcontrol
  · subst hquote
    rfl
  · subst hslash
    rfl
  · subst hb
    rfl
  · subst hf
    rfl
  · subst hn
    rfl
  · subst hr
    rfl
  · subst ht
    rfl
  · have hhigh : hexDigit (hexLower (c.toNat / 16)) = some (c.toNat / 16) :=
      hexDigit_hexLower (by omega)
    have hlow : hexDigit (hexLower (c.toNat % 16)) = some (c.toNat % 16) :=
      hexDigit_hexLower (by omega)
    have hsum : c.toNat / 16 * 16 + c.toNat % 16 = c.toNat := by omega
    have hzero : hexDigit '0' = some 0 := rfl
    have hsmall : c.toNat < 0xD800 := by omega
    have hescaped : escaped ('u' :: '0' :: '0' :: hexLower (c.toNat / 16) ::
        hexLower (c.toNat % 16) :: u) = some (c, 5) := by
      simp [escaped, unicode, hex4, hhigh, hlow, hzero, hsum, hsmall]
    simp only [List.cons_append, List.nil_append]
    rw [string]
    simp only [hescaped]
    rfl
  · rw [List.singleton_append, string_char hquote hslash,
      if_pos (Nat.le_of_not_lt hcontrol)]

/-- A quoted string after its opening quote. -/
theorem string_quoted (s u : List Char) :
    string 0 (s.flatMap quoteChar ++ '"' :: u) = some (s, u) := by
  induction s with
  | nil => rfl
  | cons c s ih =>
      rw [List.flatMap_cons, List.append_assoc, string_quoteChar, ih]
      rfl

theorem quoteChar_printable (c : Char) : Printable (quoteChar c) := by
  unfold quoteChar
  split_ifs with _ _ _ _ _ _ _ hcontrol
  · simp [Printable]
  · simp [Printable]
  · simp [Printable]
  · simp [Printable]
  · simp [Printable]
  · simp [Printable]
  · simp [Printable]
  · have hhigh := hexLower_printable (n := c.toNat / 16) (by omega)
    have hlow := hexLower_printable (n := c.toNat % 16) (by omega)
    simp [Printable, hhigh, hlow]
  · simpa [Printable] using hcontrol

theorem quote_printable (s : List Char) : Printable (quote s) := by
  intro c hc
  rw [quote, List.mem_cons, List.mem_append, List.mem_singleton,
    List.mem_flatMap] at hc
  rcases hc with rfl | ⟨d, _, hc⟩ | rfl
  · decide
  · exact quoteChar_printable d c hc
  · decide

/-! ## Values -/

/-- How the numbers of a set are written: in the characters of numbers,
beginning as a number does, and so that they are read back whatever may follow
them in JSON text. -/
structure NumberText where
  numbers : Set ℚ
  write : ℚ → List Char
  plain : ∀ q, ∀ c ∈ write q, c.isDigit = true ∨ c ∈ ['-', '+', '.', 'e']
  first : ∀ q, ∃ c u, write q = c :: u ∧ (c.isDigit = true ∨ c = '-')
  read : ∀ q ∈ numbers, ∀ rest, (∀ c ∈ rest.head?, c = ',' ∨ c = ']' ∨ c = '\x7d') →
    number (write q ++ rest) = some (q, rest)

mutual

/-- All numbers in the value are in the set. -/
def Json.Within (A : Set ℚ) : Json → Prop
  | .num q => q ∈ A
  | .arr es => elementsWithin A es
  | .obj ms => membersWithin A ms
  | _ => True

def elementsWithin (A : Set ℚ) : List Json → Prop
  | [] => True
  | e :: es => e.Within A ∧ elementsWithin A es

def membersWithin (A : Set ℚ) : List (List Char × Json) → Prop
  | [] => True
  | (_, j) :: ms => j.Within A ∧ membersWithin A ms

end

variable (N : NumberText)

mutual

/-- The text of a value. -/
def write : Json → List Char
  | .null => "null".toList
  | .bool true => "true".toList
  | .bool false => "false".toList
  | .num q => N.write q
  | .str s => quote s
  | .arr es => '[' :: writeElements es
  | .obj ms => '\x7b' :: writeMembers ms

/-- Elements up to the bracket that closes them. -/
def writeElements : List Json → List Char
  | [] => [']']
  | e :: es =>
      write e ++ if es.isEmpty then [']'] else ',' :: writeElements es

def writeMembers : List (List Char × Json) → List Char
  | [] => ['\x7d']
  | (key, j) :: ms =>
      quote key ++ ':' :: (write j ++
        if ms.isEmpty then ['\x7d'] else ',' :: writeMembers ms)

end

/-- A visible ASCII character. -/
def Graphic (c : Char) : Prop := 0x20 < c.toNat ∧ c.toNat < 0x80

instance (c : Char) : Decidable (Graphic c) :=
  inferInstanceAs (Decidable (_ ∧ _))

theorem Graphic.isWs {c : Char} (hc : Graphic c) : isWs c = false := by
  simp only [JsonText.isWs, Bool.or_eq_false_iff, decide_eq_false_iff_not]
  refine ⟨⟨⟨?_, ?_⟩, ?_⟩, ?_⟩ <;>
  · rintro rfl
    exact absurd hc (by decide)

theorem graphic_of_isDigit {c : Char} (hc : c.isDigit = true) :
    Graphic c := by
  rw [Char.isDigit, Bool.and_eq_true, decide_eq_true_eq,
    decide_eq_true_eq] at hc
  have hlo : 48 ≤ c.toNat := hc.1
  have hhi : c.toNat ≤ 57 := hc.2
  unfold Graphic
  omega

theorem NumberText.graphic (q : ℚ) : ∀ c ∈ N.write q, Graphic c := by
  intro c hc
  rcases N.plain q c hc with hdigit | hmem
  · exact graphic_of_isDigit hdigit
  · simp only [List.mem_cons, List.not_mem_nil, or_false] at hmem
    rcases hmem with rfl | rfl | rfl | rfl <;> decide

/-- A value begins with a visible character other than a closing bracket. -/
theorem write_head (j : Json) : ∃ c u, write N j = c :: u ∧ Graphic c ∧
    c ≠ ']' ∧ c ≠ '\x7d' := by
  cases j with
  | null => exact ⟨_, _, by rw [write]; rfl, by decide⟩
  | bool b => cases b <;> exact ⟨_, _, by rw [write]; rfl, by decide⟩
  | num q =>
      obtain ⟨c, u, hwrite, hc⟩ := N.first q
      have hgraphic := N.graphic q c (by rw [hwrite]; exact List.mem_cons_self)
      refine ⟨c, u, by rw [write, hwrite], hgraphic, ?_, ?_⟩ <;>
      · rintro rfl
        exact absurd hc (by decide)
  | str s => exact ⟨_, _, by rw [write, quote], by decide⟩
  | arr es => exact ⟨_, _, by rw [write], by decide⟩
  | obj ms => exact ⟨_, _, by rw [write], by decide⟩

theorem writeElements_last (es : List Json) :
    ∃ u, writeElements N es = u ++ [']'] := by
  induction es with
  | nil => exact ⟨[], by rw [writeElements]; rfl⟩
  | cons e es ih =>
      obtain ⟨u, hu⟩ := ih
      rw [writeElements]
      split
      · exact ⟨write N e, rfl⟩
      · exact ⟨write N e ++ ',' :: u, by rw [hu]; simp⟩

theorem writeMembers_last (ms : List (List Char × Json)) :
    ∃ u, writeMembers N ms = u ++ ['\x7d'] := by
  induction ms with
  | nil => exact ⟨[], by rw [writeMembers]; rfl⟩
  | cons m ms ih =>
      obtain ⟨key, j⟩ := m
      obtain ⟨u, hu⟩ := ih
      rw [writeMembers]
      split
      · exact ⟨quote key ++ ':' :: write N j, by simp⟩
      · exact ⟨quote key ++ ':' :: (write N j ++ ',' :: u), by rw [hu]; simp⟩

/-- A value ends with a visible character. -/
theorem write_last (j : Json) : ∃ u c, write N j = u ++ [c] ∧ Graphic c := by
  cases j with
  | null => exact ⟨['n', 'u', 'l'], 'l', by rw [write]; rfl, by decide⟩
  | bool b =>
      cases b with
      | true => exact ⟨['t', 'r', 'u'], 'e', by rw [write]; rfl, by decide⟩
      | false =>
          exact ⟨['f', 'a', 'l', 's'], 'e', by rw [write]; rfl, by decide⟩
  | num q =>
      obtain ⟨c, u, hwrite, _⟩ := N.first q
      have hne : N.write q ≠ [] := by
        rw [hwrite]
        exact List.cons_ne_nil c u
      exact ⟨_, _, by rw [write, List.dropLast_append_getLast hne],
        N.graphic q _ (List.getLast_mem hne)⟩
  | str s =>
      exact ⟨'"' :: s.flatMap quoteChar, '"', by rw [write, quote]; rfl,
        by decide⟩
  | arr es =>
      obtain ⟨u, hu⟩ := writeElements_last N es
      exact ⟨'[' :: u, ']', by rw [write, hu]; rfl, by decide⟩
  | obj ms =>
      obtain ⟨u, hu⟩ := writeMembers_last N ms
      exact ⟨'\x7b' :: u, '\x7d', by rw [write, hu]; rfl, by decide⟩

theorem printable_append {s t : List Char} (hs : Printable s)
    (ht : Printable t) : Printable (s ++ t) := by
  intro c hc
  rcases List.mem_append.mp hc with hc | hc
  · exact hs c hc
  · exact ht c hc

mutual

theorem write_printable : ∀ j, Printable (write N j)
  | .null => by
      rw [write]
      simp [Printable]
  | .bool true => by
      rw [write]
      simp [Printable]
  | .bool false => by
      rw [write]
      simp [Printable]
  | .num q => by
      rw [write]
      exact fun c hc => Nat.le_of_lt (N.graphic q c hc).1
  | .str s => by
      rw [write]
      exact quote_printable s
  | .arr es => by
      rw [write]
      exact printable_cons.mpr ⟨by decide, writeElements_printable es⟩
  | .obj ms => by
      rw [write]
      exact printable_cons.mpr ⟨by decide, writeMembers_printable ms⟩

theorem writeElements_printable : ∀ es, Printable (writeElements N es)
  | [] => by
      rw [writeElements]
      simp [Printable]
  | e :: es => by
      rw [writeElements]
      apply printable_append (write_printable e)
      split
      · simp [Printable]
      · exact printable_cons.mpr ⟨by decide, writeElements_printable es⟩

theorem writeMembers_printable : ∀ ms, Printable (writeMembers N ms)
  | [] => by
      rw [writeMembers]
      simp [Printable]
  | (key, j) :: ms => by
      rw [writeMembers]
      apply printable_append (quote_printable key)
      apply printable_cons.mpr ⟨by decide, ?_⟩
      apply printable_append (write_printable j)
      split
      · simp [Printable]
      · exact printable_cons.mpr ⟨by decide, writeMembers_printable ms⟩

end

/-! ## Reading it back -/

/-- What may follow a value in JSON text. -/
def Follows (rest : List Char) : Prop :=
  ∀ c ∈ rest.head?, c = ',' ∨ c = ']' ∨ c = '\x7d'

theorem value_elements (n : Nat) {c : Char} {u : List Char}
    (hws : isWs c = false) (hc : c ≠ ']') :
    value (n + 1) ('[' :: c :: u) =
      (elements n (c :: u)).map fun r => (.arr r.1, r.2) := by
  have hopen : isWs '[' = false := by decide
  simp only [value, skipWs_cons hopen, skipWs_cons hws]
  split
  · next h => exact absurd (List.cons.inj h).1 hc
  · rfl

theorem value_members (n : Nat) (u : List Char) :
    value (n + 1) ('\x7b' :: '"' :: u) =
      (members n ('"' :: u)).map fun r => (.obj r.1, r.2) := rfl

mutual

/-- With as much fuel as the text is long, and more, a value is read back. -/
theorem value_write : ∀ (j : Json) (n : Nat) (rest : List Char),
    j.Within N.numbers → (write N j).length ≤ n → Follows rest →
      value n (write N j ++ rest) = some (j, rest)
  | .null, n, rest, hj, hn, hrest => by
      rw [write] at hn ⊢
      obtain ⟨n, rfl⟩ := Nat.exists_eq_add_of_le' hn
      rfl
  | .bool true, n, rest, hj, hn, hrest => by
      rw [write] at hn ⊢
      obtain ⟨n, rfl⟩ := Nat.exists_eq_add_of_le' hn
      rfl
  | .bool false, n, rest, hj, hn, hrest => by
      rw [write] at hn ⊢
      obtain ⟨n, rfl⟩ := Nat.exists_eq_add_of_le' hn
      rfl
  | .num q, n, rest, hj, hn, hrest => by
      rw [write] at hn ⊢
      obtain ⟨c, u, hwrite, hc⟩ := N.first q
      have hread := N.read q (by simpa [Json.Within] using hj) rest hrest
      rw [hwrite] at hn hread ⊢
      obtain ⟨n, rfl⟩ := Nat.exists_eq_add_of_le' hn
      rw [List.cons_append] at hread ⊢
      exact (value_number _ hc _).trans (by rw [hread]; rfl)
  | .str s, n, rest, hj, hn, hrest => by
      rw [write, quote] at hn ⊢
      obtain ⟨n, rfl⟩ := Nat.exists_eq_add_of_le' hn
      have hread := string_quoted s rest
      rw [List.cons_append, List.append_assoc, List.singleton_append]
      change (string 0 (s.flatMap quoteChar ++ '"' :: rest)).map _ = _
      rw [hread]
      rfl
  | .arr [], n, rest, hj, hn, hrest => by
      rw [write, writeElements] at hn ⊢
      obtain ⟨n, rfl⟩ := Nat.exists_eq_add_of_le' hn
      rfl
  | .arr (e :: es), n, rest, hj, hn, hrest => by
      rw [write] at hn ⊢
      obtain ⟨m, rfl⟩ : ∃ m, n = m + 1 :=
        Nat.exists_eq_add_of_le' (Nat.le_trans (by simp) hn)
      have hread := elements_write (e :: es) m rest (by simp)
        (by simpa [Json.Within] using hj) (by simpa using hn)
      obtain ⟨c, u, hwrite, hgraphic, hc, _⟩ := write_head N e
      rw [writeElements, hwrite, List.cons_append, List.cons_append] at hread
      rw [List.cons_append, writeElements, hwrite, List.cons_append,
        List.cons_append, value_elements m hgraphic.isWs hc, hread]
      rfl
  | .obj [], n, rest, hj, hn, hrest => by
      rw [write, writeMembers] at hn ⊢
      obtain ⟨n, rfl⟩ := Nat.exists_eq_add_of_le' hn
      rfl
  | .obj ((key, j) :: ms), n, rest, hj, hn, hrest => by
      rw [write] at hn ⊢
      obtain ⟨m, rfl⟩ : ∃ m, n = m + 1 :=
        Nat.exists_eq_add_of_le' (Nat.le_trans (by simp) hn)
      have hread := members_write ((key, j) :: ms) m rest (by simp)
        (by simpa [Json.Within] using hj) (by simpa using hn)
      rw [writeMembers, quote, List.cons_append, List.cons_append] at hread
      rw [List.cons_append, writeMembers, quote, List.cons_append,
        List.cons_append, value_members, hread]
      rfl

theorem elements_write : ∀ (es : List Json) (n : Nat) (rest : List Char),
    es ≠ [] → elementsWithin N.numbers es →
      (writeElements N es).length ≤ n →
      elements n (writeElements N es ++ rest) = some (es, rest)
  | [], _, _, hes, _, _ => absurd rfl hes
  | [e], n, rest, _, hes, hn => by
      rw [elementsWithin] at hes
      rw [writeElements, List.isEmpty_nil, if_pos rfl] at hn ⊢
      rw [List.length_append] at hn
      obtain ⟨m, rfl⟩ := Nat.exists_eq_add_of_le' (Nat.le_of_add_left_le hn)
      rw [List.append_assoc]
      exact elements_close (value_write e m (']' :: rest) hes.1
        (by simpa using hn)
        (by simp [Follows]))
  | e :: e' :: es, n, rest, _, hes, hn => by
      rw [elementsWithin] at hes
      rw [writeElements, List.isEmpty_cons, if_neg Bool.false_ne_true] at hn ⊢
      rw [List.length_append, List.length_cons] at hn
      obtain ⟨m, rfl⟩ : ∃ m, n = m + 1 :=
        Nat.exists_eq_add_of_le' (Nat.le_trans (by omega) hn)
      rw [List.append_assoc, List.cons_append]
      have hvalue := value_write e m
        (',' :: (writeElements N (e' :: es) ++ rest)) hes.1 (by omega)
        (by simp [Follows])
      rw [elements_comma hvalue,
        elements_write (e' :: es) m rest (by simp) hes.2 (by omega)]
      rfl

theorem members_write : ∀ (ms : List (List Char × Json)) (n : Nat)
    (rest : List Char), ms ≠ [] → membersWithin N.numbers ms →
      (writeMembers N ms).length ≤ n →
      members n (writeMembers N ms ++ rest) = some (ms, rest)
  | [], _, _, hms, _, _ => absurd rfl hms
  | [(key, j)], n, rest, _, hms, hn => by
      rw [membersWithin] at hms
      rw [writeMembers, List.isEmpty_nil, if_pos rfl, quote] at hn ⊢
      obtain ⟨m, rfl⟩ : ∃ m, n = m + 1 :=
        Nat.exists_eq_add_of_le' (Nat.le_trans (by simp) hn)
      have hvalue := value_write j m ('\x7d' :: rest) hms.1
        (by simp at hn; omega) (by simp [Follows])
      have hkey := string_quoted key (':' :: (write N j ++ '\x7d' :: rest))
      have hread := members_close hkey hvalue
      simpa using hread
  | (key, j) :: m :: ms, n, rest, _, hms, hn => by
      rw [membersWithin] at hms
      rw [writeMembers, List.isEmpty_cons, if_neg Bool.false_ne_true,
        quote] at hn ⊢
      obtain ⟨k, rfl⟩ : ∃ k, n = k + 1 :=
        Nat.exists_eq_add_of_le' (Nat.le_trans (by simp) hn)
      simp only [List.cons_append, List.length_cons, List.length_append,
        List.length_nil] at hn
      have hvalue := value_write j k
        (',' :: (writeMembers N (m :: ms) ++ rest)) hms.1 (by omega)
        (by simp [Follows])
      have hkey := string_quoted key (':' :: (write N j ++
        ',' :: (writeMembers N (m :: ms) ++ rest)))
      have hread := members_comma hkey hvalue
      rw [members_write (m :: ms) k rest (by simp) hms.2 (by omega)] at hread
      simpa using hread

end

/-- `JSON.parse` of a value's text is the value. -/
theorem parse_write {j : Json} (hj : j.Within N.numbers) :
    parse (write N j) = some j := by
  have hread := value_write N j (2 * (write N j).length + 2) [] hj (by omega)
    (by simp [Follows])
  rw [List.append_nil] at hread
  rw [parse, hread]
  rfl

end JsonText
