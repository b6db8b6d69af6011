/-
JSON text: the values it denotes, a recursive-descent parser that leaves what
follows a value, and the rules by which the parser reads text that was put
together from pieces.
-/
import Mathlib.Algebra.Field.Rat
import Mathlib.Algebra.Order.Ring.Rat
import Mathlib.Data.List.Basic
import Mathlib.Tactic.Ring
import Appmetrics.Scanning

namespace JsonText

open Scanning

/-- What JSON text denotes. -/
inductive Json
  | null
  | bool (b : Bool)
  | num (q : ℚ)
  | str (s : List Char)
  | arr (es : List Json)
  | obj (ms : List (List Char × Json))

/-- The value of a member; of members with one key the last one counts. -/
def Json.get (key : String) : Json → Option Json
  | .obj ms => (ms.reverse.find? fun m => m.1 = key.toList).map Prod.snd
  | _ => none

/-! ## The parser -/

def isWs (c : Char) : Bool :=
  c = ' ' || c = '\t' || c = '\n' || c = '\r'

def skipWs (s : List Char) : List Char := s.dropWhile isWs

def hexDigit (c : Char) : Option Nat :=
  if c.isDigit then some (c.toNat - 48)
  else if 97 ≤ c.toNat ∧ c.toNat ≤ 102 then some (c.toNat - 87)
  else if 65 ≤ c.toNat ∧ c.toNat ≤ 70 then some (c.toNat - 55)
  else none

def hex4 : List Char → Option Nat
  | a :: b :: c :: d :: _ => do
      let a ← hexDigit a
      let b ← hexDigit b
      let c ← hexDigit c
      let d ← hexDigit d
      some (((a * 16 + b) * 16 + c) * 16 + d)
  | _ => none

/-- The character after `\u` and how much of the input it takes; half of a
surrogate pair is no character. -/
def unicode (s : List Char) : Option (Char × Nat) := do
  let high ← hex4 s
  if high < 0xD800 ∨ 0xE000 ≤ high then some (Char.ofNat high, 4)
  else if high < 0xDC00 ∧ (s.drop 4).take 2 = ['\\', 'u'] then do
    let low ← hex4 (s.drop 6)
    if 0xDC00 ≤ low ∧ low < 0xE000 then
      some (Char.ofNat
        (0x10000 + (high - 0xD800) * 0x400 + (low - 0xDC00)), 10)
    else none
  else none

/-- The character after a backslash and how much of the input it takes. -/
def escaped : List Char → Option (Char × Nat)
  | '"' :: _ => some ('"', 1)
  | '\\' :: _ => some ('\\', 1)
  | '/' :: _ => some ('/', 1)
  | 'b' :: _ => some ('\x08', 1)
  | 'f' :: _ => some ('\x0c', 1)
  | 'n' :: _ => some ('\n', 1)
  | 'r' :: _ => some ('\r', 1)
  | 't' :: _ => some ('\t', 1)
  | 'u' :: u => (unicode u).map fun r => (r.1, r.2 + 1)
  | _ => none

/-- A string after its opening quote, once `skip` characters of an escape are
passed over. -/
def string (skip : Nat) : List Char → Option (List Char × List Char)
  | [] => none
  | c :: u =>
      match skip with
      | skip + 1 => string skip u
      | 0 =>
          if c = '"' then some ([], u)
          else if c = '\\' then
            (escaped u).bind fun e =>
              (string e.2 u).map fun r => (e.1 :: r.1, r.2)
          else if c.toNat < 0x20 then none
          else (string 0 u).map fun r => (c :: r.1, r.2)

/-- `.5`, the digits after the point. -/
def fractionPart : List Char → Option (List Char × List Char)
  | '.' :: u =>
      if u.takeWhile Char.isDigit = [] then none
      else some (u.takeWhile Char.isDigit, u.dropWhile Char.isDigit)
  | s => some ([], s)

def sign : List Char → Int × List Char
  | '-' :: u => (-1, u)
  | '+' :: u => (1, u)
  | s => (1, s)

/-- `e+05`. -/
def exponentPart (s : List Char) : Option (Int × List Char) :=
  match s with
  | [] => some (0, s)
  | c :: u =>
      if c = 'e' ∨ c = 'E' then
        let u := sign u
        let digits := u.2.takeWhile Char.isDigit
        if digits = [] then none
        else some (u.1 * (Nat.ofDigitChars 10 digits 0 : Nat),
          u.2.dropWhile Char.isDigit)
      else some (0, s)

def scaled (digits : List Char) (e : Int) : ℚ :=
  (Nat.ofDigitChars 10 digits 0 : Nat) * (10 : ℚ) ^ e

def unsigned (s : List Char) : Option (ℚ × List Char) :=
  let whole := s.takeWhile Char.isDigit
  if whole = [] ∨ (whole.head? = some '0' ∧ 1 < whole.length) then none
  else
    (fractionPart (s.dropWhile Char.isDigit)).bind fun f =>
      (exponentPart f.2).map fun e =>
        (scaled (whole ++ f.1) (e.1 - f.1.length), e.2)

def number : List Char → Option (ℚ × List Char)
  | '-' :: u => (unsigned u).map fun r => (-r.1, r.2)
  | s => unsigned s

mutual

/-- A value and what follows it.  A container takes one unit of fuel and each
of its parts another. -/
def value : Nat → List Char → Option (Json × List Char)
  | 0, _ => none
  | n + 1, s =>
      match skipWs s with
      | '\x7b' :: u =>
          match skipWs u with
          | '\x7d' :: v => some (.obj [], v)
          | u => (members n u).map fun r => (.obj r.1, r.2)
      | '[' :: u =>
          match skipWs u with
          | ']' :: v => some (.arr [], v)
          | u => (elements n u).map fun r => (.arr r.1, r.2)
      | '"' :: u => (string 0 u).map fun r => (.str r.1, r.2)
      | 't' :: 'r' :: 'u' :: 'e' :: u => some (.bool true, u)
      | 'f' :: 'a' :: 'l' :: 's' :: 'e' :: u => some (.bool false, u)
      | 'n' :: 'u' :: 'l' :: 'l' :: u => some (.null, u)
      | u => (number u).map fun r => (.num r.1, r.2)

def members : Nat → List Char → Option (List (List Char × Json) × List Char)
  | 0, _ => none
  | n + 1, s =>
      match skipWs s with
      | '"' :: u =>
          (string 0 u).bind fun key =>
            match skipWs key.2 with
            | ':' :: v =>
                (value n v).bind fun r =>
                  match skipWs r.2 with
                  | ',' :: w =>
                      (members n w).map fun ms => ((key.1, r.1) :: ms.1, ms.2)
                  | '\x7d' :: w => some ([(key.1, r.1)], w)
                  | _ => none
            | _ => none
      | _ => none

def elements : Nat → List Char → Option (List Json × List Char)
  | 0, _ => none
  | n + 1, s =>
      (value n s).bind fun r =>
        match skipWs r.2 with
        | ',' :: w => (elements n w).map fun es => (r.1 :: es.1, es.2)
        | ']' :: w => some ([r.1], w)
        | _ => none

end

/-- `JSON.parse`: one value, with white space around it; `none` is a
`SyntaxError`. -/
def parse (s : List Char) : Option Json :=
  (value (2 * s.length + 2) s).bind fun r =>
    if skipWs r.2 = [] then some r.1 else none

/-! ## Reading numbers -/

section Digits

variable {ds rest : List Char} (hds : ∀ c ∈ ds, c.isDigit = true)
  (hrest : ∀ c ∈ rest.head?, c.isDigit = false)

include hds hrest

theorem fractionPart_digits (hne : ds ≠ []) :
    fractionPart ('.' :: (ds ++ rest)) = some (ds, rest) := by
  rw [fractionPart, takeWhile_append hds hrest, dropWhile_append hds hrest,
    if_neg hne]

theorem exponentPart_digits (hne : ds ≠ []) :
    exponentPart ('e' :: '+' :: (ds ++ rest)) =
      some (((Nat.ofDigitChars 10 ds 0 : Nat) : Int), rest) := by
  unfold exponentPart
  simp only [sign, takeWhile_append hds hrest, dropWhile_append hds hrest,
    true_or, if_true, if_neg hne, one_mul]

end Digits

theorem fractionPart_none {s : List Char} (hs : s.head? ≠ some '.') :
    fractionPart s = some ([], s) := by
  unfold fractionPart
  split
  · exact absurd rfl hs
  · rfl

theorem exponentPart_none {s : List Char}
    (hs : ∀ c ∈ s.head?, c ≠ 'e' ∧ c ≠ 'E') :
    exponentPart s = some (0, s) := by
  unfold exponentPart
  split
  · rfl
  · next c u =>
      rw [if_neg (not_or.mpr (hs c rfl))]

/-- The digits before the point: no sign, and no zero before a digit. -/
structure Whole (ds : List Char) : Prop where
  digits : ∀ c ∈ ds, c.isDigit = true
  ne_nil : ds ≠ []
  no_zero : ds.head? = some '0' → ds.length = 1

theorem unsigned_eq {whole rest f u : List Char} {e : Int} {v : List Char}
    (hwhole : Whole whole) (hrest : ∀ c ∈ rest.head?, c.isDigit = false)
    (hf : fractionPart rest = some (f, u)) (he : exponentPart u = some (e, v)) :
    unsigned (whole ++ rest) = some (scaled (whole ++ f) (e - f.length), v) := by
  have hno : ¬ (whole = [] ∨ whole.head? = some '0' ∧ 1 < whole.length) := by
    rintro (h | ⟨hzero, hlong⟩)
    · exact hwhole.ne_nil h
    · have := hwhole.no_zero hzero
      omega
  unfold unsigned
  simp only [takeWhile_append hwhole.digits hrest,
    dropWhile_append hwhole.digits hrest]
  rw [if_neg hno, hf, Option.bind_some, he]
  rfl

theorem scaled_zero (ds : List Char) :
    scaled ds 0 = (Nat.ofDigitChars 10 ds 0 : Nat) := by
  rw [scaled, zpow_zero, mul_one]

/-- A number without point and exponent. -/
theorem unsigned_whole {whole rest : List Char} (hwhole : Whole whole)
    (hrest : ∀ c ∈ rest.head?,
      c.isDigit = false ∧ c ≠ '.' ∧ c ≠ 'e' ∧ c ≠ 'E') :
    unsigned (whole ++ rest) =
      some (((Nat.ofDigitChars 10 whole 0 : Nat) : ℚ), rest) := by
  have hf : fractionPart rest = some ([], rest) :=
    fractionPart_none fun h => (hrest '.' h).2.1 rfl
  have he : exponentPart rest = some (0, rest) :=
    exponentPart_none fun c hc => (hrest c hc).2.2
  rw [unsigned_eq hwhole (fun c hc => (hrest c hc).1) hf he, List.append_nil,
    List.length_nil, ← scaled_zero]
  rfl

theorem Whole.exists_cons {ds : List Char} (hds : Whole ds) :
    ∃ c u, ds = c :: u ∧ c.isDigit = true := by
  obtain ⟨c, u, rfl⟩ := List.exists_cons_of_ne_nil hds.ne_nil
  exact ⟨c, u, rfl, hds.digits c List.mem_cons_self⟩

theorem number_of_digit {c : Char} (hc : c.isDigit = true) (u : List Char) :
    number (c :: u) = unsigned (c :: u) := by
  unfold number
  split
  · next h =>
      cases h
      exact absurd hc (by decide)
  · rfl

/-! ## Reading strings -/

/-- No control character. -/
def Printable (s : List Char) : Prop := ∀ c ∈ s, 0x20 ≤ c.toNat

instance (s : List Char) : Decidable (Printable s) :=
  inferInstanceAs (Decidable (∀ _ ∈ s, _))

theorem printable_cons {c : Char} {s : List Char} :
    Printable (c :: s) ↔ 0x20 ≤ c.toNat ∧ Printable s :=
  List.forall_mem_cons

/-- A text of which every character is written as `e` writes it, and read
from that as `d` says, or else refused as a control character. -/
theorem string_encoded {e : Char → List Char} {d : Char → Char}
    (hread : ∀ c, 0x20 ≤ c.toNat → ∀ u,
      string 0 (e c ++ u) = (string 0 u).map fun r => (d c :: r.1, r.2))
    (hrefuse : ∀ c, c.toNat < 0x20 → ∀ u, string 0 (e c ++ u) = none)
    (s u : List Char) :
    string 0 (s.flatMap e ++ '"' :: u) =
      if Printable s then some (s.map d, u) else none := by
  induction s with
  | nil => exact (if_pos (List.forall_mem_nil _)).symm
  | cons c s ih =>
      rw [List.flatMap_cons, List.append_assoc]
      by_cases hc : 0x20 ≤ c.toNat
      · rw [hread c hc, ih]
        by_cases hs : Printable s
        · rw [if_pos hs, if_pos (printable_cons.mpr ⟨hc, hs⟩)]
          rfl
        · rw [if_neg hs, if_neg fun h => hs (printable_cons.mp h).2]
          rfl
      · rw [hrefuse c (Nat.lt_of_not_le hc),
          if_neg fun h => hc (printable_cons.mp h).1]

theorem string_char {c : Char} (hquote : c ≠ '"') (hslash : c ≠ '\\')
    (u : List Char) : string 0 (c :: u) =
      if 0x20 ≤ c.toNat then (string 0 u).map fun r => (c :: r.1, r.2)
      else none := by
  rw [string]
  simp only [if_neg hquote, if_neg hslash]
  by_cases hc : 0x20 ≤ c.toNat
  · rw [if_pos hc, if_neg (Nat.not_lt.mpr hc)]
  · rw [if_neg hc, if_pos (Nat.lt_of_not_le hc)]

/-! ## Reading containers -/

theorem skipWs_cons {c : Char} (hc : isWs c = false) (u : List Char) :
    skipWs (c :: u) = c :: u :=
  List.dropWhile_cons_of_neg (by rw [hc]; exact Bool.false_ne_true)

theorem value_number (n : Nat) {c : Char} (hc : c.isDigit = true ∨ c = '-')
    (u : List Char) : value (n + 1) (c :: u) =
      (number (c :: u)).map fun r => (.num r.1, r.2) := by
  have hne : isWs c = false ∧ c ∉ ['\x7b', '[', '"', 't', 'f', 'n'] := by
    rcases hc with hc | rfl
    · constructor
      · simp only [isWs, Bool.or_eq_false_iff, decide_eq_false_iff_not]
        refine ⟨⟨⟨?_, ?_⟩, ?_⟩, ?_⟩ <;>
        · rintro rfl
          exact absurd hc (by decide)
      · intro hmem
        simp only [List.mem_cons, List.not_mem_nil, or_false] at hmem
        rcases hmem with rfl | rfl | rfl | rfl | rfl | rfl <;>
          exact absurd hc (by decide)
    · decide
  have hmem {d : Char} {v : List Char} (h : c :: u = d :: v)
      (hd : d ∈ ['\x7b', '[', '"', 't', 'f', 'n']) : False := by
    cases h
    exact hne.2 hd
  rw [value, skipWs_cons hne.1]
  split
  · next h => exact (hmem h (by decide)).elim
  · next h => exact (hmem h (by decide)).elim
  · next h => exact (hmem h (by decide)).elim
  · next h => exact (hmem h (by decide)).elim
  · next h => exact (hmem h (by decide)).elim
  · next h => exact (hmem h (by decide)).elim
  · rfl

section Containers

variable {n : Nat} {s u v w k : List Char} {j : Json}

theorem members_key (hkey : string 0 u = some (k, ':' :: v)) :
    members (n + 1) ('"' :: u) =
      (value n v).bind fun r =>
        match skipWs r.2 with
        | ',' :: w => (members n w).map fun ms => ((k, r.1) :: ms.1, ms.2)
        | '\x7d' :: w => some ([(k, r.1)], w)
        | _ => none := by
  have hquote : skipWs ('"' :: u) = '"' :: u := rfl
  have hcolon : skipWs (':' :: v) = ':' :: v := rfl
  rw [members, hquote]
  simp only [hkey, Option.bind_some, hcolon]

/-- A member that another one follows. -/
theorem members_comma (hkey : string 0 u = some (k, ':' :: v))
    (hvalue : value n v = some (j, ',' :: w)) :
    members (n + 1) ('"' :: u) =
      (members n w).map fun ms => ((k, j) :: ms.1, ms.2) := by
  rw [members_key hkey, hvalue]
  rfl

theorem members_close (hkey : string 0 u = some (k, ':' :: v))
    (hvalue : value n v = some (j, '\x7d' :: w)) :
    members (n + 1) ('"' :: u) = some ([(k, j)], w) := by
  rw [members_key hkey, hvalue]
  rfl

theorem members_none (hkey : string 0 u = some (k, ':' :: v))
    (hvalue : value n v = none) : members (n + 1) ('"' :: u) = none := by
  rw [members_key hkey, hvalue]
  rfl

/-- An element that another one follows. -/
theorem elements_comma (hvalue : value n s = some (j, ',' :: w)) :
    elements (n + 1) s =
      (elements n w).map fun es => (j :: es.1, es.2) := by
  rw [elements, hvalue]
  rfl

theorem elements_close (hvalue : value n s = some (j, ']' :: w)) :
    elements (n + 1) s = some ([j], w) := by
  rw [elements, hvalue]
  rfl

theorem elements_none (hvalue : value n s = none) :
    elements (n + 1) s = none := by
  rw [elements, hvalue]
  rfl

/-! ## Members as they are written -/

/-- A member with a string value, and what follows the comma after it. -/
def stringMember (key encoded rest : List Char) : List Char :=
  '"' :: (key ++ '"' :: ':' :: '"' :: (encoded ++ '"' :: ',' :: rest))

def numberMember (key digits rest : List Char) : List Char :=
  '"' :: (key ++ '"' :: ':' :: (digits ++ ',' :: rest))

/-- A key that needs no escapes. -/
def PlainKey (key : List Char) : Prop :=
  ∀ u, string 0 (key ++ '"' :: u) = some (key, u)

theorem members_stringMember (hkey : PlainKey k) {encoded rest : List Char}
    {text shown : List Char}
    (hstring : string 0 (encoded ++ '"' :: ',' :: rest) =
      if Printable text then some (shown, ',' :: rest) else none) :
    members (n + 2) (stringMember k encoded rest) =
      if Printable text then
        (members (n + 1) rest).map fun ms => ((k, .str shown) :: ms.1, ms.2)
      else none := by
  have hkey' := hkey (':' :: '"' :: (encoded ++ '"' :: ',' :: rest))
  have hvalue : value (n + 1) ('"' :: (encoded ++ '"' :: ',' :: rest)) =
      (string 0 (encoded ++ '"' :: ',' :: rest)).map fun r =>
        (.str r.1, r.2) := rfl
  rw [hstring] at hvalue
  by_cases htext : Printable text
  · rw [if_pos htext] at hvalue ⊢
    exact members_comma hkey' hvalue
  · rw [if_neg htext] at hvalue ⊢
    exact members_none hkey' hvalue

theorem members_numberMember (hkey : PlainKey k) {digits rest : List Char}
    {c : Char} (hfirst : digits.head? = some c)
    (hc : c.isDigit = true ∨ c = '-') {q : ℚ}
    (hnumber : number (digits ++ ',' :: rest) = some (q, ',' :: rest)) :
    members (n + 2) (numberMember k digits rest) =
      (members (n + 1) rest).map fun ms => ((k, .num q) :: ms.1, ms.2) := by
  obtain ⟨u, rfl⟩ : ∃ u, digits = c :: u := by
    cases digits with
    | nil => cases hfirst
    | cons d u => exact ⟨u, by rw [Option.some.inj hfirst]⟩
  have hvalue := value_number n hc (u ++ ',' :: rest)
  rw [← List.cons_append, hnumber] at hvalue
  exact members_comma (hkey _) hvalue

end Containers

end JsonText
