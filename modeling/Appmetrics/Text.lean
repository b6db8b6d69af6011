/-
The text conversions on both sides of the agent: what the native plugins
write into a stream, and how the JavaScript API takes it apart again.  Text
is a list of characters; UTF-8 and UTF-16 matter only where a length is
computed.
-/
import Mathlib.Algebra.Order.BigOperators.Group.List
import Mathlib.Algebra.Order.Ring.Nat
import Appmetrics.Scanning

namespace Appmetrics

/-! ## JavaScript -/

/-- The characters that `trim` and `parseInt` skip: `WhiteSpace` and
`LineTerminator`. -/
def isJsSpace (c : Char) : Bool :=
  (9 ≤ c.toNat && c.toNat ≤ 13) || (0x2000 ≤ c.toNat && c.toNat ≤ 0x200A) ||
    [0x20, 0xA0, 0x1680, 0x2028, 0x2029, 0x202F, 0x205F, 0x3000,
      0xFEFF].contains c.toNat

/-- `message.trim()`. -/
def jsTrim (s : List Char) : List Char :=
  (s.dropWhile isJsSpace).rdropWhile isJsSpace

/-- What `.` of a regular expression does not match. -/
def isLineTerminator (c : Char) : Bool :=
  c = '\n' || c = '\r' || c = '\u2028' || c = '\u2029'

/-- `parseInt(s)` without a radix; `none` is `NaN`. -/
def parseInt (s : List Char) : Option Int :=
  match s.dropWhile isJsSpace with
  | '-' :: u => (magnitude u).map fun n : Nat => -(n : Int)
  | '+' :: u => (magnitude u).map fun n : Nat => (n : Int)
  | u => (magnitude u).map fun n : Nat => (n : Int)
where
  /-- the longest run of digits, in base 16 after `0x` -/
  magnitude : List Char → Option Nat
    | '0' :: 'x' :: u => hexadecimal (u.takeWhile isHexDigit)
    | '0' :: 'X' :: u => hexadecimal (u.takeWhile isHexDigit)
    | u =>
        let digits := u.takeWhile Char.isDigit
        if digits = [] then none else some (Nat.ofDigitChars 10 digits 0)
  isHexDigit (c : Char) : Bool := c.isDigit || "abcdefABCDEF".toList.contains c
  hexadecimal (digits : List Char) : Option Nat :=
    if digits = [] then none
    else some (digits.foldl (fun n c => 16 * n + hexValue c) 0)
  hexValue (c : Char) : Nat :=
    if c.isDigit then c.toNat - 48
    else if 97 ≤ c.toNat then c.toNat - 87 else c.toNat - 55

/-! ## C++ -/

/-- A C string ends at the first NUL. -/
def cText (s : List Char) : List Char := s.takeWhile (· ≠ '\x00')

/-- `String::Length()`: the UTF-16 units of a V8 string. -/
def v8Length (s : List Char) : Nat :=
  (s.map fun c => if c.toNat < 0x10000 then 1 else 2).sum

def utf8Length (s : List Char) : Nat := (s.map Char.utf8Size).sum

/-- A V8 string as a C string: `WriteUtf8` into a buffer of `Length() + 1`
bytes.  `none` stands for a write past the end of the buffer, after which
C++ promises nothing. -/
def extractV8String (s : List Char) : Option (List Char) :=
  if utf8Length s + 1 ≤ v8Length s + 1 then some (cText s) else none

/-- `isspace` in the C locale. -/
def isCSpace (c : Char) : Bool := c = ' ' || (9 ≤ c.toNat && c.toNat ≤ 13)

/-- `stream >> n` for an `int`; `none` where the stream fails, which it also
does for a number that is no `int`. -/
def streamInt (s : List Char) : Option Int :=
  match s.dropWhile isCSpace with
  | '-' :: u => signed u fun n => -n
  | '+' :: u => signed u id
  | u => signed u id
where
  signed (u : List Char) (sign : Int → Int) : Option Int :=
    let digits := u.takeWhile Char.isDigit
    let n := sign (Nat.ofDigitChars 10 digits 0)
    if digits = [] ∨ n < -2 ^ 31 ∨ 2 ^ 31 ≤ n then none else some n

/-- `stream << n` for an unsigned integer. -/
def showNat (n : Nat) : List Char := Nat.toDigits 10 n

/-- `stream << n` for an `int`. -/
def showInt (n : Int) : List Char :=
  if n < 0 then '-' :: showNat n.natAbs else showNat n.natAbs

/-- The decimal digits of `n` that `stream << (double) n` keeps, and the
power of ten they count: at most six, rounded half to even. -/
def significand (n : Nat) : Nat × Nat :=
  let k := (showNat n).length - 6
  let q := n / 10 ^ k
  let r := 2 * (n % 10 ^ k)
  if 10 ^ k < r ∨ (r = 10 ^ k ∧ q % 2 = 1) then (q + 1, k) else (q, k)

/-- `d.ddd` from the digits of a number, without trailing zeros. -/
def showMantissa (m : Nat) : List Char :=
  match (showNat m).rdropWhile (· = '0') with
  | [] => []
  | [d] => [d]
  | d :: ds => d :: '.' :: ds

/-- At least two digits, as the exponent of a `double` is printed. -/
def showExponent (e : Nat) : List Char :=
  if e < 10 then '0' :: showNat e else showNat e

/-- `stream << (double) n` for an integer `n`: six digits, and an exponent
from a million on. -/
def showDouble (n : Nat) : List Char :=
  if n < 1000000 then showNat n
  else
    let (m, k) := significand n
    showMantissa m ++ 'e' :: '+' :: showExponent ((showNat m).length - 1 + k)

/-! ## What is written -/

theorem isDigit_of_mem_showNat {n : Nat} {c : Char} (hc : c ∈ showNat n) :
    c.isDigit = true :=
  Nat.isDigit_of_mem_toDigits (by decide) (by decide) hc

/-- Only zero is written with a leading zero. -/
theorem showNat_head {n : Nat} (hn : (showNat n).head? = some '0') :
    n = 0 := by
  induction n using Nat.strong_induction_on with
  | h n ih =>
      rcases Nat.lt_or_ge n 10 with hlt | hge
      · rw [showNat, Nat.toDigits_of_lt_base hlt, List.head?_cons,
          Option.some.injEq] at hn
        have hdigit : ∀ d, d < 10 → d.digitChar = '0' → d = 0 := by decide
        exact hdigit n hlt hn
      · rw [showNat, Nat.toDigits_of_base_le (by decide) hge,
          List.head?_append_of_ne_nil _ Nat.toDigits_ne_nil] at hn
        have hzero := ih (n / 10) (by omega) hn
        omega

theorem not_mem_showNat {c : Char} (hc : c.isDigit = false) (n : Nat) :
    c ∉ showNat n := fun hmem => by
  rw [isDigit_of_mem_showNat hmem] at hc
  cases hc

theorem not_mem_showInt {c : Char} (hc : c.isDigit = false) (hsign : c ≠ '-')
    (n : Int) : c ∉ showInt n := by
  have hnat := not_mem_showNat hc n.natAbs
  unfold showInt
  split
  · rw [List.mem_cons, not_or]
    exact ⟨hsign, hnat⟩
  · exact hnat

@[simp] theorem mem_cText {s : List Char} : '\x00' ∉ cText s := by
  intro hmem
  have h := List.mem_takeWhile_imp hmem
  simp at h

theorem cText_eq_self_iff {s : List Char} : cText s = s ↔ '\x00' ∉ s := by
  rw [cText, List.takeWhile_eq_self_iff]
  constructor
  · intro h hmem
    have hne := h _ hmem
    simp at hne
  · intro h c hc
    rw [decide_eq_true_eq]
    rintro rfl
    exact h hc

theorem cText_subset {s : List Char} {c : Char} (hc : c ∈ cText s) : c ∈ s :=
  List.takeWhile_subset _ hc

/-- UTF-8 needs more bytes than UTF-16 units for all but ASCII. -/
theorem char_size {c : Char} :
    (if c.toNat < 0x10000 then 1 else 2) ≤ c.utf8Size ∧
      (c.utf8Size ≤ (if c.toNat < 0x10000 then 1 else 2) ↔
        c.toNat < 128) := by
  have hval : c.val.toNat = c.toNat := rfl
  unfold Char.utf8Size
  simp only [UInt32.le_iff_toNat_le, hval]
  split_ifs <;> simp_all <;> omega

theorem extractV8String_eq (s : List Char)
    [Decidable (∀ c ∈ s, c.toNat < 128)] :
    extractV8String s =
      if ∀ c ∈ s, c.toNat < 128 then some (cText s) else none := by
  have hfits : v8Length s ≤ utf8Length s ∧
      (utf8Length s ≤ v8Length s ↔ ∀ c ∈ s, c.toNat < 128) := by
    induction s with
    | nil => simp [utf8Length, v8Length]
    | cons c s ih =>
        have hchar := char_size (c := c)
        simp only [utf8Length, v8Length, List.map_cons, List.sum_cons,
          List.forall_mem_cons] at ih ⊢
        rw [← ih.2, ← hchar.2]
        omega
  unfold extractV8String
  simp only [Nat.add_le_add_iff_right, hfits.2]

/-! ## What is read back -/

@[simp] theorem ofDigitChars_showNat (n : Nat) :
    Nat.ofDigitChars 10 (showNat n) 0 = n := Nat.ofDigitChars_ten_toDigits

theorem parseInt_magnitude {ds rest : List Char}
    (hds : ∀ c ∈ ds, c.isDigit = true) (hne : ds ≠ [])
    (hrest : ∀ c ∈ rest.head?, c.isDigit = false ∧ c ≠ 'x' ∧ c ≠ 'X') :
    parseInt.magnitude (ds ++ rest) = some (Nat.ofDigitChars 10 ds 0) := by
  have htake : (ds ++ rest).takeWhile Char.isDigit = ds :=
    Scanning.takeWhile_append hds fun c hc => (hrest c hc).1
  have hsecond {c d : Char} {u : List Char} (h : ds ++ rest = c :: d :: u) :
      d ≠ 'x' ∧ d ≠ 'X' := by
    match ds, hne with
    | [_], _ =>
        have htail : rest = d :: u := (List.cons.inj h).2
        exact (hrest d (by rw [htail]; rfl)).2
    | _ :: e :: _, _ =>
        have he : e = d := (List.cons.inj (List.cons.inj h).2).1
        have hdigit := hds e (by simp)
        rw [he] at hdigit
        constructor <;>
        · rintro rfl
          exact absurd hdigit (by decide)
  unfold parseInt.magnitude
  split
  · next h => exact absurd rfl (hsecond h).1
  · next h => exact absurd rfl (hsecond h).2
  · rw [htake, if_neg hne]

theorem digit_facts {c : Char} (hc : c.isDigit = true) :
    isJsSpace c = false ∧ c ≠ '-' ∧ c ≠ '+' := by
  rw [Char.isDigit, Bool.and_eq_true, decide_eq_true_eq,
    decide_eq_true_eq] at hc
  have hlo : 48 ≤ c.toNat := hc.1
  have hhi : c.toNat ≤ 57 := hc.2
  refine ⟨?_, ?_, ?_⟩
  · simp [isJsSpace]
    omega
  · rintro rfl
    exact absurd hlo (by decide)
  · rintro rfl
    exact absurd hlo (by decide)

theorem parseInt_digits {ds rest : List Char}
    (hds : ∀ c ∈ ds, c.isDigit = true) (hne : ds ≠ [])
    (hrest : ∀ c ∈ rest.head?, c.isDigit = false ∧ c ≠ 'x' ∧ c ≠ 'X') :
    parseInt (ds ++ rest) = some ((Nat.ofDigitChars 10 ds 0 : Nat) : Int) := by
  have hmagnitude := parseInt_magnitude hds hne hrest
  obtain ⟨c, ds', rfl⟩ := List.exists_cons_of_ne_nil hne
  obtain ⟨hspace, hminus, hplus⟩ := digit_facts (hds c List.mem_cons_self)
  unfold parseInt
  rw [List.cons_append, List.dropWhile_cons_of_neg (by simp [hspace])]
  split
  · next heq => exact absurd (List.cons.inj heq).1 hminus
  · next heq => exact absurd (List.cons.inj heq).1 hplus
  · rw [List.cons_append] at hmagnitude
    rw [hmagnitude]
    rfl

theorem parseInt_showNat (n : Nat) : parseInt (showNat n) = some (n : Int) := by
  have h := @parseInt_digits (showNat n) []
    (fun _ => isDigit_of_mem_showNat) Nat.toDigits_ne_nil nofun
  rw [List.append_nil] at h
  rw [h, ofDigitChars_showNat]

theorem parseInt_showInt (n : Int) : parseInt (showInt n) = some n := by
  unfold showInt
  split
  · next hneg =>
      have h := @parseInt_magnitude (showNat n.natAbs) []
        (fun _ => isDigit_of_mem_showNat) Nat.toDigits_ne_nil nofun
      rw [List.append_nil] at h
      have hparse : parseInt ('-' :: showNat n.natAbs) =
          some (-(n.natAbs : Int)) := by
        rw [parseInt, List.dropWhile_cons_of_neg (by decide)]
        simp only [h, Option.map_some, ofDigitChars_showNat]
      rw [hparse]
      congr 1
      omega
  · rw [parseInt_showNat]
    congr 1
    omega

theorem significand_ne_zero {n : Nat} (hn : n ≠ 0) :
    (significand n).1 ≠ 0 := by
  have hpow : 10 ^ ((showNat n).length - 6) ≤ n := by
    rcases Nat.eq_zero_or_pos ((showNat n).length - 6) with hk | hk
    · rw [hk]
      omega
    · rw [← Nat.not_lt, ← Nat.length_toDigits_le_iff (by decide) hk]
      change ¬ (showNat n).length ≤ _
      omega
  have hq : 0 < n / 10 ^ ((showNat n).length - 6) :=
    Nat.div_pos hpow (Nat.pow_pos (by decide))
  unfold significand
  dsimp only
  split
  · exact Nat.succ_ne_zero _
  · exact Nat.ne_of_gt hq

/-- The digits that a mantissa shows. -/
def mantissaDigits (m : Nat) : List Char := (showNat m).rdropWhile (· = '0')

/-- What follows the first digit of a mantissa. -/
def fraction : List Char → List Char
  | [] => []
  | d :: ds => '.' :: d :: ds

theorem showMantissa_eq {m : Nat} (hm : m ≠ 0) :
    ∃ d ds, mantissaDigits m = d :: ds ∧
      showMantissa m = d :: fraction ds := by
  have hne : mantissaDigits m ≠ [] := by
    intro hnil
    have hzero : ∀ c ∈ showNat m, c = '0' := by
      simpa [mantissaDigits, List.rdropWhile_eq_nil_iff] using hnil
    have hvalue := ofDigitChars_showNat m
    rw [List.eq_replicate_of_mem hzero,
      Nat.ofDigitChars_replicate_zero] at hvalue
    omega
  obtain ⟨d, ds, hds⟩ := List.exists_cons_of_ne_nil hne
  refine ⟨d, ds, hds, ?_⟩
  unfold showMantissa
  unfold mantissaDigits at hds
  rw [hds]
  cases ds <;> rfl

theorem isDigit_of_mem_mantissaDigits {m : Nat} {c : Char}
    (hc : c ∈ mantissaDigits m) : c.isDigit = true :=
  isDigit_of_mem_showNat ((List.rdropWhile_prefix _ _).subset hc)

/-- The characters of a printed number. -/
theorem mem_showDouble {n : Nat} {c : Char} (hc : c ∈ showDouble n) :
    c.isDigit = true ∨ c = '.' ∨ c = 'e' ∨ c = '+' := by
  have hexponent {e : Nat} (h : c ∈ showExponent e) : c.isDigit = true := by
    unfold showExponent at h
    split at h
    · rcases List.mem_cons.mp h with rfl | h
      · decide
      · exact isDigit_of_mem_showNat h
    · exact isDigit_of_mem_showNat h
  unfold showDouble at hc
  split at hc
  · exact Or.inl (isDigit_of_mem_showNat hc)
  · next hn =>
      obtain ⟨d, ds, hdigits, hshow⟩ := showMantissa_eq
        (significand_ne_zero (n := n) (by omega))
      have hmantissa : ∀ x ∈ d :: ds, x.isDigit = true := fun x hx =>
        isDigit_of_mem_mantissaDigits (by rw [hdigits]; exact hx)
      dsimp only at hc
      rw [hshow, List.mem_append, List.mem_cons, List.mem_cons,
        List.mem_cons] at hc
      rcases hc with (rfl | hc) | rfl | rfl | hc
      · exact Or.inl (hmantissa c List.mem_cons_self)
      · cases ds with
        | nil => cases hc
        | cons x xs =>
            rcases List.mem_cons.mp hc with rfl | hc
            · exact Or.inr (Or.inl rfl)
            · exact Or.inl (hmantissa c (List.mem_cons_of_mem d hc))
      · exact Or.inr (Or.inr (Or.inl rfl))
      · exact Or.inr (Or.inr (Or.inr rfl))
      · exact Or.inl (hexponent hc)

/-- A count of a million or more is read back as its first digit. -/
theorem parseInt_showDouble {n : Nat} :
    parseInt (showDouble n) = some (n : Int) ↔ n < 1000000 := by
  unfold showDouble
  split
  · next hn => exact iff_of_true (parseInt_showNat n) hn
  · next hn =>
      refine iff_of_false ?_ hn
      obtain ⟨d, ds, hdigits, hshow⟩ := showMantissa_eq
        (significand_ne_zero (n := n) (by omega))
      have hdigit : ∀ c ∈ [d], c.isDigit = true := by
        intro c hc
        rw [List.mem_singleton.mp hc]
        exact isDigit_of_mem_mantissaDigits
          (by rw [hdigits]; exact List.mem_cons_self)
      dsimp only
      rw [hshow, List.cons_append, ← List.singleton_append,
        parseInt_digits hdigit (List.cons_ne_nil _ _)
          (by cases ds <;> simp [fraction])]
      have hsmall : Nat.ofDigitChars 10 [d] 0 ≤ 9 := by
        have hd := hdigit d (List.mem_singleton_self d)
        rw [Char.isDigit, Bool.and_eq_true, decide_eq_true_eq,
          decide_eq_true_eq] at hd
        have hhi : d.toNat ≤ 57 := hd.2
        simp [Nat.ofDigitChars_cons]
        omega
      intro heq
      have hvalue := Option.some.inj heq
      omega

/-! ## Lines and fields -/

/-- The text before the first `a`. -/
def upTo (a : Char) (s : List Char) : List Char := s.takeWhile (· ≠ a)

theorem upTo_eq_self_iff {a : Char} {s : List Char} :
    upTo a s = s ↔ a ∉ s := by
  rw [upTo, List.takeWhile_eq_self_iff]
  constructor
  · intro h hmem
    have hne := h a hmem
    simp at hne
  · intro h c hc
    rw [decide_eq_true_eq]
    rintro rfl
    exact h hc

/-- The first piece of a split text. -/
theorem splitOn_head (a : Char) (s : List Char) :
    (s.splitOn a)[0]? = some (upTo a s) := by
  induction s with
  | nil => rfl
  | cons c s ih =>
      rw [List.splitOn_cons_eq_if_modifyHead]
      by_cases hc : c = a
      · rw [if_pos (beq_iff_eq.mpr hc), upTo,
          List.takeWhile_cons_of_neg (by simp [hc])]
        rfl
      · obtain ⟨head, tail, hsplit⟩ :=
          List.exists_cons_of_ne_nil (List.splitOn_ne_nil a s)
        rw [hsplit] at ih ⊢
        have hhead : head = upTo a s := Option.some.inj ih
        rw [if_neg (by simpa using hc), upTo,
          List.takeWhile_cons_of_pos (by simp [hc]), hhead]
        rfl

/-- No piece of a split text has the separator in it. -/
theorem not_mem_of_mem_splitOn {a : Char} {s piece : List Char}
    (hpiece : piece ∈ s.splitOn a) : a ∉ piece := by
  induction s generalizing piece with
  | nil =>
      rw [List.splitOn_nil, List.mem_singleton] at hpiece
      rw [hpiece]
      exact List.not_mem_nil
  | cons c s ih =>
      rw [List.splitOn_cons_eq_if_modifyHead] at hpiece
      split at hpiece
      · rcases List.mem_cons.mp hpiece with rfl | hrest
        · exact List.not_mem_nil
        · exact ih hrest
      · next hne =>
          obtain ⟨head, tail, hsplit⟩ :=
            List.exists_cons_of_ne_nil (List.splitOn_ne_nil a s)
          rw [hsplit] at hpiece ih
          rcases List.mem_cons.mp hpiece with rfl | hrest
          · rw [List.mem_cons, not_or]
            exact ⟨fun h => hne (by simp [h]),
              ih List.mem_cons_self⟩
          · exact ih (List.mem_cons_of_mem head hrest)

/-- A piece of a split text is part of it. -/
theorem subset_of_mem_splitOn {a : Char} {s piece : List Char}
    (hpiece : piece ∈ s.splitOn a) : piece ⊆ s := by
  have hjoin : [a].intercalate (s.splitOn a) = s :=
    List.intercalate_splitOn a
  rw [← hjoin]
  generalize s.splitOn a = pieces at hpiece
  induction pieces with
  | nil => cases hpiece
  | cons p ps ih =>
      rcases List.mem_cons.mp hpiece with rfl | hps
      · cases ps with
        | nil => rw [List.intercalate_singleton]; exact List.Subset.refl _
        | cons q qs =>
            rw [List.intercalate_cons_cons, List.append_assoc]
            exact List.subset_append_left _ _
      · rw [List.intercalate_cons_of_ne_nil (List.ne_nil_of_mem hps)]
        exact List.subset_append_of_subset_right _ (ih hps)

theorem not_mem_intercalate {a : Char} {sep : List Char}
    {pieces : List (List Char)} (hsep : a ∉ sep)
    (hpieces : ∀ p ∈ pieces, a ∉ p) : a ∉ sep.intercalate pieces := by
  induction pieces with
  | nil => exact List.not_mem_nil
  | cons p ps ih =>
      rw [List.forall_mem_cons] at hpieces
      cases ps with
      | nil => rw [List.intercalate_singleton]; exact hpieces.1
      | cons q qs =>
          rw [List.intercalate_cons_cons, List.mem_append, List.mem_append,
            not_or, not_or]
          exact ⟨⟨hpieces.1, hsep⟩, ih hpieces.2⟩

/-- Splitting newline-terminated lines, and what follows the last newline. -/
theorem splitOn_lines {ls : List (List Char)} {last : List Char}
    (hls : ∀ l ∈ ls, '\n' ∉ l) (hlast : '\n' ∉ last) :
    (ls.flatMap (fun l => l ++ ['\n']) ++ last).splitOn '\n' =
      ls ++ [last] := by
  induction ls with
  | nil => exact List.splitOn_eq_singleton hlast
  | cons l ls ih =>
      rw [List.forall_mem_cons] at hls
      rw [List.flatMap_cons, List.append_assoc, List.append_assoc,
        List.singleton_append,
        List.splitOn_append_cons_self_of_not_mem hls.1, ih hls.2]
      rfl

/-- Trimming a text that begins and ends with no space, but for what comes
after its last character `c`. -/
theorem jsTrim_append_cons {s t : List Char} {c : Char}
    (hfirst : ∀ x ∈ (s ++ c :: t).head?, isJsSpace x = false)
    (hc : isJsSpace c = false) :
    jsTrim (s ++ c :: t) = s ++ c :: t.rdropWhile isJsSpace := by
  have hstart : ([] ++ (s ++ c :: t)).dropWhile isJsSpace = s ++ c :: t :=
    Scanning.dropWhile_append nofun hfirst
  rw [List.nil_append] at hstart
  rw [jsTrim, hstart, Scanning.rdropWhile_append_cons hc]

end Appmetrics
