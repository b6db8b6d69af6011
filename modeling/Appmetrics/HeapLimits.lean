/-
src/plugins/node/env/nodeenvplugin.cpp: the heap limits that the environment
plugin guesses from the options of the process, in `long` and `size_t`
arithmetic.
-/
import Appmetrics.Environment
import Appmetrics.Rounding

namespace Appmetrics

namespace EnvPlugin

/-- Whether `long` has 64 bits, and whether V8 runs on Linux for PPC; `size_t`
has 64 bits. -/
structure Platform where
  longIs64 : Bool
  ppcLinux : Bool
deriving Repr, DecidableEq

namespace Platform

def longBits (pl : Platform) : Nat := if pl.longIs64 then 64 else 32

/-- `Megabytes(HEAP_PAGE_SIZE)`. -/
def heapPageSize (pl : Platform) : Nat :=
  (if pl.ppcLinux then 4 else 1) * 1024 * 1024

end Platform

/-! ## Numbers in arguments -/

/-- An optional sign and digits, after white space; 0 without digits. -/
def decimalNumber (s : List Char) : Int :=
  match s.dropWhile isCSpace with
  | '-' :: u => -(digits u : Int)
  | '+' :: u => digits u
  | u => digits u
where
  digits (u : List Char) : Nat :=
    Nat.ofDigitChars 10 (u.takeWhile Char.isDigit) 0

/-- `strtol(s, NULL, 10)`: numbers that are no `long` become its limits. -/
def strtol (longBits : Nat) (s : List Char) : Int :=
  max (-2 ^ (longBits - 1)) (min (2 ^ (longBits - 1) - 1) (decimalNumber s))

/-- The result of an operation on `long`; `none` stands for an overflow, after
which C++ promises nothing. -/
def toLong (longBits : Nat) (n : Int) : Option Int :=
  if -2 ^ (longBits - 1) ≤ n ∧ n < 2 ^ (longBits - 1) then some n else none

/-- `Megabytes(V)` of a `long`. -/
def megabytes (longBits : Nat) (v : Int) : Option Int := do
  let kilobytes ← toLong longBits (v * 1024)
  toLong longBits (kilobytes * 1024)

/-- The conversion of a `long` to `size_t`. -/
def toSize (n : Int) : Nat := (n % 2 ^ 64).toNat

/-- How many characters the loop over `idx` passes, from both texts on. -/
def matchedLength : List Char → List Char → Nat
  | a :: argName, b :: arg =>
      if a ≠ b ∧ ¬(a = '-' ∧ b = '_') then 0
      else matchedLength argName arg + 1
  | _, _ => 0

/-- The loop body, after `ToStdString`. -/
def guessFromArg (longBits : Nat) (argName : List Char) (result : Nat)
    (arg : List Char) : Option Nat :=
  if arg.length > argName.length then
    if arg[0]? = some '-' ∧ arg[1]? = some '-' then
      let idx := 2 + matchedLength (argName.drop 2) (arg.drop 2)
      if idx = argName.length then
        (megabytes longBits (strtol longBits (arg.drop idx))).map toSize
      else some result
    else some result
  else some result

def guessFromV8Arg (longBits : Nat) (argName : List Char) (result : Nat)
    (nodeArgString : List Char) : Option Nat := do
  let arg ← extractV8String nodeArgString
  guessFromArg longBits argName result arg

def guessSpaceSizeFromArgs (longBits : Nat) (argName : List Char)
    (execArgv : List (List Char)) : Option Nat :=
  execArgv.foldlM (guessFromV8Arg longBits argName) 0

/-! ## Guesses -/

def guessDefaultMaxOldSpaceSize (pl : Platform) : Nat :=
  700 * (8 / 4) * 1024 * 1024 % 2 ^ pl.longBits

def guessDefaultMaxSemiSpaceSize (pl : Platform) : Nat :=
  8 * (8 / 4) * 1024 * 1024 % 2 ^ pl.longBits

def align (value alignment : Nat) : Nat :=
  if value % alignment ≠ 0 then
    (1 + value / alignment) * alignment % 2 ^ 64
  else value

def alignToPowerOfTwo (sizeBits value : Nat) : Nat :=
  let result := (value + 2 ^ sizeBits - 1) % 2 ^ sizeBits
  let result := result ||| result >>> 1
  let result := result ||| result >>> 2
  let result := result ||| result >>> 4
  let result := result ||| result >>> 8
  let result := result ||| result >>> 16
  let result := if sizeBits = 64 then result ||| result >>> 32 else result
  (result + 1) % 2 ^ sizeBits

def maxOldSpaceSizeName : List Char := "--max-old-space-size=".toList

def maxSemiSpaceSizeName : List Char := "--max-semi-space-size=".toList

def guessMaxOldSpaceSize (pl : Platform) (execArgv : List (List Char)) :
    Option Nat := do
  let result ← guessSpaceSizeFromArgs pl.longBits maxOldSpaceSizeName execArgv
  let result := if result ≤ 0 then guessDefaultMaxOldSpaceSize pl else result
  if result ≤ 0 then some 0 else some (align result pl.heapPageSize)

def guessMaxSemiSpaceSize (pl : Platform) (execArgv : List (List Char)) :
    Option Nat := do
  let result ← guessSpaceSizeFromArgs pl.longBits maxSemiSpaceSizeName execArgv
  let result := if result ≤ 0 then guessDefaultMaxSemiSpaceSize pl else result
  if result ≤ 0 then some 0
  else some (alignToPowerOfTwo 64 (align result pl.heapPageSize))

/-! ## Matching -/

/-- `_` is as good as `-`. -/
def dash (c : Char) : Char := if c = '_' then '-' else c

/-- The text behind the name of an option, if there is any. -/
def valueText (name arg : List Char) : Option (List Char) :=
  match arg with
  | '-' :: '-' :: rest =>
      if (rest.take name.length).map dash = name ∧ rest.drop name.length ≠ []
      then some (rest.drop name.length)
      else none
  | _ => none

/-- The numbers that the arguments carry for an option. -/
def numbers (name : List Char) (execArgv : List (List Char)) : List Int :=
  execArgv.filterMap fun a => (valueText name (cText a)).map decimalNumber

theorem matchedLength_eq_iff {name : List Char} (hname : '_' ∉ name)
    (arg : List Char) :
    matchedLength name arg = name.length ↔
      (arg.take name.length).map dash = name := by
  induction name generalizing arg with
  | nil => simp [matchedLength]
  | cons a name ih =>
      obtain ⟨ha, hname⟩ := not_or.mp (mt List.mem_cons.mpr hname)
      cases arg with
      | nil => simp [matchedLength]
      | cons b arg =>
          have hdash : dash b = a ↔ ¬(a ≠ b ∧ ¬(a = '-' ∧ b = '_')) := by
            unfold dash
            split
            · next hb =>
                subst hb
                have hne : a ≠ '_' := Ne.symm ha
                simp [hne, eq_comm]
            · next hb => simp [hb, eq_comm]
          unfold matchedLength
          rw [List.length_cons, List.take_succ_cons, List.map_cons,
            List.cons.injEq, hdash]
          split
          · next hne => exact iff_of_false (by simp) fun h => h.1 hne
          · next heq =>
              rw [Nat.add_right_cancel_iff, ih hname]
              exact (and_iff_right heq).symm

/-- An argument that starts as an option does. -/
theorem guessFromArg_option (longBits result : Nat) (name rest : List Char) :
    guessFromArg longBits ('-' :: '-' :: name) result ('-' :: '-' :: rest) =
      if rest.length > name.length then
        if matchedLength name rest = name.length then
          (megabytes longBits
            (strtol longBits (rest.drop name.length))).map toSize
        else some result
      else some result := by
  by_cases hmatch : matchedLength name rest = name.length
  · simp [guessFromArg, hmatch, Nat.add_comm 2]
  · have hidx : 2 + matchedLength name rest ≠ name.length + 2 := by omega
    simp [guessFromArg, hmatch, hidx]

/-- What the loop does with one argument. -/
theorem guessFromArg_eq (longBits result : Nat) {name : List Char}
    (hname : '_' ∉ name) (arg : List Char) :
    guessFromArg longBits ('-' :: '-' :: name) result arg =
      (valueText name arg).elim (some result) fun text =>
        (megabytes longBits (strtol longBits text)).map toSize := by
  unfold valueText
  split
  · next rest =>
      have hdrop : rest.drop name.length ≠ [] ↔ rest.length > name.length := by
        rw [ne_eq, List.drop_eq_nil_iff, Nat.not_le]
      have hmatched := matchedLength_eq_iff hname rest
      rw [guessFromArg_option]
      by_cases hlong : rest.length > name.length
      · by_cases hmatch : (rest.take name.length).map dash = name
        · rw [if_pos hlong, if_pos (hmatched.mpr hmatch),
            if_pos ⟨hmatch, hdrop.mpr hlong⟩]
          rfl
        · rw [if_pos hlong, if_neg (mt hmatched.mp hmatch),
            if_neg (fun h => hmatch h.1)]
          rfl
      · rw [if_neg hlong, if_neg (fun h => hlong (hdrop.mp h.2))]
        rfl
  · next hother =>
      have hdashes : ¬(arg[0]? = some '-' ∧ arg[1]? = some '-') := by
        rintro ⟨hfirst, hsecond⟩
        cases arg with
        | nil => cases hfirst
        | cons a arg =>
            cases arg with
            | nil => cases hsecond
            | cons b rest =>
                cases hfirst
                cases hsecond
                exact hother rest rfl
      unfold guessFromArg
      rw [if_neg hdashes, ite_self]
      rfl

/-! ## Arithmetic -/

/-- So many megabytes are a `long`. -/
def Fits (pl : Platform) (n : Int) : Prop :=
  -2 ^ (pl.longBits - 1) ≤ n * 2 ^ 20 ∧ n * 2 ^ 20 < 2 ^ (pl.longBits - 1)

instance (pl : Platform) (n : Int) : Decidable (Fits pl n) :=
  inferInstanceAs (Decidable (_ ∧ _))

theorem two_le_long (pl : Platform) :
    (2 : Int) ≤ 2 ^ (pl.longBits - 1) := by
  unfold Platform.longBits
  split <;> decide

/-- The first product is a `long` if the second is. -/
theorem megabytes_eq (longBits : Nat) (v : Int) :
    megabytes longBits v = toLong longBits (v * 2 ^ 20) := by
  have hassoc : v * 1024 * 1024 = v * 2 ^ 20 := by omega
  have hpos : (0 : Int) < 2 ^ (longBits - 1) := Int.pow_pos (by decide)
  unfold megabytes toLong
  generalize (2 : Int) ^ (longBits - 1) = bound at hpos ⊢
  by_cases hfits : -bound ≤ v * 1024 ∧ v * 1024 < bound
  · rw [if_pos hfits, Option.bind_eq_bind, Option.bind_some, hassoc]
  · rw [if_neg hfits, if_neg (by omega)]
    rfl

theorem megabytes_strtol (pl : Platform) (text : List Char) :
    megabytes pl.longBits (strtol pl.longBits text) =
      if Fits pl (decimalNumber text) then
        some (decimalNumber text * 2 ^ 20)
      else none := by
  have hbound := two_le_long pl
  rw [megabytes_eq]
  unfold strtol toLong
  by_cases hfits : Fits pl (decimalNumber text)
  · rw [if_pos hfits]
    unfold Fits at hfits
    generalize (2 : Int) ^ (pl.longBits - 1) = bound at hbound hfits ⊢
    have hclamp : max (-bound) (min (bound - 1) (decimalNumber text)) =
        decimalNumber text := by omega
    rw [hclamp, if_pos hfits]
  · rw [if_neg hfits]
    unfold Fits at hfits
    generalize (2 : Int) ^ (pl.longBits - 1) = bound at hbound hfits ⊢
    exact if_neg (by omega)

/-- Pages are a power of two, and divide the range of `size_t`. -/
theorem heapPageSize_eq (pl : Platform) :
    ∃ p, pl.heapPageSize = 2 ^ p ∧ 20 ≤ p ∧ p ≤ 22 := by
  unfold Platform.heapPageSize
  split
  · exact ⟨22, rfl, by decide, by decide⟩
  · exact ⟨20, rfl, by decide, by decide⟩

theorem heapPageSize_le (pl : Platform) : pl.heapPageSize ≤ 2 ^ 22 := by
  obtain ⟨p, heq, _, hp⟩ := heapPageSize_eq pl
  rw [heq]
  exact Nat.pow_le_pow_right (by decide) hp

theorem next_multiple_lt {value : Nat} (pl : Platform)
    (hvalue : value ≤ 2 ^ 63) :
    (1 + value / pl.heapPageSize) * pl.heapPageSize < 2 ^ 64 := by
  have hpage := heapPageSize_le pl
  have hdiv := Nat.div_mul_le_self value pl.heapPageSize
  rw [Nat.add_mul, Nat.one_mul]
  omega

theorem align_eq {value : Nat} (pl : Platform) (hvalue : value ≤ 2 ^ 63) :
    align value pl.heapPageSize = Rounding.align value pl.heapPageSize := by
  rw [align, Rounding.align, Nat.mod_eq_of_lt (next_multiple_lt pl hvalue)]

/-- The shifts of `AlignToPowerOfTwo`. -/
def shifts (sizeBits : Nat) : List Nat :=
  [1, 2, 4, 8, 16] ++ if sizeBits = 64 then [32] else []

/-- `sizeof(size_t)`, in bits. -/
def SizeBits (sizeBits : Nat) : Prop := sizeBits = 32 ∨ sizeBits = 64

theorem spread_shifts {sizeBits x : Nat} (hsize : SizeBits sizeBits)
    (hx : x < 2 ^ sizeBits) :
    Rounding.spread x (shifts sizeBits) + 1 = 2 ^ Nat.clog 2 (x + 1) := by
  have hspread : Rounding.SpreadBy sizeBits x
      (Rounding.spread x (shifts sizeBits)) := by
    rcases hsize with rfl | rfl
    · exact Rounding.spreadBy_foldl (Rounding.spreadBy_one x)
        (by simp [shifts, Rounding.Doubling])
    · exact Rounding.spreadBy_foldl (Rounding.spreadBy_one x)
        (by simp [shifts, Rounding.Doubling])
  exact hspread.succ_eq hx

-- stated for a variable, since the number itself is not to be evaluated
theorem alignToPowerOfTwo_eq_spread {sizeBits value x : Nat}
    (hx : (value + 2 ^ sizeBits - 1) % 2 ^ sizeBits = x) :
    alignToPowerOfTwo sizeBits value =
      (Rounding.spread x (shifts sizeBits) + 1) % 2 ^ sizeBits := by
  unfold alignToPowerOfTwo shifts
  rw [hx]
  split <;> rfl

theorem alignToPowerOfTwo_eq {sizeBits : Nat} (hsize : SizeBits sizeBits)
    (value : Nat) :
    alignToPowerOfTwo sizeBits value =
      2 ^ Nat.clog 2 ((value + 2 ^ sizeBits - 1) % 2 ^ sizeBits + 1) %
        2 ^ sizeBits := by
  rw [alignToPowerOfTwo_eq_spread rfl,
    spread_shifts hsize (Nat.mod_lt _ (Nat.two_pow_pos sizeBits))]

theorem pred_mod {sizeBits value : Nat} (hpos : 0 < value)
    (hlt : value < 2 ^ sizeBits) :
    (value + 2 ^ sizeBits - 1) % 2 ^ sizeBits = value - 1 := by
  have hcarry : value + 2 ^ sizeBits - 1 = value - 1 + 2 ^ sizeBits := by
    omega
  rw [hcarry, Nat.add_mod_right]
  exact Nat.mod_eq_of_lt (by omega)

theorem pred_mod_succ {sizeBits value : Nat} (hpos : 0 < value)
    (hlt : value < 2 ^ sizeBits) :
    (value + 2 ^ sizeBits - 1) % 2 ^ sizeBits + 1 = value := by
  rw [pred_mod hpos hlt]
  exact Nat.sub_add_cancel hpos

/-- The lower half of the range, with its upper end. -/
theorem two_pow_clog_lt {sizeBits value : Nat} (hsize : SizeBits sizeBits)
    (hle : value ≤ 2 ^ (sizeBits - 1)) :
    2 ^ Nat.clog 2 value < 2 ^ sizeBits := by
  have hclog : Nat.clog 2 value ≤ sizeBits - 1 := Nat.clog_le_of_le_pow hle
  refine Nat.pow_lt_pow_right (by decide) ?_
  rcases hsize with rfl | rfl <;> omega

theorem lt_two_pow_of_le {sizeBits value : Nat} (hsize : SizeBits sizeBits)
    (hle : value ≤ 2 ^ (sizeBits - 1)) : value < 2 ^ sizeBits := by
  rcases hsize with rfl | rfl <;> omega

theorem alignToPowerOfTwo_of_le {sizeBits value : Nat}
    (hsize : SizeBits sizeBits) (hpos : 0 < value)
    (hle : value ≤ 2 ^ (sizeBits - 1)) :
    alignToPowerOfTwo sizeBits value = 2 ^ Nat.clog 2 value := by
  rw [alignToPowerOfTwo_eq hsize,
    pred_mod_succ hpos (lt_two_pow_of_le hsize hle)]
  exact Nat.mod_eq_of_lt (two_pow_clog_lt hsize hle)

/-- What is too large wraps around, or stays large. -/
theorem alignToPowerOfTwo_of_large {value : Nat}
    (hvalue : value = 0 ∨ 2 ^ 63 ≤ value) (hlt : value < 2 ^ 64) :
    alignToPowerOfTwo 64 value = 0 ∨ 2 ^ 63 ≤ alignToPowerOfTwo 64 value := by
  have hclog : ∃ k, (k = 63 ∨ k = 64) ∧
      alignToPowerOfTwo 64 value = 2 ^ k % 2 ^ 64 := by
    refine ⟨_, ?_, alignToPowerOfTwo_eq (Or.inr rfl) value⟩
    rcases hvalue with rfl | hle
    · refine Or.inr ?_
      exact Nat.clog_pow 2 64 (by decide)
    · rw [pred_mod_succ (by omega) hlt]
      have hlow : 63 ≤ Nat.clog 2 value :=
        (Nat.clog_pow 2 63 (by decide)).symm.trans_le
          (Nat.clog_mono_right 2 hle)
      have hhigh : Nat.clog 2 value ≤ 64 := Nat.clog_le_of_le_pow hlt.le
      omega
  obtain ⟨k, rfl | rfl, heq⟩ := hclog
  · refine Or.inr (heq ▸ ?_)
    decide
  · refine Or.inl (heq ▸ ?_)
    decide

/-! ## The last number -/

/-- No argument overruns its buffer. -/
def AsciiArgs (execArgv : List (List Char)) : Prop :=
  ∀ a ∈ execArgv, ∀ c ∈ a, c.toNat < 128

def byteSize (n : Int) : Nat := toSize (n * 2 ^ 20)

theorem foldlM_eq_some_iff (pl : Platform) {name : List Char}
    (hname : '_' ∉ name) (execArgv : List (List Char)) (result r : Nat) :
    execArgv.foldlM (guessFromV8Arg pl.longBits ('-' :: '-' :: name)) result =
        some r ↔
      AsciiArgs execArgv ∧ (∀ n ∈ numbers name execArgv, Fits pl n) ∧
        ((numbers name execArgv).getLast?.map byteSize).getD result = r := by
  induction execArgv generalizing result with
  | nil => simp [AsciiArgs, numbers]
  | cons a execArgv ih =>
      have hascii : AsciiArgs (a :: execArgv) ↔
          (∀ c ∈ a, c.toNat < 128) ∧ AsciiArgs execArgv := List.forall_mem_cons
      rw [List.foldlM_cons, guessFromV8Arg, extractV8String_eq, hascii]
      by_cases ha : ∀ c ∈ a, c.toNat < 128
      · rw [if_pos ha, Option.bind_eq_bind, Option.bind_eq_bind,
          Option.bind_some, guessFromArg_eq _ _ hname, and_iff_right ha]
        cases hvalue : valueText name (cText a) with
        | none =>
            have hnumbers : numbers name (a :: execArgv) =
                numbers name execArgv := by
              simp [numbers, hvalue]
            rw [hnumbers]
            exact ih result
        | some text =>
            have hnumbers : numbers name (a :: execArgv) =
                decimalNumber text :: numbers name execArgv := by
              simp [numbers, hvalue]
            rw [hnumbers, Option.elim_some, megabytes_strtol,
              List.forall_mem_cons]
            by_cases hfits : Fits pl (decimalNumber text)
            · rw [if_pos hfits, and_iff_right hfits, List.getLast?_cons]
              refine (ih _).trans ?_
              cases (numbers name execArgv).getLast? <;> rfl
            · rw [if_neg hfits]
              exact iff_of_false (by rintro ⟨⟩) fun h => hfits h.2.1.1
      · rw [if_neg ha]
        exact iff_of_false (by rintro ⟨⟩) fun h => ha h.1.1

theorem byteSize_of_nonneg {n : Int} (hn : 0 ≤ n) (hlt : n < 2 ^ 31) :
    byteSize n = n.toNat * 2 ^ 20 := by
  unfold byteSize toSize
  omega

theorem byteSize_of_neg {pl : Platform} {n : Int} (hn : n < 0)
    (hfits : Fits pl n) : 2 ^ 63 ≤ byteSize n ∧ byteSize n < 2 ^ 64 := by
  have hlow : -2 ^ 63 ≤ n * 2 ^ 20 := by
    refine le_trans (neg_le_neg ?_) hfits.1
    unfold Platform.longBits
    split <;> decide
  unfold byteSize toSize
  omega

/-! ## Guesses and requests -/

/-- The bytes an option asks for by its last number. -/
def requested (default : Nat) : Option Int → Nat
  | some n => if 0 < n then n.toNat * 2 ^ 20 else default
  | none => default

/-- Rounding up to the least of the admitted sizes, as far as it is not
from the upper half of `size_t`. -/
structure Rounds (round : Nat → Nat) (sizes : Set Nat) : Prop where
  least : ∀ v, 0 < v → v ≤ 2 ^ 63 →
    IsLeast {m | m ∈ sizes ∧ v ≤ m} (round v)
  large : ∀ v, 2 ^ 63 ≤ v → v < 2 ^ 64 → round v = 0 ∨ 2 ^ 63 ≤ round v

theorem align_of_large {value : Nat} (pl : Platform) (hvalue : 2 ^ 63 ≤ value)
    (hlt : value < 2 ^ 64) :
    (align value pl.heapPageSize = 0 ∨ 2 ^ 63 ≤ align value pl.heapPageSize) ∧
      align value pl.heapPageSize < 2 ^ 64 := by
  obtain ⟨p, hp, _, hp'⟩ := heapPageSize_eq pl
  unfold align
  split
  · have hnext : value < (1 + value / pl.heapPageSize) * pl.heapPageSize := by
      rw [Nat.add_comm, Nat.mul_comm]
      exact Nat.lt_mul_div_succ value (hp ▸ Nat.two_pow_pos p)
    have htop : (1 + value / pl.heapPageSize) * pl.heapPageSize ≤ 2 ^ 64 := by
      obtain ⟨k, hk⟩ : pl.heapPageSize ∣ 2 ^ 64 := by
        rw [hp]
        exact Nat.pow_dvd_pow 2 (by omega)
      rw [hk, Nat.mul_comm] at hlt ⊢
      have hquotient := Nat.div_lt_of_lt_mul (by rwa [Nat.mul_comm] at hlt)
      exact Nat.mul_le_mul_left _ (by omega)
    omega
  · exact ⟨Or.inr hvalue, hlt⟩

theorem rounds_align (pl : Platform) :
    Rounds (align · pl.heapPageSize) {m | pl.heapPageSize ∣ m} where
  least v _ hle := by
    obtain ⟨p, hp, _⟩ := heapPageSize_eq pl
    rw [align_eq pl hle]
    exact Rounding.align_isLeast v (hp ▸ Nat.two_pow_pos p)
  large v hle hlt := (align_of_large pl hle hlt).1

theorem align_bounds {value : Nat} (pl : Platform) (hle : value ≤ 2 ^ 63) :
    value ≤ align value pl.heapPageSize ∧
      align value pl.heapPageSize ≤ 2 ^ 63 := by
  obtain ⟨p, hp, _, hp'⟩ := heapPageSize_eq pl
  obtain ⟨⟨_, hle'⟩, hleast⟩ :=
    Rounding.align_isLeast value (hp ▸ Nat.two_pow_pos p)
  rw [align_eq pl hle]
  refine ⟨hle', hleast ⟨?_, hle⟩⟩
  rw [hp]
  exact Nat.pow_dvd_pow 2 (by omega)

theorem rounds_alignToPowerOfTwo (pl : Platform) :
    Rounds (fun v => alignToPowerOfTwo 64 (align v pl.heapPageSize))
      {m | (∃ k, m = 2 ^ k) ∧ pl.heapPageSize ∣ m} where
  least v hpos hle := by
    obtain ⟨p, hp, _⟩ := heapPageSize_eq pl
    obtain ⟨hle', hbound⟩ := align_bounds pl hle
    have htwo := Rounding.two_pow_clog_align_isLeast (p := p) hpos
    rw [alignToPowerOfTwo_of_le (Or.inr rfl) (hpos.trans_le hle') hbound,
      align_eq pl hle]
    simpa [hp, and_assoc] using htwo
  large v hle hlt := by
    obtain ⟨hlarge, hlt'⟩ := align_of_large pl hle hlt
    exact alignToPowerOfTwo_of_large hlarge hlt'

/-- The guess from the numbers of an option. -/
theorem guess_isLeast_iff {round : Nat → Nat} {sizes : Set Nat}
    (hround : Rounds round sizes) {default : Nat} (hpos : 0 < default)
    (hdefault : default ∈ sizes) (hsmall : default < 2 ^ 63) {pl : Platform}
    {last : Option Int} (hfits : ∀ n ∈ last, Fits pl n)
    (hspecified : ∀ n ∈ last, n < 2 ^ 31) :
    IsLeast {m | m ∈ sizes ∧ requested default last ≤ m}
        (round (if (last.map byteSize).getD 0 ≤ 0 then default
          else (last.map byteSize).getD 0)) ↔
      ∀ n ∈ last, 0 ≤ n := by
  cases last with
  | none =>
      simp only [Option.map_none, Option.getD_none, Nat.le_refl, if_true]
      exact iff_of_true (hround.least default hpos hsmall.le) nofun
  | some n =>
      have hlt := hspecified n rfl
      have hmem : (∀ m ∈ some n, 0 ≤ m) ↔ 0 ≤ n := by simp
      rw [Option.map_some, Option.getD_some, hmem]
      by_cases hn : 0 ≤ n
      · refine iff_of_true ?_ hn
        rw [byteSize_of_nonneg hn hlt]
        by_cases hzero : 0 < n
        · have hasked : requested default (some n) = n.toNat * 2 ^ 20 :=
            if_pos hzero
          rw [hasked, if_neg (by omega)]
          exact hround.least _ (by omega) (by omega)
        · have hasked : requested default (some n) = default := if_neg hzero
          rw [hasked, if_pos (by omega)]
          exact hround.least default hpos hsmall.le
      · refine iff_of_false ?_ hn
        obtain ⟨hlow, hhigh⟩ := byteSize_of_neg (by omega) (hfits n rfl)
        have hasked : requested default (some n) = default :=
          if_neg (by omega)
        rw [hasked, if_neg (by omega)]
        rintro ⟨⟨_, hle⟩, hleast⟩
        have hupper := hleast ⟨hdefault, Nat.le_refl _⟩
        rcases hround.large _ hlow hhigh with hzero | hlarge <;> omega

/-- The numbers for an option, whose name starts with `--`. -/
def optionNumbers (argName : List Char) (execArgv : List (List Char)) :
    List Int := numbers (argName.drop 2) execArgv

def lastNumber (argName : List Char) (execArgv : List (List Char)) :
    Option Int := (optionNumbers argName execArgv).getLast?

/-- No number for the option, or one below 2^31. -/
def Specified (argName : List Char) (execArgv : List (List Char)) : Prop :=
  ∀ n ∈ lastNumber argName execArgv, n < 2 ^ 31

/-- The arguments are copied, the last number is not negative, and no
multiplication on the way overflows. -/
def Usable (pl : Platform) (argName : List Char)
    (execArgv : List (List Char)) : Prop :=
  AsciiArgs execArgv ∧ (∀ n ∈ lastNumber argName execArgv, 0 ≤ n) ∧
    ∀ n ∈ optionNumbers argName execArgv, Fits pl n

/-- A guess that rounds what is asked for, if only up to 2^63. -/
theorem guess_iff {round : Nat → Nat} {sizes : Set Nat}
    (hround : Rounds round sizes) {default : Nat} (hpos : 0 < default)
    (hdefault : default ∈ sizes) (hsmall : default < 2 ^ 63) {pl : Platform}
    {name : List Char} (hname : '_' ∉ name) {execArgv : List (List Char)}
    {guess : Option Nat}
    (hguess : guess = (guessSpaceSizeFromArgs pl.longBits ('-' :: '-' :: name)
      execArgv).map fun size => round (if size ≤ 0 then default else size))
    (hspecified : Specified ('-' :: '-' :: name) execArgv) :
    (∃ r, guess = some r ∧ IsLeast {m | m ∈ sizes ∧
        requested default (lastNumber ('-' :: '-' :: name) execArgv) ≤ m} r) ↔
      Usable pl ('-' :: '-' :: name) execArgv := by
  have hsize (size : Nat) := foldlM_eq_some_iff pl hname execArgv 0 size
  have hsome (hfits : ∀ n ∈ numbers name execArgv, Fits pl n) :=
    guess_isLeast_iff hround hpos hdefault hsmall
      (fun n hn => hfits n (List.mem_of_getLast? hn)) hspecified
  rw [hguess]
  constructor
  · rintro ⟨r, hr, hleast⟩
    obtain ⟨size, heq, rfl⟩ := Option.map_eq_some_iff.mp hr
    obtain ⟨hascii, hfits, rfl⟩ := (hsize size).mp heq
    exact ⟨hascii, (hsome hfits).mp hleast, hfits⟩
  · rintro ⟨hascii, hnonneg, hfits⟩
    refine ⟨_, ?_, (hsome hfits).mpr hnonneg⟩
    exact Option.map_eq_some_iff.mpr
      ⟨_, (hsize _).mpr ⟨hascii, hfits, rfl⟩, rfl⟩

theorem guessDefaultMaxOldSpaceSize_eq (pl : Platform) :
    guessDefaultMaxOldSpaceSize pl = 1400 * 2 ^ 20 := by
  unfold guessDefaultMaxOldSpaceSize Platform.longBits
  split <;> simp

theorem guessDefaultMaxSemiSpaceSize_eq (pl : Platform) :
    guessDefaultMaxSemiSpaceSize pl = 2 ^ 24 := by
  unfold guessDefaultMaxSemiSpaceSize Platform.longBits
  split <;> simp

/-- A default that is not 0 leaves no size of 0 to report. -/
theorem bind_default {default : Nat} (hpos : 0 < default) (round : Nat → Nat)
    (guess : Option Nat) :
    (do
      let result ← guess
      let result := if result ≤ 0 then default else result
      if result ≤ 0 then some 0 else some (round result)) =
      guess.map fun size => round (if size ≤ 0 then default else size) := by
  cases guess with
  | none => rfl
  | some size =>
      refine if_neg ?_
      split <;> omega

theorem guessMaxOldSpaceSize_eq (pl : Platform) (execArgv : List (List Char)) :
    guessMaxOldSpaceSize pl execArgv =
      (guessSpaceSizeFromArgs pl.longBits maxOldSpaceSizeName execArgv).map
        fun size => align (if size ≤ 0 then 1400 * 2 ^ 20 else size)
          pl.heapPageSize := by
  unfold guessMaxOldSpaceSize
  rw [guessDefaultMaxOldSpaceSize_eq]
  exact bind_default (by decide) (align · pl.heapPageSize) _

theorem guessMaxSemiSpaceSize_eq (pl : Platform)
    (execArgv : List (List Char)) :
    guessMaxSemiSpaceSize pl execArgv =
      (guessSpaceSizeFromArgs pl.longBits maxSemiSpaceSizeName execArgv).map
        fun size => alignToPowerOfTwo 64
          (align (if size ≤ 0 then 2 ^ 24 else size) pl.heapPageSize) := by
  unfold guessMaxSemiSpaceSize
  rw [guessDefaultMaxSemiSpaceSize_eq]
  exact bind_default (by decide)
    (fun size => alignToPowerOfTwo 64 (align size pl.heapPageSize)) _

/-- A size for the old space: a multiple of the page. -/
def OldSizes (pl : Platform) : Set Nat := {m | pl.heapPageSize ∣ m}

/-- A size for a semi-space: a power of two, too. -/
def SemiSizes (pl : Platform) : Set Nat :=
  {m | (∃ k, m = 2 ^ k) ∧ pl.heapPageSize ∣ m}

/-- The guesses are the least sizes not below what is asked for, and their
sum is reported. -/
structure DerivesLimits (pl : Platform) (execArgv : List (List Char)) :
    Prop where
  old : Specified maxOldSpaceSizeName execArgv →
    ∃ r, guessMaxOldSpaceSize pl execArgv = some r ∧
      IsLeast {m | m ∈ OldSizes pl ∧ requested (1400 * 2 ^ 20)
        (lastNumber maxOldSpaceSizeName execArgv) ≤ m} r
  semi : Specified maxSemiSpaceSizeName execArgv →
    ∃ r, guessMaxSemiSpaceSize pl execArgv = some r ∧
      IsLeast {m | m ∈ SemiSizes pl ∧ requested (16 * 2 ^ 20)
        (lastNumber maxSemiSpaceSizeName execArgv) ≤ m} r
  heap : Specified maxOldSpaceSizeName execArgv →
    Specified maxSemiSpaceSizeName execArgv → ∀ n : NodeProcess,
    guessMaxOldSpaceSize pl execArgv = some n.maxOldSpaceSizeGuess →
    guessMaxSemiSpaceSize pl execArgv = some n.maxSemiSpaceSizeGuess →
    ∀ i, readNode n = some i →
      i.maxHeapSizeGuess =
        2 * n.maxSemiSpaceSizeGuess + n.maxOldSpaceSizeGuess

theorem two_pow_mem_semiSizes (pl : Platform) {k : Nat} (hk : 22 ≤ k) :
    2 ^ k ∈ SemiSizes pl := by
  obtain ⟨p, hp, _, hp'⟩ := heapPageSize_eq pl
  refine ⟨⟨k, rfl⟩, ?_⟩
  rw [hp]
  exact Nat.pow_dvd_pow 2 (by omega)

theorem old_iff (pl : Platform) {execArgv : List (List Char)}
    (hspecified : Specified maxOldSpaceSizeName execArgv) :
    (∃ r, guessMaxOldSpaceSize pl execArgv = some r ∧
      IsLeast {m | m ∈ OldSizes pl ∧ requested (1400 * 2 ^ 20)
        (lastNumber maxOldSpaceSizeName execArgv) ≤ m} r) ↔
      Usable pl maxOldSpaceSizeName execArgv := by
  have hdefault : 1400 * 2 ^ 20 ∈ OldSizes pl := by
    obtain ⟨p, hp, _, hp'⟩ := heapPageSize_eq pl
    change pl.heapPageSize ∣ 350 * 2 ^ 22
    rw [hp]
    exact Dvd.dvd.mul_left (Nat.pow_dvd_pow 2 hp') _
  exact guess_iff (rounds_align pl) (by decide) hdefault (by decide)
    (by decide) (guessMaxOldSpaceSize_eq pl execArgv) hspecified

theorem semi_iff (pl : Platform) {execArgv : List (List Char)}
    (hspecified : Specified maxSemiSpaceSizeName execArgv) :
    (∃ r, guessMaxSemiSpaceSize pl execArgv = some r ∧
      IsLeast {m | m ∈ SemiSizes pl ∧ requested (16 * 2 ^ 20)
        (lastNumber maxSemiSpaceSizeName execArgv) ≤ m} r) ↔
      Usable pl maxSemiSpaceSizeName execArgv :=
  guess_iff (rounds_alignToPowerOfTwo pl) (by decide)
    (two_pow_mem_semiSizes pl (k := 24) (by decide)) (by decide) (by decide)
    (guessMaxSemiSpaceSize_eq pl execArgv) hspecified

theorem requested_le {default : Nat} (hdefault : default ≤ 2 ^ 51)
    {last : Option Int} (hspecified : ∀ n ∈ last, n < 2 ^ 31) :
    requested default last ≤ 2 ^ 51 := by
  cases last with
  | none => exact hdefault
  | some n =>
      have hlt := hspecified n rfl
      by_cases hn : 0 < n
      · have hasked : requested default (some n) = n.toNat * 2 ^ 20 :=
          if_pos hn
        omega
      · have hasked : requested default (some n) = default := if_neg hn
        omega

/-- The sum stays far below 2^64. -/
theorem heap_of_isLeast {pl : Platform} {old semi a b : Nat}
    (ha : a ≤ 2 ^ 51) (hb : b ≤ 2 ^ 51)
    (hold : IsLeast {m | m ∈ OldSizes pl ∧ a ≤ m} old)
    (hsemi : IsLeast {m | m ∈ SemiSizes pl ∧ b ≤ m} semi) :
    (2 * semi + old) % 2 ^ 64 = 2 * semi + old := by
  have hmem := two_pow_mem_semiSizes pl (k := 51) (by decide)
  have hold' := hold.2 ⟨hmem.2, ha⟩
  have hsemi' := hsemi.2 ⟨hmem, hb⟩
  omega

theorem heap_eq {n : NodeProcess} {i : NodeInformation}
    (hread : readNode n = some i) :
    i.maxHeapSizeGuess =
      (2 * n.maxSemiSpaceSizeGuess + n.maxOldSpaceSizeGuess) % 2 ^ 64 := by
  obtain ⟨_, rfl⟩ := NodeProcess.readNode_eq_some.mp hread
  rfl

/-- For every list of arguments and every platform: the limits are derived as
the options ask if and only if, for each option whose last number is below
2^31 or that has no number, all arguments are ASCII, that number is not
negative and every number of the option, in bytes, is a `long`. -/
theorem derivesLimits_iff (pl : Platform) (execArgv : List (List Char)) :
    DerivesLimits pl execArgv ↔
      (Specified maxOldSpaceSizeName execArgv →
        Usable pl maxOldSpaceSizeName execArgv) ∧
      (Specified maxSemiSpaceSizeName execArgv →
        Usable pl maxSemiSpaceSizeName execArgv) := by
  constructor
  · intro h
    exact ⟨fun hs => (old_iff pl hs).mp (h.old hs),
      fun hs => (semi_iff pl hs).mp (h.semi hs)⟩
  · rintro ⟨hold, hsemi⟩
    refine ⟨fun hs => (old_iff pl hs).mpr (hold hs),
      fun hs => (semi_iff pl hs).mpr (hsemi hs), ?_⟩
    intro hs hs' n hguess hguess' i hread
    obtain ⟨r, hr, hleast⟩ := (old_iff pl hs).mpr (hold hs)
    obtain ⟨r', hr', hleast'⟩ := (semi_iff pl hs').mpr (hsemi hs')
    rw [hguess, Option.some.injEq] at hr
    rw [hguess', Option.some.injEq] at hr'
    subst hr
    subst hr'
    rw [heap_eq hread]
    exact heap_of_isLeast (requested_le (by decide) hs)
      (requested_le (by decide) hs') hleast hleast'

end EnvPlugin

namespace HeapLimitsWitness

open EnvPlugin

def minusOne : List (List Char) := ["--max-old-space-size=-1".toList]

-- the 4 GB that a 32-bit `long` cannot hold
example : guessMaxOldSpaceSize ⟨false, false⟩
    ["--max-old-space-size=4096".toList] = none := by decide

/-- A negative number is guessed to be nearly 2^64 bytes. -/
theorem minus_one_not_derived : ¬DerivesLimits ⟨true, false⟩ minusOne := by
  have hlast : lastNumber maxOldSpaceSizeName minusOne = some (-1) := by
    decide
  have hguess : guessMaxOldSpaceSize ⟨true, false⟩ minusOne =
      some (2 ^ 64 - 2 ^ 20) := by decide
  intro h
  obtain ⟨r, hr, _, hleast⟩ := h.old fun n hn => by
    rw [hlast] at hn
    cases hn
    decide
  rw [hguess] at hr
  cases hr
  have hdefault : 2 ^ 20 ∣ 1400 * 2 ^ 20 := Nat.dvd_mul_left _ _
  rw [hlast] at hleast
  have hle : 2 ^ 64 - 2 ^ 20 ≤ 1400 * 2 ^ 20 :=
    hleast ⟨hdefault, Nat.le_refl _⟩
  exact absurd hle (by decide)

end HeapLimitsWitness

end Appmetrics
