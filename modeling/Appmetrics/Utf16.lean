/-
Sequences of UTF-16 code units and their UTF-8 bytes.  A surrogate without its
partner is no character; encoders write it as it is or as U+FFFD, in three
bytes either way.
-/
import Mathlib.Data.List.Basic

namespace Utf16

/-- The first half of a surrogate pair. -/
def isHigh (u : UInt16) : Bool := 0xD800 ≤ u.toNat && u.toNat < 0xDC00

/-- The second half of a surrogate pair. -/
def isLow (u : UInt16) : Bool := 0xDC00 ≤ u.toNat && u.toNat < 0xE000

def pair (high low : UInt16) : Nat :=
  0x10000 + (high.toNat - 0xD800) * 0x400 + (low.toNat - 0xDC00)

/-- The code points of a sequence of units; a lone surrogate stands for
itself. -/
def codePoints : List UInt16 → List Nat
  | [] => []
  | [u] => [u.toNat]
  | u :: v :: us =>
      if isHigh u && isLow v then pair u v :: codePoints us
      else u.toNat :: codePoints (v :: us)

/-- The code point that is written; `replace` tells whether a lone surrogate
becomes U+FFFD. -/
def written (replace : Bool) (p : Nat) : Nat :=
  if replace && (0xD800 ≤ p && p < 0xE000) then 0xFFFD else p

/-- The bytes of a code point. -/
def encode (p : Nat) : List UInt8 :=
  if p < 0x80 then [.ofNat p]
  else if p < 0x800 then [.ofNat (0xC0 + p / 0x40), .ofNat (0x80 + p % 0x40)]
  else if p < 0x10000 then
    [.ofNat (0xE0 + p / 0x1000), .ofNat (0x80 + p / 0x40 % 0x40),
      .ofNat (0x80 + p % 0x40)]
  else
    [.ofNat (0xF0 + p / 0x40000), .ofNat (0x80 + p / 0x1000 % 0x40),
      .ofNat (0x80 + p / 0x40 % 0x40), .ofNat (0x80 + p % 0x40)]

/-- The UTF-8 encoding of a sequence of units. -/
def utf8 (replace : Bool) (s : List UInt16) : List UInt8 :=
  (codePoints s).flatMap fun p => encode (written replace p)

@[simp] theorem utf8_nil (replace : Bool) : utf8 replace [] = [] := rfl

theorem encode_length_pos (p : Nat) : 0 < (encode p).length := by
  unfold encode
  split_ifs <;> exact Nat.succ_pos _

/-- Only ASCII is written in one byte. -/
theorem encode_length_le_one {p : Nat} :
    (encode p).length ≤ 1 ↔ p < 0x80 := by
  unfold encode
  split_ifs with hascii <;> simp [hascii]

theorem written_lt_iff {replace : Bool} {p : Nat} :
    written replace p < 0x80 ↔ p < 0x80 := by
  unfold written
  split
  · next h =>
      simp only [Bool.and_eq_true, decide_eq_true_eq] at h
      omega
  · rfl

/-- A pair takes two units and four bytes. -/
theorem encode_pair {u v : UInt16} (replace : Bool)
    (h : (isHigh u && isLow v) = true) :
    (encode (written replace (pair u v))).length = 4 ∧ 0x80 ≤ u.toNat := by
  simp only [isHigh, isLow, Bool.and_eq_true, decide_eq_true_eq] at h
  have hbig : 0x10000 ≤ pair u v := by
    unfold pair
    omega
  have hwritten : written replace (pair u v) = pair u v := by
    unfold written
    rw [if_neg]
    simp only [Bool.and_eq_true, decide_eq_true_eq]
    omega
  refine ⟨?_, by omega⟩
  rw [hwritten, encode, if_neg (by omega), if_neg (by omega),
    if_neg (by omega)]
  rfl

/-- UTF-8 needs at least as many bytes as UTF-16 needs units, and more for all
but ASCII. -/
theorem utf8_length (replace : Bool) (s : List UInt16) :
    s.length ≤ (utf8 replace s).length ∧
      ((utf8 replace s).length ≤ s.length ↔ ∀ u ∈ s, u.toNat < 0x80) := by
  have hunit (u : UInt16) := encode_length_pos (written replace u.toNat)
  have hascii (u : UInt16) :
      (encode (written replace u.toNat)).length ≤ 1 ↔ u.toNat < 0x80 :=
    encode_length_le_one.trans written_lt_iff
  induction s using codePoints.induct with
  | case1 => simp
  | case2 u =>
      have hone := hunit u
      simp only [utf8, codePoints, List.flatMap_cons, List.flatMap_nil,
        List.append_nil, List.length_singleton, List.mem_singleton,
        forall_eq, hascii, and_true]
      exact hone
  | case3 u v us hpair ih =>
      obtain ⟨hfour, hhigh⟩ := encode_pair replace hpair
      simp only [utf8] at ih
      simp only [utf8, codePoints, hpair, ↓reduceIte, List.flatMap_cons,
        List.length_append, List.length_cons, hfour]
      refine ⟨by omega, iff_of_false (by omega) fun hall => ?_⟩
      have hlow := hall u List.mem_cons_self
      omega
  | case4 u v us hpair ih =>
      have hone := hunit u
      have hchar := hascii u
      simp only [utf8] at ih
      rw [List.forall_mem_cons, ← hchar, ← ih.2]
      simp only [utf8, codePoints, hpair, Bool.false_eq_true, ↓reduceIte,
        List.flatMap_cons, List.length_append, List.length_cons]
      have hle := ih.1
      simp only [List.length_cons] at hle
      omega

theorem utf8_ascii (replace : Bool) {s : List UInt16}
    (hs : ∀ u ∈ s, u.toNat < 0x80) :
    utf8 replace s = s.map fun u => .ofNat u.toNat := by
  have hbyte {u : UInt16} (hu : u.toNat < 0x80) :
      encode (written replace u.toNat) = [.ofNat u.toNat] := by
    have hsame : written replace u.toNat = u.toNat := by
      unfold written
      rw [if_neg]
      simp only [Bool.and_eq_true, decide_eq_true_eq]
      omega
    rw [hsame, encode, if_pos hu]
  have hpoints : codePoints s = s.map UInt16.toNat := by
    induction s using codePoints.induct with
    | case1 => rfl
    | case2 u => rfl
    | case3 u v us hpair ih =>
        have hhigh := (encode_pair replace hpair).2
        have hlow := hs u List.mem_cons_self
        omega
    | case4 u v us hpair ih =>
        rw [codePoints, if_neg hpair,
          ih fun w hw => hs w (List.mem_cons_of_mem u hw), ← List.map_cons]
  rw [utf8, hpoints]
  clear hpoints
  induction s with
  | nil => rfl
  | cons u us ih =>
      rw [List.forall_mem_cons] at hs
      rw [List.map_cons, List.flatMap_cons, hbyte hs.1, ih hs.2,
        List.map_cons, List.singleton_append]

/-- The units of a character. -/
def ofChar (c : Char) : List UInt16 :=
  if c.toNat < 0x10000 then [.ofNat c.toNat]
  else
    [.ofNat (0xD800 + (c.toNat - 0x10000) / 0x400),
      .ofNat (0xDC00 + (c.toNat - 0x10000) % 0x400)]

/-- A text as a JavaScript string. -/
def ofText (t : List Char) : List UInt16 := t.flatMap ofChar

/-- A text has only ASCII units if it has only ASCII characters. -/
theorem ofText_ascii (t : List Char) :
    (∀ u ∈ ofText t, u.toNat < 0x80) ↔ ∀ c ∈ t, c.toNat < 128 := by
  have hchar (c : Char) :
      (∀ u ∈ ofChar c, u.toNat < 0x80) ↔ c.toNat < 128 := by
    have hmax : c.toNat < 0x110000 := by
      have hvalid := c.valid
      rcases hvalid with h | h
      · exact Nat.lt_trans h (by decide)
      · exact h.2
    unfold ofChar
    split
    · next hsmall =>
        rw [List.forall_mem_singleton, UInt16.toNat_ofNat']
        rw [Nat.mod_eq_of_lt (by omega)]
    · next hlarge =>
        refine iff_of_false (fun hall => ?_) (by omega)
        have hhigh := hall _ List.mem_cons_self
        rw [UInt16.toNat_ofNat', Nat.mod_eq_of_lt (by omega)] at hhigh
        omega
  simp only [ofText, List.forall_mem_flatMap, hchar]

theorem ofText_eq_map {t : List Char} (ht : ∀ c ∈ t, c.toNat < 128) :
    ofText t = t.map fun c => .ofNat c.toNat := by
  induction t with
  | nil => rfl
  | cons c t ih =>
      rw [List.forall_mem_cons] at ht
      have hchar : ofChar c = [.ofNat c.toNat] := by
        rw [ofChar, if_pos (by omega)]
      rw [ofText, List.flatMap_cons, hchar, List.map_cons]
      rw [← ih ht.2]
      rfl

end Utf16
