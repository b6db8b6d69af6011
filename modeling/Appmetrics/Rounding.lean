/-
Rounding numbers up in machine words: to a multiple of an alignment by
division, and to a power of two by spreading the bits of a number downwards.
-/
import Mathlib.Data.Nat.Bitwise
import Mathlib.Data.Nat.Log
import Mathlib.Order.Bounds.Defs

namespace Rounding

/-! ## To a multiple -/

/-- The next multiple of the alignment. -/
def align (value alignment : Nat) : Nat :=
  if value % alignment ≠ 0 then (1 + value / alignment) * alignment else value

theorem align_isLeast (value : Nat) {alignment : Nat} (hpos : 0 < alignment) :
    IsLeast {m | alignment ∣ m ∧ value ≤ m} (align value alignment) := by
  have hdiv := Nat.div_add_mod value alignment
  have hmod := Nat.mod_lt value hpos
  unfold align
  split
  · next hrest =>
      refine ⟨⟨Nat.dvd_mul_left _ _, ?_⟩, ?_⟩
      · rw [Nat.add_mul, Nat.one_mul, Nat.mul_comm (value / alignment)]
        omega
      · rintro m ⟨⟨k, rfl⟩, hle⟩
        have hk : value / alignment < k := by
          by_contra hle'
          have hmul := Nat.mul_le_mul_left alignment (Nat.not_lt.mp hle')
          omega
        rw [Nat.mul_comm alignment]
        exact Nat.mul_le_mul_right _ (by omega)
  · next hrest =>
      exact ⟨⟨Nat.dvd_of_mod_eq_zero (not_not.mp hrest), Nat.le_refl _⟩,
        fun m hm => hm.2⟩

/-! ## To a power of two -/

/-- The bits of `r` are those of `x` and the `d - 1` places below each. -/
def SpreadBy (d x r : Nat) : Prop :=
  ∀ i, r.testBit i = true ↔ ∃ j, i ≤ j ∧ j < i + d ∧ x.testBit j = true

theorem spreadBy_one (x : Nat) : SpreadBy 1 x x := by
  intro i
  constructor
  · exact fun hi => ⟨i, Nat.le_refl _, Nat.lt_succ_self _, hi⟩
  · rintro ⟨j, hij, hji, hj⟩
    obtain rfl : j = i := by omega
    exact hj

/-- One step of the spreading. -/
theorem SpreadBy.step {d k x r : Nat} (h : SpreadBy d x r) (hk : k ≤ d) :
    SpreadBy (d + k) x (r ||| r >>> k) := by
  intro i
  rw [Nat.testBit_or, Nat.testBit_shiftRight, Bool.or_eq_true, h i, h (k + i)]
  constructor
  · rintro (⟨j, hij, hji, hj⟩ | ⟨j, hij, hji, hj⟩)
    · exact ⟨j, hij, by omega, hj⟩
    · exact ⟨j, by omega, by omega, hj⟩
  · rintro ⟨j, hij, hji, hj⟩
    by_cases hnear : j < i + d
    · exact Or.inl ⟨j, hij, hnear, hj⟩
    · exact Or.inr ⟨j, by omega, by omega, hj⟩

/-- The shifts of a word of `2 ^ n` bits. -/
def spread (x : Nat) : List Nat → Nat :=
  List.foldl (fun r k => r ||| r >>> k) x

/-- Each shift at most doubles what has been reached. -/
def Doubling (d : Nat) : List Nat → Prop
  | [] => True
  | k :: ks => k ≤ d ∧ Doubling (d + k) ks

theorem spreadBy_foldl {d x r : Nat} {shifts : List Nat} (h : SpreadBy d x r)
    (hshifts : Doubling d shifts) :
    SpreadBy (d + shifts.sum) x (spread r shifts) := by
  induction shifts generalizing d r with
  | nil => exact h
  | cons k ks ih =>
      rw [List.sum_cons, ← Nat.add_assoc]
      exact ih (h.step hshifts.1) hshifts.2

/-- Spread over its whole width, a number is all ones below its highest
bit. -/
theorem SpreadBy.succ_eq {d x r : Nat} (h : SpreadBy d x r) (hx : x < 2 ^ d) :
    r + 1 = 2 ^ Nat.clog 2 (x + 1) := by
  have hbits : r = 2 ^ Nat.clog 2 (x + 1) - 1 := by
    apply Nat.eq_of_testBit_eq
    intro i
    rw [Nat.testBit_two_pow_sub_one, Bool.eq_iff_iff, h i, decide_eq_true_iff,
      Nat.lt_clog_iff_pow_lt (by omega), Nat.lt_succ_iff]
    constructor
    · rintro ⟨j, hij, _, hj⟩
      exact (Nat.pow_le_pow_right (by omega) hij).trans
        (Nat.ge_two_pow_of_testBit hj)
    · intro hle
      obtain ⟨j, hij, hj⟩ := Nat.exists_ge_and_testBit_of_ge_two_pow hle
      have hlt := (Nat.pow_lt_pow_iff_right (by omega)).mp
        ((Nat.ge_two_pow_of_testBit hj).trans_lt hx)
      exact ⟨j, hij, by omega, hj⟩
  have hpos := Nat.two_pow_pos (Nat.clog 2 (x + 1))
  omega

theorem two_pow_clog_isLeast (v : Nat) :
    IsLeast {m | (∃ k, m = 2 ^ k) ∧ v ≤ m} (2 ^ Nat.clog 2 v) := by
  refine ⟨⟨⟨_, rfl⟩, Nat.le_pow_clog (by omega) v⟩, ?_⟩
  rintro _ ⟨⟨k, rfl⟩, hle⟩
  exact Nat.pow_le_pow_right (by omega) (Nat.clog_le_of_le_pow hle)

/-- First to a multiple of a power of two, then to a power of two. -/
theorem two_pow_clog_align_isLeast {value p : Nat} (hpos : 0 < value) :
    IsLeast {m | (∃ k, m = 2 ^ k) ∧ 2 ^ p ∣ m ∧ value ≤ m}
      (2 ^ Nat.clog 2 (align value (2 ^ p))) := by
  obtain ⟨⟨hdvd, hle⟩, hleast⟩ := align_isLeast value (Nat.two_pow_pos p)
  obtain ⟨⟨_, hle'⟩, hleast'⟩ := two_pow_clog_isLeast (align value (2 ^ p))
  have hp : 2 ^ p ≤ align value (2 ^ p) :=
    Nat.le_of_dvd (hpos.trans_le hle) hdvd
  refine ⟨⟨⟨_, rfl⟩, ?_, hle.trans hle'⟩, ?_⟩
  · exact Nat.pow_dvd_pow 2
      ((Nat.pow_le_pow_iff_right (by omega)).mp (hp.trans hle'))
  · rintro m ⟨hpow, hmul, hm⟩
    exact hleast' ⟨hpow, hleast ⟨hmul, hm⟩⟩

end Rounding
