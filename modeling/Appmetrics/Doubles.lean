/-
Integers as doubles: the double nearest to an integer has 53 significant bits,
and of two that are equally near the even one is taken.
-/
import Mathlib.Algebra.Order.Ring.Nat
import Mathlib.Data.Nat.Log

namespace Appmetrics

/-- `(double) n`, or what JavaScript reads the digits of `n` as. -/
def toDouble (n : Nat) : Nat :=
  let k := n.log2 - 52
  let q := n / 2 ^ k
  let r := 2 * (n % 2 ^ k)
  if 2 ^ k < r ∨ (r = 2 ^ k ∧ q % 2 = 1) then (q + 1) * 2 ^ k else q * 2 ^ k

def intToDouble (n : Int) : Int :=
  if n < 0 then -(toDouble n.natAbs : Int) else toDouble n.natAbs

theorem toDouble_of_lt {n : Nat} (hn : n < 2 ^ 53) : toDouble n = n := by
  have hlog : n.log2 - 52 = 0 := by
    rcases Nat.eq_zero_or_pos n with rfl | hpos
    · rfl
    · have hlt : n.log2 < 53 := (Nat.log2_lt hpos.ne').mpr hn
      omega
  simp [toDouble, hlog, Nat.mod_one]

theorem intToDouble_of_lt {n : Int} (hn : n.natAbs < 2 ^ 53) :
    intToDouble n = n := by
  unfold intToDouble
  rw [toDouble_of_lt hn]
  split <;> omega

end Appmetrics
