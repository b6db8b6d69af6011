/-
The rounding of sizes in src/plugins/node/env/nodeenvplugin.cpp, against the
same arithmetic without wrap-around.
-/
import Appmetrics.HeapLimits

namespace Appmetrics

namespace EnvPlugin

/-! ## Exact arithmetic -/

/-- The result of an operation on `size_t`; `none` stands for one that wraps
around. -/
def toWord (sizeBits : Nat) (n : Int) : Option Nat :=
  if 0 ≤ n ∧ n < 2 ^ sizeBits then some n.toNat else none

/-- `Align`, each sum and product checked. -/
def exactAlign (value alignment : Nat) : Option Nat :=
  if value % alignment ≠ 0 then do
    let next ← toWord 64 (1 + (value / alignment : Nat))
    toWord 64 (next * alignment)
  else some value

/-- `AlignToPowerOfTwo`, the difference and the sum checked; what is shifted
and joined in between stays a word. -/
def exactAlignToPowerOfTwo (sizeBits value : Nat) : Option Nat := do
  let result ← toWord sizeBits ((value : Int) - 1)
  toWord sizeBits (Rounding.spread result (shifts sizeBits) + 1)

theorem toWord_of_lt {sizeBits n : Nat} (hlt : n < 2 ^ sizeBits) :
    toWord sizeBits n = some n := by
  have hcast : (n : Int) < 2 ^ sizeBits := by exact_mod_cast hlt
  exact if_pos ⟨Int.natCast_nonneg n, hcast⟩

theorem exactAlign_eq (pl : Platform) {value : Nat} (hle : value ≤ 2 ^ 63) :
    exactAlign value pl.heapPageSize = some (align value pl.heapPageSize) := by
  have hnext := next_multiple_lt pl hle
  have hquotient : 1 + value / pl.heapPageSize < 2 ^ 64 := by
    refine (Nat.le_mul_of_pos_right _ ?_).trans_lt hnext
    obtain ⟨p, hp, _⟩ := heapPageSize_eq pl
    exact hp ▸ Nat.two_pow_pos p
  have hsum : toWord 64 (1 + (value / pl.heapPageSize : Nat)) =
      some (1 + value / pl.heapPageSize) := by
    exact_mod_cast toWord_of_lt hquotient
  have hproduct : toWord 64
      ((1 + value / pl.heapPageSize : Nat) * pl.heapPageSize) =
      some ((1 + value / pl.heapPageSize) * pl.heapPageSize) := by
    exact_mod_cast toWord_of_lt hnext
  unfold exactAlign align
  split
  · rw [hsum, Option.bind_eq_bind, Option.bind_some, hproduct,
      Nat.mod_eq_of_lt hnext]
  · rfl

theorem exactAlignToPowerOfTwo_eq {sizeBits value : Nat}
    (hsize : SizeBits sizeBits) (hpos : 0 < value)
    (hle : value ≤ 2 ^ (sizeBits - 1)) :
    exactAlignToPowerOfTwo sizeBits value =
      some (alignToPowerOfTwo sizeBits value) := by
  have hlt := lt_two_pow_of_le hsize hle
  have hpred : (value : Int) - 1 = (value - 1 : Nat) := by omega
  have hspread := spread_shifts hsize (x := value - 1) (by omega)
  rw [Nat.sub_add_cancel hpos] at hspread
  have hsum := toWord_of_lt (two_pow_clog_lt hsize hle)
  rw [← hspread] at hsum
  unfold exactAlignToPowerOfTwo
  rw [hpred, toWord_of_lt (by omega), Option.bind_eq_bind, Option.bind_some,
    alignToPowerOfTwo_of_le hsize hpos hle, ← hspread]
  exact_mod_cast hsum

/-! ## Both roundings -/

/-- The least power of two that is not below the value, and no step of its
computation wraps around. -/
structure RoundsToPowerOfTwo (sizeBits value : Nat) : Prop where
  least : IsLeast {m | (∃ k, m = 2 ^ k) ∧ value ≤ m}
    (alignToPowerOfTwo sizeBits value)
  exact : exactAlignToPowerOfTwo sizeBits value =
    some (alignToPowerOfTwo sizeBits value)

/-- Rounded to whole pages, and from there to a power of two; again no step
wraps around. -/
structure RoundsToPages (page value : Nat) : Prop where
  least : IsLeast {m | page ∣ m ∧ value ≤ m} (align value page)
  exact : exactAlign value page = some (align value page)
  leastPower : IsLeast {m | (∃ k, m = 2 ^ k) ∧ page ∣ m ∧ value ≤ m}
    (alignToPowerOfTwo 64 (align value page))
  exactPower : (exactAlign value page).bind (exactAlignToPowerOfTwo 64) =
    some (alignToPowerOfTwo 64 (align value page))

/-- `HEAP_PAGE_SIZE` is 1 or 4, in megabytes. -/
def PageSize (page : Nat) : Prop :=
  page = 1 * 1024 * 1024 ∨ page = 4 * 1024 * 1024

theorem PageSize.exists_platform {page : Nat} (h : PageSize page) :
    ∃ pl : Platform, page = pl.heapPageSize := by
  rcases h with rfl | rfl
  · exact ⟨⟨true, false⟩, rfl⟩
  · exact ⟨⟨true, true⟩, rfl⟩

theorem roundsToPowerOfTwo {sizeBits value : Nat} (hsize : SizeBits sizeBits)
    (hpos : 0 < value) (hle : value ≤ 2 ^ (sizeBits - 1)) :
    RoundsToPowerOfTwo sizeBits value where
  least := by
    rw [alignToPowerOfTwo_of_le hsize hpos hle]
    exact Rounding.two_pow_clog_isLeast value
  exact := exactAlignToPowerOfTwo_eq hsize hpos hle

theorem roundsToPages {page value : Nat} (hpage : PageSize page)
    (hpos : 0 < value) (hle : value ≤ 2 ^ 63) : RoundsToPages page value := by
  obtain ⟨pl, rfl⟩ := hpage.exists_platform
  obtain ⟨hle', hbound⟩ := align_bounds pl hle
  refine ⟨(rounds_align pl).least value hpos hle, exactAlign_eq pl hle, ?_, ?_⟩
  · simpa [and_assoc] using
      (rounds_alignToPowerOfTwo pl).least value hpos hle
  · rw [exactAlign_eq pl hle, Option.bind_some]
    exact exactAlignToPowerOfTwo_eq (Or.inr rfl) (hpos.trans_le hle') hbound

/-- For every value from 1 to the middle of the range of a 32-bit or 64-bit
`size_t`, and for both sizes of a page. -/
theorem rounding_exact :
    (∀ sizeBits value, SizeBits sizeBits → 1 ≤ value →
      value ≤ 2 ^ (sizeBits - 1) → RoundsToPowerOfTwo sizeBits value) ∧
    ∀ page value, PageSize page → 1 ≤ value → value ≤ 2 ^ 63 →
      RoundsToPages page value :=
  ⟨fun _ _ hsize hpos hle => roundsToPowerOfTwo hsize hpos hle,
    fun _ _ hpage hpos hle => roundsToPages hpage hpos hle⟩

end EnvPlugin

namespace SizeRoundingWitness

open EnvPlugin

/-- 5 MB in pages of 4 MB, and the upper end of 32 bits. -/
theorem five_megabytes_rounded :
    align (5 * 2 ^ 20) (4 * 1024 * 1024) = 2 ^ 23 ∧
      alignToPowerOfTwo 32 (2 ^ 31) = 2 ^ 31 ∧
      RoundsToPages (4 * 1024 * 1024) (5 * 2 ^ 20) ∧
      RoundsToPowerOfTwo 32 (2 ^ 31) :=
  ⟨by decide, by decide,
    rounding_exact.2 _ _ (Or.inr rfl) (by decide) (by decide),
    rounding_exact.1 _ _ (Or.inl rfl) (by decide) (by decide)⟩

end SizeRoundingWitness

end Appmetrics
