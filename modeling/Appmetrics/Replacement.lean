/-
src/plugins/node/prof/nodeprofplugin.cpp: the loop of `replaceInString`, which
changes the text that it searches, against the replacement of all occurrences
from left to right.
-/
import Appmetrics.Loops
import Mathlib.Data.List.Infix

namespace Appmetrics

namespace Replacement

variable {A : Type}

/-! ## All occurrences -/

def OccursAt (pattern s : List A) (i : Nat) : Prop := pattern <+: s.drop i

/-- Each occurrence is the first in what remains behind the one before. -/
inductive Replaced (pattern replaceWith : List A) : List A → List A → Prop
  | none {s : List A} : (∀ i, ¬OccursAt pattern s i) →
      Replaced pattern replaceWith s s
  | first {before after t : List A} :
      (∀ i, i < before.length →
        ¬OccursAt pattern (before ++ pattern ++ after) i) →
      Replaced pattern replaceWith after t →
      Replaced pattern replaceWith (before ++ pattern ++ after)
        (before ++ replaceWith ++ t)

theorem occursAt_append (pattern before after : List A) :
    OccursAt pattern (before ++ pattern ++ after) before.length := by
  rw [OccursAt, List.append_assoc, List.drop_left]
  exact List.prefix_append pattern after

theorem occursAt_drop {pattern s : List A} (n i : Nat) :
    OccursAt pattern (s.drop n) i ↔ OccursAt pattern s (n + i) := by
  rw [OccursAt, OccursAt, List.drop_drop]

theorem lt_length_of_occursAt {pattern s : List A} (hpattern : pattern ≠ [])
    {i : Nat} (hoccurs : OccursAt pattern s i) : i < s.length := by
  have hle := hoccurs.length_le
  have hpos := List.length_pos_iff.mpr hpattern
  rw [List.length_drop] at hle
  omega

/-- Only one text has all occurrences replaced. -/
theorem Replaced.unique {pattern replaceWith s t t' : List A}
    (h : Replaced pattern replaceWith s t)
    (h' : Replaced pattern replaceWith s t') : t = t' := by
  induction h generalizing t' with
  | none hnone =>
      cases h' with
      | none _ => rfl
      | first _ _ => exact absurd (occursAt_append ..) (hnone _)
  | @first before after t hbefore _ ih =>
      generalize hs : before ++ pattern ++ after = s at h' hbefore
      cases h' with
      | none hnone =>
          exact absurd (hs ▸ occursAt_append pattern before after) (hnone _)
      | @first before' after' t' hbefore' h' =>
          have hlength : before.length = before'.length := by
            rcases Nat.lt_trichotomy before.length before'.length with
              hlt | heq | hlt
            · exact absurd (hs ▸ occursAt_append pattern before after)
                (hbefore' _ hlt)
            · exact heq
            · exact absurd (occursAt_append pattern before' after')
                (hbefore _ hlt)
          rw [List.append_assoc, List.append_assoc] at hs
          obtain ⟨rfl, hrest⟩ := List.append_inj hs hlength
          rw [List.append_cancel_left hrest] at ih
          rw [ih h']

/-- The first element is passed where no occurrence starts. -/
theorem Replaced.cons {pattern replaceWith s t : List A} {a : A}
    (hnot : ¬OccursAt pattern (a :: s) 0)
    (h : Replaced pattern replaceWith s t) :
    Replaced pattern replaceWith (a :: s) (a :: t) := by
  cases h with
  | none hnone =>
      refine .none fun i => ?_
      cases i with
      | zero => exact hnot
      | succ i => exact hnone i
  | @first before after t hbefore h =>
      change Replaced pattern replaceWith (a :: before ++ pattern ++ after)
        (a :: before ++ replaceWith ++ t)
      refine .first (fun i hi => ?_) h
      cases i with
      | zero => exact hnot
      | succ i => exact hbefore i (Nat.lt_of_succ_lt_succ hi)

/-! ## The loop -/

/-- `s.replace(n, length, replaceWith)`. -/
def replace (s : List A) (n length : Nat) (replaceWith : List A) : List A :=
  s.take n ++ replaceWith ++ s.drop (n + length)

/-- What the replacement leaves behind its end has not been searched. -/
theorem drop_replace {s replaceWith : List A} {i : Nat} (hi : i ≤ s.length)
    (length : Nat) :
    (replace s i length replaceWith).drop (i + replaceWith.length) =
      s.drop (i + length) := by
  have hfront : (s.take i ++ replaceWith).length = i + replaceWith.length := by
    rw [List.length_append, List.length_take_of_le hi]
  rw [replace, ← hfront, List.drop_left]

theorem take_replace {s replaceWith : List A} {i : Nat} (hi : i ≤ s.length)
    (length : Nat) :
    (replace s i length replaceWith).take (i + replaceWith.length) =
      s.take i ++ replaceWith := by
  have hfront : (s.take i ++ replaceWith).length = i + replaceWith.length := by
    rw [List.length_append, List.length_take_of_le hi]
  rw [replace, ← hfront, List.take_left]

variable [DecidableEq A]

instance (pattern s : List A) : DecidablePred (OccursAt pattern s) :=
  fun i => inferInstanceAs (Decidable (pattern <+: s.drop i))

/-- `s.find(pattern, n)`; `none` is `npos`. -/
def find (pattern s : List A) (n : Nat) : Option Nat :=
  (List.range' n (s.length + 1 - n)).find? fun i =>
    decide (OccursAt pattern s i)

/-- One pass of the loop over `inputStr` and `n`. -/
def replaceNext (characterToReplace replaceWith : List A) :
    List A × Nat → Option (List A × Nat)
  | (inputStr, n) =>
      (find characterToReplace inputStr n).map fun n =>
        (replace inputStr n characterToReplace.length replaceWith,
          n + replaceWith.length)

/-- `none` if the condition of the loop is tested more often. -/
def replaceInString (passes : Nat)
    (characterToReplace replaceWith inputStr : List A) : Option (List A) :=
  (Loops.run (replaceNext characterToReplace replaceWith) passes
    (inputStr, 0)).map Prod.fst

section Pattern

variable {pattern : List A} (hpattern : pattern ≠ [])

include hpattern

theorem find_eq_none {s : List A} {n : Nat} (hnone : find pattern s n = none)
    (i : Nat) : ¬OccursAt pattern (s.drop n) i := by
  rw [occursAt_drop]
  intro hoccurs
  have hlt := lt_length_of_occursAt hpattern hoccurs
  have hall := List.find?_range'_eq_none.mp hnone (n + i) (by omega) (by omega)
  simp [hoccurs] at hall

theorem find_eq_some {s : List A} {n i : Nat}
    (hsome : find pattern s n = some i) :
    n ≤ i ∧ i < s.length ∧ OccursAt pattern s i ∧
      ∀ j, n + j < i → ¬OccursAt pattern (s.drop n) j := by
  obtain ⟨hoccurs, hmem, hbefore⟩ := List.find?_range'_eq_some.mp hsome
  have hoccurs : OccursAt pattern s i := of_decide_eq_true hoccurs
  refine ⟨(List.mem_range'_1.mp hmem).1, lt_length_of_occursAt hpattern hoccurs,
    hoccurs, fun j hj => ?_⟩
  have hnot := hbefore (n + j) (by omega) hj
  rw [occursAt_drop]
  simpa using hnot

/-- An occurrence that `find` gives is the first in the rest. -/
theorem replaced_of_find {replaceWith s t : List A} {n i : Nat}
    (hsome : find pattern s n = some i)
    (h : Replaced pattern replaceWith (s.drop (i + pattern.length)) t) :
    Replaced pattern replaceWith (s.drop n)
      ((s.drop n).take (i - n) ++ replaceWith ++ t) := by
  obtain ⟨hle, hlt, ⟨after, hafter⟩, hfirst⟩ := find_eq_some hpattern hsome
  generalize hfront : (s.drop n).take (i - n) = front at ⊢
  have hlength : front.length ≤ i - n := hfront ▸ List.length_take_le ..
  have hdrop : s.drop n = front ++ pattern ++ after := by
    have hsplit := List.take_append_drop (i - n) (s.drop n)
    rw [List.drop_drop, Nat.add_sub_cancel' hle, hfront, ← hafter] at hsplit
    rw [List.append_assoc, hsplit]
  have hrest : s.drop (i + pattern.length) = after := by
    rw [← List.drop_drop, ← hafter, List.drop_left]
  rw [hrest] at h
  rw [hdrop]
  refine .first (fun j hj => ?_) h
  rw [← hdrop]
  exact hfirst j (by omega)

/-- What is left to do is to replace the occurrences behind `n`. -/
def Scanned (pattern replaceWith inputStr : List A) : List A × Nat → Prop
  | (s, n) => ∀ t, Replaced pattern replaceWith (s.drop n) t →
      Replaced pattern replaceWith inputStr (s.take n ++ t)

/-- The length of the text behind `n`. -/
def unscanned : List A × Nat → Nat
  | (s, n) => s.length - n

theorem replaceNext_variant (replaceWith inputStr : List A) :
    Loops.Variant (replaceNext pattern replaceWith)
      (Scanned pattern replaceWith inputStr) unscanned where
  keeps := by
    rintro ⟨s, n⟩ u hscanned hnext t ht
    obtain ⟨i, hsome, rfl⟩ := Option.map_eq_some_iff.mp hnext
    obtain ⟨hle, hlt, _⟩ := find_eq_some hpattern hsome
    have htake : s.take n ++ (s.drop n).take (i - n) = s.take i := by
      rw [← List.take_add, Nat.add_sub_cancel' hle]
    rw [drop_replace hlt.le] at ht
    have hreplaced := hscanned _ (replaced_of_find hpattern hsome ht)
    rwa [← List.append_assoc, ← List.append_assoc, htake,
      ← take_replace hlt.le pattern.length] at hreplaced
  lowers := by
    rintro ⟨s, n⟩ u _ hnext
    obtain ⟨i, hsome, rfl⟩ := Option.map_eq_some_iff.mp hnext
    obtain ⟨hle, hlt, _⟩ := find_eq_some hpattern hsome
    have hpos := List.length_pos_iff.mpr hpattern
    have hrest : ((replace s i pattern.length replaceWith).drop
        (i + replaceWith.length)).length =
        (s.drop (i + pattern.length)).length := by
      rw [drop_replace hlt.le]
    rw [List.length_drop, List.length_drop] at hrest
    change (replace s i pattern.length replaceWith).length -
      (i + replaceWith.length) < s.length - n
    omega

/-- The loop ends, and has replaced all occurrences. -/
theorem replaceInString_replaced (replaceWith inputStr : List A) :
    ∃ t, Replaced pattern replaceWith inputStr t ∧
      ∀ passes, inputStr.length < passes →
        replaceInString passes pattern replaceWith inputStr = some t := by
  have hstart : Scanned pattern replaceWith inputStr (inputStr, 0) :=
    fun t ht => ht
  obtain ⟨⟨t, n⟩, hscanned, hend, hrun⟩ :=
    (replaceNext_variant hpattern replaceWith inputStr).ends hstart
  have hnone := find_eq_none hpattern (Option.map_eq_none_iff.mp hend)
  have hreplaced := hscanned _ (.none hnone)
  rw [List.take_append_drop] at hreplaced
  refine ⟨t, hreplaced, fun passes hpasses => ?_⟩
  rw [replaceInString, hrun passes hpasses]
  rfl

end Pattern

end Replacement

end Appmetrics
