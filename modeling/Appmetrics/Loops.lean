/-
Loops whose body gives the next state, or `none` where the loop is left: an
invariant, and a measure that each pass lowers.
-/
import Mathlib.Data.List.Basic

namespace Loops

universe u

variable {S : Type u} {body : S → Option S} {s t : S}

/-- The state in which the loop is left; `none` if it takes more passes. -/
def run (body : S → Option S) : Nat → S → Option S
  | 0, _ => none
  | passes + 1, s =>
      match body s with
      | none => some s
      | some s' => run body passes s'

theorem run_of_none (hbody : body s = none) (passes : Nat) :
    run body (passes + 1) s = some s := by
  rw [run, hbody]

theorem run_of_some {s' : S} (hbody : body s = some s') (passes : Nat) :
    run body (passes + 1) s = run body passes s' := by
  rw [run, hbody]

/-- Each pass keeps the invariant and lowers the measure. -/
structure Variant (body : S → Option S) (I : S → Prop) (measure : S → Nat) :
    Prop where
  keeps : ∀ {s s'}, I s → body s = some s' → I s'
  lowers : ∀ {s s'}, I s → body s = some s' → measure s' < measure s

namespace Variant

variable {I : S → Prop} {measure : S → Nat} (h : Variant body I measure)

include h

/-- There is one end, whatever the number of passes, if there are enough. -/
theorem ends (hs : I s) :
    ∃ t, I t ∧ body t = none ∧
      ∀ passes, measure s < passes → run body passes s = some t := by
  induction hn : measure s using Nat.strongRecOn generalizing s with
  | ind n ih =>
      subst hn
      cases hbody : body s with
      | none =>
          refine ⟨s, hs, hbody, fun passes hpasses => ?_⟩
          obtain ⟨passes, rfl⟩ := Nat.exists_eq_succ_of_ne_zero
            (Nat.ne_of_gt (Nat.zero_lt_of_lt hpasses))
          exact run_of_none hbody passes
      | some s' =>
          have hlower := h.lowers hs hbody
          obtain ⟨t, ht, hend, hrun⟩ := ih _ hlower (h.keeps hs hbody) rfl
          refine ⟨t, ht, hend, fun passes hpasses => ?_⟩
          obtain ⟨passes, rfl⟩ := Nat.exists_eq_succ_of_ne_zero
            (Nat.ne_of_gt (Nat.zero_lt_of_lt hpasses))
          rw [run_of_some hbody]
          exact hrun passes (by omega)

end Variant

end Loops
