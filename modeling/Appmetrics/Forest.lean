/-
Forests given by a parent function.  Ancestry is the reflexive transitive
closure of "is a child of"; because a node has at most one parent, the
ancestors of a node form a chain, and cutting a subtree out of that chain
leaves the chain of the cut node's parent.
-/
import Mathlib.Logic.Relation
import Mathlib.Order.Basic

namespace Forest

universe u

variable {α : Type u} {parent : α → Option α}

/-- `Ancestor parent x r`: walking up from `x` meets `r`; every node is its
own ancestor. -/
def Ancestor (parent : α → Option α) : α → α → Prop :=
  Relation.ReflTransGen fun x p => parent x = some p

/-- A set of nodes that contains the parent of each of its nodes. -/
def UpClosed (parent : α → Option α) (P : α → Prop) : Prop :=
  ∀ {x p}, parent x = some p → P x → P p

theorem Ancestor.refl (x : α) : Ancestor parent x x :=
  Relation.ReflTransGen.refl

theorem Ancestor.of_parent {x p : α} (hparent : parent x = some p) :
    Ancestor parent x p :=
  Relation.ReflTransGen.single hparent

theorem Ancestor.trans {x y z : α} (hxy : Ancestor parent x y)
    (hyz : Ancestor parent y z) : Ancestor parent x z :=
  Relation.ReflTransGen.trans hxy hyz

/-- Two ancestors of one node are comparable. -/
theorem Ancestor.total {x y z : α} (hxy : Ancestor parent x y)
    (hxz : Ancestor parent x z) :
    Ancestor parent y z ∨ Ancestor parent z y :=
  Relation.ReflTransGen.total_of_right_unique
    (fun _ _ _ hb hc => Option.some.inj (hb.symm.trans hc)) hxy hxz

/-- The first step of a walk up. -/
theorem ancestor_iff {x r : α} :
    Ancestor parent x r ↔
      x = r ∨ ∃ p, parent x = some p ∧ Ancestor parent p r := by
  constructor
  · intro h
    rcases Relation.ReflTransGen.cases_head h with heq | ⟨p, hparent, hrest⟩
    · exact Or.inl heq
    · exact Or.inr ⟨p, hparent, hrest⟩
  · rintro (rfl | ⟨p, hparent, hrest⟩)
    · exact Ancestor.refl x
    · exact (Ancestor.of_parent hparent).trans hrest

theorem ancestor_of_parent_eq_none {x r : α} (hroot : parent x = none) :
    Ancestor parent x r ↔ x = r := by
  rw [ancestor_iff]
  simp [hroot]

theorem UpClosed.ancestor {P : α → Prop} (hP : UpClosed parent P) {x r : α}
    (h : Ancestor parent x r) (hx : P x) : P r := by
  induction h with
  | refl => exact hx
  | tail _ hparent ih => exact hP hparent ih

/-- Ancestry depends only on the parents of the nodes the walk passes. -/
theorem Ancestor.congr {parent' : α → Option α} {P : α → Prop}
    (hclosed : UpClosed parent P) (heq : ∀ x, P x → parent' x = parent x)
    {x r : α} (hx : P x) (h : Ancestor parent x r) :
    Ancestor parent' x r := by
  induction h with
  | refl => exact Ancestor.refl x
  | @tail y z hwalk hparent ih =>
      have hy : P y := hclosed.ancestor hwalk hx
      exact ih.trans (Ancestor.of_parent ((heq y hy).trans hparent))

section Ranked

variable [Preorder α] (hrank : ∀ {x p}, parent x = some p → p < x)

include hrank

theorem Ancestor.le {x r : α} (h : Ancestor parent x r) : r ≤ x := by
  induction h with
  | refl => exact le_refl x
  | tail _ hparent ih => exact le_trans (le_of_lt (hrank hparent)) ih

/-- A node is not below its own parent's child: walks up never return. -/
theorem not_ancestor_of_parent {r p : α} (hparent : parent r = some p) :
    ¬ Ancestor parent p r := fun h =>
  absurd (Ancestor.le hrank h) (not_le_of_gt (hrank hparent))

/-- Cut the subtree of `r` out of the chain above `c`, where `r` is on that
chain: what remains is the chain above the parent of `r`. -/
theorem chain_cut {c r x : α} (hcr : Ancestor parent c r) :
    (Ancestor parent c x ∧ ¬ Ancestor parent x r) ↔
      ∃ p, parent r = some p ∧ Ancestor parent p x := by
  constructor
  · rintro ⟨hcx, hxr⟩
    rcases hcr.total hcx with hrx | hxr'
    · rcases ancestor_iff.mp hrx with rfl | hup
      · exact absurd (Ancestor.refl r) hxr
      · exact hup
    · exact absurd hxr' hxr
  · rintro ⟨p, hparent, hpx⟩
    refine ⟨hcr.trans ((Ancestor.of_parent hparent).trans hpx), fun hxr => ?_⟩
    exact not_ancestor_of_parent hrank hparent (hpx.trans hxr)

end Ranked

/-- The first `n` nodes of the walk up from `x`. -/
def walk (parent : α → Option α) : Nat → α → List α
  | 0, _ => []
  | n + 1, x =>
      x ::
        match parent x with
        | some p => walk parent n p
        | none => []

/-- Where parents are smaller numbers, a walk of `x + 1` nodes from `x` meets
every ancestor. -/
theorem mem_walk_iff {parent : Nat → Option Nat}
    (hrank : ∀ {x p}, parent x = some p → p < x) {n x r : Nat} (hn : x < n) :
    r ∈ walk parent n x ↔ Ancestor parent x r := by
  induction n generalizing x with
  | zero => exact absurd hn (Nat.not_lt_zero x)
  | succ n ih =>
      rw [walk, List.mem_cons, ancestor_iff, eq_comm]
      refine or_congr Iff.rfl ?_
      cases hparent : parent x with
      | none => simp
      | some p =>
          have hlt := hrank hparent
          simpa using ih (x := p) (by omega)

end Forest
