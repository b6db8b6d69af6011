/-
Where a scan stops in a list that is put together: from the front at the first
element that fails the test, from the back at the last one.
-/
import Mathlib.Data.List.DropRight

namespace Scanning

variable {A : Type} {p : A → Bool} {x : A} {a b : List A}

/-- Looking for what is not there stops nowhere. -/
theorem bne_of_not_mem [DecidableEq A] (hx : x ∉ a) :
    ∀ c ∈ a, (c != x) = true := by
  intro c hc
  simpa using ne_of_mem_of_not_mem hc hx

/-! ## From the front -/

section Front

variable (ha : ∀ c ∈ a, p c = true)

include ha

section Stop

variable (hb : ∀ c ∈ b.head?, p c = false)

include hb

theorem takeWhile_append : (a ++ b).takeWhile p = a := by
  rw [List.takeWhile_append_of_pos ha]
  cases b with
  | nil => rw [List.takeWhile_nil, List.append_nil]
  | cons c b =>
      rw [List.takeWhile_cons_of_neg (by simp [hb c rfl]), List.append_nil]

theorem dropWhile_append : (a ++ b).dropWhile p = b := by
  rw [List.dropWhile_append_of_pos ha]
  cases b with
  | nil => rfl
  | cons c b => rw [List.dropWhile_cons_of_neg (by simp [hb c rfl])]

end Stop

theorem takeWhile_append_cons (hx : p x = false) :
    (a ++ x :: b).takeWhile p = a :=
  takeWhile_append ha (by simpa using hx)

theorem dropWhile_append_cons (hx : p x = false) :
    (a ++ x :: b).dropWhile p = x :: b :=
  dropWhile_append ha (by simpa using hx)

end Front

/-- The scan is the longest of the starts that pass the test throughout. -/
theorem prefix_takeWhile_iff {q l : List A} :
    q <+: l.takeWhile p ↔ q <+: l ∧ ∀ c ∈ q, p c = true := by
  constructor
  · intro h
    exact ⟨h.trans (List.takeWhile_prefix p),
      fun c hc => List.mem_takeWhile_imp (h.subset hc)⟩
  · rintro ⟨⟨rest, rfl⟩, hq⟩
    rw [List.takeWhile_append_of_pos hq]
    exact List.prefix_append _ _

/-! ## From the back -/

section Back

variable (hx : p x = false)

include hx

theorem rdropWhile_append_cons (a b : List A) :
    (a ++ x :: b).rdropWhile p = a ++ x :: b.rdropWhile p := by
  induction b using List.reverseRecOn with
  | nil =>
      rw [List.rdropWhile_nil,
        List.rdropWhile_concat_neg _ _ _ (by simp [hx])]
  | append_singleton b c ih =>
      have hassoc : a ++ x :: (b ++ [c]) = (a ++ x :: b) ++ [c] := by simp
      rw [hassoc, List.rdropWhile_concat, List.rdropWhile_concat, ih]
      split <;> simp

theorem rtakeWhile_append_cons (a b : List A) :
    (a ++ x :: b).rtakeWhile p = b.rtakeWhile p := by
  have hall : (a ++ x :: b).rdropWhile p ++ (a ++ x :: b).rtakeWhile p =
      a ++ x :: b := List.rdropWhile_append_rtakeWhile
  have hlast : b.rdropWhile p ++ b.rtakeWhile p = b :=
    List.rdropWhile_append_rtakeWhile
  rw [rdropWhile_append_cons hx, List.append_assoc, List.cons_append] at hall
  have hrest := (List.cons.inj (List.append_cancel_left hall)).2
  exact List.append_cancel_left (hrest.trans hlast.symm)

/-- A scan over all of `b` stops at `x`. -/
theorem rdropWhile_append_of_forall (hb : ∀ c ∈ b, p c = true) :
    (a ++ x :: b).rdropWhile p = a ++ [x] := by
  rw [rdropWhile_append_cons hx, List.rdropWhile_eq_nil_iff.mpr hb]

theorem rtakeWhile_append_of_forall (hb : ∀ c ∈ b, p c = true) :
    (a ++ x :: b).rtakeWhile p = b := by
  rw [rtakeWhile_append_cons hx, List.rtakeWhile_eq_self_iff.mpr hb]

end Back

end Scanning
