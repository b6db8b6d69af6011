/-
Samples that arrive one at a time and are summed up by reports in between.  An
accumulator that every report resets gives the summary of exactly the samples
since the report before.  A summary that starts from a bound in place of the
least sample is right if and only if the bound is not below all samples.
-/
import Mathlib.Algebra.Order.BigOperators.Group.List
import Mathlib.Order.Bounds.Basic

namespace Batching

universe u v w

variable {X : Type u} {S : Type v} {R : Type w}

inductive Event (X : Type u)
  | sample (x : X)
  | report
deriving Repr, DecidableEq

def samples (es : List (Event X)) : List X :=
  es.filterMap fun
    | .sample x => some x
    | .report => none

/-- The samples before each report and after the one before it; `xs` have
come first. -/
def closed : List X → List (Event X) → List (List X)
  | _, [] => []
  | xs, .sample x :: es => closed (xs ++ [x]) es
  | xs, .report :: es => xs :: closed [] es

/-- The samples after the last report. -/
def waiting : List X → List (Event X) → List X
  | xs, [] => xs
  | xs, .sample x :: es => waiting (xs ++ [x]) es
  | _, .report :: es => waiting [] es

/-- Every sample is in one batch, in order. -/
theorem flatten_closed (xs : List X) (es : List (Event X)) :
    (closed xs es).flatten ++ waiting xs es = xs ++ samples es := by
  induction es generalizing xs with
  | nil => simp [closed, waiting, samples]
  | cons e es ih =>
      cases e with
      | sample x =>
          rw [closed, waiting, ih, List.append_assoc]
          rfl
      | report =>
          rw [closed, waiting, List.flatten_cons, List.append_assoc, ih]
          rfl

/-- The samples of each report that has any. -/
def batches (es : List (Event X)) : List (List X) :=
  (closed [] es).filter (!·.isEmpty)

theorem flatten_batches (es : List (Event X)) :
    (batches es).flatten ++ waiting [] es = samples es := by
  rw [batches, List.flatten_filter_not_isEmpty, flatten_closed, List.nil_append]

theorem ne_nil_of_mem_batches {xs : List X} {es : List (Event X)}
    (hxs : xs ∈ batches es) : xs ≠ [] := by
  simpa using (List.mem_filter.mp hxs).2

/-- A report of an accumulator without samples does nothing. -/
structure Accumulator (X : Type u) (S : Type v) (R : Type w) where
  zero : S
  add : S → X → S
  empty : S → Bool
  summary : S → R

namespace Accumulator

variable (A : Accumulator X S R)

/-- The accumulator after these samples. -/
def of (xs : List X) : S := xs.foldl A.add A.zero

/-- The accumulator with the reports it has made. -/
def step : S × List R → Event X → S × List R
  | (s, reports), .sample x => (A.add s x, reports)
  | (s, reports), .report =>
      if A.empty s then (s, reports)
      else (A.zero, reports ++ [A.summary s])

def run (es : List (Event X)) : S × List R :=
  es.foldl A.step (A.zero, [])

/-- It can tell whether there have been samples. -/
def Counts : Prop := ∀ xs, A.empty (A.of xs) = xs.isEmpty

variable {A}

theorem of_append_singleton (xs : List X) (x : X) :
    A.of (xs ++ [x]) = A.add (A.of xs) x := by
  rw [of, List.foldl_append]
  rfl

theorem foldl_step (hA : A.Counts) (es : List (Event X)) (xs : List X)
    (reports : List R) :
    es.foldl A.step (A.of xs, reports) =
      (A.of (waiting xs es), reports ++
        ((closed xs es).filter (!·.isEmpty)).map (A.summary ∘ A.of)) := by
  induction es generalizing xs reports with
  | nil => simp [waiting, closed]
  | cons e es ih =>
      rw [List.foldl_cons]
      cases e with
      | sample x =>
          rw [step, ← of_append_singleton, ih]
          rfl
      | report =>
          rw [step, hA, waiting, closed, List.filter_cons]
          cases xs with
          | nil => exact ih [] reports
          | cons x xs =>
              have hrest := ih [] (reports ++ [A.summary (A.of (x :: xs))])
              simpa [of] using hrest

/-- Over any run, the reports are the summaries of the batches. -/
theorem run_eq (hA : A.Counts) (es : List (Event X)) :
    A.run es = (A.of (waiting [] es),
      (batches es).map (A.summary ∘ A.of)) :=
  foldl_step hA es [] []

end Accumulator

/-! ## Least, greatest and total -/

variable {T : Type u} [LinearOrder T]

theorem foldl_min_isLeast {xs : List T} {bound : T} :
    IsLeast {x | x ∈ xs} (xs.foldl min bound) ↔ ∃ x ∈ xs, x ≤ bound := by
  have hmin : (bound :: xs).min? = some (xs.foldl min bound) :=
    List.min?_cons'
  obtain ⟨hmem, hle⟩ := List.min?_eq_some_iff.mp hmin
  rw [List.forall_mem_cons] at hle
  constructor
  · intro hleast
    exact ⟨_, hleast.1, hle.1⟩
  · rintro ⟨x, hx, hbound⟩
    refine ⟨?_, hle.2⟩
    rcases List.mem_cons.mp hmem with heq | hmem
    · have hsame : x = xs.foldl min bound :=
        le_antisymm (hbound.trans heq.ge) (hle.2 x hx)
      exact hsame ▸ hx
    · exact hmem

theorem foldl_max_isGreatest {xs : List T} {bound : T} :
    IsGreatest {x | x ∈ xs} (xs.foldl max bound) ↔ ∃ x ∈ xs, bound ≤ x :=
  foldl_min_isLeast (T := Tᵒᵈ)

structure Summary (T : Type u) where
  least : T
  greatest : T
  count : Nat
  total : T
deriving Repr, DecidableEq

namespace Summary

variable [AddCommMonoid T]

/-- The summary of these samples. -/
structure Of (s : Summary T) (xs : List T) : Prop where
  least : IsLeast {x | x ∈ xs} s.least
  greatest : IsGreatest {x | x ∈ xs} s.greatest
  count : s.count = xs.length
  total : s.total = xs.sum

/-- Before any sample, with bounds for the least and the greatest one. -/
def start (below above : T) : Summary T := ⟨below, above, 0, 0⟩

def add (s : Summary T) (x : T) : Summary T :=
  ⟨min s.least x, max s.greatest x, s.count + 1, s.total + x⟩

theorem foldl_add (xs : List T) (s : Summary T) :
    xs.foldl add s = ⟨xs.foldl min s.least, xs.foldl max s.greatest,
      s.count + xs.length, s.total + xs.sum⟩ := by
  induction xs generalizing s with
  | nil => simp
  | cons x xs ih =>
      rw [List.foldl_cons, ih]
      simp [add, add_assoc, Nat.add_comm 1]

/-- The bounds have to leave room for the samples. -/
theorem foldl_start_of {xs : List T} {below above : T} :
    (xs.foldl add (start below above)).Of xs ↔
      (∃ x ∈ xs, x ≤ below) ∧ ∃ x ∈ xs, above ≤ x := by
  rw [foldl_add, ← foldl_min_isLeast, ← foldl_max_isGreatest]
  constructor
  · intro hof
    exact ⟨hof.least, hof.greatest⟩
  · rintro ⟨hleast, hgreatest⟩
    exact ⟨hleast, hgreatest, by simp [start], by simp [start]⟩

variable [IsOrderedAddMonoid T] {s : Summary T} {xs : List T}

theorem Of.nsmul_least_le (hof : s.Of xs) : s.count • s.least ≤ s.total := by
  rw [hof.count, hof.total]
  exact List.card_nsmul_le_sum xs s.least fun x hx => hof.least.2 hx

theorem Of.le_nsmul_greatest (hof : s.Of xs) :
    s.total ≤ s.count • s.greatest := by
  rw [hof.count, hof.total]
  exact List.sum_le_card_nsmul xs s.greatest fun x hx => hof.greatest.2 hx

end Summary

end Batching
