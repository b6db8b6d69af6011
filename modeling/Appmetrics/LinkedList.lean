/-
Singly linked lists in a heap.  A chain is the list of addresses met on the
way from a pointer to the null pointer; the rules say how a chain survives
changes elsewhere and what writing the last `next` pointer does to it.
-/
import Mathlib.Data.List.Nodup
import Mathlib.Logic.Function.Basic

namespace LinkedList

universe u v

variable {α : Type u} {ν : Type v} {next : ν → Option α}
  {heap heap' : α → Option ν}

/-- Following `next` from `start` meets the nodes of the list and ends. -/
def Chain (next : ν → Option α) (heap : α → Option ν) :
    Option α → List α → Prop
  | start, [] => start = none
  | start, a :: as =>
      start = some a ∧ ∃ v, heap a = some v ∧ Chain next heap (next v) as

/-- The values stored at the nodes. -/
def contents (heap : α → Option ν) (as : List α) : List ν :=
  as.filterMap heap

theorem Chain.nil_iff {start : Option α} {as : List α}
    (hchain : Chain next heap start as) : start = none ↔ as = [] := by
  cases as with
  | nil => exact iff_of_true hchain rfl
  | cons a as => simp [hchain.1]

theorem Chain.live {start : Option α} {as : List α}
    (hchain : Chain next heap start as) {a : α} (ha : a ∈ as) :
    ∃ v, heap a = some v := by
  induction as generalizing start with
  | nil => cases ha
  | cons b bs ih =>
      obtain ⟨_, v, hv, hrest⟩ := hchain
      rcases List.mem_cons.mp ha with rfl | hmem
      · exact ⟨v, hv⟩
      · exact ih hrest hmem

theorem Chain.mem_of_start {start : Option α} {as : List α}
    (hchain : Chain next heap start as) {a : α} (hstart : start = some a) :
    a ∈ as := by
  cases as with
  | nil => cases hchain.symm.trans hstart
  | cons b bs =>
      cases hchain.1.symm.trans hstart
      exact List.mem_cons_self

theorem Chain.mem_of_next {start : Option α} {as : List α}
    (hchain : Chain next heap start as) {a b : α} {v : ν} (ha : a ∈ as)
    (hv : heap a = some v) (hnext : next v = some b) : b ∈ as := by
  induction as generalizing start with
  | nil => cases ha
  | cons c cs ih =>
      obtain ⟨_, w, hw, hrest⟩ := hchain
      rcases List.mem_cons.mp ha with rfl | hmem
      · cases hv.symm.trans hw
        exact List.mem_cons_of_mem _ (hrest.mem_of_start hnext)
      · exact List.mem_cons_of_mem c (ih hrest hmem)

/-- A chain does not see changes at other addresses. -/
theorem Chain.congr {start : Option α} {as : List α}
    (hsame : ∀ a ∈ as, heap' a = heap a)
    (hchain : Chain next heap start as) : Chain next heap' start as := by
  induction as generalizing start with
  | nil => exact hchain
  | cons a as ih =>
      obtain ⟨hstart, v, hv, hrest⟩ := hchain
      refine ⟨hstart, v, (hsame a List.mem_cons_self).trans hv, ?_⟩
      exact ih (fun b hb => hsame b (List.mem_cons_of_mem a hb)) hrest

theorem contents_congr {as : List α} (hsame : ∀ a ∈ as, heap' a = heap a) :
    contents heap' as = contents heap as := by
  induction as with
  | nil => rfl
  | cons a as ih =>
      have hrest := ih fun b hb => hsame b (List.mem_cons_of_mem a hb)
      rw [contents, List.filterMap_cons, hsame a List.mem_cons_self]
      rw [contents] at hrest
      rw [hrest, contents, contents, List.filterMap_cons]

/-- Only the last node has a null `next`. -/
theorem Chain.eq_concat {start : Option α} {as : List α}
    (hchain : Chain next heap start as) {a : α} {v : ν} (ha : a ∈ as)
    (hv : heap a = some v) (hnext : next v = none) :
    ∃ bs, as = bs ++ [a] ∧ a ∉ bs := by
  induction as generalizing start with
  | nil => cases ha
  | cons b bs ih =>
      obtain ⟨_, w, hw, hrest⟩ := hchain
      by_cases hab : a = b
      · subst hab
        cases hv.symm.trans hw
        rw [hnext] at hrest
        have hnil := hrest.nil_iff.mp rfl
        exact ⟨[], by rw [hnil]; rfl, List.not_mem_nil⟩
      · have hmem := (List.mem_cons.mp ha).resolve_left hab
        obtain ⟨cs, hcs, hnot⟩ := ih hrest hmem
        refine ⟨b :: cs, by rw [hcs]; rfl, ?_⟩
        rw [List.mem_cons, not_or]
        exact ⟨hab, hnot⟩

/-- Writing `b` into the `next` of the last node appends it. -/
theorem Chain.snoc {start : Option α} {as : List α} {a b : α} {v w : ν}
    (hchain : Chain next heap start (as ++ [a]))
    (hsame : ∀ c ∈ as, heap' c = heap c) (ha : heap' a = some v)
    (hv : next v = some b) (hb : heap' b = some w) (hw : next w = none) :
    Chain next heap' start (as ++ [a, b]) := by
  induction as generalizing start with
  | nil => exact ⟨hchain.1, v, ha, hv, w, hb, hw⟩
  | cons c cs ih =>
      obtain ⟨hstart, u, hu, hrest⟩ := hchain
      refine ⟨hstart, u, (hsame c List.mem_cons_self).trans hu, ?_⟩
      exact ih hrest fun d hd => hsame d (List.mem_cons_of_mem c hd)

theorem contents_append (as bs : List α) :
    contents heap (as ++ bs) = contents heap as ++ contents heap bs :=
  List.filterMap_append

theorem contents_singleton {a : α} {v : ν} (hv : heap a = some v) :
    contents heap [a] = [v] := by
  simp [contents, hv]

end LinkedList
