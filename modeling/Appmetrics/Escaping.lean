/-
src/plugins/node/prof/nodeprofplugin.cpp: the escapes of the names in
`ConstructNodeData`, computed by the loop of `replaceInString`.  Those of a
function name can be undone.
-/
import Appmetrics.ProfileJson
import Appmetrics.Replacement
import Mathlib.Algebra.Ring.Parity

namespace Appmetrics

namespace Escaping

open Replacement (Replaced OccursAt)

/-! ## The loops for a name -/

/-- What `ConstructNodeData` makes of `strFunction`. -/
def constructFunction (passes : Nat) (strFunction : List Char) :
    Option (List Char) :=
  if strFunction ≠ [] then do
    let strFunction ←
      Replacement.replaceInString passes ['\\'] ['\\', '\\'] strFunction
    Replacement.replaceInString passes ['"'] ['\\', '"'] strFunction
  else some strFunction

/-- What it makes of `strScript`. -/
def constructScript (passes : Nat) (strScript : List Char) :
    Option (List Char) :=
  if strScript ≠ [] then do
    let strScript ←
      Replacement.replaceInString passes ['\\'] ['/'] strScript
    Replacement.replaceInString passes ['"'] ['\\', '"'] strScript
  else some strScript

/-- The occurrences of one character are replaced one by one. -/
theorem replaced_char (c : Char) (replaceWith s : List Char) :
    Replaced [c] replaceWith s (replaceInString c replaceWith s) := by
  unfold replaceInString
  induction s with
  | nil => exact .none fun i => by simp [OccursAt]
  | cons a s ih =>
      rw [List.flatMap_cons]
      split
      · next heq =>
          subst heq
          have hnone (i : Nat) (hi : i < ([] : List Char).length) :
              ¬OccursAt [a] ([] ++ [a] ++ s) i :=
            absurd hi (Nat.not_lt_zero i)
          exact .first hnone ih
      · next hne =>
          refine .cons ?_ ih
          simpa [OccursAt, eq_comm] using hne

theorem replaceInString_char (c : Char) (replaceWith : List Char)
    {s : List Char} {passes : Nat} (hpasses : s.length < passes) :
    Replacement.replaceInString passes [c] replaceWith s =
      some (replaceInString c replaceWith s) := by
  obtain ⟨t, ht, hrun⟩ := Replacement.replaceInString_replaced
    (List.cons_ne_nil c []) replaceWith s
  rw [hrun passes hpasses, ht.unique (replaced_char c replaceWith s)]

theorem length_replaceInString_le (c : Char) (replaceWith : List Char)
    (hne : replaceWith ≠ []) (s : List Char) :
    (replaceInString c replaceWith s).length ≤
      replaceWith.length * s.length := by
  have hpos := List.length_pos_iff.mpr hne
  unfold replaceInString
  induction s with
  | nil => simp
  | cons a s ih =>
      rw [List.flatMap_cons, List.length_append, List.length_cons,
        Nat.mul_succ, Nat.add_comm]
      refine Nat.add_le_add ih ?_
      split
      · exact Nat.le_refl _
      · exact hpos

/-- The second loop passes no more characters than the first has written. -/
theorem replace_twice (c d : Char) {v : List Char} (hv : v ≠ [])
    (w : List Char) {s : List Char} {passes : Nat}
    (hpasses : v.length * s.length < passes) :
    (do
      let s ← Replacement.replaceInString passes [c] v s
      Replacement.replaceInString passes [d] w s) =
      some (replaceInString d w (replaceInString c v s)) := by
  have hle : s.length < passes :=
    (Nat.le_mul_of_pos_left _ (List.length_pos_iff.mpr hv)).trans_lt hpasses
  have hwritten := (length_replaceInString_le c v hv s).trans_lt hpasses
  rw [replaceInString_char c v hle, Option.bind_eq_bind, Option.bind_some,
    replaceInString_char d w hwritten]

theorem constructFunction_eq {s : List Char} {passes : Nat}
    (hpasses : 2 * s.length < passes) :
    constructFunction passes s = some (escapeFunction s) := by
  unfold constructFunction escapeFunction
  split
  · exact replace_twice '\\' '"' (List.cons_ne_nil _ _) _ hpasses
  · rfl

theorem constructScript_eq {s : List Char} {passes : Nat}
    (hpasses : s.length < passes) :
    constructScript passes s = some (escapeScript s) := by
  unfold constructScript escapeScript
  split
  · exact replace_twice '\\' '"' (List.cons_ne_nil _ _) _
      ((Nat.one_mul _).trans_lt hpasses)
  · rfl

/-! ## Undoing the escapes -/

/-- A backslash only stands before a backslash or a quote, and a quote only
behind a backslash; `none` is a text that breaks this. -/
def unescape : List Char → Option (List Char)
  | [] => some []
  | '\\' :: '\\' :: s => (unescape s).map ('\\' :: ·)
  | '\\' :: '"' :: s => (unescape s).map ('"' :: ·)
  | '\\' :: _ => none
  | '"' :: _ => none
  | c :: s => (unescape s).map (c :: ·)

/-- How many backslashes end the text. -/
def slashes (s : List Char) : Nat := (s.rtakeWhile (· = '\\')).length

theorem unescape_cons {c : Char} (hc : ¬(c = '"' ∨ c = '\\'))
    (s : List Char) : unescape (c :: s) = (unescape s).map (c :: ·) := by
  obtain ⟨hquote, hslash⟩ := not_or.mp hc
  rw [unescape] <;> simp_all

theorem unescape_escapeFunction (s : List Char) :
    unescape (escapeFunction s) = some s := by
  rw [escapeFunction_flatMap]
  induction s with
  | nil => rfl
  | cons c s ih =>
      rw [List.flatMap_cons, escapeFunction_char]
      by_cases hc : c = '"' ∨ c = '\\'
      · rw [if_pos hc]
        rcases hc with rfl | rfl
        · rw [List.cons_append, List.cons_append, List.nil_append, unescape,
            ih]
          rfl
        · rw [List.cons_append, List.cons_append, List.nil_append, unescape,
            ih]
          rfl
      · rw [if_neg hc, List.singleton_append, unescape_cons hc, ih]
        rfl

theorem slashes_concat (s : List Char) (c : Char) :
    slashes (s ++ [c]) = if c = '\\' then slashes s + 1 else 0 := by
  rw [slashes, List.rtakeWhile_concat]
  by_cases hc : c = '\\'
  · simp [hc, slashes]
  · simp [hc]

theorem escapeFunction_concat (s : List Char) (c : Char) :
    escapeFunction (s ++ [c]) =
      escapeFunction s ++
        if c = '"' ∨ c = '\\' then ['\\', c] else [c] := by
  rw [escapeFunction_flatMap, List.flatMap_append, ← escapeFunction_flatMap,
    List.flatMap_singleton, escapeFunction_char]

/-- Whole escapes end in an even number of backslashes. -/
theorem even_slashes (s : List Char) : Even (slashes (escapeFunction s)) := by
  induction s using List.reverseRecOn with
  | nil => exact Even.zero
  | append_singleton s c ih =>
      rw [escapeFunction_concat]
      by_cases hslash : c = '\\'
      · have hassoc : escapeFunction s ++ ['\\', '\\'] =
            escapeFunction s ++ ['\\'] ++ ['\\'] := by simp
        rw [if_pos (Or.inr hslash), hslash, hassoc, slashes_concat,
          slashes_concat, if_pos rfl, if_pos rfl]
        exact ih.add_one.add_one
      · obtain ⟨u, hu⟩ : ∃ u, (escapeFunction s ++
            if c = '"' ∨ c = '\\' then ['\\', c] else [c]) = u ++ [c] := by
          split
          · exact ⟨escapeFunction s ++ ['\\'], by simp⟩
          · exact ⟨escapeFunction s, rfl⟩
        rw [hu, slashes_concat, if_neg hslash]
        exact Even.zero

/-- In the escape of one character, a quote has a backslash before it. -/
theorem escape_split {c : Char} {front back : List Char}
    (hsplit : (if c = '"' ∨ c = '\\' then ['\\', c] else [c]) =
      front ++ '"' :: back) : front = ['\\'] := by
  by_cases hc : c = '"' ∨ c = '\\'
  · rw [if_pos hc] at hsplit
    rcases front with _ | ⟨x, _ | ⟨y, front⟩⟩
    · cases hsplit
    · cases hsplit
      rfl
    · simp at hsplit
  · rw [if_neg hc] at hsplit
    rcases front with _ | ⟨x, front⟩
    · cases hsplit
      exact absurd (Or.inl rfl) hc
    · simp at hsplit

theorem odd_slashes {s front back : List Char}
    (hsplit : escapeFunction s = front ++ '"' :: back) :
    Odd (slashes front) := by
  induction s using List.reverseRecOn generalizing back with
  | nil => simp [escapeFunction] at hsplit
  | append_singleton s c ih =>
      rw [escapeFunction_concat, List.append_eq_append_iff] at hsplit
      rcases hsplit with ⟨last, rfl, hlast⟩ | ⟨rest, hrest, hlast⟩
      · rw [escape_split hlast, slashes_concat, if_pos rfl]
        exact (even_slashes s).add_one
      · cases rest with
        | nil =>
            rw [List.nil_append] at hlast
            have hfront : [] = ['\\'] := escape_split hlast.symm
            cases hfront
        | cons x rest =>
            cases hlast
            exact ih hrest

/-! ## Both loops -/

/-- The loop of `replaceInString` ends with the one text in which all
occurrences are replaced. -/
def ReplacesAll {A : Type} [DecidableEq A] (pattern replaceWith s : List A) :
    Prop :=
  ∃ t, Replaced pattern replaceWith s t ∧
    (∀ t', Replaced pattern replaceWith s t' → t' = t) ∧
    ∀ passes, s.length < passes →
      Replacement.replaceInString passes pattern replaceWith s = some t

/-- The escaped text, and how to get the name back. -/
structure Reversible (s t : List Char) : Prop where
  quotes : ∀ front back, t = front ++ '"' :: back → Odd (slashes front)
  unescapes : unescape t = some s

/-- For every text, pattern and replacement, and every name of a function. -/
theorem escaping_reversible :
    (∀ (A : Type) [DecidableEq A] (pattern replaceWith s : List A),
      pattern ≠ [] → ReplacesAll pattern replaceWith s) ∧
    ∀ s passes, 2 * s.length < passes →
      ∃ t, constructFunction passes s = some t ∧ t = escapeFunction s ∧
        Reversible s t := by
  refine ⟨fun A _ pattern replaceWith s hpattern => ?_,
    fun s passes hpasses => ?_⟩
  · obtain ⟨t, ht, hrun⟩ :=
      Replacement.replaceInString_replaced hpattern replaceWith s
    exact ⟨t, ht, fun t' ht' => ht'.unique ht, hrun⟩
  · exact ⟨_, constructFunction_eq hpasses, rfl,
      fun _ _ hsplit => odd_slashes hsplit, unescape_escapeFunction s⟩

end Escaping

namespace EscapingWitness

open Escaping

-- overlapping occurrences, and a replacement that contains the pattern
example : Replacement.replaceInString 9 "aa".toList "aaa".toList
    "aaaaab".toList = some "aaaaaaab".toList := by decide

/-- A backslash in front of a quote. -/
def name : List Char := ['a', '\\', '"']

theorem name_reversible :
    constructFunction 7 name =
        some ['a', '\\', '\\', '\\', '"'] ∧
      Reversible name ['a', '\\', '\\', '\\', '"'] ∧
      ReplacesAll ['"'] ['\\', '"'] name := by
  have hescaped : escapeFunction name = ['a', '\\', '\\', '\\', '"'] := by
    decide
  obtain ⟨t, hrun, rfl, ht⟩ := escaping_reversible.2 name 7 (by decide)
  rw [hescaped] at hrun ht
  exact ⟨hrun, ht, escaping_reversible.1 Char _ _ _ (by decide)⟩

end EscapingWitness

end Appmetrics
