/-
src/appmetrics.cpp: `portDirname` on Windows, where both kinds of slashes
separate the components of a path, against what precedes the last component.
-/
import Appmetrics.Text

namespace Appmetrics

/-- A slash or a backslash. -/
def isSeparator (c : Char) : Bool := c = '/' || c = '\\'

/-- `while (pos > 0 && ..) pos--`; `none` is an index outside the string. -/
def skipSeparators (filename : List Char) : Nat → Option Nat
  | 0 => some 0
  | pos + 1 => do
      let c ← filename[pos + 1]?
      if isSeparator c then skipSeparators filename pos else some (pos + 1)

/-- `filename.rfind(c, pos)`. -/
def rfind (filename : List Char) (c : Char) : Nat → Option Nat
  | 0 => if filename[0]? = some c then some 0 else none
  | pos + 1 =>
      if filename[pos + 1]? = some c then some (pos + 1)
      else rfind filename c pos

def portDirname (filename : List Char) : Option (List Char) :=
  if filename.length = 0 then some ['.']
  else do
    let lastpos ← skipSeparators filename (filename.length - 1)
    let slashpos := rfind filename '/' lastpos
    let bslashpos := rfind filename '\\' lastpos
    -- the third branch, with the greater of the two, is never reached
    match slashpos.or bslashpos with
    | none => some ['.']
    | some pos =>
        if pos = 0 then some (filename.take 1)
        else do
          let endpos ← skipSeparators filename pos
          some (filename.take (endpos + 1))

/-! ## The directory of a path -/

/-- Without its trailing separators, but with one at position 0. -/
def stripSeparators (s : List Char) : List Char :=
  if s.rdropWhile isSeparator = [] then s.take 1
  else s.rdropWhile isSeparator

/-- What precedes the last component: the text up to the last separator,
without its trailing separators. -/
def dirname (path : List Char) : List Char :=
  let upToLast := (stripSeparators path).rdropWhile (!isSeparator ·)
  if upToLast = [] then ['.'] else stripSeparators upToLast

/-- After the last slash, backslashes come only before the last component. -/
def SlashesLast (path : List Char) : Prop :=
  ∀ u v w, stripSeparators path = u ++ '/' :: v ++ '\\' :: w →
    '/' ∉ v ++ w → ∀ c ∈ v, c = '\\'

theorem stripSeparators_singleton (c : Char) : stripSeparators [c] = [c] := by
  unfold stripSeparators
  rw [List.rdropWhile_singleton]
  cases isSeparator c <;> rfl

theorem stripSeparators_concat_separator {s : List Char} {c : Char}
    (hs : s ≠ []) (hc : isSeparator c = true) :
    stripSeparators (s ++ [c]) = stripSeparators s := by
  obtain ⟨d, s, rfl⟩ := List.exists_cons_of_ne_nil hs
  unfold stripSeparators
  rw [List.rdropWhile_concat_pos _ _ _ hc]
  rfl

theorem stripSeparators_concat {s : List Char} {c : Char}
    (hc : isSeparator c = false) : stripSeparators (s ++ [c]) = s ++ [c] := by
  unfold stripSeparators
  rw [List.rdropWhile_concat_neg _ _ _ (by simp [hc])]
  simp

theorem stripSeparators_append {s t : List Char} (hs : s ≠ [])
    (ht : ∀ c ∈ t, isSeparator c = true) :
    stripSeparators (s ++ t) = stripSeparators s := by
  induction t using List.reverseRecOn with
  | nil => rw [List.append_nil]
  | append_singleton t c ih =>
      rw [← List.append_assoc,
        stripSeparators_concat_separator (by simp [hs]) (ht c (by simp)),
        ih fun d hd => ht d (by simp [hd])]

theorem stripSeparators_length_le (s : List Char) :
    (stripSeparators s).length ≤ s.length := by
  unfold stripSeparators
  split
  · simp
  · exact (List.rdropWhile_prefix _ _).length_le

/-- What is not a separator stays. -/
theorem length_lt_stripSeparators {s t : List Char} {c : Char}
    (hc : isSeparator c = false) :
    s.length < (stripSeparators (s ++ c :: t)).length := by
  have hdrop := Scanning.rdropWhile_append_cons hc s t
  unfold stripSeparators
  rw [hdrop, if_neg (by simp)]
  simp

/-! ## The searches -/

theorem take_succ_eq {s : List Char} {pos : Nat} {c : Char}
    (hc : s[pos]? = some c) : s.take (pos + 1) = s.take pos ++ [c] := by
  rw [List.take_add_one, hc]
  rfl

/-- Skipping separators stays inside the string. -/
theorem skipSeparators_eq {filename : List Char} {pos : Nat}
    (hpos : pos < filename.length) :
    ∃ endpos, skipSeparators filename pos = some endpos ∧
      endpos < filename.length ∧ filename.take (endpos + 1) =
        stripSeparators (filename.take (pos + 1)) := by
  induction pos with
  | zero =>
      refine ⟨0, rfl, hpos, ?_⟩
      obtain ⟨c, rest, rfl⟩ :=
        List.exists_cons_of_length_pos (Nat.zero_lt_of_lt hpos)
      exact (stripSeparators_singleton c).symm
  | succ pos ih =>
      have hc : filename[pos + 1]? = some filename[pos + 1] :=
        List.getElem?_eq_getElem hpos
      have htake := take_succ_eq hc
      unfold skipSeparators
      rw [hc, htake]
      cases hsep : isSeparator filename[pos + 1] with
      | true =>
          obtain ⟨endpos, hskip, hlt, heq⟩ := ih (by omega)
          refine ⟨endpos, ?_, hlt, ?_⟩
          · simpa [hsep] using hskip
          · rw [stripSeparators_concat_separator _ hsep, heq]
            simp only [ne_eq, List.take_eq_nil_iff, not_or]
            refine ⟨by omega, fun hnil => ?_⟩
            rw [hnil] at hpos
            exact absurd hpos (by simp)
      | false =>
          refine ⟨pos + 1, by simp [hsep], hpos, ?_⟩
          rw [stripSeparators_concat hsep, htake]

theorem rfind_eq_some {s : List Char} {c : Char} {pos i : Nat}
    (hi : rfind s c pos = some i) :
    ∃ u v, s.take (pos + 1) = u ++ c :: v ∧ u.length = i ∧ c ∉ v := by
  induction pos with
  | zero =>
      obtain ⟨hc, hi⟩ := Option.ite_none_right_eq_some.mp hi
      cases hi
      exact ⟨[], [], take_succ_eq hc, rfl, List.not_mem_nil⟩
  | succ pos ih =>
      unfold rfind at hi
      split at hi
      · next hc =>
          cases hi
          have hlt := (List.getElem?_eq_some_iff.mp hc).1
          refine ⟨s.take (pos + 1), [], take_succ_eq hc, ?_, List.not_mem_nil⟩
          rw [List.length_take]
          omega
      · next hc =>
          obtain ⟨u, v, htake, hlength, hv⟩ := ih hi
          refine ⟨u, v ++ s[pos + 1]?.toList, ?_, hlength, ?_⟩
          · rw [List.take_add_one, htake, List.append_assoc, List.cons_append]
          · simpa [hv] using hc

theorem rfind_eq_none {s : List Char} {c : Char} {pos : Nat}
    (hnone : rfind s c pos = none) : c ∉ s.take (pos + 1) := by
  induction pos with
  | zero =>
      unfold rfind at hnone
      rw [List.take_add_one]
      simpa using hnone
  | succ pos ih =>
      unfold rfind at hnone
      split at hnone
      · cases hnone
      · next hc =>
          rw [List.take_add_one, List.mem_append, not_or]
          exact ⟨ih hnone, by simpa using hc⟩

/-! ## What is returned -/

/-- The text up to a position, without trailing separators. -/
theorem upTo_position {filename : List Char} {pos : Nat}
    (hpos : pos < filename.length) :
    (if pos = 0 then some (filename.take 1)
      else do
        let endpos ← skipSeparators filename pos
        some (filename.take (endpos + 1))) =
      some (stripSeparators (filename.take (pos + 1))) := by
  obtain ⟨endpos, hskip, _, heq⟩ := skipSeparators_eq hpos
  rw [hskip, ← heq]
  split
  · next hzero =>
      subst hzero
      cases hskip
      rfl
  · rfl

/-- The search for a separator in the path without its trailing ones. -/
theorem portDirname_search {path : List Char} (hpath : path ≠ []) :
    ∃ lastpos, path.take (lastpos + 1) = stripSeparators path ∧
      portDirname path =
        match (rfind path '/' lastpos).or (rfind path '\\' lastpos) with
        | none => some ['.']
        | some pos => some (stripSeparators (path.take (pos + 1))) := by
  have hpos := List.length_pos_iff.mpr hpath
  have hlast : path.length - 1 < path.length := by omega
  obtain ⟨lastpos, hskip, _, htake⟩ := skipSeparators_eq hlast
  rw [Nat.sub_add_cancel hpos, List.take_length] at htake
  refine ⟨lastpos, htake, ?_⟩
  unfold portDirname
  rw [if_neg (by omega), hskip, Option.bind_eq_bind, Option.bind_some]
  dsimp only
  cases hfind : (rfind path '/' lastpos).or (rfind path '\\' lastpos) with
  | none => rfl
  | some pos =>
      have hfound : ∃ c, rfind path c lastpos = some pos := by
        rcases Option.or_eq_some_iff.mp hfind with hslash | ⟨_, hbslash⟩
        · exact ⟨_, hslash⟩
        · exact ⟨_, hbslash⟩
      obtain ⟨c, hc⟩ := hfound
      obtain ⟨u, v, heq, rfl, _⟩ := rfind_eq_some hc
      have hlength := congrArg List.length heq
      simp only [List.length_take, List.length_append, List.length_cons]
        at hlength
      exact upTo_position (by omega)

/-- The text up to a separator that has been found. -/
theorem take_found {path : List Char} {c : Char} {lastpos pos : Nat}
    (hpos : rfind path c lastpos = some pos) :
    ∃ u v, path.take (lastpos + 1) = u ++ c :: v ∧ c ∉ v ∧
      path.take (pos + 1) = u ++ [c] := by
  obtain ⟨u, v, htake, rfl, hv⟩ := rfind_eq_some hpos
  refine ⟨u, v, htake, hv, ?_⟩
  have hlength := congrArg List.length htake
  simp only [List.length_take, List.length_append, List.length_cons]
    at hlength
  have hcut := congrArg (List.take (u.length + 1)) htake
  rw [List.take_take, Nat.min_eq_left (by omega)] at hcut
  rw [hcut, List.take_length_add_append]
  rfl

theorem portDirname_none {path : List Char} (hpath : path ≠ [])
    (hslash : '/' ∉ stripSeparators path)
    (hbslash : '\\' ∉ stripSeparators path) :
    portDirname path = some ['.'] := by
  obtain ⟨lastpos, htake, hsearch⟩ := portDirname_search hpath
  have hnone (c : Char) (hc : c ∉ stripSeparators path) :
      rfind path c lastpos = none := by
    rw [Option.eq_none_iff_forall_not_mem]
    intro pos hpos
    obtain ⟨u, v, heq, _⟩ := take_found hpos
    rw [← htake, heq] at hc
    exact hc (by simp)
  rw [hsearch, hnone _ hslash, hnone _ hbslash]
  rfl

/-- A slash is preferred, wherever it stands. -/
theorem portDirname_slash {path : List Char} (hpath : path ≠ [])
    (hslash : '/' ∈ stripSeparators path) :
    ∃ u v, stripSeparators path = u ++ '/' :: v ∧ '/' ∉ v ∧
      portDirname path = some (stripSeparators (u ++ ['/'])) := by
  obtain ⟨lastpos, htake, hsearch⟩ := portDirname_search hpath
  cases hfind : rfind path '/' lastpos with
  | none =>
      rw [← htake] at hslash
      exact absurd hslash (rfind_eq_none hfind)
  | some pos =>
      obtain ⟨u, v, heq, hv, hpos⟩ := take_found hfind
      refine ⟨u, v, htake ▸ heq, hv, ?_⟩
      rw [hsearch, hfind, ← hpos]
      rfl

theorem portDirname_backslash {path : List Char} (hpath : path ≠ [])
    (hslash : '/' ∉ stripSeparators path)
    (hbslash : '\\' ∈ stripSeparators path) :
    ∃ u v, stripSeparators path = u ++ '\\' :: v ∧ '\\' ∉ v ∧
      portDirname path = some (stripSeparators (u ++ ['\\'])) := by
  obtain ⟨lastpos, htake, hsearch⟩ := portDirname_search hpath
  have hnone : rfind path '/' lastpos = none := by
    rw [Option.eq_none_iff_forall_not_mem]
    intro pos hpos
    obtain ⟨u, v, heq, _⟩ := take_found hpos
    rw [← htake, heq] at hslash
    exact hslash (by simp)
  cases hfind : rfind path '\\' lastpos with
  | none =>
      rw [← htake] at hbslash
      exact absurd hbslash (rfind_eq_none hfind)
  | some pos =>
      obtain ⟨u, v, heq, hv, hpos⟩ := take_found hfind
      refine ⟨u, v, htake ▸ heq, hv, ?_⟩
      rw [hsearch, hnone, hfind, ← hpos]
      rfl

/-- The text up to the last separator starts with the text up to this
one. -/
theorem upToLast_eq {u v : List Char} {c : Char} (hc : isSeparator c = true) :
    (u ++ c :: v).rdropWhile (!isSeparator ·) =
      u ++ c :: v.rdropWhile (!isSeparator ·) :=
  Scanning.rdropWhile_append_cons (by simp [hc]) u v

theorem not_separator_rdropWhile {v : List Char} (hslash : '/' ∉ v)
    (hbslash : '\\' ∉ v) : v.rdropWhile (!isSeparator ·) = [] := by
  rw [List.rdropWhile_eq_nil_iff]
  intro c hc
  simp [isSeparator, ne_of_mem_of_not_mem hc hslash,
    ne_of_mem_of_not_mem hc hbslash]

theorem after_last_unique {c : Char} {u v u' v' : List Char}
    (heq : u ++ c :: v = u' ++ c :: v') (hv : c ∉ v) (hv' : c ∉ v') :
    v = v' := by
  have hsame := congrArg (List.rtakeWhile (· != c)) heq
  rwa [Scanning.rtakeWhile_append_of_forall (by simp)
      (Scanning.bne_of_not_mem hv),
    Scanning.rtakeWhile_append_of_forall (by simp)
      (Scanning.bne_of_not_mem hv')] at hsame

/-- What is left ends where the predicate fails. -/
theorem rdropWhile_nil_or_concat (p : Char → Bool) (v : List Char) :
    v.rdropWhile p = [] ∨ ∃ t c w, v.rdropWhile p = t ++ [c] ∧
      p c = false ∧ v = t ++ c :: w := by
  obtain ⟨w, hw⟩ := List.rdropWhile_prefix p v
  rcases List.eq_nil_or_concat (v.rdropWhile p) with hnil | ⟨t, c, hconcat⟩
  · exact Or.inl hnil
  · rw [List.concat_eq_append] at hconcat
    have hlast := List.rdropWhile_last_not p v (by simp [hconcat])
    refine Or.inr ⟨t, c, w, hconcat, ?_, ?_⟩
    · simpa [hconcat] using hlast
    · rw [← hw, hconcat, List.append_assoc]
      rfl

/-- The part after the last slash has its backslashes first. -/
theorem stripSeparators_eq_iff {path u v : List Char}
    (hpath : stripSeparators path = u ++ '/' :: v) (hv : '/' ∉ v) :
    stripSeparators (u ++ ['/']) =
        stripSeparators (u ++ '/' :: v.rdropWhile (!isSeparator ·)) ↔
      SlashesLast path := by
  constructor
  · intro hsame u' v' w' hsplit hfree c hc
    by_contra hne
    obtain ⟨hv', hw'⟩ := not_or.mp (mt List.mem_append.mpr hfree)
    have hrest : v = v' ++ '\\' :: w' := by
      rw [hpath, List.append_assoc, List.cons_append] at hsplit
      exact after_last_unique hsplit hv (by simpa using ⟨hv', hw'⟩)
    have hsep : isSeparator c = false := by
      simp [isSeparator, hne, ne_of_mem_of_not_mem hc hv']
    obtain ⟨a, b, rfl⟩ := List.append_of_mem hc
    have hlonger := length_lt_stripSeparators (s := u ++ '/' :: a)
      (t := b ++ '\\' :: w'.rdropWhile (!isSeparator ·)) hsep
    have hshort := stripSeparators_length_le (u ++ ['/'])
    rw [hrest, upToLast_eq rfl] at hsame
    simp only [List.append_assoc, List.cons_append] at hsame hlonger
    rw [← hsame] at hlonger
    simp only [List.length_append, List.length_cons, List.length_nil]
      at hshort hlonger
    omega
  · intro hslashes
    have hall : ∀ c ∈ v.rdropWhile (!isSeparator ·), isSeparator c = true := by
      rcases rdropWhile_nil_or_concat (!isSeparator ·) v with hnil | hconcat
      · simp [hnil]
      · obtain ⟨t, c, w, ht, hc, rfl⟩ := hconcat
        have hslash := ne_of_mem_of_not_mem (a := c) (by simp) hv
        have hbslash : c = '\\' := by simpa [isSeparator, hslash] using hc
        subst hbslash
        have hfirst := hslashes u t w (by rw [hpath]; simp)
          (by simp only [List.mem_append, List.mem_cons] at hv ⊢; tauto)
        rw [ht]
        intro d hd
        rcases List.mem_append.mp hd with hd | hd
        · rw [hfirst d hd]
          rfl
        · rw [List.mem_singleton.mp hd]
          rfl
    rw [← stripSeparators_append (s := u ++ ['/']) (by simp) hall]
    simp

/-- For every path, slashes and backslashes in any order: the result is what
precedes the last component if and only if the backslashes after the last
slash come right before the last component; all indices are inside. -/
theorem portDirname_iff {path : List Char} (hpath : path ≠ []) :
    portDirname path = some (dirname path) ↔ SlashesLast path := by
  by_cases hslash : '/' ∈ stripSeparators path
  · obtain ⟨u, v, heq, hv, hcode⟩ := portDirname_slash hpath hslash
    unfold dirname
    rw [hcode, heq, upToLast_eq rfl, if_neg (by simp), Option.some.injEq]
    exact stripSeparators_eq_iff heq hv
  · have hvacuous : SlashesLast path := by
      intro u v w hsplit
      exact absurd (by rw [hsplit]; simp) hslash
    refine iff_of_true ?_ hvacuous
    by_cases hbslash : '\\' ∈ stripSeparators path
    · obtain ⟨u, v, heq, hv, hcode⟩ :=
        portDirname_backslash hpath hslash hbslash
      have hnone : v.rdropWhile (!isSeparator ·) = [] := by
        apply not_separator_rdropWhile _ hv
        rw [heq] at hslash
        simp only [List.mem_append, List.mem_cons, not_or] at hslash
        exact hslash.2.2
      unfold dirname
      rw [hcode, heq, upToLast_eq rfl, hnone, if_neg (by simp)]
    · unfold dirname
      rw [portDirname_none hpath hslash hbslash,
        not_separator_rdropWhile hslash hbslash, if_pos rfl]

namespace PortDirnameWitness

theorem portDirname_slashes :
    portDirname ['a', '/', 'b', '/'] = some (dirname ['a', '/', 'b', '/']) := by
  refine (portDirname_iff (by simp)).mpr ?_
  intro u v w hsplit
  have hstrip : stripSeparators ['a', '/', 'b', '/'] = ['a', '/', 'b'] := by
    decide
  have hmem : '\\' ∈ ['a', '/', 'b'] := by
    rw [← hstrip, hsplit]
    simp
  exact absurd hmem (by decide)

/-- The slash is taken for the last separator. -/
theorem backslash_after_slash :
    portDirname ['a', '/', 'b', '\\', 'c'] = some ['a'] ∧
      dirname ['a', '/', 'b', '\\', 'c'] = ['a', '/', 'b'] := by
  decide

end PortDirnameWitness

end Appmetrics
