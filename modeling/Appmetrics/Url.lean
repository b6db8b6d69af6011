/-
URLs with an authority, as lists of characters: protocol, credentials, host,
port and path, and what is found in a text that is put together from these.
-/
import Mathlib.Data.List.Infix
import Appmetrics.Scanning

namespace Url

open Scanning

/-- The path includes the query; the fragment is no part of a request. -/
structure Parts where
  protocol : List Char
  auth : Option (List Char)
  host : List Char
  port : Nat
  path : List Char
deriving Repr, DecidableEq

/-- The authority ends at the first of these characters. -/
def inAuthority (c : Char) : Bool := c != '/' && c != '?' && c != '#'

/-- The credentials precede the last `@`. -/
def splitAuth (authority : List Char) : Option (List Char) × List Char :=
  let front := authority.rdropWhile (· != '@')
  (if front = [] then none else some front.dropLast,
    authority.rtakeWhile (· != '@'))

/-- The port follows the last colon, if only digits do. -/
def splitPort (defaultPort : Nat) (server : List Char) : List Char × Nat :=
  let front := server.rdropWhile Char.isDigit
  let digits := server.rtakeWhile Char.isDigit
  if front.getLast? = some ':' then
    (front.dropLast,
      if digits = [] then defaultPort else Nat.ofDigitChars 10 digits 0)
  else (server, defaultPort)

/-- The path of what follows the authority. -/
def pathOf (tail : List Char) : List Char :=
  let path := tail.takeWhile (· != '#')
  if path.head? = some '/' then path else '/' :: path

/-- What follows the two slashes. -/
def splitRest (defaultPort : Nat) (protocol rest : List Char) : Parts :=
  let (auth, server) := splitAuth (rest.takeWhile inAuthority)
  let (host, port) := splitPort defaultPort server
  ⟨protocol, auth, host, port, pathOf (rest.dropWhile inAuthority)⟩

/-- `none` is a text without `://`. -/
def split (defaultPort : List Char → Nat) (url : List Char) : Option Parts :=
  let protocol := url.takeWhile (· != ':') ++ [':']
  match url.dropWhile (· != ':') with
  | ':' :: '/' :: '/' :: rest =>
      some (splitRest (defaultPort protocol) protocol rest)
  | _ => none

/-! ## Texts that are put together -/

/-- No colon is followed by digits only. -/
def PortFree (host : List Char) : Prop :=
  ∀ front digits, host = front ++ ':' :: digits →
    ∃ c ∈ digits, c.isDigit = false

theorem portFree_of_not_mem {host : List Char} (hcolon : ':' ∉ host) :
    PortFree host := by
  intro front digits heq
  rw [heq] at hcolon
  exact absurd (by simp) hcolon

theorem splitAuth_none {server : List Char} (hserver : '@' ∉ server) :
    splitAuth server = (none, server) := by
  have hall := bne_of_not_mem hserver
  rw [splitAuth, List.rdropWhile_eq_nil_iff.mpr hall,
    List.rtakeWhile_eq_self_iff.mpr hall]
  rfl

theorem splitAuth_some {auth server : List Char} (hserver : '@' ∉ server) :
    splitAuth (auth ++ '@' :: server) = (some auth, server) := by
  have hall := bne_of_not_mem hserver
  rw [splitAuth, rdropWhile_append_of_forall (by simp) hall,
    rtakeWhile_append_of_forall (by simp) hall]
  simp

theorem splitPort_none {host : List Char} (hhost : PortFree host)
    (defaultPort : Nat) : splitPort defaultPort host = (host, defaultPort) := by
  have hall : host.rdropWhile Char.isDigit ++ host.rtakeWhile Char.isDigit =
      host := List.rdropWhile_append_rtakeWhile
  rw [splitPort, if_neg]
  intro hlast
  obtain ⟨front, hfront⟩ := List.getLast?_eq_some_iff.mp hlast
  rw [hfront, List.append_assoc, List.singleton_append] at hall
  obtain ⟨c, hc, hdigit⟩ := hhost _ _ hall.symm
  rw [List.mem_rtakeWhile_imp hc] at hdigit
  cases hdigit

theorem splitPort_some {host digits : List Char} (hne : digits ≠ [])
    (hdigits : ∀ c ∈ digits, c.isDigit = true) (defaultPort : Nat) :
    splitPort defaultPort (host ++ ':' :: digits) =
      (host, Nat.ofDigitChars 10 digits 0) := by
  rw [splitPort, rdropWhile_append_of_forall (by decide) hdigits,
    rtakeWhile_append_of_forall (by decide) hdigits]
  simp [hne]

theorem pathOf_slash (path : List Char) :
    pathOf ('/' :: path) = '/' :: path.takeWhile (· != '#') := by
  simp [pathOf]

theorem pathOf_cons {c : Char} (hc : c ≠ '/') (tail : List Char) :
    pathOf (c :: tail) = '/' :: (c :: tail).takeWhile (· != '#') := by
  rw [pathOf, if_neg]
  rw [List.takeWhile_cons]
  split <;> simp [hc]

/-- A path that comes after a text is read as that text's own query only if
this ends in a fragment. -/
theorem query_iff {t middle path : List Char} (hmiddle : '#' ∉ middle) :
    (t ++ (middle ++ '/' :: path)).takeWhile (· != '#') = path ↔
      '#' ∉ path ∧ ∃ rest, t = path ++ '#' :: rest := by
  constructor
  · intro htaken
    have hpath : '#' ∉ path := by
      intro h
      rw [← htaken] at h
      have hne := List.mem_takeWhile_imp h
      simp at hne
    refine ⟨hpath, ?_⟩
    by_cases hfragment : '#' ∈ t
    · obtain ⟨query, rest, rfl, hquery⟩ :=
        List.eq_append_cons_of_mem hfragment
      refine ⟨rest, ?_⟩
      rw [List.append_assoc, List.cons_append,
        takeWhile_append_cons (bne_of_not_mem hquery) (by simp)] at htaken
      rw [htaken]
    · rw [List.takeWhile_append_of_pos (bne_of_not_mem hfragment),
        List.takeWhile_append_of_pos (bne_of_not_mem hmiddle),
        List.takeWhile_cons_of_pos (by decide),
        List.takeWhile_eq_self_iff.mpr (bne_of_not_mem hpath)] at htaken
      have hlength := congrArg List.length htaken
      simp only [List.length_append, List.length_cons] at hlength
      omega
  · rintro ⟨hpath, rest, rfl⟩
    rw [List.append_assoc, List.cons_append,
      takeWhile_append_cons (bne_of_not_mem hpath) (by simp)]

theorem split_append {name : List Char} (hname : ':' ∉ name)
    (defaultPort : List Char → Nat) (rest : List Char) :
    split defaultPort (name ++ ':' :: '/' :: '/' :: rest) =
      some (splitRest (defaultPort (name ++ [':'])) (name ++ [':']) rest) := by
  have hall := bne_of_not_mem hname
  rw [split, takeWhile_append_cons hall (by simp),
    dropWhile_append_cons hall (by simp)]
  rfl

/-! ## Whole URLs -/

def credentials : Option (List Char) → List Char
  | none => []
  | some auth => auth ++ ['@']

/-- Without digits there is no port. -/
def portText (digits : List Char) : List Char :=
  if digits = [] then [] else ':' :: digits

def portOf (defaultPort : Nat) (digits : List Char) : Nat :=
  if digits = [] then defaultPort else Nat.ofDigitChars 10 digits 0

/-- Neither a query nor a fragment begins here. -/
def Clean (s : List Char) : Prop := ∀ c ∈ s, inAuthority c = true

theorem Clean.append {s t : List Char} (hs : Clean s) (ht : Clean t) :
    Clean (s ++ t) :=
  List.forall_mem_append.mpr ⟨hs, ht⟩

section Whole

variable {auth : Option (List Char)} {host digits : List Char}
  (hdigits : ∀ c ∈ digits, c.isDigit = true)

theorem credentials_clean (hauth : ∀ s ∈ auth, Clean s) :
    Clean (credentials auth) := by
  cases auth with
  | none => nofun
  | some s =>
      refine (hauth s rfl).append ?_
      rw [Clean, List.forall_mem_singleton]
      rfl

include hdigits

theorem not_mem_portText {c : Char} (hcolon : c ≠ ':')
    (hc : c.isDigit = false) : c ∉ portText digits := by
  unfold portText
  split
  · exact List.not_mem_nil
  · rw [List.mem_cons, not_or]
    refine ⟨hcolon, fun hmem => ?_⟩
    rw [hdigits c hmem] at hc
    cases hc

theorem portText_clean : Clean (portText digits) := by
  intro c hc
  have hslash := ne_of_mem_of_not_mem hc
    (not_mem_portText hdigits (c := '/') (by decide) (by decide))
  have hquery := ne_of_mem_of_not_mem hc
    (not_mem_portText hdigits (c := '?') (by decide) (by decide))
  have hfragment := ne_of_mem_of_not_mem hc
    (not_mem_portText hdigits (c := '#') (by decide) (by decide))
  simp [inAuthority, hslash, hquery, hfragment]

theorem splitPort_portText (hhost : PortFree host) (defaultPort : Nat) :
    splitPort defaultPort (host ++ portText digits) =
      (host, portOf defaultPort digits) := by
  unfold portText portOf
  split
  · rw [List.append_nil, splitPort_none hhost]
  · next hne => rw [splitPort_some hne hdigits]

omit hdigits in
theorem splitAuth_credentials {server : List Char} (hserver : '@' ∉ server) :
    splitAuth (credentials auth ++ server) = (auth, server) := by
  cases auth with
  | none => exact splitAuth_none hserver
  | some s =>
      rw [credentials, List.append_assoc, List.singleton_append,
        splitAuth_some hserver]

/-- What is put together from its parts is taken apart again, up to a
fragment. -/
theorem splitRest_clean (hauth : ∀ s ∈ auth, Clean s) (hhost : Clean host)
    (hat : '@' ∉ host) (hport : PortFree host) (defaultPort : Nat)
    (protocol path : List Char) :
    splitRest defaultPort protocol
        (credentials auth ++ (host ++ portText digits) ++ '/' :: path) =
      ⟨protocol, auth, host, portOf defaultPort digits,
        '/' :: path.takeWhile (· != '#')⟩ := by
  have hserver : '@' ∉ host ++ portText digits := by
    rw [List.mem_append, not_or]
    exact ⟨hat, not_mem_portText hdigits (by decide) (by decide)⟩
  have hauthority : Clean (credentials auth ++ (host ++ portText digits)) :=
    (credentials_clean hauth).append (hhost.append (portText_clean hdigits))
  rw [splitRest, takeWhile_append_cons hauthority (by decide),
    dropWhile_append_cons hauthority (by decide),
    splitAuth_credentials hserver, pathOf_slash]
  simp only [splitPort_portText hdigits hport]

omit hdigits in
/-- A host is cut at the first character that cannot be in it. -/
theorem splitRest_cut (hauth : ∀ s ∈ auth, Clean s) (hhost : Clean host)
    (hat : '@' ∉ host) (hport : PortFree host) {c : Char}
    (hc : inAuthority c = false) (defaultPort : Nat)
    (protocol tail : List Char) :
    splitRest defaultPort protocol
        (credentials auth ++ host ++ c :: tail) =
      ⟨protocol, auth, host, defaultPort, pathOf (c :: tail)⟩ := by
  have hauthority : Clean (credentials auth ++ host) :=
    (credentials_clean hauth).append hhost
  rw [splitRest, takeWhile_append_cons hauthority hc,
    dropWhile_append_cons hauthority hc, splitAuth_credentials hat]
  simp only [splitPort_none hport]

omit hdigits in
/-- Credentials that are cut are none. -/
theorem splitRest_auth {s : List Char} (hclean : ¬Clean s) (hat : '@' ∉ s)
    (defaultPort : Nat) (protocol rest : List Char) :
    (splitRest defaultPort protocol (s ++ rest)).auth = none := by
  have hcut : (s ++ rest).takeWhile inAuthority = s.takeWhile inAuthority := by
    rw [List.takeWhile_append, if_neg]
    intro hlength
    have hall := (List.takeWhile_prefix inAuthority).eq_of_length hlength
    exact hclean (List.takeWhile_eq_self_iff.mp hall)
  have hauthority : '@' ∉ s.takeWhile inAuthority := fun h =>
    hat ((List.takeWhile_prefix inAuthority).subset h)
  rw [splitRest, hcut, splitAuth_none hauthority]

end Whole

/-! ## Searching for a text -/

section Search

variable {p a b : List Char} {x : Char}

/-- A text without `x` is found on one side of an `x`. -/
theorem prefix_append_cons (hx : x ∉ p) :
    p <+: a ++ x :: b ↔ p <+: a := by
  induction p generalizing a with
  | nil => simp
  | cons c p ih =>
      rw [List.mem_cons, not_or] at hx
      cases a with
      | nil => simp [List.cons_prefix_cons, Ne.symm hx.1]
      | cons d a =>
          rw [List.cons_append, List.cons_prefix_cons, List.cons_prefix_cons,
            ih hx.2]

theorem infix_append_cons (hne : p ≠ []) (hx : x ∉ p) :
    p <:+: a ++ x :: b ↔ p <:+: a ∨ p <:+: b := by
  induction a with
  | nil =>
      rw [List.nil_append, List.infix_cons_iff, List.infix_nil,
        or_iff_right hne]
      refine or_iff_right fun hstarts => ?_
      obtain ⟨c, p, rfl⟩ := List.exists_cons_of_ne_nil hne
      rw [List.cons_prefix_cons] at hstarts
      exact hx (hstarts.1 ▸ List.mem_cons_self)
  | cons d a ih =>
      rw [List.cons_append, List.infix_cons_iff, List.infix_cons_iff, ih,
        ← List.cons_append, prefix_append_cons hx, or_assoc]

/-- A text is not found where its first character is missing. -/
theorem not_infix {c : Char} {ds : List Char} (hc : c ∉ a) :
    ¬c :: ds <:+: a :=
  fun h => hc (h.subset List.mem_cons_self)

theorem infix_append_of_not_mem {c : Char} {ds : List Char} (hc : c ∉ a) :
    c :: ds <:+: a ++ b ↔ c :: ds <:+: b := by
  induction a with
  | nil => rfl
  | cons d a ih =>
      rw [List.mem_cons, not_or] at hc
      rw [List.cons_append, List.infix_cons_iff, List.cons_prefix_cons,
        ih hc.2]
      exact or_iff_right fun h => hc.1 h.1

end Search

end Url
