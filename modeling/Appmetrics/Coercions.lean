/-
Which of the operations on JavaScript values throw, in terms of their
operands.
-/
import Appmetrics.Effect
import Appmetrics.JsValue
import Mathlib.Data.List.TakeWhile

namespace Appmetrics

open Effect

namespace JsValue

/-- The value has a text, so it can be added to one. -/
def hasText : JsValue → Bool
  | symbol _ => false
  | object _ inherits _ => inherits
  | _ => true

/-! ## Reading properties -/

/-- What `v[p]` gives if it gives anything. -/
def property (v : JsValue) (p : String) : JsValue :=
  (v.ownProperty p).getD undefined

theorem get_eq {v : JsValue} (hv : v.nullish = false) (p : String) :
    v.get p = .ok (v.property p) := by
  simp [get, property, hv]

theorem gives_get {v : JsValue} {p : String} :
    Gives (v.get p) ↔ v.nullish = false := by
  unfold get
  cases v.nullish <;> simp

theorem gives_get_bind {B : Type} {v : JsValue} {p : String}
    {f : JsValue → Except JsError B} :
    Gives (v.get p >>= f) ↔ v.nullish = false ∧ Gives (f (v.property p)) := by
  cases hv : v.nullish with
  | true =>
      refine iff_of_false (fun h => ?_) (by simp)
      obtain ⟨w, hw, _⟩ := gives_bind.mp h
      rw [gives_get.mp ⟨w, hw⟩] at hv
      cases hv
  | false =>
      rw [gives_bind_of_ok (get_eq hv p)]
      simp

theorem isText_iff {v : JsValue} {s : String} :
    v.isText s = true ↔ v = string s := by
  cases v <;> simp [isText]

theorem nullish_of_truthy {v : JsValue} (hv : v.truthy = true) :
    v.nullish = false := by
  cases v <;> simp_all [truthy, nullish]

theorem gives_put {v : JsValue} :
    Gives v.put ↔ v.isObject = true ∨ v.isFunction = true := by
  unfold put
  cases v.isObject <;> cases v.isFunction <;> simp

/-- An object whose `hasOwnProperty` can be called. -/
def hasChecks : JsValue → Bool
  | undefined => false
  | null => false
  | object own inherits _ =>
      (own.lookup "hasOwnProperty").elim inherits isFunction
  | _ => true

theorem hasOwnProperty_eq {v : JsValue} (hv : v.hasChecks = true)
    (p : String) : v.hasOwnProperty p = .ok (v.ownProperty p).isSome := by
  cases v with
  | undefined => cases hv
  | null => cases hv
  | object own inherits json =>
      have hcallable : (own.lookup "hasOwnProperty").elim inherits isFunction
        = true := hv
      simp only [hasOwnProperty, hcallable, ↓reduceIte]
      rfl
  | _ => rfl

theorem gives_hasOwnProperty {v : JsValue} {p : String} :
    Gives (v.hasOwnProperty p) ↔ v.hasChecks = true := by
  cases hv : v.hasChecks with
  | true => simp [hasOwnProperty_eq hv]
  | false =>
      cases v <;> simp_all [hasOwnProperty, hasChecks]

theorem gives_method {v : JsValue} {p : String} :
    Gives (v.method p) ↔
      v.nullish = false ∧ (v.property p).isFunction = true := by
  unfold method
  rw [gives_bind]
  constructor
  · rintro ⟨w, hw, hcall⟩
    have hv : v.nullish = false := gives_get.mp ⟨w, hw⟩
    rw [get_eq hv p] at hw
    cases hw
    refine ⟨hv, ?_⟩
    by_contra hnot
    simp [hnot] at hcall
  · rintro ⟨hv, hcall⟩
    exact ⟨_, get_eq hv p, by simp [hcall]⟩

/-! ## Adding -/

/-- What `+` makes of an operand; `bad` ones throw. -/
inductive Kind
  | text
  | big
  | plain
  | bad
deriving DecidableEq

def kind : JsValue → Kind
  | string _ => .text
  | function _ => .text
  | forwarder _ => .text
  | object _ inherits _ => if inherits then .text else .bad
  | bigint _ => .big
  | symbol _ => .bad
  | _ => .plain

theorem hasText_iff {v : JsValue} : v.hasText = true ↔ v.kind ≠ .bad := by
  cases v <;> simp [hasText, kind]

/-- The kind of a sum; `none` if it throws. -/
def Kind.plus : Kind → Kind → Option Kind
  | .bad, _ => none
  | _, .bad => none
  | .text, _ => some .text
  | _, .text => some .text
  | .big, .big => some .big
  | .big, _ => none
  | _, .big => none
  | .plain, .plain => some .plain

/-- The values that `+` can give. -/
def isSum : JsValue → Bool
  | string _ => true
  | number _ => true
  | nan => true
  | bigint _ => true
  | _ => false

/-- The evaluation gives a sum of that kind, or throws. -/
def HasKind (x : Except JsError JsValue) : Option Kind → Prop
  | none => ∃ e, x = .error e
  | some k => ∃ v, x = .ok v ∧ v.kind = k ∧ v.isSum = true

theorem HasKind.gives {x : Except JsError JsValue} {k : Option Kind}
    (h : HasKind x k) : Gives x ↔ k.isSome = true := by
  cases k with
  | none =>
      obtain ⟨e, rfl⟩ := h
      simp
  | some k =>
      obtain ⟨v, rfl, _⟩ := h
      simp

theorem sum_kind (a b : Option Rat) :
    (sum a b).kind = .plain ∧ (sum a b).isSum = true := by
  cases a <;> cases b <;> exact ⟨rfl, rfl⟩

theorem string_of_text {v : JsValue} (hsum : v.isSum = true)
    (htext : v.kind = .text) : ∃ s, v = string s := by
  cases v with
  | string s => exact ⟨s, rfl⟩
  | _ => cases hsum <;> cases htext

/-- Of the sums only the bigints are refused by `JSON.stringify`. -/
theorem stringifies_sum {v : JsValue} (hsum : v.isSum = true) :
    v.stringifies = true ↔ v.kind ≠ .big := by
  cases v <;> simp_all [isSum, stringifies, kind]

theorem plus_kind (a b : JsValue) :
    HasKind (a.plus b) (a.kind.plus b.kind) := by
  cases a with
  | object own inherits json =>
      cases inherits <;> cases b with
      | object own' inherits' json' =>
          cases inherits' <;>
            simp [plus, kind, Kind.plus, toPrimitive, text, HasKind, isSum,
              bind, Except.bind, pure, Except.pure]
      | _ =>
          simp [plus, kind, Kind.plus, toPrimitive, text, HasKind, isSum,
            bind, Except.bind, pure, Except.pure]
  | _ =>
      cases b with
      | object own' inherits' json' =>
          cases inherits' <;>
            simp [plus, kind, Kind.plus, toPrimitive, text, HasKind, isSum,
              bind, Except.bind, pure, Except.pure]
      | _ =>
          first
          | exact ⟨_, rfl, sum_kind _ _⟩
          | simp [plus, kind, Kind.plus, toPrimitive, text, HasKind, isSum,
              bind, Except.bind, pure, Except.pure]

/-- `x` gives a text if `P` holds, and throws if not. -/
def TextIf (P : Prop) (x : Except JsError JsValue) : Prop :=
  (P → ∃ s, x = .ok (string s)) ∧ (Gives x → P)

theorem TextIf.gives {P : Prop} {x : Except JsError JsValue}
    (h : TextIf P x) : Gives x ↔ P :=
  ⟨h.2, fun hP => (h.1 hP).elim fun _ hx => ⟨_, hx⟩⟩

theorem textIf_string (s : String) : TextIf True (.ok (string s)) :=
  ⟨fun _ => ⟨s, rfl⟩, fun _ => trivial⟩

theorem TextIf.bind {P Q : Prop} {x : Except JsError JsValue}
    {f : JsValue → Except JsError JsValue} (hx : TextIf P x)
    (hf : ∀ s, TextIf Q (f (string s))) : TextIf (P ∧ Q) (x >>= f) := by
  constructor
  · rintro ⟨hP, hQ⟩
    obtain ⟨s, rfl⟩ := hx.1 hP
    exact (hf s).1 hQ
  · intro h
    obtain ⟨v, hv, hrest⟩ := gives_bind.mp h
    have hP := hx.2 ⟨v, hv⟩
    obtain ⟨s, hs⟩ := hx.1 hP
    rw [hs] at hv
    cases hv
    exact ⟨hP, (hf s).2 hrest⟩

theorem TextIf.congr {P Q : Prop} {x : Except JsError JsValue}
    (hx : TextIf P x) (hPQ : P ↔ Q) : TextIf Q x :=
  ⟨fun hQ => hx.1 (hPQ.mpr hQ), fun h => hPQ.mp (hx.2 h)⟩

theorem HasKind.textIf {x : Except JsError JsValue} {k : Kind}
    (h : HasKind x (if k = .bad then none else some .text)) :
    TextIf (k ≠ .bad) x := by
  by_cases hk : k = .bad
  · rw [if_pos hk] at h
    exact ⟨fun hne => absurd hk hne, fun hx => by simpa using h.gives.mp hx⟩
  · rw [if_neg hk] at h
    obtain ⟨v, rfl, htext, hsum⟩ := h
    obtain ⟨s, rfl⟩ := string_of_text hsum htext
    exact ⟨fun _ => ⟨s, rfl⟩, fun _ => hk⟩

/-- A text plus anything that has a text. -/
theorem string_plus (s : String) (v : JsValue) :
    TextIf (v.hasText = true) ((string s).plus v) := by
  have hplus : Kind.text.plus v.kind =
      if v.kind = .bad then none else some .text := by
    cases v.kind <;> rfl
  exact (HasKind.textIf (hplus ▸ plus_kind (string s) v)).congr
    hasText_iff.symm

theorem string_plus_string (s t : String) :
    TextIf True ((string s).plus (string t)) :=
  (string_plus s (string t)).congr (by simp [hasText])

theorem plus_string (v : JsValue) (s : String) :
    TextIf (v.hasText = true) (v.plus (string s)) := by
  have hplus : v.kind.plus .text =
      if v.kind = .bad then none else some .text := by
    cases v.kind <;> rfl
  exact (HasKind.textIf (hplus ▸ plus_kind v (string s))).congr
    hasText_iff.symm

/-- Comparing with a number throws on the same operands. -/
theorem gives_exceeds {v : JsValue} {bound : Rat} :
    Gives (v.exceeds bound) ↔ v.hasText = true := by
  cases v with
  | object own inherits json =>
      cases inherits <;>
        simp [exceeds, toPrimitive, hasText, bind, Except.bind]
  | _ => simp [exceeds, toPrimitive, hasText, bind, Except.bind]

/-! ## Adding up a list -/

/-- `acc + v1 + v2 ..`. -/
def plusAll (acc : JsValue) : List JsValue → Except JsError JsValue
  | [] => .ok acc
  | v :: vs => do plusAll (← acc.plus v) vs

theorem plusAll_singleton (acc v : JsValue) :
    plusAll acc [v] = acc.plus v := by
  rw [plusAll]
  cases acc.plus v <;> rfl

theorem plusAll_three (a b c d : JsValue) :
    plusAll a [b, c, d] =
      a.plus b >>= fun v => v.plus c >>= fun v => v.plus d := by
  rw [plusAll]
  cases a.plus b with
  | error e => rfl
  | ok v =>
      change plusAll v [c, d] = v.plus c >>= fun v => v.plus d
      rw [plusAll]
      cases v.plus c with
      | error e => rfl
      | ok v => exact plusAll_singleton v d

/-- The operands that are added as numbers. -/
def numbers (vs : List JsValue) : List JsValue :=
  vs.takeWhile (·.kind != .text)

/-- Every operand can be added, and no bigint meets another number. -/
def AddsUp (vs : List JsValue) : Prop :=
  (∀ v ∈ vs, v.hasText = true) ∧
    ((∀ v ∈ numbers vs, v.kind = .big) ∨ (∀ v ∈ numbers vs, v.kind ≠ .big))

def Kind.plusAll (k : Kind) : List JsValue → Option Kind
  | [] => some k
  | v :: vs => (k.plus v.kind).bind (·.plusAll vs)

/-- One operand more; the first one need not be a sum itself. -/
theorem plusAll_cons_of {vs : List JsValue}
    (hvs : ∀ acc : JsValue, acc.isSum = true →
      HasKind (plusAll acc vs) (acc.kind.plusAll vs)) (a b : JsValue) :
    HasKind (plusAll a (b :: vs)) (a.kind.plusAll (b :: vs)) := by
  have hplus := plus_kind a b
  rw [Kind.plusAll]
  cases hk : a.kind.plus b.kind with
  | none =>
      rw [hk] at hplus
      obtain ⟨e, he⟩ := hplus
      exact ⟨e, by rw [plusAll, he]; rfl⟩
  | some k =>
      rw [hk] at hplus
      obtain ⟨w, hw, hkind, hsum⟩ := hplus
      rw [plusAll, hw, Option.bind_some, ← hkind]
      exact hvs w hsum

theorem plusAll_kind (vs : List JsValue) {acc : JsValue}
    (hacc : acc.isSum = true) :
    HasKind (plusAll acc vs) (acc.kind.plusAll vs) := by
  induction vs generalizing acc with
  | nil => exact ⟨acc, rfl, rfl, hacc⟩
  | cons v vs ih => exact plusAll_cons_of (fun _ hw => ih hw) acc v

theorem plusAll_cons_kind (a b : JsValue) (vs : List JsValue) :
    HasKind (plusAll a (b :: vs)) (a.kind.plusAll (b :: vs)) :=
  plusAll_cons_of (fun _ => plusAll_kind vs) a b

theorem Kind.plusAll_text (vs : List JsValue) :
    Kind.text.plusAll vs =
      if ∀ v ∈ vs, v.hasText = true then some .text else none := by
  induction vs with
  | nil => rfl
  | cons v vs ih =>
      cases hv : v.kind <;>
        simp [Kind.plusAll, Kind.plus, hv, ih, hasText_iff]

/-- From a number on: the other numbers must be of its kind. -/
theorem Kind.plusAll_number {k : Kind} (hk : k = .big ∨ k = .plain)
    (vs : List JsValue) :
    k.plusAll vs =
      if (∀ v ∈ vs, v.hasText = true) ∧ ∀ v ∈ numbers vs, v.kind = k then
        some (if ∃ v ∈ vs, v.kind = .text then .text else k)
      else none := by
  induction vs with
  | nil => simp [Kind.plusAll, numbers]
  | cons v vs ih =>
      have hnumbers : numbers (v :: vs) =
          if v.kind = .text then [] else v :: numbers vs := by
        by_cases hv : v.kind = .text <;> simp [numbers, hv]
      rw [hnumbers]
      cases hv : v.kind with
      | text =>
          have htext : k.plus .text = some .text := by
            rcases hk with rfl | rfl <;> rfl
          rw [Kind.plusAll, hv, htext, Option.bind_some, plusAll_text]
          simp [hasText_iff, hv]
      | bad =>
          have hbad : k.plus .bad = none := by
            rcases hk with rfl | rfl <;> rfl
          rw [Kind.plusAll, hv, hbad]
          simp [hasText_iff, hv]
      | big =>
          rcases hk with rfl | rfl <;>
            simp [Kind.plusAll, Kind.plus, hv, ih, hasText_iff]
      | plain =>
          rcases hk with rfl | rfl <;>
            simp [Kind.plusAll, Kind.plus, hv, ih, hasText_iff]

theorem numbers_plain {vs : List JsValue}
    (htext : ∀ v ∈ vs, v.hasText = true) :
    (∀ v ∈ numbers vs, v.kind = .plain) ↔
      ∀ v ∈ numbers vs, v.kind ≠ .big := by
  have hnumber {v : JsValue} (hv : v ∈ numbers vs) :
      v.kind = .big ∨ v.kind = .plain := by
    have hbad := hasText_iff.mp
      (htext v ((List.takeWhile_sublist _).subset hv))
    have hnot : (v.kind != .text) = true :=
      List.mem_takeWhile_imp (p := fun v : JsValue => v.kind != .text) hv
    cases hk : v.kind <;> simp_all
  constructor
  · intro h v hv
    simp [h v hv]
  · intro h v hv
    exact (hnumber hv).resolve_left (h v hv)

/-- When a list of operands can be added up. -/
theorem gives_plusAll (a b : JsValue) (vs : List JsValue) :
    Gives (plusAll a (b :: vs)) ↔ AddsUp (a :: b :: vs) := by
  rw [(plusAll_cons_kind a b vs).gives, AddsUp]
  cases ha : a.kind with
  | text =>
      rw [Kind.plusAll_text]
      simp [numbers, ha, hasText_iff]
  | bad => simp [Kind.plusAll, Kind.plus, hasText_iff, ha]
  | big =>
      rw [Kind.plusAll_number (Or.inl rfl)]
      simp [numbers, ha, hasText_iff]
  | plain =>
      rw [Kind.plusAll_number (Or.inr rfl)]
      by_cases htext : ∀ v ∈ b :: vs, v.hasText = true
      · simp only [numbers_plain htext]
        simp [numbers, ha, hasText_iff]
      · simp only [htext, false_and, ↓reduceIte, Option.isSome_none,
          Bool.false_eq_true, false_iff, not_and]
        intro hall
        exact absurd (fun v hv => hall v (List.mem_cons_of_mem a hv)) htext

theorem Kind.plusAll_eq_big {k : Kind} {vs : List JsValue} :
    k.plusAll vs = some .big ↔ k = .big ∧ ∀ v ∈ vs, v.kind = .big := by
  induction vs generalizing k with
  | nil => simp [Kind.plusAll]
  | cons v vs ih =>
      have hplus : k.plus v.kind = some .big ↔ k = .big ∧ v.kind = .big := by
        cases k <;> cases v.kind <;> simp [Kind.plus]
      rw [Kind.plusAll, Option.bind_eq_some_iff]
      constructor
      · rintro ⟨k', hk', hrest⟩
        obtain ⟨rfl, hvs⟩ := ih.mp hrest
        obtain ⟨rfl, hv⟩ := hplus.mp hk'
        exact ⟨rfl, List.forall_mem_cons.mpr ⟨hv, hvs⟩⟩
      · rintro ⟨rfl, hall⟩
        obtain ⟨hv, hvs⟩ := List.forall_mem_cons.mp hall
        exact ⟨.big, hplus.mpr ⟨rfl, hv⟩, ih.mpr ⟨rfl, hvs⟩⟩

/-- A sum of bigints only is a bigint, any other one is not. -/
theorem stringifies_plusAll {a b : JsValue} {vs : List JsValue} {v : JsValue}
    (hv : plusAll a (b :: vs) = .ok v) :
    v.stringifies = true ↔ ¬∀ u ∈ a :: b :: vs, u.kind = .big := by
  have hsum := plusAll_cons_kind a b vs
  cases hk : a.kind.plusAll (b :: vs) with
  | none =>
      rw [hk, hv] at hsum
      obtain ⟨e, he⟩ := hsum
      cases he
  | some k =>
      rw [hk, hv] at hsum
      obtain ⟨w, hw, rfl, hsum⟩ := hsum
      cases hw
      rw [stringifies_sum hsum, List.forall_mem_cons, ← Kind.plusAll_eq_big,
        hk, Option.some_inj]

end JsValue

end Appmetrics
