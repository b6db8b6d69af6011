/-
Code that asks questions before it ends: whom it asks, with what, and how it
goes on with each answer.  Someone between the code and those it asks may
change a question, or answer it himself.
-/
import Mathlib.Logic.Function.Basic

/-- `Q` is what is asked, `R` what is answered and `A` how it ends. -/
inductive Dialogue (Q R A : Type)
  | done (a : A)
  | ask (q : Q) (next : R → Dialogue Q R A)

namespace Dialogue

variable {Q R A B C : Type}

def map (f : A → B) : Dialogue Q R A → Dialogue Q R B
  | done a => done (f a)
  | ask q next => ask q fun r => (next r).map f

/-- Every question that can come up. -/
def Asks (P : Q → Prop) : Dialogue Q R A → Prop
  | done _ => True
  | ask q next => P q ∧ ∀ r, (next r).Asks P

/-- Every end that it can come to. -/
def Ends (P : A → Prop) : Dialogue Q R A → Prop
  | done a => P a
  | ask _ next => ∀ r, (next r).Ends P

/-- The question with this number is passed on as `handle` says, or gets an
answer at once; `leave` sees how it all ends. -/
def relay (handle : Nat → Q → Except R Q) (leave : Nat → A → B) :
    Nat → Dialogue Q R A → Dialogue Q R B
  | n, done a => done (leave n a)
  | n, ask q next =>
      match handle n q with
      | .ok q' => ask q' fun r => (next r).relay handle leave (n + 1)
      | .error r => (next r).relay handle leave (n + 1)

theorem map_id (d : Dialogue Q R A) : d.map id = d := by
  induction d with
  | done a => rfl
  | ask q next ih => simp only [map, ih]

theorem map_map (f : A → B) (g : B → C) (d : Dialogue Q R A) :
    (d.map f).map g = d.map (g ∘ f) := by
  induction d with
  | done a => rfl
  | ask q next ih => simp only [map, ih]

/-- Two views of the ends agree on all that it can come to. -/
theorem map_eq_map_iff {f g : A → B} {d : Dialogue Q R A} :
    d.map f = d.map g ↔ d.Ends fun a => f a = g a := by
  induction d with
  | done a => simp [map, Ends]
  | ask q next ih =>
      simp only [map, Ends, ask.injEq, true_and, funext_iff]
      exact forall_congr' ih

/-- What is seen of the ends of the one is seen of those of the other. -/
theorem ends_of_map_eq_map {f : A → C} {g : B → C} {d : Dialogue Q R A}
    {d' : Dialogue Q R B} (heq : d.map f = d'.map g) :
    d.Ends fun a => ∃ b, f a = g b := by
  induction d generalizing d' with
  | done a =>
      cases d' with
      | done b => exact ⟨b, done.inj heq⟩
      | ask q next => cases heq
  | ask q next ih =>
      cases d' with
      | done b => cases heq
      | ask q' next' =>
          intro r
          exact ih r (congrFun (ask.inj heq).2 r)

theorem map_injective {f : A → B} (hf : Function.Injective f) :
    Function.Injective (map f : Dialogue Q R A → Dialogue Q R B) := by
  intro d
  induction d with
  | done a =>
      rintro (a' | _) h
      · simp only [map, done.injEq] at h
        rw [hf h]
      · cases h
  | ask q next ih =>
      rintro (_ | ⟨q', next'⟩) h
      · cases h
      · simp only [map, ask.injEq] at h
        obtain ⟨rfl, hnext⟩ := h
        congr 1
        funext r
        exact ih r (congrFun hnext r)

/-- Seeing the ends in another way changes no question. -/
theorem asks_map {f : A → B} {P : Q → Prop} {d : Dialogue Q R A} :
    (d.map f).Asks P ↔ d.Asks P := by
  induction d with
  | done a => rfl
  | ask q next ih => exact and_congr_right fun _ => forall_congr' ih

theorem Ends.imp {P P' : A → Prop} {d : Dialogue Q R A}
    (himp : ∀ a, P a → P' a) (hd : d.Ends P) : d.Ends P' := by
  induction d with
  | done a => exact himp a hd
  | ask q next ih => exact fun r => ih r (hd r)

section Relay

variable {handle : Nat → Q → Except R Q} {leave : Nat → A → B}
  {Passed : Q → Prop}

/-- What is passed on are questions of the passed kind. -/
theorem relay_asks (hpassed : ∀ n q q', handle n q = .ok q' → Passed q')
    (d : Dialogue Q R A) (n : Nat) : (d.relay handle leave n).Asks Passed := by
  induction d generalizing n with
  | done a => trivial
  | ask q next ih =>
      unfold relay
      cases hq : handle n q with
      | ok q' => exact ⟨hpassed n q q' hq, fun r => ih r (n + 1)⟩
      | error r => exact ih r (n + 1)

/-- Questions of the passed kind are passed on as they are. -/
theorem relay_of_asks (hsame : ∀ n q, Passed q → handle n q = .ok q)
    {f : A → B} {d : Dialogue Q R A} (hd : d.Asks Passed) (n : Nat)
    (hleave : d.Ends fun a => ∀ n, leave n a = f a) :
    d.relay handle leave n = d.map f := by
  induction d generalizing n with
  | done a => exact congrArg done (hleave n)
  | ask q next ih =>
      unfold relay
      rw [hsame n q hd.1]
      refine congrArg (ask q) (funext fun r => ?_)
      exact ih r (hd.2 r) (n + 1) (hleave r)

/-- Whoever is in between makes no difference exactly if all questions are of
the passed kind and all ends are seen as they are. -/
theorem relay_eq_map_iff {f : A → B} {d : Dialogue Q R A} {n : Nat}
    (hpassed : ∀ n q q', handle n q = .ok q' → Passed q')
    (hsame : ∀ n q, Passed q → handle n q = .ok q) {P : A → Prop}
    (hleave : ∀ n a, leave n a = f a ↔ P a) :
    d.relay handle leave n = d.map f ↔ d.Asks Passed ∧ d.Ends P := by
  constructor
  · intro heq
    have hasks : d.Asks Passed := by
      rw [← asks_map (f := f), ← heq]
      exact relay_asks hpassed d n
    refine ⟨hasks, ?_⟩
    clear hpassed
    induction d generalizing n with
    | done a => exact (hleave n a).mp (done.inj heq)
    | ask q next ih =>
        unfold relay at heq
        rw [hsame n q hasks.1] at heq
        intro r
        exact ih r (congrFun (ask.inj heq).2 r) (hasks.2 r)
  · rintro ⟨hasks, hends⟩
    exact relay_of_asks hsame hasks n
      (hends.imp fun a ha n => (hleave n a).mpr ha)

end Relay

end Dialogue
