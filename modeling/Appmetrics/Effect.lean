/-
Computations over a state that return a value or throw.  What was done to the
state before a throw stays done.
-/
import Mathlib.Data.List.Forall2
import Mathlib.Logic.Basic

namespace Effect

/-- `E` is what is thrown, `S` the state and `A` the value. -/
abbrev Comp (E S A : Type) := S → Except E A × S

variable {E S A B : Type}

/-- An evaluation gives a value. -/
def Gives (x : Except E A) : Prop := ∃ a, x = .ok a

@[simp] theorem gives_ok (a : A) : Gives (.ok a : Except E A) := ⟨a, rfl⟩

@[simp] theorem gives_pure (a : A) : Gives (pure a : Except E A) := ⟨a, rfl⟩

@[simp] theorem not_gives_error (e : E) : ¬Gives (.error e : Except E A) := by
  rintro ⟨a, h⟩
  cases h

theorem bind_eq_ok {x : Except E A} {f : A → Except E B} {b : B} :
    x >>= f = .ok b ↔ ∃ a, x = .ok a ∧ f a = .ok b := by
  cases x with
  | error e =>
      constructor
      · intro h
        cases h
      · rintro ⟨a, h, _⟩
        cases h
  | ok a =>
      constructor
      · intro h
        exact ⟨a, rfl, h⟩
      · rintro ⟨a', h, hf⟩
        cases h
        exact hf

theorem gives_bind {x : Except E A} {f : A → Except E B} :
    Gives (x >>= f) ↔ ∃ a, x = .ok a ∧ Gives (f a) := by
  constructor
  · rintro ⟨b, h⟩
    obtain ⟨a, hx, hf⟩ := bind_eq_ok.mp h
    exact ⟨a, hx, b, hf⟩
  · rintro ⟨a, hx, b, hf⟩
    exact ⟨b, bind_eq_ok.mpr ⟨a, hx, hf⟩⟩

theorem gives_bind_of_ok {x : Except E A} {f : A → Except E B} {a : A}
    (hx : x = .ok a) : Gives (x >>= f) ↔ Gives (f a) := by
  rw [hx]
  rfl

/-- What is made of the value does not matter. -/
theorem gives_map {x : Except E A} {f : A → B} :
    Gives (x >>= fun a => pure (f a)) ↔ Gives x := by
  rw [gives_bind]
  constructor
  · rintro ⟨a, hx, _⟩
    exact ⟨a, hx⟩
  · rintro ⟨a, hx⟩
    exact ⟨a, hx, gives_pure _⟩

theorem exists_map {x : Except E A} {f : A → B} {P : B → Prop} :
    (∃ b, (x >>= fun a => pure (f a)) = .ok b ∧ P b) ↔
      ∃ a, x = .ok a ∧ P (f a) := by
  constructor
  · rintro ⟨b, h, hP⟩
    obtain ⟨a, hx, hb⟩ := bind_eq_ok.mp h
    cases hb
    exact ⟨a, hx, hP⟩
  · rintro ⟨a, hx, hP⟩
    exact ⟨f a, bind_eq_ok.mpr ⟨a, hx, rfl⟩, hP⟩

/-- The rest does not depend on the value. -/
theorem gives_bind_const {x : Except E A} {f : A → Except E B} {P : Prop}
    (hf : ∀ a, Gives (f a) ↔ P) : Gives (x >>= f) ↔ Gives x ∧ P := by
  rw [gives_bind]
  constructor
  · rintro ⟨a, hx, ha⟩
    exact ⟨⟨a, hx⟩, (hf a).mp ha⟩
  · rintro ⟨⟨a, hx⟩, hP⟩
    exact ⟨a, hx, (hf a).mpr hP⟩

/-- Each element gives a value. -/
theorem gives_mapM {f : A → Except E B} {as : List A} :
    Gives (as.mapM f) ↔ ∀ a ∈ as, Gives (f a) := by
  induction as with
  | nil => exact iff_of_true (gives_pure _) (by simp)
  | cons a as ih =>
      rw [List.mapM_cons, gives_bind_const fun _ => gives_map.trans ih]
      simp

theorem forall₂_of_mapM {f : A → Except E B} {as : List A} {bs : List B}
    (hmap : as.mapM f = .ok bs) : List.Forall₂ (fun a b => f a = .ok b) as bs := by
  induction as generalizing bs with
  | nil =>
      cases hmap
      exact .nil
  | cons a as ih =>
      rw [List.mapM_cons] at hmap
      obtain ⟨b, ha, hmap⟩ := bind_eq_ok.mp hmap
      obtain ⟨bs', has, hmap⟩ := bind_eq_ok.mp hmap
      cases hmap
      exact .cons ha (ih has)

namespace Comp

protected def pure (a : A) : Comp E S A := fun s => (.ok a, s)

protected def bind (m : Comp E S A) (f : A → Comp E S B) : Comp E S B :=
  fun s =>
    match m s with
    | (.ok a, s) => f a s
    | (.error e, s) => (.error e, s)

instance : Monad (Comp E S) where
  pure := Comp.pure
  bind := Comp.bind

def throw (e : E) : Comp E S A := fun s => (.error e, s)

/-- Evaluate something that does not touch the state. -/
def eval (x : Except E A) : Comp E S A := fun s => (x, s)

def get : Comp E S S := fun s => (.ok s, s)

def modify (f : S → S) : Comp E S Unit := fun s => (.ok (), f s)

/-- The computation ends normally. -/
def Returns (m : Comp E S A) (s : S) : Prop := ∃ a s', m s = (.ok a, s')

@[simp] theorem pure_apply (a : A) (s : S) :
    (pure a : Comp E S A) s = (.ok a, s) := rfl

theorem bind_apply (m : Comp E S A) (f : A → Comp E S B) (s : S) :
    (m >>= f) s =
      match m s with
      | (.ok a, s) => f a s
      | (.error e, s) => (.error e, s) := rfl

@[simp] theorem throw_apply (e : E) (s : S) :
    (throw e : Comp E S A) s = (.error e, s) := rfl

@[simp] theorem eval_apply (x : Except E A) (s : S) :
    (eval x : Comp E S A) s = (x, s) := rfl

@[simp] theorem get_apply (s : S) : (get : Comp E S S) s = (.ok s, s) := rfl

@[simp] theorem modify_apply (f : S → S) (s : S) :
    (modify f : Comp E S Unit) s = (.ok (), f s) := rfl

theorem bind_ok {m : Comp E S A} {s s' : S} {a : A} (hm : m s = (.ok a, s'))
    (f : A → Comp E S B) : (m >>= f) s = f a s' := by
  rw [bind_apply, hm]

theorem bind_error {m : Comp E S A} {s s' : S} {e : E}
    (hm : m s = (.error e, s')) (f : A → Comp E S B) :
    (m >>= f) s = (.error e, s') := by
  rw [bind_apply, hm]

theorem returns_pure (a : A) (s : S) : (pure a : Comp E S A).Returns s :=
  ⟨a, s, rfl⟩

theorem not_returns_throw (e : E) (s : S) :
    ¬(throw e : Comp E S A).Returns s := by
  rintro ⟨a, s', h⟩
  cases h

theorem returns_eval {x : Except E A} {s : S} :
    (eval x : Comp E S A).Returns s ↔ Gives x := by
  constructor
  · rintro ⟨a, s', h⟩
    exact ⟨a, (Prod.mk.inj h).1⟩
  · rintro ⟨a, rfl⟩
    exact ⟨a, s, rfl⟩

theorem not_returns {m : Comp E S A} {s : S} (h : ¬m.Returns s) :
    ∃ e s', m s = (.error e, s') := by
  rcases hm : m s with ⟨_ | a, s'⟩
  · exact ⟨_, s', rfl⟩
  · exact absurd ⟨a, s', hm⟩ h

/-- A sequence returns when the first part does and, from the state it leaves,
the second does. -/
theorem returns_bind {m : Comp E S A} {f : A → Comp E S B} {s : S} :
    (m >>= f).Returns s ↔ ∃ a s', m s = (.ok a, s') ∧ (f a).Returns s' := by
  constructor
  · intro h
    by_cases hm : m.Returns s
    · obtain ⟨a, s', hm⟩ := hm
      obtain ⟨b, t, hb⟩ := h
      rw [bind_ok hm] at hb
      exact ⟨a, s', hm, b, t, hb⟩
    · obtain ⟨e, s', hm⟩ := not_returns hm
      obtain ⟨b, t, hb⟩ := h
      rw [bind_error hm] at hb
      cases hb
  · rintro ⟨a, s', hm, b, t, hb⟩
    exact ⟨b, t, (bind_ok hm f).trans hb⟩

theorem returns_eval_bind {x : Except E A} {f : A → Comp E S B} {s : S} :
    (eval x >>= f).Returns s ↔ ∃ a, x = .ok a ∧ (f a).Returns s := by
  rw [returns_bind]
  constructor
  · rintro ⟨a, s', h, hrest⟩
    cases h
    exact ⟨a, rfl, hrest⟩
  · rintro ⟨a, rfl, hrest⟩
    exact ⟨a, s, rfl, hrest⟩

/-- A reading whose value is not used. -/
theorem returns_eval_then {x : Except E A} {m : Comp E S B} {s : S} :
    (eval x >>= fun _ => m).Returns s ↔ Gives x ∧ m.Returns s :=
  returns_eval_bind.trans ⟨fun ⟨a, hx, hm⟩ => ⟨⟨a, hx⟩, hm⟩,
    fun ⟨⟨a, hx⟩, hm⟩ => ⟨a, hx, hm⟩⟩

/-- What is made of the value does not matter. -/
theorem returns_bind_pure {m : Comp E S A} {b : A → B} {s : S} :
    (m >>= fun a => pure (b a)).Returns s ↔ m.Returns s := by
  rw [returns_bind]
  constructor
  · rintro ⟨a, s', h, _⟩
    exact ⟨a, s', h⟩
  · rintro ⟨a, s', h⟩
    exact ⟨a, s', h, returns_pure _ _⟩

theorem eval_bind_eq_ok {x : Except E A} {f : A → Comp E S B} {s s' : S}
    {b : B} :
    (eval x >>= f) s = (.ok b, s') ↔ ∃ a, x = .ok a ∧ f a s = (.ok b, s') := by
  cases x with
  | error e =>
      constructor
      · intro h
        cases h
      · rintro ⟨a, h, _⟩
        cases h
  | ok a =>
      constructor
      · intro h
        exact ⟨a, rfl, h⟩
      · rintro ⟨a', h, hf⟩
        cases h
        exact hf

theorem bind_pure_eq_ok {m : Comp E S A} {g : A → B} {s s' : S} {b : B} :
    (m >>= fun a => pure (g a)) s = (.ok b, s') ↔
      ∃ a, m s = (.ok a, s') ∧ g a = b := by
  rw [bind_apply]
  rcases m s with ⟨e | a, t⟩
  · constructor
    · intro h
      cases h
    · rintro ⟨a, h, _⟩
      cases h
  · constructor
    · intro h
      cases h
      exact ⟨a, rfl, rfl⟩
    · rintro ⟨a', h, rfl⟩
      cases h
      rfl

/-- If the computation returns anything, it is this value. -/
def Yields (m : Comp E S A) (a : A) : Prop :=
  ∀ s b s', m s = (.ok b, s') → b = a

theorem yields_pure (a : A) : (pure a : Comp E S A).Yields a := by
  rintro s b s' h
  cases h
  rfl

theorem yields_throw (e : E) (a : A) : (throw e : Comp E S A).Yields a :=
  fun _ _ _ h => nomatch h

theorem Yields.bind {m : Comp E S A} {f : A → Comp E S B} {b : B}
    (hf : ∀ a, (f a).Yields b) : (m >>= f).Yields b := by
  intro s b' s' h
  rcases hm : m s with ⟨e | a, t⟩
  · rw [bind_error hm] at h
    cases h
  · rw [bind_ok hm] at h
    exact hf a t b' s' h

/-- A part that always returns and leaves the state in a known way. -/
theorem returns_bind_of_ok {m : Comp E S A} {f : A → Comp E S B} {s s' : S}
    {a : A} (hm : m s = (.ok a, s')) :
    (m >>= f).Returns s ↔ (f a).Returns s' := by
  rw [Returns, bind_ok hm]
  rfl

/-- The computation returns, and `Q` holds of the value and the state it
leaves. -/
def Ends (m : Comp E S A) (s : S) (Q : A → S → Prop) : Prop :=
  ∃ a s', m s = (.ok a, s') ∧ Q a s'

theorem ends_pure {a : A} {s : S} {Q : A → S → Prop} (hQ : Q a s) :
    (pure a : Comp E S A).Ends s Q := ⟨a, s, rfl, hQ⟩

theorem Ends.mono {m : Comp E S A} {s : S} {Q Q' : A → S → Prop}
    (hm : m.Ends s Q) (hQ : ∀ a s', Q a s' → Q' a s') : m.Ends s Q' := by
  obtain ⟨a, s', hrun, hpost⟩ := hm
  exact ⟨a, s', hrun, hQ a s' hpost⟩

theorem Ends.bind {m : Comp E S A} {f : A → Comp E S B} {s : S}
    {Q : A → S → Prop} {Q' : B → S → Prop} (hm : m.Ends s Q)
    (hf : ∀ a s', Q a s' → (f a).Ends s' Q') : (m >>= f).Ends s Q' := by
  obtain ⟨a, s', hrun, hpost⟩ := hm
  obtain ⟨b, s'', hrun', hpost'⟩ := hf a s' hpost
  exact ⟨b, s'', (bind_ok hrun f).trans hrun', hpost'⟩

theorem ends_bind_of_ok {m : Comp E S A} {f : A → Comp E S B} {s s' : S}
    {a : A} {Q : B → S → Prop} (hm : m s = (.ok a, s'))
    (hf : (f a).Ends s' Q) : (m >>= f).Ends s Q := by
  rw [Ends, bind_ok hm]
  exact hf

theorem ends_get_bind {f : S → Comp E S B} {s : S} {Q : B → S → Prop}
    (hf : (f s).Ends s Q) : (get >>= f).Ends s Q := hf

theorem ends_modify_bind {g : S → S} {f : Unit → Comp E S B} {s : S}
    {Q : B → S → Prop} (hf : (f ()).Ends (g s) Q) :
    (modify g >>= f).Ends s Q := hf

/-- If the computation returns, `Q` holds of the value and the state it
leaves. -/
def Leads (m : Comp E S A) (s : S) (Q : A → S → Prop) : Prop :=
  ∀ a s', m s = (.ok a, s') → Q a s'

theorem leads_pure {a : A} {s : S} {Q : A → S → Prop} (hQ : Q a s) :
    (pure a : Comp E S A).Leads s Q := by
  rintro _ _ hrun
  cases hrun
  exact hQ

theorem leads_throw (e : E) (s : S) (Q : A → S → Prop) :
    (throw e : Comp E S A).Leads s Q := by
  rintro a s' hrun
  cases hrun

theorem Leads.bind {m : Comp E S A} {f : A → Comp E S B} {s : S}
    {Q : A → S → Prop} {Q' : B → S → Prop} (hm : m.Leads s Q)
    (hf : ∀ a s', Q a s' → (f a).Leads s' Q') : (m >>= f).Leads s Q' := by
  intro b s'' hrun
  rcases hcase : m s with ⟨e | a, s'⟩
  · rw [bind_error hcase] at hrun
    cases hrun
  · rw [bind_ok hcase] at hrun
    exact hf a s' (hm a s' hcase) b s'' hrun

theorem leads_get_bind {f : S → Comp E S B} {s : S} {Q : B → S → Prop}
    (hf : (f s).Leads s Q) : (get >>= f).Leads s Q := hf

theorem leads_modify_bind {g : S → S} {f : Unit → Comp E S B} {s : S}
    {Q : B → S → Prop} (hf : (f ()).Leads (g s) Q) :
    (modify g >>= f).Leads s Q := hf

/-- A sequence returns a value when both of its parts return one. -/
theorem bind_eq_ok {m : Comp E S A} {f : A → Comp E S B} {s s' : S} {b : B} :
    (m >>= f) s = (.ok b, s') ↔ ∃ a t, m s = (.ok a, t) ∧ f a t = (.ok b, s') := by
  rw [bind_apply]
  rcases m s with ⟨e | a, t⟩
  · constructor
    · intro h
      cases h
    · rintro ⟨a, t, h, _⟩
      cases h
  · constructor
    · intro h
      exact ⟨a, t, rfl, h⟩
    · rintro ⟨a', t', h, hf⟩
      cases h
      exact hf

end Comp

end Effect
