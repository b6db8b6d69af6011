/-
Partial step machines: a state, a labelled step that may be disabled, and
finite runs.  A run is a list of labels; conditions on the steps of a run and
the properties they guarantee are carried from one step to whole runs here.
-/
import Mathlib.Data.List.Basic

namespace StepMachine

universe u v

variable {S : Type u} {E : Type v}

/-- A labelled transition system whose steps are functions; `none` is a
disabled step. -/
structure Machine (S : Type u) (E : Type v) where
  init : S
  step : S → E → Option S

/-- Perform the labels in order; the run fails at the first disabled step. -/
def Machine.run (M : Machine S E) : S → List E → Option S
  | s, [] => some s
  | s, e :: es => (M.step s e).bind fun s' => M.run s' es

/-- Every step of the run is taken in a state in which `C` allows it. -/
def Machine.Guarded (M : Machine S E) (C : S → E → Prop) : S → List E → Prop
  | _, [] => True
  | s, e :: es => C s e ∧ ∀ s', M.step s e = some s' → M.Guarded C s' es

/-- Every step of the run, with the states before and after it, satisfies
`P`. -/
def Machine.Each (M : Machine S E) (P : S → E → S → Prop) :
    S → List E → Prop
  | _, [] => True
  | s, e :: es => ∀ s', M.step s e = some s' → P s e s' ∧ M.Each P s' es

instance decidableGuarded (M : Machine S E) (C : S → E → Prop)
    [hC : ∀ s e, Decidable (C s e)] :
    ∀ (s : S) (es : List E), Decidable (M.Guarded C s es)
  | _, [] => isTrue trivial
  | s, e :: es =>
      match hC s e, hstep : M.step s e with
      | isFalse hno, _ => isFalse fun h => hno h.1
      | isTrue hyes, none =>
          isTrue ⟨hyes, fun s' hs' => by rw [hstep] at hs'; cases hs'⟩
      | isTrue hyes, some s' =>
          match decidableGuarded M C s' es with
          | isTrue hrest =>
              isTrue ⟨hyes, fun t ht =>
                Option.some.inj (hstep.symm.trans ht) ▸ hrest⟩
          | isFalse hno => isFalse fun h => hno (h.2 s' hstep)

/-- `I` holds at the start and survives every step that `C` allows. -/
structure Machine.Inductive (M : Machine S E) (C : S → E → Prop)
    (I : S → Prop) : Prop where
  init : I M.init
  step : ∀ {s e s'}, I s → C s e → M.step s e = some s' → I s'

variable {M : Machine S E} {C : S → E → Prop} {I : S → Prop}
  {P : S → E → S → Prop}

@[simp] theorem run_nil (s : S) : M.run s [] = some s := rfl

theorem run_cons (s : S) (e : E) (es : List E) :
    M.run s (e :: es) = (M.step s e).bind fun s' => M.run s' es := rfl

theorem run_cons_eq_some {s t : S} {e : E} {es : List E} :
    M.run s (e :: es) = some t ↔
      ∃ s', M.step s e = some s' ∧ M.run s' es = some t := by
  rw [run_cons, Option.bind_eq_some_iff]

theorem run_append (s : S) (xs ys : List E) :
    M.run s (xs ++ ys) = (M.run s xs).bind fun s' => M.run s' ys := by
  induction xs generalizing s with
  | nil => rfl
  | cons e xs ih =>
      rw [List.cons_append, run_cons, run_cons, Option.bind_assoc]
      congr 1
      funext s'
      exact ih s'

theorem guarded_true (s : S) (es : List E) :
    M.Guarded (fun _ _ => True) s es := by
  induction es generalizing s with
  | nil => trivial
  | cons e es ih => exact ⟨trivial, fun s' _ => ih s'⟩

theorem Machine.Guarded.mono {C' : S → E → Prop}
    (himp : ∀ s e, C s e → C' s e) {s : S} {es : List E}
    (hguarded : M.Guarded C s es) : M.Guarded C' s es := by
  induction es generalizing s with
  | nil => trivial
  | cons e es ih =>
      exact ⟨himp s e hguarded.1, fun s' hs' => ih (hguarded.2 s' hs')⟩

/-- The step rule lifted to runs from any state where the invariant holds. -/
theorem Machine.Inductive.run_from (hI : M.Inductive C I) {s t : S}
    {es : List E} (hs : I s) (hguarded : M.Guarded C s es)
    (hrun : M.run s es = some t) : I t := by
  induction es generalizing s with
  | nil => exact (Option.some.inj hrun) ▸ hs
  | cons e es ih =>
      obtain ⟨s', hstep, hrest⟩ := run_cons_eq_some.mp hrun
      exact ih (hI.step hs hguarded.1 hstep) (hguarded.2 s' hstep) hrest

theorem Machine.Inductive.run (hI : M.Inductive C I) {t : S} {es : List E}
    (hguarded : M.Guarded C M.init es) (hrun : M.run M.init es = some t) :
    I t :=
  hI.run_from hI.init hguarded hrun

/-- What the invariant gives for one allowed step holds of every step of an
allowed run. -/
theorem Machine.Inductive.each_from (hI : M.Inductive C I)
    (hP : ∀ {s e s'}, I s → C s e → M.step s e = some s' → P s e s')
    {s : S} {es : List E} (hs : I s) (hguarded : M.Guarded C s es) :
    M.Each P s es := by
  induction es generalizing s with
  | nil => trivial
  | cons e es ih =>
      intro s' hstep
      exact ⟨hP hs hguarded.1 hstep,
        ih (hI.step hs hguarded.1 hstep) (hguarded.2 s' hstep)⟩

theorem Machine.Inductive.each (hI : M.Inductive C I)
    (hP : ∀ {s e s'}, I s → C s e → M.step s e = some s' → P s e s')
    {es : List E} (hguarded : M.Guarded C M.init es) : M.Each P M.init es :=
  hI.each_from hP hI.init hguarded

/-- What the invariant gives for the next step guards an allowed run. -/
theorem Machine.Inductive.guarded_from {D : S → E → Prop}
    (hI : M.Inductive C I) (hD : ∀ {s e}, I s → C s e → D s e) {s : S}
    {es : List E} (hs : I s) (hguarded : M.Guarded C s es) :
    M.Guarded D s es := by
  induction es generalizing s with
  | nil => trivial
  | cons e es ih =>
      exact ⟨hD hs hguarded.1, fun s' hstep =>
        ih (hI.step hs hguarded.1 hstep) (hguarded.2 s' hstep)⟩

theorem Machine.Each.last {s u v : S} {xs : List E} {e : E}
    (heach : M.Each P s (xs ++ [e])) (hu : M.run s xs = some u)
    (hv : M.run s (xs ++ [e]) = some v) : P u e v := by
  induction xs generalizing s with
  | nil =>
      cases hu
      obtain ⟨_, hstep, hrest⟩ := run_cons_eq_some.mp hv
      cases hrest
      exact (heach v hstep).1
  | cons x xs ih =>
      obtain ⟨s', hstep, hrest⟩ := run_cons_eq_some.mp hu
      rw [List.cons_append, run_cons, hstep] at hv
      exact ih (heach s' hstep).2 hrest hv

theorem Machine.Inductive.mono {C' : S → E → Prop} (hI : M.Inductive C I)
    (himp : ∀ s e, C' s e → C s e) : M.Inductive C' I where
  init := hI.init
  step hs hC hstep := hI.step hs (himp _ _ hC) hstep

/-- Where the invariant makes the condition `C` on a step equivalent to what
the step does, the runs that keep to the condition are the runs whose steps
all do it.  `B` bounds the runs that are considered. -/
theorem Machine.Inductive.guarded_iff_each {B : S → E → Prop}
    (hI : M.Inductive (fun s e => B s e ∧ C s e) I)
    (hiff : ∀ {s e s'}, I s → B s e → M.step s e = some s' →
      (C s e ↔ P s e s'))
    {s t : S} {es : List E} (hs : I s) (hB : M.Guarded B s es)
    (hrun : M.run s es = some t) : M.Guarded C s es ↔ M.Each P s es := by
  induction es generalizing s with
  | nil => exact Iff.rfl
  | cons e es ih =>
      obtain ⟨s', hstep, hrest⟩ := run_cons_eq_some.mp hrun
      obtain ⟨hBs, hBrest⟩ := hB
      have hstate {u : S} (hu : M.step s e = some u) : u = s' :=
        Option.some.inj (hu.symm.trans hstep)
      constructor
      · rintro ⟨hC, hguarded⟩ u hu
        rw [hstate hu]
        exact ⟨(hiff hs hBs hstep).mp hC,
          (ih (hI.step hs ⟨hBs, hC⟩ hstep) (hBrest s' hstep) hrest).mp
            (hguarded s' hstep)⟩
      · intro heach
        have hC : C s e := (hiff hs hBs hstep).mpr (heach s' hstep).1
        refine ⟨hC, fun u hu => ?_⟩
        rw [hstate hu]
        exact (ih (hI.step hs ⟨hBs, hC⟩ hstep) (hBrest s' hstep) hrest).mpr
          (heach s' hstep).2

theorem guarded_append {s s' : S} {xs ys : List E}
    (hrun : M.run s xs = some s') :
    M.Guarded C s (xs ++ ys) ↔ M.Guarded C s xs ∧ M.Guarded C s' ys := by
  induction xs generalizing s with
  | nil =>
      cases hrun
      exact (and_iff_right trivial).symm
  | cons e xs ih =>
      obtain ⟨u, hstep, hrest⟩ := run_cons_eq_some.mp hrun
      have hnext {P : S → Prop} : (∀ v, M.step s e = some v → P v) ↔ P u := by
        simp [hstep]
      rw [List.cons_append, Machine.Guarded, Machine.Guarded, hnext, hnext,
        ih hrest, and_assoc]

/-- Conditions that hold of the labels alone hold along every run. -/
theorem guarded_of_forall {s : S} {es : List E}
    (h : ∀ s, ∀ e ∈ es, C s e) : M.Guarded C s es := by
  induction es generalizing s with
  | nil => trivial
  | cons e es ih =>
      exact ⟨h s e List.mem_cons_self, fun s' _ =>
        ih fun u c hc => h u c (List.mem_cons_of_mem e hc)⟩

theorem Machine.Guarded.and {D : S → E → Prop} {s : S} {es : List E}
    (hC : M.Guarded C s es) (hD : M.Guarded D s es) :
    M.Guarded (fun s e => C s e ∧ D s e) s es := by
  induction es generalizing s with
  | nil => trivial
  | cons e es ih =>
      exact ⟨⟨hC.1, hD.1⟩, fun s' hs' => ih (hC.2 s' hs') (hD.2 s' hs')⟩

section Simulation

variable {T : Type*} {N : Machine T E} {R : S → T → Prop}

/-- Allowed steps of `M` are matched by steps of `N` in related states. -/
structure Machine.Simulates (M : Machine S E) (N : Machine T E)
    (C : S → E → Prop) (R : S → T → Prop) : Prop where
  step : ∀ {s t e s'}, R s t → C s e → M.step s e = some s' →
    ∃ t', N.step t e = some t' ∧ R s' t'

theorem Machine.Simulates.run (hsim : M.Simulates N C R) {s s' : S} {t : T}
    {es : List E} (hR : R s t) (hguarded : M.Guarded C s es)
    (hrun : M.run s es = some s') :
    ∃ t', N.run t es = some t' ∧ R s' t' := by
  induction es generalizing s t with
  | nil => exact ⟨t, rfl, Option.some.inj hrun ▸ hR⟩
  | cons e es ih =>
      obtain ⟨u, hstep, hrest⟩ := run_cons_eq_some.mp hrun
      obtain ⟨v, hv, hRv⟩ := hsim.step hR hguarded.1 hstep
      obtain ⟨t', ht', hRt⟩ := ih hRv (hguarded.2 u hstep) hrest
      exact ⟨t', run_cons_eq_some.mpr ⟨v, hv, ht'⟩, hRt⟩

end Simulation

section Refinement

variable {T F : Type*} {N : Machine T F} {R : S → T → Prop}

/-- Each allowed step of `M` is matched by a run of `N`, which may be empty;
the labels of the two machines need not have anything in common. -/
structure Machine.Refines (M : Machine S E) (N : Machine T F)
    (C : S → E → Prop) (R : S → T → Prop) : Prop where
  step : ∀ {s t e s'}, R s t → C s e → M.step s e = some s' →
    ∃ fs t', N.run t fs = some t' ∧ R s' t'

theorem Machine.Refines.run (href : M.Refines N C R) {s s' : S} {t : T}
    {es : List E} (hR : R s t) (hguarded : M.Guarded C s es)
    (hrun : M.run s es = some s') :
    ∃ fs t', N.run t fs = some t' ∧ R s' t' := by
  induction es generalizing s t with
  | nil => exact ⟨[], t, rfl, Option.some.inj hrun ▸ hR⟩
  | cons e es ih =>
      obtain ⟨u, hstep, hrest⟩ := run_cons_eq_some.mp hrun
      obtain ⟨fs, v, hv, hRv⟩ := href.step hR hguarded.1 hstep
      obtain ⟨gs, t', ht', hRt⟩ := ih hRv (hguarded.2 u hstep) hrest
      exact ⟨fs ++ gs, t', by rw [run_append, hv]; exact ht', hRt⟩

end Refinement

theorem run_concat_eq_some {s t : S} {es : List E} {e : E} :
    M.run s (es ++ [e]) = some t ↔
      ∃ u, M.run s es = some u ∧ M.step u e = some t := by
  rw [run_append, Option.bind_eq_some_iff]
  simp only [run_cons_eq_some, run_nil, Option.some.injEq, exists_eq_right]

/-- Where a counter never falls and stands still exactly at the steps that `C`
allows, it stands still over a run exactly if `C` allows all of its steps. -/
theorem Machine.Inductive.count_eq_iff_guarded
    (hI : M.Inductive (fun _ _ => True) I) (count : S → Nat)
    (hcount : ∀ {s e s'}, I s → M.step s e = some s' →
      count s ≤ count s' ∧ (count s' = count s ↔ C s e))
    {s t : S} {es : List E} (hs : I s) (hrun : M.run s es = some t) :
    count s ≤ count t ∧ (count t = count s ↔ M.Guarded C s es) := by
  induction es generalizing s with
  | nil =>
      cases hrun
      exact ⟨Nat.le_refl _, iff_of_true rfl trivial⟩
  | cons e es ih =>
      obtain ⟨s', hstep, hrest⟩ := run_cons_eq_some.mp hrun
      obtain ⟨hle, hiff⟩ := hcount hs hstep
      obtain ⟨hle', hiff'⟩ := ih (hI.step hs trivial hstep) hrest
      have hguarded : M.Guarded C s (e :: es) ↔
          C s e ∧ M.Guarded C s' es := by
        simp [Machine.Guarded, hstep]
      refine ⟨Nat.le_trans hle hle', ?_⟩
      rw [hguarded, ← hiff, ← hiff']
      omega

end StepMachine
