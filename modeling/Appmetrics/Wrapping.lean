/-
Objects whose methods are wrapped in layers.  A layer either starts an
operation or adds layers to the object its method hands out, and may mark that
object so as to leave it alone the next time.  Layers that are put on once
keep every call at one start, however far down the object was handed out.
-/
import Mathlib.Data.List.Nodup
import Mathlib.Logic.Function.Iterate

set_option linter.unusedSectionVars false

namespace Wrapping

/-- `N` names methods, `M` marks objects and `A` is the argument a layer looks
at. -/
inductive Layer (N M A : Type)
  | start (applies : A → Bool)
  | advise (given : A → Option M × List (N × Layer N M A))

/-- An object: its marks, and the layers of each method, outermost first. -/
structure Handle (N M A : Type) where
  marks : M → Bool
  layers : N → List (Layer N M A)

/-- A call that hands out an object, `again` times more after the first. -/
structure Call (N A : Type) where
  method : N
  argument : A
  again : Nat
deriving Repr, DecidableEq

variable {N M A : Type} [DecidableEq N] [DecidableEq M]

namespace Handle

def blank : Handle N M A := ⟨fun _ => false, fun _ => []⟩

def mark (h : Handle N M A) (m : M) : Handle N M A :=
  { h with marks := Function.update h.marks m true }

def wrap (h : Handle N M A) (n : N) (l : Layer N M A) : Handle N M A :=
  { h with layers := Function.update h.layers n (l :: h.layers n) }

/-- Put one layer on each of these methods. -/
def aspect (h : Handle N M A) (methods : List (N × Layer N M A)) :
    Handle N M A :=
  methods.foldl (fun h nl => h.wrap nl.1 nl.2) h

end Handle

/-- What a layer does to the object that its method hands out. -/
def Layer.handOut (a : A) : Layer N M A → Handle N M A → Handle N M A
  | .start _, o => o
  | .advise given, o =>
      match given a with
      | (none, methods) => o.aspect methods
      | (some m, methods) =>
          if o.marks m then o else (o.mark m).aspect methods

/-- Whether a layer marks the object its method hands out. -/
def Layer.marksProduct (a : A) : Layer N M A → Bool
  | .start _ => false
  | .advise given => (given a).1.isSome

def Layer.starts (a : A) : Layer N M A → Bool
  | .start applies => applies a
  | .advise _ => false

namespace Handle

/-- The object that these calls hand out, new at the first of them. -/
def product (h : Handle N M A) (c : Call N A) : Handle N M A :=
  (fun o => (h.layers c.method).foldr (·.handOut c.argument) o)^[c.again + 1]
    blank

/-- How many operations one call of `n` starts, on the object that the calls
of `path` lead to. -/
def starts : Handle N M A → List (Call N A) → N → A → Nat
  | h, [], n, a => (h.layers n).countP (·.starts a)
  | h, c :: path, n, a => (h.product c).starts path n a

/-- The call marks what it hands out. -/
def Marks (h : Handle N M A) (c : Call N A) : Prop :=
  ∃ l ∈ h.layers c.method, l.marksProduct c.argument = true

end Handle

/-- The same call, handing out its object a single time. -/
def Call.once (c : Call N A) : Call N A := { c with again := 0 }

namespace Handle

/-- Some call on the way marks the object that it hands out. -/
def MarksLater : Handle N M A → List (Call N A) → Prop
  | _, [] => False
  | h, c :: path => h.Marks c ∨ (h.product c.once).MarksLater path

/-- Every object on the way is handed out once, or by a call that marks what
it hands out, or before such a call. -/
def HandedOutOnce : Handle N M A → List (Call N A) → Prop
  | _, [] => True
  | h, c :: path =>
      (c.again = 0 ∨ h.MarksLater (c :: path)) ∧
        (h.product c.once).HandedOutOnce path

/-- Without repetitions, a call of `n` at the end of `path` starts
something. -/
def Instrumented (h : Handle N M A) (path : List (Call N A)) (n : N) (a : A) :
    Prop :=
  0 < h.starts (path.map Call.once) n a

end Handle

/-! ## Layers put on once -/

/-- No list of methods names one twice, at any depth. -/
inductive Layer.Once : Layer N M A → Prop
  | start (applies : A → Bool) : Once (.start applies)
  | advise {given : A → Option M × List (N × Layer N M A)} :
      (∀ a, ((given a).2.map Prod.fst).Nodup) →
      (∀ a, ∀ nl ∈ (given a).2, Once nl.2) → Once (.advise given)

/-- Every method has at most one layer. -/
def Handle.Once (h : Handle N M A) : Prop :=
  ∀ n, h.layers n = [] ∨ ∃ l : Layer N M A, l.Once ∧ h.layers n = [l]

/-- Every layer of `h` is there `k` times in `h'`. -/
def Handle.Copies (h : Handle N M A) (k : Nat) (h' : Handle N M A) : Prop :=
  ∀ n, h'.layers n = (h.layers n).flatMap (List.replicate k)

namespace Handle

@[simp] theorem mark_layers (h : Handle N M A) (m : M) :
    (h.mark m).layers = h.layers := rfl

@[simp] theorem wrap_marks (h : Handle N M A) (n : N) (l : Layer N M A) :
    (h.wrap n l).marks = h.marks := rfl

@[simp] theorem blank_layers (n : N) :
    (blank : Handle N M A).layers n = [] := rfl

theorem wrap_layers (h : Handle N M A) (n n' : N) (l : Layer N M A) :
    (h.wrap n l).layers n' =
      if n' = n then l :: h.layers n' else h.layers n' := by
  by_cases hn : n' = n
  · subst hn
    simp [wrap]
  · simp [wrap, hn]

theorem aspect_cons (h : Handle N M A) (nl : N × Layer N M A)
    (methods : List (N × Layer N M A)) :
    h.aspect (nl :: methods) = (h.wrap nl.1 nl.2).aspect methods := rfl

@[simp] theorem aspect_marks (h : Handle N M A)
    (methods : List (N × Layer N M A)) :
    (h.aspect methods).marks = h.marks := by
  induction methods generalizing h with
  | nil => rfl
  | cons nl methods ih => rw [aspect_cons, ih, wrap_marks]

theorem aspect_layers_of_notMem {h : Handle N M A} {n : N}
    {methods : List (N × Layer N M A)} (hn : n ∉ methods.map Prod.fst) :
    (h.aspect methods).layers n = h.layers n := by
  induction methods generalizing h with
  | nil => rfl
  | cons nl methods ih =>
      rw [List.map_cons, List.mem_cons, not_or] at hn
      rw [aspect_cons, ih hn.2, wrap_layers, if_neg hn.1]

theorem aspect_layers_of_mem {h : Handle N M A} {n : N} {l : Layer N M A}
    {methods : List (N × Layer N M A)}
    (hnodup : (methods.map Prod.fst).Nodup) (hmem : (n, l) ∈ methods) :
    (h.aspect methods).layers n = l :: h.layers n := by
  induction methods generalizing h with
  | nil => cases hmem
  | cons nl methods ih =>
      rw [List.map_cons, List.nodup_cons] at hnodup
      rw [aspect_cons]
      rcases List.mem_cons.mp hmem with rfl | hlater
      · rw [aspect_layers_of_notMem hnodup.1, wrap_layers, if_pos rfl]
      · have hne : n ≠ nl.1 := by
          intro heq
          exact hnodup.1 (heq ▸ List.mem_map_of_mem hlater)
        rw [ih hnodup.2 hlater, wrap_layers, if_neg hne]

/-- New layers are outside the old ones. -/
theorem aspect_layers_append (h : Handle N M A)
    (methods : List (N × Layer N M A)) (n : N) :
    (h.aspect methods).layers n =
      ((blank : Handle N M A).aspect methods).layers n ++ h.layers n := by
  induction methods generalizing h with
  | nil => rfl
  | cons nl methods ih =>
      rw [aspect_cons, ih, aspect_cons, ih (blank.wrap _ _), List.append_assoc,
        wrap_layers, wrap_layers]
      by_cases hn : n = nl.1 <;> simp [hn]

theorem aspect_layers_congr {h h' : Handle N M A}
    (heq : h.layers = h'.layers) (methods : List (N × Layer N M A)) :
    (h.aspect methods).layers = (h'.aspect methods).layers := by
  funext n
  rw [aspect_layers_append, aspect_layers_append h', heq]

/-- Putting the same layers on `k` times. -/
theorem aspect_iterate_copies (h : Handle N M A)
    {methods : List (N × Layer N M A)}
    (hnodup : (methods.map Prod.fst).Nodup) (hh : ∀ n, h.layers n = [])
    (k : Nat) :
    (h.aspect methods).Copies k
      ((fun o : Handle N M A => o.aspect methods)^[k] h) := by
  intro n
  induction k with
  | zero => simp [hh]
  | succ k ih =>
      rw [Function.iterate_succ_apply']
      by_cases hn : n ∈ methods.map Prod.fst
      · obtain ⟨⟨_, l⟩, hmem, rfl⟩ := List.mem_map.mp hn
        rw [aspect_layers_of_mem hnodup hmem, ih,
          aspect_layers_of_mem hnodup hmem, hh]
        rfl
      · rw [aspect_layers_of_notMem hn, ih, aspect_layers_of_notMem hn, hh]
        rfl

theorem once_blank : (blank : Handle N M A).Once := fun _ => Or.inl rfl

theorem Once.aspect {h : Handle N M A} {methods : List (N × Layer N M A)}
    (hh : h.Once) (hnodup : (methods.map Prod.fst).Nodup)
    (honce : ∀ nl ∈ methods, nl.2.Once)
    (hnew : ∀ n ∈ methods.map Prod.fst, h.layers n = []) :
    (h.aspect methods).Once := by
  intro n
  by_cases hn : n ∈ methods.map Prod.fst
  · have hempty := hnew n hn
    obtain ⟨⟨_, l⟩, hmem, rfl⟩ := List.mem_map.mp hn
    rw [aspect_layers_of_mem hnodup hmem, hempty]
    exact Or.inr ⟨l, honce _ hmem, rfl⟩
  · rw [aspect_layers_of_notMem hn]
    exact hh n

theorem Once.of_layers_eq {h h' : Handle N M A} (hh : h.Once)
    (heq : h'.layers = h.layers) : h'.Once := by
  intro n
  rw [heq]
  exact hh n

theorem Copies.of_layers_eq {h h₁ h₂ : Handle N M A} {k : Nat}
    (hcopies : h.Copies k h₁) (heq : h₂.layers = h₁.layers) :
    h.Copies k h₂ := by
  intro n
  rw [heq]
  exact hcopies n

theorem copies_one (h : Handle N M A) : h.Copies 1 h :=
  fun n => List.flatMap_singleton' (h.layers n) |>.symm

theorem starts_of_layers_nil {h : Handle N M A} {n : N}
    (hn : h.layers n = []) (a : A) : h.starts [] n a = 0 := by
  rw [starts, hn]
  rfl

theorem product_of_layers_nil {h : Handle N M A} {c : Call N A}
    (hc : h.layers c.method = []) : h.product c = blank := by
  rw [product, hc]
  exact Function.iterate_fixed rfl _

end Handle

theorem foldr_replicate_handOut (l : Layer N M A) (a : A) (k : Nat)
    (o : Handle N M A) :
    (List.replicate k l).foldr (·.handOut a) o = (l.handOut a)^[k] o := by
  induction k with
  | zero => rfl
  | succ k ih =>
      rw [List.replicate_succ, List.foldr_cons, ih,
        Function.iterate_succ_apply']

namespace Handle

/-- Repeated layers and repeated calls do to the product what one layer does
that many times. -/
theorem product_of_copies {h' : Handle N M A} {l : Layer N M A} {k : Nat}
    {c : Call N A} (hl : h'.layers c.method = List.replicate k l) :
    h'.product c = (l.handOut c.argument)^[k * (c.again + 1)] blank := by
  have hlayer : (fun o => (h'.layers c.method).foldr (·.handOut c.argument) o)
      = (l.handOut c.argument)^[k] := by
    funext o
    rw [hl, foldr_replicate_handOut]
  rw [product, hlayer, ← Function.iterate_mul]

/-- After the first time, a marking layer leaves the object alone. -/
theorem handOut_iterate_marked {a : A} {m : M}
    {given : A → Option M × List (N × Layer N M A)}
    {methods : List (N × Layer N M A)} (hgiven : given a = (some m, methods))
    (k : Nat) :
    ((Layer.advise given).handOut a)^[k + 1] blank =
      (blank.mark m).aspect methods := by
  induction k with
  | zero => simp [Layer.handOut, hgiven, blank]
  | succ k ih =>
      rw [Function.iterate_succ_apply', ih, Layer.handOut, hgiven]
      simp [mark]

theorem product_once {h : Handle N M A} {l : Layer N M A} {c : Call N A}
    (hl : h.layers c.method = [l]) :
    h.product c.once = l.handOut c.argument blank := by
  have hcopy : h.layers c.once.method = List.replicate 1 l := hl
  rw [product_of_copies hcopy]
  rfl

/-- The product of layers put on once has its layers once. -/
theorem Once.product {h : Handle N M A} (hh : h.Once) (c : Call N A) :
    (h.product c.once).Once := by
  rcases hh c.method with hnil | ⟨l, honce, hl⟩
  · rw [product_of_layers_nil (c := c.once) hnil]
    exact once_blank
  · rw [product_once hl]
    cases honce with
    | start => exact once_blank
    | @advise given hnodup hinner =>
        have hadvised (o : Handle N M A) (ho : ∀ n, o.layers n = []) :
            (o.aspect (given c.argument).2).Once :=
          Once.aspect (fun n => Or.inl (ho n)) (hnodup _) (hinner _)
            fun n _ => ho n
        rw [Layer.handOut]
        split
        · rename_i methods hgiven
          simpa [hgiven] using hadvised blank fun _ => rfl
        · rename_i m methods hgiven
          simpa [hgiven, blank] using hadvised (blank.mark m) fun _ => rfl

open Classical in
/-- A product collects the copies of its layer, unless it is marked. -/
theorem Copies.product {h h' : Handle N M A} {k : Nat} (hh : h.Once)
    (hcopies : h.Copies (k + 1) h') (c : Call N A) :
    (h.product c.once).Copies
      (if h.Marks c then 1 else (k + 1) * (c.again + 1)) (h'.product c) := by
  rcases hh c.method with hnil | ⟨l, honce, hl⟩
  · have hnil' : h'.layers c.method = [] := by
      rw [hcopies, hnil]
      rfl
    rw [product_of_layers_nil (c := c.once) hnil,
      product_of_layers_nil hnil']
    exact fun _ => rfl
  · have hl' : h'.layers c.method = List.replicate (k + 1) l := by
      rw [hcopies, hl]
      simp
    rw [product_once hl, product_of_copies hl']
    have hmarks : h.Marks c ↔ l.marksProduct c.argument = true := by
      simp [Marks, hl]
    cases honce with
    | start applies =>
        have hfixed : ((Layer.start applies).handOut c.argument :
            Handle N M A → Handle N M A)^[(k + 1) * (c.again + 1)] blank =
            blank := Function.iterate_fixed rfl _
        rw [hfixed]
        exact fun _ => rfl
    | @advise given hnodup hinner =>
        rcases hgiven : given c.argument with ⟨_ | m, methods⟩
        · have hno : ¬h.Marks c := by
            simp [hmarks, Layer.marksProduct, hgiven]
          rw [if_neg hno]
          have hadvise : (Layer.advise given).handOut c.argument =
              fun o : Handle N M A => o.aspect methods := by
            funext o
            simp [Layer.handOut, hgiven]
          rw [hadvise]
          apply aspect_iterate_copies _ _ fun _ => rfl
          simpa [hgiven] using hnodup c.argument
        · have hyes : h.Marks c := by
            simp [hmarks, Layer.marksProduct, hgiven]
          obtain ⟨j, hj⟩ : ∃ j, (k + 1) * (c.again + 1) = j + 1 :=
            Nat.exists_eq_succ_of_ne_zero (by simp)
          rw [if_pos hyes, hj, handOut_iterate_marked hgiven,
            show (Layer.advise given).handOut c.argument blank =
              (blank.mark m).aspect methods from
              handOut_iterate_marked hgiven 0]
          exact copies_one _

theorem not_marksLater_blank (path : List (Call N A)) :
    ¬(blank : Handle N M A).MarksLater path := by
  induction path with
  | nil => exact id
  | cons c path ih =>
      rintro (⟨l, hl, _⟩ | hlater)
      · cases hl
      · rw [product_of_layers_nil (c := c.once) rfl] at hlater
        exact ih hlater

theorem foldr_handOut_of_starting {ls : List (Layer N M A)}
    (hstart : ∀ l ∈ ls, ∃ applies, l = .start applies) (a : A)
    (o : Handle N M A) : ls.foldr (·.handOut a) o = o := by
  induction ls with
  | nil => rfl
  | cons l ls ih =>
      obtain ⟨applies, rfl⟩ := hstart l List.mem_cons_self
      rw [List.foldr_cons, ih fun l hl => hstart l (List.mem_cons_of_mem _ hl)]
      rfl

/-- Layers that only start operations hand nothing out. -/
theorem not_marksLater_of_starting {h : Handle N M A}
    (hstart : ∀ n, ∀ l ∈ h.layers n, ∃ applies, l = .start applies)
    (path : List (Call N A)) : ¬h.MarksLater path := by
  cases path with
  | nil => exact id
  | cons c path =>
      have hblank : h.product c.once = blank :=
        Function.iterate_fixed
          (foldr_handOut_of_starting (hstart _) c.argument blank) _
      rintro (⟨l, hl, hmarks⟩ | hlater)
      · obtain ⟨applies, rfl⟩ := hstart _ l hl
        cases hmarks
      · rw [hblank] at hlater
        exact not_marksLater_blank path hlater

/-- What `k` copies of layers put on once start, exactly: one operation, if
there is one copy or a later call marks what it hands out, and the objects on
the way are handed out once. -/
theorem starts_eq_one_iff {h h' : Handle N M A} {k : Nat} (hh : h.Once)
    (hcopies : h.Copies (k + 1) h') {path : List (Call N A)} {n : N} {a : A}
    (hinstrumented : h.Instrumented path n a) :
    h'.starts path n a = 1 ↔
      (k = 0 ∨ h.MarksLater path) ∧ h.HandedOutOnce path := by
  induction path generalizing h h' k with
  | nil =>
      rcases hh n with hnil | ⟨l, _, hl⟩
      · have hzero := starts_of_layers_nil hnil a
        rw [Instrumented, List.map_nil, hzero] at hinstrumented
        omega
      · have hstarts : l.starts a = true := by
          rw [Instrumented, List.map_nil, starts, hl] at hinstrumented
          by_contra hno
          simp [hno] at hinstrumented
        rw [starts, hcopies, hl]
        simp [List.countP_replicate, hstarts, MarksLater, HandedOutOnce]
  | cons c path ih =>
      have hproduct := hcopies.product hh c
      have hrest : (h.product c.once).Instrumented path n a := hinstrumented
      rw [starts, MarksLater, HandedOutOnce, MarksLater]
      by_cases hmarks : h.Marks c
      · rw [if_pos hmarks] at hproduct
        rw [ih (hh.product c) hproduct hrest]
        simp [hmarks]
      · rw [if_neg hmarks] at hproduct
        obtain ⟨j, hj⟩ : ∃ j, (k + 1) * (c.again + 1) = j + 1 :=
          Nat.exists_eq_succ_of_ne_zero (by simp)
        have hsingle : j = 0 ↔ k = 0 ∧ c.again = 0 := by
          constructor
          · rintro rfl
            have hleft := Nat.eq_one_of_mul_eq_one_right hj
            have hright := Nat.eq_one_of_mul_eq_one_left hj
            omega
          · rintro ⟨rfl, hagain⟩
            rw [hagain] at hj
            omega
        rw [hj] at hproduct
        rw [ih (hh.product c) hproduct hrest, hsingle]
        tauto

end Handle

end Wrapping
