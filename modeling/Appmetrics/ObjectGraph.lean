/-
Graphs of objects and arrays in a heap: what is reachable from a node, when
two graphs are isomorphic, and how a heap holds a tree.
-/
import Mathlib.Data.List.Forall2
import Mathlib.Data.Set.Function
import Mathlib.Logic.Relation

namespace ObjectGraph

/-- `P` is the type of the primitive values. -/
inductive Value (P : Type)
  | prim (p : P)
  | ref (a : Nat)
deriving Repr, DecidableEq

/-- `K` is the type of the keys of an object. -/
inductive Node (K P : Type)
  | object (fields : List (K × Value P))
  | array (elements : List (Value P))
deriving Repr, DecidableEq

/-- A reference is the index of a node. -/
abbrev Heap (K P : Type) := List (Node K P)

inductive Tree (K P : Type)
  | prim (p : P)
  | object (members : List (K × Tree K P))
  | array (elements : List (Tree K P))

variable {K P : Type}

namespace Node

def values : Node K P → List (Value P)
  | .object fs => fs.map Prod.snd
  | .array es => es

@[simp] theorem values_object (fs : List (K × Value P)) :
    (object fs).values = fs.map Prod.snd := rfl

@[simp] theorem values_array (es : List (Value P)) :
    (array es : Node K P).values = es := rfl

end Node

theorem getElem?_grows {A : Type} {l l' : List A} (hext : l <+: l')
    {i : Nat} {x : A} (hx : l[i]? = some x) : l'[i]? = some x := by
  obtain ⟨added, rfl⟩ := hext
  rw [List.getElem?_append_left (List.getElem?_eq_some_iff.mp hx).1, hx]

/-! ## Reachability -/

/-- Node `a` holds a reference to `b`. -/
def Refers (h : Heap K P) (a b : Nat) : Prop :=
  ∃ node, h[a]? = some node ∧ .ref b ∈ node.values

def Reachable (h : Heap K P) (r a : Nat) : Prop :=
  Relation.ReflTransGen (Refers h) r a

def IsObject (h : Heap K P) (a : Nat) : Prop :=
  ∃ fs, h[a]? = some (.object fs)

/-- The objects that can be reached from `r`. -/
def objects (h : Heap K P) (r : Nat) : Set Nat :=
  {a | Reachable h r a ∧ IsObject h a}

/-! ## Isomorphism -/

/-- Two lists of values agree: primitive values are equal, objects are related
by `R`, and arrays agree element by element. -/
inductive SameValues (R : Nat → Nat → Prop) (h h' : Heap K P) :
    List (Value P) → List (Value P) → Prop
  | nil : SameValues R h h' [] []
  | prim {p vs vs'} (hrest : SameValues R h h' vs vs') :
      SameValues R h h' (.prim p :: vs) (.prim p :: vs')
  | object {a a' vs vs'} (hobject : IsObject h a) (hobject' : IsObject h' a')
      (hrel : R a a') (hrest : SameValues R h h' vs vs') :
      SameValues R h h' (.ref a :: vs) (.ref a' :: vs')
  | array {a a' es es' vs vs'} (harray : h[a]? = some (.array es))
      (harray' : h'[a']? = some (.array es'))
      (helements : SameValues R h h' es es')
      (hrest : SameValues R h h' vs vs') :
      SameValues R h h' (.ref a :: vs) (.ref a' :: vs')

/-- Two nodes are objects with the same keys and agreeing values. -/
def SameObject (R : Nat → Nat → Prop) (h h' : Heap K P) (a a' : Nat) : Prop :=
  ∃ fs fs', h[a]? = some (.object fs) ∧ h'[a']? = some (.object fs') ∧
    fs.map Prod.fst = fs'.map Prod.fst ∧
    SameValues R h h' (fs.map Prod.snd) (fs'.map Prod.snd)

/-- A bijection between the objects reachable from two roots keeps keys,
primitive values, the shape of arrays and the object each reference points
to. -/
def Isomorphic (h : Heap K P) (r : Nat) (h' : Heap K P) (r' : Nat) : Prop :=
  ∃ f : Nat → Nat, f r = r' ∧ Set.BijOn f (objects h r) (objects h' r') ∧
    ∀ a ∈ objects h r, SameObject (fun b b' => f b = b') h h' a (f a)

namespace SameValues

variable {R R' : Nat → Nat → Prop} {h h' : Heap K P}
  {vs vs' : List (Value P)}

theorem mono (hsame : SameValues R h h' vs vs')
    (hle : ∀ a b, R a b → R' a b) : SameValues R' h h' vs vs' := by
  induction hsame with
  | nil => exact .nil
  | prim _ ih => exact .prim ih
  | object hobject hobject' hrel _ ih =>
      exact .object hobject hobject' (hle _ _ hrel) ih
  | array harray harray' _ _ ihelements ihrest =>
      exact .array harray harray' ihelements ihrest

theorem symm (hsame : SameValues R h h' vs vs') :
    SameValues (fun b a => R a b) h' h vs' vs := by
  induction hsame with
  | nil => exact .nil
  | prim _ ih => exact .prim ih
  | object hobject hobject' hrel _ ih =>
      exact .object hobject' hobject hrel ih
  | array harray harray' _ _ ihelements ihrest =>
      exact .array harray' harray ihelements ihrest

end SameValues

/-- A one-to-one relation between objects that agree. -/
structure Bisim (R : Nat → Nat → Prop) (h h' : Heap K P) : Prop where
  left : ∀ {a b b'}, R a b → R a b' → b = b'
  right : ∀ {a a' b}, R a b → R a' b → a = a'
  same : ∀ {a b}, R a b → SameObject R h h' a b

/-- The nodes of two graphs that stand for each other: related objects, and
arrays that agree. -/
def Linked (R : Nat → Nat → Prop) (h h' : Heap K P) (a a' : Nat) : Prop :=
  R a a' ∨ ∃ es es', h[a]? = some (.array es) ∧ h'[a']? = some (.array es') ∧
    SameValues R h h' es es'

theorem SameValues.linked {R : Nat → Nat → Prop} {h h' : Heap K P}
    {vs vs' : List (Value P)} (hsame : SameValues R h h' vs vs') {c : Nat}
    (hc : .ref c ∈ vs) : ∃ c', .ref c' ∈ vs' ∧ Linked R h h' c c' := by
  induction hsame with
  | nil => cases hc
  | prim _ ih =>
      obtain ⟨c', hc', hlinked⟩ := ih (List.mem_of_ne_of_mem (by simp) hc)
      exact ⟨c', List.mem_cons_of_mem _ hc', hlinked⟩
  | object _ _ hrel _ ih =>
      rcases List.mem_cons.mp hc with hhead | hc
      · cases hhead
        exact ⟨_, List.mem_cons_self, Or.inl hrel⟩
      · obtain ⟨c', hc', hlinked⟩ := ih hc
        exact ⟨c', List.mem_cons_of_mem _ hc', hlinked⟩
  | array harray harray' helements _ _ ih =>
      rcases List.mem_cons.mp hc with hhead | hc
      · cases hhead
        exact ⟨_, List.mem_cons_self,
          Or.inr ⟨_, _, harray, harray', helements⟩⟩
      · obtain ⟨c', hc', hlinked⟩ := ih hc
        exact ⟨c', List.mem_cons_of_mem _ hc', hlinked⟩

namespace Bisim

variable {R : Nat → Nat → Prop} {h h' : Heap K P}

theorem symm (hsim : Bisim R h h') : Bisim (fun b a => R a b) h' h where
  left := hsim.right
  right := hsim.left
  same := by
    intro b a hrel
    obtain ⟨fs, fs', hfs, hfs', hkeys, hvalues⟩ := hsim.same hrel
    exact ⟨fs', fs, hfs', hfs, hkeys.symm, hvalues.symm⟩

theorem step (hsim : Bisim R h h') {a a' c : Nat} (hlinked : Linked R h h' a a')
    (hc : Refers h a c) : ∃ c', Refers h' a' c' ∧ Linked R h h' c c' := by
  obtain ⟨node, hnode, hmem⟩ := hc
  rcases hlinked with hrel | ⟨es, es', hes, hes', hsame⟩
  · obtain ⟨fs, fs', hfs, hfs', _, hsame⟩ := hsim.same hrel
    rw [hnode] at hfs
    cases hfs
    obtain ⟨c', hc', hlinked⟩ := hsame.linked hmem
    exact ⟨c', ⟨_, hfs', hc'⟩, hlinked⟩
  · rw [hnode] at hes
    cases hes
    obtain ⟨c', hc', hlinked⟩ := hsame.linked hmem
    exact ⟨c', ⟨_, hes', hc'⟩, hlinked⟩

/-- Whatever is reachable from a root stands for something reachable from the
other root. -/
theorem reachable (hsim : Bisim R h h') {r r' a : Nat} (hroot : R r r')
    (ha : Reachable h r a) : ∃ a', Reachable h' r' a' ∧ Linked R h h' a a' := by
  induction ha with
  | refl => exact ⟨r', .refl, Or.inl hroot⟩
  | tail _ hstep ih =>
      obtain ⟨b', hb', hlinked⟩ := ih
      obtain ⟨c', hc', hlinked⟩ := hsim.step hlinked hstep
      exact ⟨c', hb'.tail hc', hlinked⟩

theorem mem_objects (hsim : Bisim R h h') {r r' a : Nat} (hroot : R r r')
    (ha : a ∈ objects h r) : ∃ a' ∈ objects h' r', R a a' := by
  obtain ⟨hreach, fs, hfs⟩ := ha
  obtain ⟨a', hreach', hrel | ⟨es, _, hes, _⟩⟩ := hsim.reachable hroot hreach
  · obtain ⟨_, fs', _, hfs', _⟩ := hsim.same hrel
    exact ⟨a', ⟨hreach', fs', hfs'⟩, hrel⟩
  · rw [hfs] at hes
    cases hes

open Classical in
theorem isomorphic (hsim : Bisim R h h') {r r' : Nat} (hroot : R r r') :
    Isomorphic h r h' r' := by
  let f (a : Nat) : Nat := if hrel : ∃ b, R a b then hrel.choose else 0
  have hf {a b : Nat} (hrel : R a b) : f a = b := by
    have hex : ∃ b, R a b := ⟨b, hrel⟩
    have hchoose : f a = hex.choose := dif_pos hex
    rw [hchoose]
    exact hsim.left hex.choose_spec hrel
  refine ⟨f, hf hroot, ⟨?_, ?_, ?_⟩, ?_⟩
  · intro a ha
    obtain ⟨a', ha', hrel⟩ := hsim.mem_objects hroot ha
    rwa [hf hrel]
  · intro a ha b hb hab
    obtain ⟨a', _, hrela⟩ := hsim.mem_objects hroot ha
    obtain ⟨b', _, hrelb⟩ := hsim.mem_objects hroot hb
    rw [hf hrela, hf hrelb] at hab
    subst hab
    exact hsim.right hrela hrelb
  · intro b hb
    obtain ⟨a, ha, hrel⟩ := hsim.symm.mem_objects hroot hb
    exact ⟨a, ha, hf hrel⟩
  · intro a ha
    obtain ⟨a', _, hrel⟩ := hsim.mem_objects hroot ha
    obtain ⟨fs, fs', hfs, hfs', hkeys, hvalues⟩ := hsim.same hrel
    rw [hf hrel]
    exact ⟨fs, fs', hfs, hfs', hkeys, hvalues.mono fun _ _ => hf⟩

end Bisim

/-! ## Trees in a heap -/

/-- The tree that a value stands for; `none` where a path is longer than the
bound or leaves the heap. -/
def unfold (h : Heap K P) : Nat → Value P → Option (Tree K P)
  | _, .prim p => some (.prim p)
  | 0, .ref _ => none
  | n + 1, .ref a =>
      match h[a]? with
      | none => none
      | some (.object fs) =>
          ((fs.map Prod.snd).mapM (unfold h n)).map fun ts =>
            .object ((fs.map Prod.fst).zip ts)
      | some (.array es) => (es.mapM (unfold h n)).map .array

theorem unfold_of_mapM {h : Heap K P} {n : Nat} {v : Value P} {t : Tree K P}
    (hunfold : [v].mapM (unfold h n) = some [t]) : unfold h n v = some t := by
  rw [List.mapM_cons] at hunfold
  cases hcase : unfold h n v with
  | none =>
      rw [hcase] at hunfold
      cases hunfold
  | some t' =>
      rw [hcase] at hunfold
      cases hunfold
      rfl

/-- The values `vs` hold the trees `ts`.  The nodes of the trees are those
from `lo` on and below `hi`, each right after the nodes below it; empty arrays
may also be among the nodes of `S`. -/
inductive Spans (h : Heap K P) (S : Nat → Prop) :
    Nat → List (Value P) → List (Tree K P) → Nat → Prop
  | nil {lo} : Spans h S lo [] [] lo
  | prim {lo p vs ts hi} (hrest : Spans h S lo vs ts hi) :
      Spans h S lo (.prim p :: vs) (.prim p :: ts) hi
  | shared {lo a vs ts hi} (hshared : S a) (hnode : h[a]? = some (.array []))
      (hrest : Spans h S lo vs ts hi) :
      Spans h S lo (.ref a :: vs) (.array [] :: ts) hi
  | array {lo a es us vs ts hi} (helements : Spans h S lo es us a)
      (hnode : h[a]? = some (.array es)) (hrest : Spans h S (a + 1) vs ts hi) :
      Spans h S lo (.ref a :: vs) (.array us :: ts) hi
  | object {lo a} {fs : List (K × Value P)} {ms : List (K × Tree K P)}
      {vs ts hi} (hvalues : Spans h S lo (fs.map Prod.snd) (ms.map Prod.snd) a)
      (hnode : h[a]? = some (.object fs))
      (hkeys : fs.map Prod.fst = ms.map Prod.fst)
      (hrest : Spans h S (a + 1) vs ts hi) :
      Spans h S lo (.ref a :: vs) (.object ms :: ts) hi

namespace Spans

variable {h h' : Heap K P} {S : Nat → Prop} {lo mid hi : Nat}
  {v : Value P} {vs : List (Value P)} {t : Tree K P} {ts : List (Tree K P)}

theorem le (hspans : Spans h S lo vs ts hi) : lo ≤ hi := by
  induction hspans with
  | nil => exact Nat.le_refl _
  | prim _ ih => exact ih
  | shared _ _ _ ih => exact ih
  | array _ _ _ ihelements ihrest => omega
  | object _ _ _ _ ihvalues ihrest => omega

theorem eq_of_nil (hspans : Spans h S lo [] ts hi) : lo = hi := by
  cases hspans
  rfl

/-- More nodes at the end of the heap change nothing. -/
theorem extend (hspans : Spans h S lo vs ts hi) (hext : h <+: h') :
    Spans h' S lo vs ts hi := by
  induction hspans with
  | nil => exact .nil
  | prim _ ih => exact .prim ih
  | shared hshared hnode _ ih =>
      exact .shared hshared (getElem?_grows hext hnode) ih
  | array _ hnode _ ihelements ihrest =>
      exact .array ihelements (getElem?_grows hext hnode) ihrest
  | object _ hnode hkeys _ ihvalues ihrest =>
      exact .object ihvalues (getElem?_grows hext hnode) hkeys ihrest

/-- Only the nodes that are spanned matter, and the shared ones. -/
theorem congr (hspans : Spans h S lo vs ts hi)
    (hkeep : ∀ a, (lo ≤ a ∧ a < hi) ∨ S a → h'[a]? = h[a]?) :
    Spans h' S lo vs ts hi := by
  induction hspans with
  | nil => exact .nil
  | prim _ ih => exact .prim (ih hkeep)
  | shared hshared hnode _ ih =>
      exact .shared hshared ((hkeep _ (Or.inr hshared)).trans hnode) (ih hkeep)
  | array helements hnode hrest ihelements ihrest =>
      have hle := helements.le
      have hle' := hrest.le
      refine .array (ihelements fun b hb => hkeep b (hb.imp_left ?_))
        ((hkeep _ (Or.inl ⟨hle, hle'⟩)).trans hnode)
        (ihrest fun b hb => hkeep b (hb.imp_left ?_)) <;> omega
  | object hvalues hnode hkeys hrest ihvalues ihrest =>
      have hle := hvalues.le
      have hle' := hrest.le
      refine .object (ihvalues fun b hb => hkeep b (hb.imp_left ?_))
        ((hkeep _ (Or.inl ⟨hle, hle'⟩)).trans hnode) hkeys
        (ihrest fun b hb => hkeep b (hb.imp_left ?_)) <;> omega

theorem cons (hhead : Spans h S lo [v] [t] mid) (htail : Spans h S mid vs ts hi) :
    Spans h S lo (v :: vs) (t :: ts) hi := by
  cases hhead with
  | prim hnil =>
      cases hnil
      exact .prim htail
  | shared hshared hnode hnil =>
      cases hnil
      exact .shared hshared hnode htail
  | array helements hnode hnil =>
      cases hnil
      exact .array helements hnode htail
  | object hvalues hnode hkeys hnil =>
      cases hnil
      exact .object hvalues hnode hkeys htail

/-- Every path is at most as long as the part of the heap that is spanned. -/
theorem unfold (hspans : Spans h S lo vs ts hi) :
    ∀ n, hi < n + lo → vs.mapM (unfold h n) = some ts := by
  induction hspans with
  | nil => exact fun n _ => rfl
  | prim hrest ih =>
      intro n hn
      rw [List.mapM_cons, ih n hn]
      cases n <;> rfl
  | shared _ hnode hrest ih =>
      intro n hn
      have hle := hrest.le
      obtain ⟨n, rfl⟩ : ∃ m, n = m + 1 := ⟨n - 1, by omega⟩
      rw [List.mapM_cons, ih _ hn, ObjectGraph.unfold, hnode]
      rfl
  | array helements hnode hrest ihelements ihrest =>
      intro n hn
      have hle := helements.le
      have hle' := hrest.le
      obtain ⟨n, rfl⟩ : ∃ m, n = m + 1 := ⟨n - 1, by omega⟩
      rw [List.mapM_cons, ihrest _ (by omega), ObjectGraph.unfold, hnode]
      dsimp only
      rw [ihelements n (by omega)]
      rfl
  | object hvalues hnode hkeys hrest ihvalues ihrest =>
      intro n hn
      have hle := hvalues.le
      have hle' := hrest.le
      obtain ⟨n, rfl⟩ : ∃ m, n = m + 1 := ⟨n - 1, by omega⟩
      rw [List.mapM_cons, ihrest _ (by omega), ObjectGraph.unfold, hnode]
      dsimp only
      rw [ihvalues n (by omega), hkeys, Option.map_some,
        ← List.zip_of_prod rfl rfl]
      rfl

/-- A value that agrees with one that holds a tree holds the same tree. -/
theorem unfold_same {R : Nat → Nat → Prop} {r : Nat} {vs' : List (Value P)}
    (hspans : Spans h S lo vs ts hi)
    (hobject : ∀ a b, a ∈ objects h r → R a b → SameObject R h h' a b)
    (hsame : SameValues R h h' vs vs')
    (hreach : ∀ a, .ref a ∈ vs → Reachable h r a) :
    ∀ n, hi < n + lo → vs'.mapM (ObjectGraph.unfold h' n) = some ts := by
  induction hspans generalizing vs' with
  | nil =>
      cases hsame
      exact fun n _ => rfl
  | prim hrest ih =>
      cases hsame with
      | prim hsame =>
          intro n hn
          rw [List.mapM_cons, ih hsame
            (fun a ha => hreach a (List.mem_cons_of_mem _ ha)) n hn]
          cases n <;> rfl
  | shared _ hnode hrest ih =>
      cases hsame with
      | object hobj _ _ _ =>
          obtain ⟨fs, hfs⟩ := hobj
          rw [hnode] at hfs
          cases hfs
      | array harray harray' helements hsame =>
          rw [hnode] at harray
          cases harray
          cases helements
          intro n hn
          have hle := hrest.le
          obtain ⟨n, rfl⟩ : ∃ m, n = m + 1 := ⟨n - 1, by omega⟩
          rw [List.mapM_cons, ih hsame
            (fun a ha => hreach a (List.mem_cons_of_mem _ ha)) _ hn,
            ObjectGraph.unfold, harray']
          rfl
  | @array lo a es us vs ts hi helements hnode hrest ihelements ihrest =>
      cases hsame with
      | object hobj _ _ _ =>
          obtain ⟨fs, hfs⟩ := hobj
          rw [hnode] at hfs
          cases hfs
      | array harray harray' hsames hsame =>
          rw [hnode] at harray
          cases harray
          intro n hn
          have hle := helements.le
          have hle' := hrest.le
          have ha := hreach a List.mem_cons_self
          obtain ⟨n, rfl⟩ : ∃ m, n = m + 1 := ⟨n - 1, by omega⟩
          rw [List.mapM_cons, ihrest hsame
            (fun b hb => hreach b (List.mem_cons_of_mem _ hb)) _ (by omega),
            ObjectGraph.unfold, harray']
          dsimp only
          rw [ihelements hsames (fun b hb => ha.tail ⟨_, hnode, hb⟩) n (by omega)]
          rfl
  | @object lo a fs ms vs ts hi hvalues hnode hkeys hrest ihvalues ihrest =>
      cases hsame with
      | array harray _ _ _ =>
          rw [hnode] at harray
          cases harray
      | object hobj hobj' hrel hsame =>
          intro n hn
          have hle := hvalues.le
          have hle' := hrest.le
          have ha := hreach a List.mem_cons_self
          obtain ⟨fs₁, fs', hfs₁, hfs', hkeys', hsames⟩ :=
            hobject a _ ⟨ha, hobj⟩ hrel
          rw [hnode] at hfs₁
          cases hfs₁
          obtain ⟨n, rfl⟩ : ∃ m, n = m + 1 := ⟨n - 1, by omega⟩
          rw [List.mapM_cons, ihrest hsame
            (fun b hb => hreach b (List.mem_cons_of_mem _ hb)) _ (by omega),
            ObjectGraph.unfold, hfs']
          dsimp only
          rw [ihvalues hsames (fun b hb => ha.tail ⟨_, hnode, hb⟩) n (by omega),
            ← hkeys', hkeys, Option.map_some, ← List.zip_of_prod rfl rfl]
          rfl

end Spans

/-- Isomorphic graphs hold the same tree. -/
theorem Isomorphic.unfold {h h' : Heap K P} {S : Nat → Prop} {r r' lo hi : Nat}
    {t : Tree K P} (hiso : Isomorphic h r h' r') (hr : IsObject h r)
    (hspans : Spans h S lo [.ref r] [t] hi) :
    ∃ n, ObjectGraph.unfold h' n (.ref r') = some t := by
  obtain ⟨f, hf, hbij, hsame⟩ := hiso
  have hobject (a b : Nat) (ha : a ∈ objects h r) (hab : f a = b) :
      SameObject (fun a b => f a = b) h h' a b := hab ▸ hsame a ha
  obtain ⟨_, hr'⟩ := hbij.mapsTo ⟨Relation.ReflTransGen.refl, hr⟩
  have hvalues : SameValues (fun a b => f a = b) h h' [.ref r] [.ref r'] :=
    .object hr (hf ▸ hr') hf .nil
  have hunfold := hspans.unfold_same hobject hvalues (by
    intro a ha
    cases List.mem_singleton.mp ha
    exact Relation.ReflTransGen.refl) (hi + 1) (by omega)
  exact ⟨hi + 1, unfold_of_mapM hunfold⟩

/-! ## Reading a tree into a heap -/

mutual

/-- Every node of the tree is allocated, the nodes below it first. -/
def load : Tree K P → Heap K P → Value P × Heap K P
  | .prim p, h => (.prim p, h)
  | .object ms, h =>
      let (fs, h) := loadMembers ms h
      (.ref h.length, h ++ [.object fs])
  | .array ts, h =>
      let (es, h) := loadElements ts h
      (.ref h.length, h ++ [.array es])

def loadMembers : List (K × Tree K P) → Heap K P →
    List (K × Value P) × Heap K P
  | [], h => ([], h)
  | (k, t) :: ms, h =>
      let (v, h) := load t h
      let (fs, h) := loadMembers ms h
      ((k, v) :: fs, h)

def loadElements : List (Tree K P) → Heap K P → List (Value P) × Heap K P
  | [], h => ([], h)
  | t :: ts, h =>
      let (v, h) := load t h
      let (es, h) := loadElements ts h
      (v :: es, h)

end

mutual

theorem load_spec (S : Nat → Prop) : ∀ (t : Tree K P) (h : Heap K P),
    h <+: (load t h).2 ∧
      Spans (load t h).2 S h.length [(load t h).1] [t] (load t h).2.length
  | .prim p, h => ⟨List.prefix_refl h, .prim .nil⟩
  | .object ms, h => by
      obtain ⟨hext, hkeys, hspans⟩ := loadMembers_spec S ms h
      have hadd := List.prefix_append (loadMembers ms h).2
        [.object (loadMembers ms h).1]
      refine ⟨hext.trans hadd, ?_⟩
      rw [load, List.length_append]
      exact .object (hspans.extend hadd) List.getElem?_concat_length hkeys .nil
  | .array ts, h => by
      obtain ⟨hext, hspans⟩ := loadElements_spec S ts h
      have hadd := List.prefix_append (loadElements ts h).2
        [.array (loadElements ts h).1]
      refine ⟨hext.trans hadd, ?_⟩
      rw [load, List.length_append]
      exact .array (hspans.extend hadd) List.getElem?_concat_length .nil

theorem loadMembers_spec (S : Nat → Prop) :
    ∀ (ms : List (K × Tree K P)) (h : Heap K P),
    h <+: (loadMembers ms h).2 ∧
      (loadMembers ms h).1.map Prod.fst = ms.map Prod.fst ∧
      Spans (loadMembers ms h).2 S h.length
        ((loadMembers ms h).1.map Prod.snd) (ms.map Prod.snd)
        (loadMembers ms h).2.length
  | [], h => ⟨List.prefix_refl h, rfl, .nil⟩
  | (k, t) :: ms, h => by
      obtain ⟨hext, hspans⟩ := load_spec S t h
      obtain ⟨hext', hkeys, hspans'⟩ := loadMembers_spec S ms (load t h).2
      refine ⟨hext.trans hext', congrArg (k :: ·) hkeys, ?_⟩
      exact (hspans.extend hext').cons hspans'

theorem loadElements_spec (S : Nat → Prop) :
    ∀ (ts : List (Tree K P)) (h : Heap K P),
    h <+: (loadElements ts h).2 ∧
      Spans (loadElements ts h).2 S h.length (loadElements ts h).1 ts
        (loadElements ts h).2.length
  | [], h => ⟨List.prefix_refl h, .nil⟩
  | t :: ts, h => by
      obtain ⟨hext, hspans⟩ := load_spec S t h
      obtain ⟨hext', hspans'⟩ := loadElements_spec S ts (load t h).2
      exact ⟨hext.trans hext', (hspans.extend hext').cons hspans'⟩

end

/-! ## Keys of the objects in a tree -/

/-- Every object of the tree has keys that satisfy `Q`. -/
inductive Keyed (Q : List K → Prop) : Tree K P → Prop
  | prim {p} : Keyed Q (.prim p)
  | object {ms : List (K × Tree K P)} (hkeys : Q (ms.map Prod.fst))
      (hmembers : ∀ t ∈ ms.map Prod.snd, Keyed Q t) : Keyed Q (.object ms)
  | array {ts} (helements : ∀ t ∈ ts, Keyed Q t) : Keyed Q (.array ts)

def Node.Keyed (Q : List K → Prop) : Node K P → Prop
  | .object fs => Q (fs.map Prod.fst)
  | .array _ => True

section Keyed

variable {Q : List K → Prop} {h : Heap K P} {t : Tree K P}

theorem exists_left {A B : Type} {R : A → B → Prop} {as : List A} {bs : List B}
    (hall : List.Forall₂ R as bs) {b : B} (hb : b ∈ bs) : ∃ a ∈ as, R a b := by
  induction hall with
  | nil => cases hb
  | cons hr _ ih =>
      rcases List.mem_cons.mp hb with rfl | hb
      · exact ⟨_, List.mem_cons_self, hr⟩
      · obtain ⟨a, ha, hr⟩ := ih hb
        exact ⟨a, List.mem_cons_of_mem _ ha, hr⟩

theorem exists_right {A B : Type} {R : A → B → Prop} {as : List A} {bs : List B}
    (hall : List.Forall₂ R as bs) {a : A} (ha : a ∈ as) : ∃ b ∈ bs, R a b :=
  exists_left (List.Forall₂.flip hall : List.Forall₂ (flip R) bs as) ha

theorem forall₂_of_mapM {A B : Type} {f : A → Option B} {as : List A}
    {bs : List B} (hmap : as.mapM f = some bs) :
    List.Forall₂ (fun a b => f a = some b) as bs := by
  induction as generalizing bs with
  | nil =>
      cases hmap
      exact .nil
  | cons a as ih =>
      rw [List.mapM_cons] at hmap
      obtain ⟨b, ha, hmap⟩ := Option.bind_eq_some_iff.mp hmap
      obtain ⟨bs', has, hmap⟩ := Option.bind_eq_some_iff.mp hmap
      cases hmap
      exact .cons ha (ih has)

theorem unfold_object {n a : Nat} {fs : List (K × Value P)}
    (hnode : h[a]? = some (.object fs)) (hunfold : unfold h n (.ref a) = some t) :
    ∃ m ts, n = m + 1 ∧ t = .object ((fs.map Prod.fst).zip ts) ∧
      List.Forall₂ (fun v t => unfold h m v = some t) (fs.map Prod.snd) ts := by
  cases n with
  | zero => cases hunfold
  | succ n =>
      rw [unfold, hnode] at hunfold
      obtain ⟨ts, hts, rfl⟩ := Option.map_eq_some_iff.mp hunfold
      exact ⟨n, ts, rfl, rfl, forall₂_of_mapM hts⟩

theorem unfold_array {n a : Nat} {es : List (Value P)}
    (hnode : h[a]? = some (.array es)) (hunfold : unfold h n (.ref a) = some t) :
    ∃ m ts, n = m + 1 ∧ t = .array ts ∧
      List.Forall₂ (fun v t => unfold h m v = some t) es ts := by
  cases n with
  | zero => cases hunfold
  | succ n =>
      rw [unfold, hnode] at hunfold
      obtain ⟨ts, hts, rfl⟩ := Option.map_eq_some_iff.mp hunfold
      exact ⟨n, ts, rfl, rfl, forall₂_of_mapM hts⟩

/-- What a reference stands for is no primitive value. -/
theorem unfold_ref {n a : Nat} (hunfold : unfold h n (.ref a) = some t) :
    ∃ node, h[a]? = some node ∧ ∀ p, t ≠ .prim p := by
  cases n with
  | zero => cases hunfold
  | succ n =>
      cases hnode : h[a]? with
      | none =>
          rw [unfold, hnode] at hunfold
          cases hunfold
      | some node =>
          refine ⟨node, rfl, ?_⟩
          cases node with
          | object fs =>
              obtain ⟨_, ts, _, rfl, _⟩ := unfold_object hnode hunfold
              simp
          | array es =>
              obtain ⟨_, ts, _, rfl, _⟩ := unfold_array hnode hunfold
              simp

theorem unfold_prim (n : Nat) (p : P) : unfold h n (.prim p) = some (.prim p) := by
  cases n <;> rfl

/-- Only a primitive value stands for a primitive value. -/
theorem eq_prim_of_unfold {n : Nat} {v : Value P} {p : P}
    (hunfold : unfold h n v = some (.prim p)) : v = .prim p := by
  cases v with
  | prim q =>
      rw [unfold_prim] at hunfold
      cases hunfold
      rfl
  | ref a =>
      obtain ⟨_, _, hne⟩ := unfold_ref hunfold
      exact absurd rfl (hne p)

/-- `C` is a set of nodes that holds whatever its nodes refer to. -/
theorem keyed_of_unfold {C : Nat → Prop}
    (hC : ∀ a node, C a → h[a]? = some node →
      node.Keyed Q ∧ ∀ b, .ref b ∈ node.values → C b)
    {n : Nat} {v : Value P} (hv : ∀ a, v = .ref a → C a)
    (hunfold : unfold h n v = some t) : Keyed Q t := by
  induction n using Nat.strongRecOn generalizing v t with
  | _ n ih =>
      cases v with
      | prim p =>
          rw [unfold_prim] at hunfold
          cases hunfold
          exact .prim
      | ref a =>
          obtain ⟨node, hnode, _⟩ := unfold_ref hunfold
          obtain ⟨hkeyed, hrefs⟩ := hC a node (hv a rfl) hnode
          cases node with
          | object fs =>
              obtain ⟨m, ts, rfl, rfl, hts⟩ := unfold_object hnode hunfold
              have hlength := hts.length_eq
              rw [List.length_map] at hlength
              refine .object ?_ fun t ht => ?_
              · rwa [List.map_fst_zip (by rw [List.length_map, hlength])]
              · rw [List.map_snd_zip (by rw [List.length_map, hlength])] at ht
                obtain ⟨w, hw, hwt⟩ := exists_left hts ht
                exact ih m (Nat.lt_succ_self m) (fun b hb => hrefs b (hb ▸ hw)) hwt
          | array es =>
              obtain ⟨m, ts, rfl, rfl, hts⟩ := unfold_array hnode hunfold
              refine .array fun t ht => ?_
              obtain ⟨w, hw, hwt⟩ := exists_left hts ht
              exact ih m (Nat.lt_succ_self m) (fun b hb => hrefs b (hb ▸ hw)) hwt

/-- What holds of the nodes before and after a node, and of that node. -/
theorem forall_nodes {R : Node K P → Prop} {lo b hi : Nat} {node : Node K P}
    (hnode : h[b]? = some node)
    (hbelow : ∀ a n, lo ≤ a → a < b → h[a]? = some n → R n) (hR : R node)
    (hafter : ∀ a n, b + 1 ≤ a → a < hi → h[a]? = some n → R n) :
    ∀ a n, lo ≤ a → a < hi → h[a]? = some n → R n := by
  intro a n hlo hhi ha
  rcases Nat.lt_trichotomy a b with hlt | rfl | hlt
  · exact hbelow a n hlo hlt ha
  · cases hnode.symm.trans ha
    exact hR
  · exact hafter a n hlt hhi ha

/-- The nodes that hold a tree have its keys. -/
theorem Spans.keyed {S : Nat → Prop} {lo hi : Nat} {vs : List (Value P)}
    {ts : List (Tree K P)} (hspans : Spans h S lo vs ts hi)
    (hts : ∀ t ∈ ts, Keyed Q t) :
    ∀ a node, lo ≤ a → a < hi → h[a]? = some node → node.Keyed Q := by
  induction hspans with
  | nil =>
      intro a node hlo hhi
      omega
  | prim _ ih => exact ih (List.forall_mem_cons.mp hts).2
  | shared _ _ _ ih => exact ih (List.forall_mem_cons.mp hts).2
  | @array lo b es us vs ts hi _ hnode _ ihelements ihrest =>
      rw [List.forall_mem_cons] at hts
      cases hts.1 with
      | array hus =>
          exact forall_nodes hnode (ihelements hus) trivial (ihrest hts.2)
  | @object lo b fs ms vs ts hi _ hnode hkeys _ ihvalues ihrest =>
      rw [List.forall_mem_cons] at hts
      cases hts.1 with
      | object hQ hms =>
          refine forall_nodes hnode (ihvalues hms) ?_ (ihrest hts.2)
          rwa [Node.Keyed, hkeys]

end Keyed

/-! ## Places of references -/

/-- The references among some values. -/
def refs (vs : List (Value P)) : List Nat :=
  vs.filterMap fun v =>
    match v with
    | .ref a => some a
    | .prim _ => none

/-- The references that a node holds. -/
def nodeRefs (h : Heap K P) (a : Nat) : List Nat :=
  ((h[a]?.map fun node => refs node.values)).getD []

/-- The references that the nodes from `lo` on and below `hi` hold. -/
def refsBetween (h : Heap K P) (lo hi : Nat) : List Nat :=
  (List.range' lo (hi - lo)).flatMap (nodeRefs h)

@[simp] theorem refs_ref (a : Nat) (vs : List (Value P)) :
    refs (.ref a :: vs) = a :: refs vs := rfl

theorem nodeRefs_eq {h : Heap K P} {a : Nat} {node : Node K P}
    (hnode : h[a]? = some node) : nodeRefs h a = refs node.values := by
  rw [nodeRefs, hnode]
  rfl

theorem mem_nodeRefs {h : Heap K P} {a b : Nat} {node : Node K P}
    (hnode : h[a]? = some node) (hb : .ref b ∈ node.values) :
    b ∈ nodeRefs h a := by
  rw [nodeRefs_eq hnode, refs]
  exact List.mem_filterMap.mpr ⟨_, hb, rfl⟩

theorem refsBetween_self (h : Heap K P) (lo : Nat) : refsBetween h lo lo = [] := by
  rw [refsBetween, Nat.sub_self]
  rfl

theorem refsBetween_split (h : Heap K P) {lo a hi : Nat} (hlo : lo ≤ a)
    (hhi : a < hi) :
    refsBetween h lo hi =
      refsBetween h lo a ++ (nodeRefs h a ++ refsBetween h (a + 1) hi) := by
  have hrange : List.range' lo (hi - lo) =
      List.range' lo (a - lo) ++ a :: List.range' (a + 1) (hi - (a + 1)) := by
    rw [← List.range'_succ, show hi - lo = (a - lo) + (hi - (a + 1) + 1) by omega,
      ← List.range'_append_1]
    congr 2
    omega
  rw [refsBetween, hrange, List.flatMap_append, List.flatMap_cons]
  rfl

namespace Spans

variable {h : Heap K P} {S : Nat → Prop} {lo hi : Nat} {vs : List (Value P)}
  {ts : List (Tree K P)}

/-- Each node is referred to in one place. -/
theorem count (hspans : Spans h S lo vs ts hi) {c : Nat} (hc : ¬S c) :
    (refs vs).count c + (refsBetween h lo hi).count c =
      if lo ≤ c ∧ c < hi then 1 else 0 := by
  induction hspans with
  | nil =>
      rw [refsBetween_self, if_neg (by omega)]
      rfl
  | prim _ ih => exact ih
  | @shared _ a _ _ _ hshared _ _ ih =>
      have hne : a ≠ c := fun hac => hc (hac ▸ hshared)
      rw [refs_ref, List.count_cons_of_ne hne]
      exact ih
  | @array lo a es us vs ts hi helements hnode hrest ihelements ihrest =>
      have hle := helements.le
      have hle' := hrest.le
      rw [refsBetween_split h hle (by omega), nodeRefs_eq hnode, refs_ref,
        List.count_append, List.count_append, List.count_cons,
        Node.values_array]
      by_cases hac : a = c
      · subst hac
        rw [if_neg (by omega)] at ihelements ihrest
        rw [if_pos (beq_self_eq_true a), if_pos ⟨hle, hle'⟩]
        omega
      · rw [if_neg (by simpa using hac)]
        split_ifs at ihelements ihrest ⊢ <;> omega
  | @object lo a fs ms vs ts hi hvalues hnode _ hrest ihvalues ihrest =>
      have hle := hvalues.le
      have hle' := hrest.le
      rw [refsBetween_split h hle (by omega), nodeRefs_eq hnode, refs_ref,
        List.count_append, List.count_append, List.count_cons,
        Node.values_object]
      by_cases hac : a = c
      · subst hac
        rw [if_neg (by omega)] at ihvalues ihrest
        rw [if_pos (beq_self_eq_true a), if_pos ⟨hle, hle'⟩]
        omega
      · rw [if_neg (by simpa using hac)]
        split_ifs at ihvalues ihrest ⊢ <;> omega

/-- The values refer to the nodes that are spanned, or to shared empty
arrays. -/
theorem refs_between (hspans : Spans h S lo vs ts hi) {c : Nat}
    (hc : c ∈ refs vs) :
    (lo ≤ c ∧ c < hi) ∨ (S c ∧ h[c]? = some (.array [])) := by
  induction hspans with
  | nil => cases hc
  | prim _ ih => exact ih hc
  | shared hshared hnode _ ih =>
      rcases List.mem_cons.mp hc with rfl | hc
      · exact Or.inr ⟨hshared, hnode⟩
      · exact ih hc
  | array helements _ hrest _ ih =>
      have hle := helements.le
      have hle' := hrest.le
      rcases List.mem_cons.mp hc with rfl | hc
      · exact Or.inl ⟨hle, hle'⟩
      · rcases ih hc with hin | hshared
        · exact Or.inl (by omega)
        · exact Or.inr hshared
  | object hvalues _ _ hrest _ ih =>
      have hle := hvalues.le
      have hle' := hrest.le
      rcases List.mem_cons.mp hc with rfl | hc
      · exact Or.inl ⟨hle, hle'⟩
      · rcases ih hc with hin | hshared
        · exact Or.inl (by omega)
        · exact Or.inr hshared

/-- A node refers to earlier nodes, or to shared empty arrays. -/
theorem descends (hspans : Spans h S lo vs ts hi) {a c : Nat}
    (ha : lo ≤ a ∧ a < hi) (hc : c ∈ nodeRefs h a) :
    (lo ≤ c ∧ c < a) ∨ (S c ∧ h[c]? = some (.array [])) := by
  induction hspans with
  | nil => omega
  | prim _ ih => exact ih ha
  | shared _ _ _ ih => exact ih ha
  | @array lo b es us vs ts hi helements hnode hrest ihelements ihrest =>
      have hle := helements.le
      rcases Nat.lt_trichotomy a b with hab | rfl | hab
      · exact ihelements ⟨ha.1, hab⟩
      · rw [nodeRefs_eq hnode] at hc
        exact helements.refs_between hc
      · rcases ihrest ⟨hab, ha.2⟩ with hin | hshared
        · exact Or.inl (by omega)
        · exact Or.inr hshared
  | @object lo b fs ms vs ts hi hvalues hnode _ hrest ihvalues ihrest =>
      have hle := hvalues.le
      rcases Nat.lt_trichotomy a b with hab | rfl | hab
      · exact ihvalues ⟨ha.1, hab⟩
      · rw [nodeRefs_eq hnode] at hc
        exact hvalues.refs_between hc
      · rcases ihrest ⟨hab, ha.2⟩ with hin | hshared
        · exact Or.inl (by omega)
        · exact Or.inr hshared

end Spans

end ObjectGraph
