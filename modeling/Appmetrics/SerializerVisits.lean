/-
What `deserialize` can do to a heap, whatever the heap holds.  When it has
returned, every object that its result leads to has been visited: its `idCount`
is deleted, and its strings that look like references are inflated.
-/
import Appmetrics.SerializerGraphs

namespace Appmetrics

open Effect ObjectGraph

namespace Serializer

/-! ## How values and nodes evolve -/

/-- `L` says what an index of the cache can stand for. -/
inductive Evolved (L : JsString → PlainValue → Prop) :
    PlainValue → PlainValue → Prop
  | kept {v} : Evolved L v v
  | inflated {t v} (ht : CIRCULAR <+: t) (hv : L (t.drop 9) v) :
      Evolved L (.prim (.string t)) v

def FieldEvolves (L : JsString → PlainValue → Prop)
    (f f' : JsString × PlainValue) : Prop :=
  f.1 = f'.1 ∧ Evolved L f.2 f'.2

def SameKind : PlainNode → PlainNode → Prop
  | .object _, .object _ => True
  | .array _, .array _ => True
  | _, _ => False

def withoutId (fs : List (JsString × PlainValue)) :
    List (JsString × PlainValue) :=
  fs.filter fun f => f.1 ≠ idCount

/-- The properties of a node evolve, all of them or all but `idCount`. -/
def NodeEvolves (L : JsString → PlainValue → Prop) (node node' : PlainNode) :
    Prop :=
  SameKind node node' ∧
    ∃ fs, (fs = nodeProperties node ∨ fs = withoutId (nodeProperties node)) ∧
      List.Forall₂ (FieldEvolves L) fs (nodeProperties node')

def HeapEvolves (L : JsString → PlainValue → Prop) (h h' : PlainHeap) : Prop :=
  ∀ (a : Nat) (node : PlainNode), h[a]? = some node →
    ∃ node', h'[a]? = some node' ∧ NodeEvolves L node node'

section Evolves

variable {L : JsString → PlainValue → Prop} {h h' h'' : PlainHeap} {a : Nat}
  {node node' node'' : PlainNode}

theorem Evolved.trans (hL : ∀ t v v', L t v → Evolved L v v' → L t v')
    {u v w : PlainValue} (huv : Evolved L u v) (hvw : Evolved L v w) :
    Evolved L u w := by
  cases huv with
  | kept => exact hvw
  | inflated ht hv => exact .inflated ht (hL _ _ _ hv hvw)

/-- Only strings evolve. -/
theorem Evolved.ref {w v : PlainValue} {b : Nat} (hev : Evolved L w v)
    (hw : w = .ref b) : v = .ref b := by
  cases hev with
  | kept => exact hw
  | inflated ht hv => cases hw

theorem SameKind.refl (node : PlainNode) : SameKind node node := by
  cases node <;> trivial

theorem SameKind.trans (hfirst : SameKind node node')
    (hsecond : SameKind node' node'') : SameKind node node'' := by
  cases node <;> cases node' <;> cases node'' <;> trivial

theorem withoutId_withoutId (fs : List (JsString × PlainValue)) :
    withoutId (withoutId fs) = withoutId fs := by
  rw [withoutId, withoutId, List.filter_filter]
  refine List.filter_congr fun f _ => Bool.and_self _

theorem forall_withoutId {fs fs' : List (JsString × PlainValue)}
    (hfs : List.Forall₂ (FieldEvolves L) fs fs') :
    List.Forall₂ (FieldEvolves L) (withoutId fs) (withoutId fs') := by
  induction hfs with
  | nil => exact .nil
  | @cons f f' fs fs' hf _ ih =>
      rw [withoutId, withoutId, List.filter_cons, List.filter_cons, ← hf.1]
      split_ifs
      · exact .cons hf ih
      · exact ih

theorem forall_fieldEvolves_refl (fs : List (JsString × PlainValue)) :
    List.Forall₂ (FieldEvolves L) fs fs :=
  List.forall₂_same.mpr fun _ _ => ⟨rfl, .kept⟩

theorem NodeEvolves.refl (node : PlainNode) : NodeEvolves L node node :=
  ⟨SameKind.refl node, _, Or.inl rfl, forall_fieldEvolves_refl _⟩

theorem NodeEvolves.trans (hL : ∀ t v v', L t v → Evolved L v v' → L t v')
    (hfirst : NodeEvolves L node node') (hsecond : NodeEvolves L node' node'') :
    NodeEvolves L node node'' := by
  obtain ⟨hkind, fs, hfs, hev⟩ := hfirst
  obtain ⟨hkind', fs', hfs', hev'⟩ := hsecond
  have htrans {fs fs' fs'' : List (JsString × PlainValue)}
      (h : List.Forall₂ (FieldEvolves L) fs fs')
      (h' : List.Forall₂ (FieldEvolves L) fs' fs'') :
      List.Forall₂ (FieldEvolves L) fs fs'' := by
    induction h generalizing fs'' with
    | nil => exact h'
    | cons hf _ ih =>
        cases h' with
        | cons hf' h' =>
            exact .cons ⟨hf.1.trans hf'.1, hf.2.trans hL hf'.2⟩ (ih h')
  refine ⟨hkind.trans hkind', ?_⟩
  rcases hfs' with rfl | rfl
  · exact ⟨fs, hfs, htrans hev hev'⟩
  · refine ⟨withoutId fs, Or.inr ?_, htrans (forall_withoutId hev) hev'⟩
    rcases hfs with rfl | rfl
    · rfl
    · exact withoutId_withoutId _

/-- Where a property comes from. -/
theorem NodeEvolves.back (hev : NodeEvolves L node node')
    {f' : JsString × PlainValue} (hf' : f' ∈ nodeProperties node') :
    ∃ f ∈ nodeProperties node, FieldEvolves L f f' := by
  obtain ⟨_, fs, hfs, hev⟩ := hev
  obtain ⟨f, hf, hff'⟩ := exists_left hev hf'
  rcases hfs with rfl | rfl
  · exact ⟨f, hf, hff'⟩
  · exact ⟨f, List.mem_of_mem_filter hf, hff'⟩

/-- What becomes of a property. -/
theorem NodeEvolves.forth (hev : NodeEvolves L node node')
    {f : JsString × PlainValue} (hf : f ∈ nodeProperties node)
    (hid : f.1 ≠ idCount) : ∃ f' ∈ nodeProperties node', FieldEvolves L f f' := by
  obtain ⟨_, fs, hfs, hev⟩ := hev
  refine exists_right hev ?_
  rcases hfs with rfl | rfl
  · exact hf
  · exact List.mem_filter.mpr ⟨hf, decide_eq_true hid⟩

theorem forall_keys {fs fs' : List (JsString × PlainValue)}
    (hfs : List.Forall₂ (FieldEvolves L) fs fs') :
    fs'.map Prod.fst = fs.map Prod.fst := by
  induction hfs with
  | nil => rfl
  | cons hf _ ih => rw [List.map_cons, List.map_cons, ih, hf.1]

theorem NodeEvolves.keys_sublist (hev : NodeEvolves L node node') :
    List.Sublist (keys node') (keys node) := by
  obtain ⟨_, fs, hfs, hev⟩ := hev
  rw [keys, forall_keys hev]
  rcases hfs with rfl | rfl
  · exact List.Sublist.refl _
  · exact List.filter_sublist.map _

theorem withoutId_eq {fs : List (JsString × PlainValue)}
    (hid : idCount ∉ fs.map Prod.fst) : withoutId fs = fs := by
  refine List.filter_eq_self.mpr fun f hf => decide_eq_true fun hf' => ?_
  exact hid (hf' ▸ List.mem_map_of_mem hf)

/-- Without `idCount` all keys are kept. -/
theorem NodeEvolves.keys_eq (hev : NodeEvolves L node node')
    (hid : idCount ∉ keys node) : keys node' = keys node := by
  obtain ⟨_, fs, hfs, hev⟩ := hev
  rw [keys, forall_keys hev]
  rcases hfs with rfl | rfl
  · rfl
  · rw [withoutId_eq hid, keys]

theorem HeapEvolves.refl (h : PlainHeap) : HeapEvolves L h h :=
  fun _ node hnode => ⟨node, hnode, NodeEvolves.refl node⟩

theorem HeapEvolves.trans (hL : ∀ t v v', L t v → Evolved L v v' → L t v')
    (hfirst : HeapEvolves L h h') (hsecond : HeapEvolves L h' h'') :
    HeapEvolves L h h'' := by
  intro a node hnode
  obtain ⟨node', hnode', hev⟩ := hfirst a node hnode
  obtain ⟨node'', hnode'', hev'⟩ := hsecond a node' hnode'
  exact ⟨node'', hnode'', hev.trans hL hev'⟩

theorem HeapEvolves.modify {f : PlainNode → PlainNode}
    (hf : ∀ node, h[a]? = some node → NodeEvolves L node (f node)) :
    HeapEvolves L h (h.modify a f) := by
  intro b node hnode
  rcases eq_or_ne b a with rfl | hne
  · refine ⟨f node, ?_, hf node hnode⟩
    rw [List.getElem?_modify_eq, hnode]
    rfl
  · exact ⟨node, by rw [List.getElem?_modify_ne _ _ hne.symm, hnode],
      NodeEvolves.refl node⟩

theorem nodeProperties_delete (node : PlainNode) :
    nodeProperties (deleteProperty idCount node) =
      withoutId (nodeProperties node) := by
  cases node with
  | object fs => rfl
  | array es =>
      exact (withoutId_eq fun hid =>
        (indexed_unreserved es).2 _ hid List.mem_cons_self).symm

theorem NodeEvolves.delete (node : PlainNode) :
    NodeEvolves L node (deleteProperty idCount node) := by
  refine ⟨?_, _, Or.inr rfl, ?_⟩
  · cases node <;> trivial
  · rw [nodeProperties_delete]
    exact forall_fieldEvolves_refl _

/-- Another value under a key. -/
def replace (k : JsString) (v : PlainValue) (f : JsString × PlainValue) :
    JsString × PlainValue :=
  if f.1 = k then (k, v) else f

theorem map_replace_keys (k : JsString) (v : PlainValue)
    (fs : List (JsString × PlainValue)) :
    (fs.map (replace k v)).map Prod.fst = fs.map Prod.fst := by
  rw [List.map_map]
  refine List.map_congr_left fun f _ => ?_
  rw [Function.comp_apply, replace]
  split_ifs with hf
  · exact hf.symm
  · rfl

theorem nodeProperties_set {k : JsString} (hregular : Regular (keys node))
    (hk : k ∈ keys node) (v : PlainValue) :
    nodeProperties (setProperty k v node) =
      (nodeProperties node).map (replace k v) := by
  have hproto : k ≠ proto := by
    rintro rfl
    exact hregular.2 hk
  have hput : put (nodeProperties node) k v =
      (nodeProperties node).map (replace k v) := by
    rw [put, if_neg hproto]
    exact if_pos hk
  cases node with
  | object fs => exact hput
  | array es =>
      change nodeProperties (.array ((put (nodeProperties (.array es)) k v).map
        Prod.snd)) = _
      rw [hput]
      refine (nodeProperties_eq _).trans (List.zip_of_prod ?_ rfl).symm
      rw [map_replace_keys, keys, nodeProperties, nodeProperties, indexed_keys,
        indexed_keys, List.length_map, List.length_map,
        ← List.length_map Prod.snd, indexed_values]

/-- A string that looks like a reference is replaced. -/
theorem NodeEvolves.set {k t : JsString} {v : PlainValue}
    (hregular : Regular (keys node)) (hk : k ∈ keys node)
    (hold : ∀ f ∈ nodeProperties node, f.1 = k → f.2 = .prim (.string t))
    (ht : CIRCULAR <+: t) (hv : L (t.drop 9) v) :
    NodeEvolves L node (setProperty k v node) := by
  refine ⟨by cases node <;> trivial, _, Or.inl rfl, ?_⟩
  rw [nodeProperties_set hregular hk, List.forall₂_map_right_iff,
    List.forall₂_same]
  intro f hf
  rw [replace]
  split_ifs with hfk
  · refine ⟨hfk, ?_⟩
    rw [hold f hf hfk]
    exact .inflated ht hv
  · exact ⟨rfl, .kept⟩

end Evolves

/-! ## Visits -/

/-- What is assumed of the nodes `W` of a heap, of the cache and of what its
indices stand for.  `D` is what holds of a primitive value in the end. -/
structure Sound (E : Engine) (H : PlainHeap) (W : Nat → Prop)
    (I : ObjCache → Prop) (L : JsString → PlainValue → Prop)
    (D : Prim → Prop) : Prop where
  nodes : ∀ a, W a → ∃ node, H[a]? = some node ∧ Regular (keys node) ∧
    ∀ f ∈ nodeProperties node, ∀ b, f.2 = .ref b → W b
  again : ∀ t v v', L t v → Evolved L v v' → L t v'
  within : ∀ t b, L t (.ref b) → W b
  plain : ∀ p, (∀ t, p = .string t → ¬CIRCULAR <+: t) → D p
  inflated : ∀ t p, L t (.prim p) → D p
  register : ∀ h c a key c', HeapEvolves L H h → I c → W a →
    propertyKey E (h.modify a (deleteProperty idCount))
      (property h a idCount) = some key → c.set key a = some c' → I c'
  get : ∀ h c t, HeapEvolves L H h → I c → L t (c.get E h t)

/-- The nodes `V` have been visited; what they lead to has been visited as well
or is among `X`. -/
structure Inv (H : PlainHeap) (W : Nat → Prop) (I : ObjCache → Prop)
    (L : JsString → PlainValue → Prop) (V X : Nat → Prop) (s : Deserializing) :
    Prop where
  evolves : HeapEvolves L H s.heap
  cache : I s.objCache
  visited : ∀ a, V a → W a
  clean : ∀ a node, V a → s.heap[a]? = some node → idCount ∉ keys node
  closed : ∀ a node, V a → s.heap[a]? = some node →
    ∀ f ∈ nodeProperties node, ∀ b, f.2 = .ref b → V b ∨ X b
  entries : ∀ e ∈ s.objCache.entries, V e.2
  proto : ∀ a, s.objCache.proto = some a → V a

/-- The primitive value under a key is as it is in the end. -/
def SettledAt (D : Prim → Prop) (h : PlainHeap) (a : Nat) (k : JsString) :
    Prop :=
  ∀ node, h[a]? = some node →
    ∀ f ∈ nodeProperties node, f.1 = k → ∀ p, f.2 = .prim p → D p

/-- More nodes have been visited, and their values are as they are in the
end. -/
structure After (H : PlainHeap) (W : Nat → Prop) (I : ObjCache → Prop)
    (L : JsString → PlainValue → Prop) (D : Prim → Prop) (X : Nat → Prop)
    (V : Nat → Prop) (s : Deserializing) (V' : Nat → Prop) (s' : Deserializing) :
    Prop where
  inv : Inv H W I L V' X s'
  grows : ∀ a, V a → V' a
  evolves : HeapEvolves L s.heap s'.heap
  settled : ∀ a, V' a → V a ∨ ∀ k, SettledAt D s'.heap a k

/-- What the node `b` refers to under the keys `ks`. -/
def Pending (h : PlainHeap) (b : Nat) (ks : List JsString) (w : Nat) : Prop :=
  ∃ node, h[b]? = some node ∧
    ∃ f ∈ nodeProperties node, f.1 ∈ ks ∧ f.2 = .ref w

section Visits

variable {E : Engine} {H : PlainHeap} {W V V' V'' X : Nat → Prop}
  {I : ObjCache → Prop} {L : JsString → PlainValue → Prop} {D : Prim → Prop}
  {s s' s'' : Deserializing} {a b : Nat} {k : JsString}

theorem Sound.node (hsound : Sound E H W I L D) {h : PlainHeap}
    (hev : HeapEvolves L H h) (ha : W a) :
    ∃ node, h[a]? = some node ∧ Regular (keys node) ∧
      ∀ f ∈ nodeProperties node, ∀ b, f.2 = .ref b → W b := by
  obtain ⟨node, hnode, ⟨hnodup, hproto⟩, hwithin⟩ := hsound.nodes a ha
  obtain ⟨node', hnode', hev⟩ := hev a node hnode
  refine ⟨node', hnode', ⟨hnodup.sublist hev.keys_sublist,
    fun hin => hproto (hev.keys_sublist.subset hin)⟩, fun f' hf' b hb => ?_⟩
  obtain ⟨f, hf, _, hvalue⟩ := hev.back hf'
  generalize hv : f.2 = v at hvalue
  rw [hb] at hvalue
  cases hvalue with
  | kept => exact hwithin f hf b hv
  | inflated _ hL => exact hsound.within _ b hL

theorem SettledAt.evolves (hsound : Sound E H W I L D)
    (hev : HeapEvolves L H s.heap) (hev' : HeapEvolves L s.heap s'.heap)
    (ha : W a) (hsettled : SettledAt D s.heap a k) : SettledAt D s'.heap a k := by
  intro node' hnode' f' hf' hk p hp
  obtain ⟨node, hnode, _, _⟩ := hsound.node hev ha
  obtain ⟨node₁, hnode₁, hnodes⟩ := hev' a node hnode
  rw [hnode'] at hnode₁
  cases hnode₁
  obtain ⟨f, hf, hkey, hvalue⟩ := hnodes.back hf'
  generalize hv : f.2 = v at hvalue
  rw [hp] at hvalue
  cases hvalue with
  | kept => exact hsettled node hnode f hf (hkey.trans hk) p hv
  | inflated _ hL => exact hsound.inflated _ p hL

theorem After.refl (hinv : Inv H W I L V X s) : After H W I L D X V s V s where
  inv := hinv
  grows _ hin := hin
  evolves := HeapEvolves.refl _
  settled _ hin := Or.inl hin

theorem After.trans (hsound : Sound E H W I L D) {X' : Nat → Prop}
    (hfirst : After H W I L D X' V s V' s')
    (hsecond : After H W I L D X V' s' V'' s'') :
    After H W I L D X V s V'' s'' where
  inv := hsecond.inv
  grows a ha := hsecond.grows a (hfirst.grows a ha)
  evolves := hfirst.evolves.trans hsound.again hsecond.evolves
  settled a ha := by
    rcases hsecond.settled a ha with ha | hsettled
    · refine (hfirst.settled a ha).imp_right fun hsettled k => ?_
      exact (hsettled k).evolves hsound hfirst.inv.evolves hsecond.evolves
        (hfirst.inv.visited a ha)
    · exact Or.inr hsettled

theorem mem_of_lookup {A : Type} {k : JsString} {v : A}
    {fs : List (JsString × A)} (hlookup : fs.lookup k = some v) :
    (k, v) ∈ fs := by
  obtain ⟨fs₁, fs₂, rfl, _⟩ := List.lookup_eq_some_iff.mp hlookup
  exact List.mem_append_right _ List.mem_cons_self

/-- What the cache gives is in the cache, or the value of a property of what
took the place of its prototype. -/
theorem ObjCache.get_ref {P Q : Nat → Prop} {h : PlainHeap} {c : ObjCache}
    (hentries : ∀ e ∈ c.entries, P e.2) (hproto : ∀ a, c.proto = some a → P a)
    (hPQ : ∀ a, P a → Q a)
    (hprops : ∀ a node, P a → h[a]? = some node →
      ∀ f ∈ nodeProperties node, ∀ b, f.2 = .ref b → Q b)
    {t : JsString} {w : Nat} (hget : c.get E h t = .ref w) : Q w := by
  rw [ObjCache.get] at hget
  cases hlookup : c.entries.lookup t with
  | some a =>
      rw [hlookup] at hget
      cases hget
      exact hPQ _ (hentries _ (mem_of_lookup hlookup))
  | none =>
      rw [hlookup] at hget
      dsimp only at hget
      by_cases hlength : t = units "length"
      · rw [if_pos hlength] at hget
        cases hget
      rw [if_neg hlength] at hget
      cases hcase : c.proto with
      | none =>
          rw [hcase] at hget
          cases hget
      | some a =>
          rw [hcase] at hget
          dsimp only at hget
          have ha := hproto a hcase
          by_cases ht : t = Serializer.proto
          · rw [if_pos ht] at hget
            cases hget
            exact hPQ _ ha
          rw [if_neg ht] at hget
          cases hprop : (properties h (.ref a)).lookup t with
          | none =>
              rw [hprop] at hget
              cases hget
          | some v =>
              rw [hprop, Option.getD_some] at hget
              have hmem := mem_of_lookup hprop
              cases hnode : h[a]? with
              | none =>
                  rw [properties, hnode] at hmem
                  cases hmem
              | some node =>
                  rw [properties, hnode] at hmem
                  exact hprops a node ha hnode _ hmem w hget

/-- What the cache gives has been visited, or will be. -/
theorem Inv.get (hinv : Inv H W I L V X s) {t : JsString} {w : Nat}
    (hget : s.objCache.get E s.heap t = .ref w) : V w ∨ X w :=
  ObjCache.get_ref hinv.entries hinv.proto (fun _ ha => Or.inl ha) hinv.closed
    hget

/-- With distinct keys, a property that can be read is the only one of its
key. -/
theorem eq_of_property {h : PlainHeap} {node : PlainNode} {v : PlainValue}
    (hnode : h[a]? = some node) (hnodup : (keys node).Nodup)
    (hprop : property h a k = v) :
    ∀ f ∈ nodeProperties node, f.1 = k → f.2 = v := by
  rintro ⟨k', w⟩ hf rfl
  rw [property, properties, hnode] at hprop
  obtain ⟨fs₁, fs₂, hfs⟩ := List.append_of_mem hf
  have hlookup : (nodeProperties node).lookup k' = some w := by
    refine List.lookup_eq_some_iff.mpr ⟨fs₁, fs₂, hfs, fun f hf₁ => ?_⟩
    rw [keys, hfs, List.map_append, List.nodup_append] at hnodup
    exact bne_iff_ne.mpr (hnodup.2.2 _ (List.mem_map_of_mem hf₁) k'
      List.mem_cons_self).symm
  rw [Option.map_some, Option.getD_some, hlookup] at hprop
  exact hprop

/-- References stay where they are. -/
theorem Pending.evolves {h h' : PlainHeap} (hev : HeapEvolves L h h')
    {ks : List JsString} (hid : idCount ∉ ks) {w : Nat}
    (hpending : Pending h b ks w) : Pending h' b ks w := by
  obtain ⟨node, hnode, f, hf, hk, hw⟩ := hpending
  obtain ⟨node', hnode', hnodes⟩ := hev b node hnode
  have hne : f.1 ≠ idCount := by
    intro hf'
    exact hid (hf' ▸ hk)
  obtain ⟨f', hf', hkey, hvalue⟩ := hnodes.forth hf hne
  exact ⟨node', hnode', f', hf', hkey ▸ hk, hvalue.ref hw⟩

theorem mem_of_property {h : PlainHeap} {node : PlainNode} {v : PlainValue}
    (hnode : h[a]? = some node) (hk : k ∈ keys node)
    (hprop : property h a k = v) : (k, v) ∈ nodeProperties node := by
  obtain ⟨⟨k', w⟩, hmem, rfl⟩ := List.mem_map.mp hk
  have hsome : ((nodeProperties node).lookup k').isSome :=
    List.lookup_isSome_iff.mpr ⟨_, hmem, beq_self_eq_true k'⟩
  obtain ⟨u, hu⟩ := Option.isSome_iff_exists.mp hsome
  rw [property, properties, hnode, Option.map_some, Option.getD_some, hu] at hprop
  cases hprop
  exact mem_of_lookup hu

theorem Inv.weaken {X' : Nat → Prop} (hinv : Inv H W I L V X s)
    (hX : ∀ w, X w → V w ∨ X' w) : Inv H W I L V X' s where
  __ := hinv
  closed a node ha hnode f hf b hb :=
    (hinv.closed a node ha hnode f hf b hb).elim Or.inl (hX b)

/-- What is left of the references under `k` and `ks` when the value under `k`
is `v`. -/
theorem Pending.tail {h : PlainHeap} {node : PlainNode} {v : PlainValue}
    {ks : List JsString} {w : Nat} (hnode : h[b]? = some node)
    (hnodup : (keys node).Nodup) (hprop : property h b k = v)
    (hpending : Pending h b (k :: ks) w) : v = .ref w ∨ Pending h b ks w := by
  obtain ⟨node', hnode', f, hf, hk, hw⟩ := hpending
  rw [hnode] at hnode'
  cases hnode'
  rcases List.mem_cons.mp hk with hk | hk
  · exact Or.inl ((eq_of_property hnode hnodup hprop f hf hk).symm.trans hw)
  · exact Or.inr ⟨node, hnode, f, hf, hk, hw⟩

variable {rec : Nat → Comp Halt Deserializing Unit} {ks : List JsString}
  {node : PlainNode}

/-- What is assumed of the recursive calls. -/
def Visits (H : PlainHeap) (W : Nat → Prop) (I : ObjCache → Prop)
    (L : JsString → PlainValue → Prop) (D : Prim → Prop)
    (rec : Nat → Comp Halt Deserializing Unit) : Prop :=
  ∀ V X s b, Inv H W I L V X s → W b → (rec b).Leads s fun _ s' =>
    ∃ V', V' b ∧ After H W I L D X V s V' s'

/-- A value that is no reference to the cache stays as it is. -/
theorem visit_kept (hsound : Sound E H W I L D) {p : Prim}
    (hinv : Inv H W I L V (fun w => X w ∨ Pending s.heap b (k :: ks) w) s)
    (hnode : s.heap[b]? = some node) (hnodup : (keys node).Nodup)
    (hprop : property s.heap b k = .prim p)
    (hp : ∀ t, p = .string t → ¬CIRCULAR <+: t) :
    After H W I L D (fun w => X w ∨ Pending s.heap b ks w) V s V s ∧
      SettledAt D s.heap b k := by
  refine ⟨After.refl (hinv.weaken fun w hw => ?_), ?_⟩
  · rcases hw with hw | hw
    · exact Or.inr (Or.inl hw)
    · rcases hw.tail hnode hnodup hprop with hv | hw
      · cases hv
      · exact Or.inr (Or.inr hw)
  · intro node' hnode' f hf hk q hq
    rw [hnode] at hnode'
    cases hnode'
    rw [eq_of_property hnode hnodup hprop f hf hk] at hq
    cases hq
    exact hsound.plain _ hp

/-- A string that looks like a reference is inflated. -/
theorem visit_inflated (hsound : Sound E H W I L D) {t : JsString}
    (hinv : Inv H W I L V (fun w => X w ∨ Pending s.heap b (k :: ks) w) s)
    (hnode : s.heap[b]? = some node) (hregular : Regular (keys node))
    (hk : k ∈ keys node) (hks : idCount ∉ ks)
    (hprop : property s.heap b k = .prim (.string t)) (ht : CIRCULAR <+: t)
    (hs' : s' = { s with
      heap := s.heap.modify b
        (setProperty k (s.objCache.get E s.heap (t.drop 9))) }) :
    After H W I L D (fun w => X w ∨ Pending s'.heap b ks w) V s V s' ∧
      SettledAt D s'.heap b k := by
  subst hs'
  generalize hg : s.objCache.get E s.heap (t.drop 9) = g
  have hL : L (t.drop 9) g := hg ▸ hsound.get _ _ _ hinv.evolves hinv.cache
  have hold := eq_of_property hnode hregular.1 hprop
  have hev : HeapEvolves L s.heap (s.heap.modify b (setProperty k g)) := by
    refine HeapEvolves.modify fun node' hnode' => ?_
    rw [hnode] at hnode'
    cases hnode'
    exact .set hregular hk hold ht hL
  have hset : (s.heap.modify b (setProperty k g))[b]? =
      some (setProperty k g node) := by
    rw [List.getElem?_modify_eq, hnode]
    rfl
  have hpending (w : Nat) (hw : X w ∨ Pending s.heap b (k :: ks) w) :
      V w ∨ X w ∨ Pending (s.heap.modify b (setProperty k g)) b ks w := by
    rcases hw with hw | hw
    · exact Or.inr (Or.inl hw)
    · rcases hw.tail hnode hregular.1 hprop with hv | hw
      · cases hv
      · exact Or.inr (Or.inr (hw.evolves hev hks))
  refine ⟨⟨{ hinv with
    evolves := hinv.evolves.trans hsound.again hev
    clean := ?_
    closed := ?_ }, fun _ hin => hin, hev, fun _ hin => Or.inl hin⟩, ?_⟩
  · intro a node' ha hnode' hid
    obtain ⟨node₀, hnode₀, _⟩ := hsound.node hinv.evolves (hinv.visited a ha)
    obtain ⟨node₁, hnode₁, hnodes⟩ := hev a node₀ hnode₀
    rw [hnode'] at hnode₁
    cases hnode₁
    exact hinv.clean a node₀ ha hnode₀ (hnodes.keys_sublist.subset hid)
  · intro a node' ha hnode' f' hf' w hw
    rcases eq_or_ne a b with rfl | hne
    · rw [hset] at hnode'
      cases hnode'
      rw [nodeProperties_set hregular hk] at hf'
      obtain ⟨f, hf, rfl⟩ := List.mem_map.mp hf'
      rw [replace] at hw
      split_ifs at hw with hfk
      · rcases hinv.get (hg.trans hw) with hw | hw
        · exact Or.inl hw
        · exact hpending w hw
      · exact (hinv.closed a node ha hnode f hf w hw).elim Or.inl (hpending w)
    · rw [List.getElem?_modify_ne _ _ hne.symm] at hnode'
      exact (hinv.closed a node' ha hnode' f' hf' w hw).elim Or.inl (hpending w)
  · intro node' hnode' f' hf' hkey p hp
    rw [hset] at hnode'
    cases hnode'
    rw [nodeProperties_set hregular hk] at hf'
    obtain ⟨f, hf, rfl⟩ := List.mem_map.mp hf'
    rw [replace] at hkey hp
    split_ifs at hkey hp with hfk
    · exact hsound.inflated (t.drop 9) p (hp ▸ hL)
    · exact absurd hkey hfk

/-- A node that is referred to is visited; the reference stays. -/
theorem visit_reached {c : Nat}
    (hinv : Inv H W I L V (fun w => X w ∨ Pending s.heap b (k :: ks) w) s)
    (hb : V b) (hnode : s.heap[b]? = some node) (hnodup : (keys node).Nodup)
    (hk : k ∈ keys node) (hks : idCount ∉ ks)
    (hprop : property s.heap b k = .ref c) (hc : V' c)
    (hafter : After H W I L D (fun w => X w ∨ Pending s.heap b (k :: ks) w)
      V s V' s') :
    property s'.heap b k = .ref c ∧
      After H W I L D (fun w => X w ∨ Pending s'.heap b ks w) V s V' s' ∧
      SettledAt D s'.heap b k := by
  have hid : idCount ∉ keys node := hinv.clean b node hb hnode
  have hmem := mem_of_property hnode hk hprop
  obtain ⟨node', hnode', hnodes⟩ := hafter.evolves b node hnode
  have hnodup' : (keys node').Nodup := hnodes.keys_eq hid ▸ hnodup
  obtain ⟨⟨k', v⟩, hmem', rfl, hvalue⟩ := hnodes.forth hmem fun hk' =>
    hid (hk' ▸ hk)
  cases hvalue.ref rfl
  have hprop' : property s'.heap b k = .ref c := by
    have hk' : k ∈ keys node' := List.mem_map_of_mem hmem'
    exact (eq_of_property hnode' hnodup' rfl _ hmem' rfl).symm
  refine ⟨hprop', { hafter with inv := hafter.inv.weaken fun w hw => ?_ },
    fun node₁ hnode₁ f hf hkey p hp => ?_⟩
  · rcases hw with hw | hw
    · exact Or.inr (Or.inl hw)
    · rcases hw.tail hnode hnodup hprop with hv | hw
      · cases hv
        exact Or.inl hc
      · exact Or.inr (Or.inr (hw.evolves hafter.evolves hks))
  · rw [hnode'] at hnode₁
    cases hnode₁
    rw [eq_of_property hnode' hnodup' hprop' f hf hkey] at hp
    cases hp

theorem visit_after (hsound : Sound E H W I L D) (hrec : Visits H W I L D rec)
    (hinv : Inv H W I L V (fun w => X w ∨ Pending s.heap b (k :: ks) w) s)
    (hb : V b) (hnode : s.heap[b]? = some node) (hk : k ∈ keys node)
    (hks : idCount ∉ ks) :
    (visit E rec b k).Leads s fun _ s' => ∃ V',
      After H W I L D (fun w => X w ∨ Pending s'.heap b ks w) V s V' s' ∧
        SettledAt D s'.heap b k := by
  obtain ⟨node', hnode', hregular, hwithin⟩ :=
    hsound.node hinv.evolves (hinv.visited b hb)
  rw [hnode] at hnode'
  cases hnode'
  cases hprop : property s.heap b k with
  | ref c =>
      have hmem := mem_of_property hnode hk hprop
      unfold visit
      refine Comp.leads_get_bind ?_
      rw [hprop]
      refine (hrec _ _ s c hinv (hwithin _ hmem c rfl)).bind ?_
      rintro _ s' ⟨V', hc, hafter⟩
      obtain ⟨hprop', hafter', hsettled⟩ := visit_reached hinv hb hnode
        hregular.1 hk hks hprop hc hafter
      refine Comp.leads_get_bind ?_
      rw [hprop']
      exact Comp.leads_pure ⟨V', hafter', hsettled⟩
  | prim p =>
      intro u s' hrun
      by_cases hp : ∃ t, p = .string t ∧ CIRCULAR <+: t
      · obtain ⟨t, rfl, ht⟩ := hp
        rw [visit_reference hprop ht] at hrun
        cases hrun
        exact ⟨V, visit_inflated hsound hinv hnode hregular hk hks hprop ht rfl⟩
      · have hplain : ∀ t, p = .string t → ¬CIRCULAR <+: t :=
          fun t ht hpre => hp ⟨t, ht, hpre⟩
        rw [visit_plain hplain hprop] at hrun
        cases hrun
        exact ⟨V, visit_kept hsound hinv hnode hregular.1 hprop hplain⟩

/-- The loop over the keys `ks` of a node. -/
theorem visitAll_after (hsound : Sound E H W I L D)
    (hrec : Visits H W I L D rec)
    (hinv : Inv H W I L V (fun w => X w ∨ Pending s.heap b ks w) s)
    (hb : V b) (hnode : s.heap[b]? = some node) (hks : ∀ k ∈ ks, k ∈ keys node) :
    (visitAll E rec b ks).Leads s fun _ s' => ∃ V',
      After H W I L D X V s V' s' ∧ ∀ k ∈ ks, SettledAt D s'.heap b k := by
  induction ks generalizing s V node with
  | nil =>
      refine Comp.leads_pure ⟨V, After.refl (hinv.weaken fun w hw => ?_),
        List.forall_mem_nil _⟩
      rcases hw with hw | ⟨_, _, _, _, hin, _⟩
      · exact Or.inr hw
      · cases hin
  | cons k ks ih =>
      rw [List.forall_mem_cons] at hks
      have hid : idCount ∉ keys node := hinv.clean b node hb hnode
      rw [visitAll]
      refine (visit_after hsound hrec hinv hb hnode hks.1
        fun hin => hid (hks.2 _ hin)).bind ?_
      rintro _ s' ⟨V', hafter, hsettled⟩
      obtain ⟨node', hnode', hnodes⟩ := hafter.evolves b node hnode
      have hkeys : ∀ k ∈ ks, k ∈ keys node' := hnodes.keys_eq hid ▸ hks.2
      have hb' : V' b := hafter.grows b hb
      refine fun u s'' hrun => ?_
      obtain ⟨V'', hafter', hsettled'⟩ := ih hafter.inv hb' hnode' hkeys u s'' hrun
      refine ⟨V'', ?_, List.forall_mem_cons.mpr ⟨?_, hsettled'⟩⟩
      · exact hafter.trans hsound hafter'
      · exact hsettled.evolves hsound hafter.inv.evolves hafter'.evolves
          (hinv.visited b hb)

theorem not_mem_delete (node : PlainNode) :
    idCount ∉ keys (deleteProperty idCount node) := by
  rw [keys, nodeProperties_delete]
  intro hid
  obtain ⟨f, hf, hkey⟩ := List.mem_map.mp hid
  exact of_decide_eq_true (List.mem_filter.mp hf).2 hkey

theorem ObjCache.set_entries {c c' : ObjCache} {key : JsString}
    (hset : c.set key b = some c') :
    (∀ e ∈ c'.entries, e ∈ c.entries ∨ e.2 = b) ∧
      ∀ a, c'.proto = some a → c.proto = some a ∨ a = b := by
  rw [ObjCache.set] at hset
  split_ifs at hset
  · cases hset
    exact ⟨fun e he => Or.inl he, fun a ha => Or.inr (Option.some.inj ha).symm⟩
  · cases hset
    refine ⟨fun e he => ?_, fun a ha => Or.inl ha⟩
    rcases List.mem_cons.mp he with rfl | he
    · exact Or.inr rfl
    · exact Or.inl he

theorem register_eq_ok {u : Unit} (hrun : register E b s = (.ok u, s')) :
    s'.heap = s.heap.modify b (deleteProperty idCount) ∧
      ∃ key, propertyKey E s'.heap (property s.heap b idCount) = some key ∧
        s.objCache.set key b = some s'.objCache := by
  rw [register] at hrun
  cases hkey : propertyKey E (s.heap.modify b (deleteProperty idCount))
      (property s.heap b idCount) with
  | none =>
      rw [hkey] at hrun
      cases hrun
  | some key =>
      rw [hkey] at hrun
      dsimp only at hrun
      cases hset : s.objCache.set key b with
      | none =>
          rw [hset] at hrun
          cases hrun
      | some c =>
          rw [hset] at hrun
          cases hrun
          exact ⟨rfl, key, hkey, hset⟩

/-- The node itself is visited first. -/
theorem register_inv (hsound : Sound E H W I L D) (hinv : Inv H W I L V X s)
    (hb : W b) {u : Unit} (hrun : register E b s = (.ok u, s')) :
    HeapEvolves L s.heap s'.heap ∧
      ∃ node, s'.heap[b]? = some node ∧
        Inv H W I L (fun a => V a ∨ a = b)
          (fun w => X w ∨ Pending s'.heap b (keys node) w) s' := by
  obtain ⟨hheap, key, hkey, hset⟩ := register_eq_ok hrun
  obtain ⟨node, hnode, _⟩ := hsound.node hinv.evolves hb
  have hev : HeapEvolves L s.heap s'.heap := by
    rw [hheap]
    exact HeapEvolves.modify fun node _ => .delete node
  have hnode' : s'.heap[b]? = some (deleteProperty idCount node) := by
    rw [hheap, List.getElem?_modify_eq, hnode]
    rfl
  have hother {a : Nat} (hne : a ≠ b) : s'.heap[a]? = s.heap[a]? := by
    rw [hheap, List.getElem?_modify_ne _ _ hne.symm]
  obtain ⟨hentries, hproto⟩ := ObjCache.set_entries hset
  refine ⟨hev, _, hnode', {
    evolves := hinv.evolves.trans hsound.again hev
    cache := hsound.register s.heap _ b key _ hinv.evolves hinv.cache hb
      (hheap ▸ hkey) hset
    visited := ?_
    clean := ?_
    closed := ?_
    entries := fun e he => (hentries e he).imp_left (hinv.entries e)
    proto := fun a ha => (hproto a ha).imp_left (hinv.proto a) }⟩
  · rintro a (ha | rfl)
    · exact hinv.visited a ha
    · exact hb
  · intro a node₁ ha hnode₁
    rcases eq_or_ne a b with rfl | hne
    · rw [hnode'] at hnode₁
      cases hnode₁
      exact not_mem_delete node
    · rw [hother hne] at hnode₁
      exact hinv.clean a node₁ (ha.resolve_right hne) hnode₁
  · intro a node₁ ha hnode₁ f hf w hw
    rcases eq_or_ne a b with rfl | hne
    · rw [hnode'] at hnode₁
      cases hnode₁
      exact Or.inr (Or.inr ⟨_, hnode', f, hf, List.mem_map_of_mem hf, hw⟩)
    · rw [hother hne] at hnode₁
      exact (hinv.closed a node₁ (ha.resolve_right hne) hnode₁ f hf w hw).imp
        Or.inl Or.inl

/-- Every object that is reached is visited. -/
theorem deserialize_visits_all (hsound : Sound E H W I L D) (n : Nat) :
    Visits H W I L D (deserialize E n) := by
  induction n with
  | zero => exact fun _ _ _ _ _ _ => Comp.leads_throw _ _ _
  | succ n ih =>
      intro V X s b hinv hb
      rw [deserialize]
      refine Comp.Leads.bind (fun u s' hrun => register_inv hsound hinv hb hrun) ?_
      rintro _ s' ⟨hev, node, hnode, hinv'⟩
      refine Comp.leads_get_bind ?_
      have hkeys : (properties s'.heap (.ref b)).map Prod.fst = keys node := by
        rw [properties, hnode]
        rfl
      rw [hkeys]
      intro u s'' hrun
      obtain ⟨V', hafter, hsettled⟩ := visitAll_after hsound ih hinv' (Or.inr rfl)
        hnode (fun _ hk => hk) u s'' hrun
      refine ⟨V', hafter.grows b (Or.inr rfl), hafter.inv,
        fun a ha => hafter.grows a (Or.inl ha),
        hev.trans hsound.again hafter.evolves, fun a ha => ?_⟩
      rcases hafter.settled a ha with (ha | rfl) | hsettled'
      · exact Or.inl ha
      · refine Or.inr fun k node' hnode' f hf hk => ?_
        obtain ⟨node₁, hnode₁, hnodes⟩ := hafter.evolves a node hnode
        rw [hnode'] at hnode₁
        cases hnode₁
        have hin : k ∈ keys node :=
          hnodes.keys_sublist.subset (hk ▸ List.mem_map_of_mem hf)
        exact hsettled k hin node' hnode' f hf hk
      · exact Or.inr hsettled'

/-- When `deserialize` has returned, all that its result leads to has been
visited. -/
theorem deserialize_closed (hsound : Sound E H W I L D) {n r : Nat} {u : Unit}
    (hr : W r) (hI : I ⟨[], none⟩)
    (hrun : deserialize E n r ⟨H, ⟨[], none⟩⟩ = (.ok u, s')) :
    ∃ V, V r ∧ After H W I L D (fun _ => False) (fun _ => False)
      ⟨H, ⟨[], none⟩⟩ V s' := by
  refine deserialize_visits_all hsound n _ _ _ r ?_ hr u s' hrun
  exact {
    evolves := HeapEvolves.refl H
    cache := hI
    visited := fun _ hin => hin.elim
    clean := fun _ _ hin => hin.elim
    closed := fun _ _ hin => hin.elim
    entries := List.forall_mem_nil _
    proto := fun a ha => nomatch ha }

end Visits

end Serializer

end Appmetrics
