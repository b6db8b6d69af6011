/-
Graphs of objects survive `deserialize(serialize(o))`.  The encoder numbers
the objects in the order in which it meets them; the trees it writes are
numbered in the order in which `deserialize` visits them, so every reference
back is to an object that is in the cache already.
-/
import Appmetrics.SerializerRuns

namespace Appmetrics

open Effect ObjectGraph

namespace Serializer

/-! ## Nodes as keys and values -/

def keys (node : PlainNode) : List JsString :=
  (nodeProperties node).map Prod.fst

/-- The node with these values in the place of its own. -/
def withValues : PlainNode → List PlainValue → PlainNode
  | .object fs, vs => .object ((fs.map Prod.fst).zip vs)
  | .array _, vs => .array vs

theorem nodeProperties_eq (node : PlainNode) :
    nodeProperties node = (keys node).zip node.values := by
  refine List.zip_of_prod rfl ?_
  cases node with
  | object fs => rfl
  | array es => exact indexed_values es

theorem withValues_values (node : PlainNode) :
    withValues node node.values = node := by
  cases node with
  | object fs => exact congrArg Node.object (List.zip_of_prod rfl rfl).symm
  | array es => rfl

theorem keys_length (node : PlainNode) :
    (keys node).length = node.values.length := by
  cases node with
  | object fs => rw [keys, nodeProperties, List.length_map, Node.values_object,
      List.length_map]
  | array es => rw [keys, nodeProperties, indexed_keys, List.length_map,
      List.length_range, Node.values_array]

theorem nodeProperties_withValues {node : PlainNode} {vs : List PlainValue}
    (hlength : vs.length = node.values.length) :
    nodeProperties (withValues node vs) = (keys node).zip vs := by
  cases node with
  | object fs => rfl
  | array es =>
      rw [Node.values_array] at hlength
      refine (nodeProperties_eq (.array vs)).trans ?_
      rw [keys, keys, nodeProperties, nodeProperties, indexed_keys,
        indexed_keys, hlength, Node.values_array]

/-- No key twice, and none that assignments do not make. -/
def Regular (ks : List JsString) : Prop := ks.Nodup ∧ proto ∉ ks

theorem lookup_zip {A : Type} {dk ks : List JsString} {k : JsString}
    {dv vs : List A} {w : A} (hnodup : (dk ++ k :: ks).Nodup)
    (hlength : dk.length = dv.length) :
    ((dk ++ k :: ks).zip (dv ++ w :: vs)).lookup k = some w := by
  rw [List.zip_append hlength, List.lookup_append, List.zip_cons_cons,
    List.lookup_cons_self]
  have hnone : (dk.zip dv).lookup k = none := by
    rw [List.lookup_eq_none_iff]
    rintro ⟨k', v⟩ hmem
    have hk' := (List.of_mem_zip hmem).1
    rw [List.nodup_append] at hnodup
    exact bne_iff_ne.mpr (hnodup.2.2 k' hk' k List.mem_cons_self).symm
  rw [hnone, Option.none_or]

theorem put_zip {A : Type} {dk ks : List JsString} {k : JsString}
    {dv vs : List A} {w : A} (hregular : Regular (dk ++ k :: ks))
    (hlength : dk.length = dv.length) (v : A) :
    put ((dk ++ k :: ks).zip (dv ++ w :: vs)) k v =
      (dk ++ k :: ks).zip (dv ++ v :: vs) := by
  obtain ⟨hnodup, hproto⟩ := hregular
  have hk : k ≠ proto := by
    rintro rfl
    exact hproto (List.mem_append_right _ List.mem_cons_self)
  have hkeep {l : List (JsString × A)} (hl : ∀ f ∈ l, f.1 ≠ k) :
      (l.map fun f => if f.1 = k then (k, v) else f) = l := by
    rw [List.map_congr_left fun f hf => if_neg (hl f hf), List.map_id']
  rw [List.nodup_append] at hnodup
  have hdone : ∀ f ∈ dk.zip dv, f.1 ≠ k := fun f hf =>
    hnodup.2.2 f.1 (List.of_mem_zip hf).1 k List.mem_cons_self
  have htodo : ∀ f ∈ ks.zip vs, f.1 ≠ k := by
    rintro f hf rfl
    exact (List.nodup_cons.mp hnodup.2.1).1 (List.of_mem_zip hf).1
  rw [List.zip_append hlength, List.zip_append hlength, List.zip_cons_cons,
    List.zip_cons_cons, put, if_neg hk, if_pos (by simp), List.map_append,
    List.map_cons, hkeep hdone, hkeep htodo, if_pos rfl]

section Place

variable {node : PlainNode} {dk ks : List JsString} {k : JsString}
  {dv vs : List PlainValue} {w : PlainValue}

theorem property_withValues {h : PlainHeap} {a : Nat}
    (hnode : h[a]? = some (withValues node (dv ++ w :: vs)))
    (hkeys : keys node = dk ++ k :: ks) (hnodup : (keys node).Nodup)
    (hdone : dk.length = dv.length) (htodo : ks.length = vs.length) :
    property h a k = w := by
  have hlength : (dv ++ w :: vs).length = node.values.length := by
    rw [← keys_length, hkeys]
    simp [hdone, htodo]
  rw [property, properties, hnode, Option.map_some, Option.getD_some,
    nodeProperties_withValues hlength, hkeys, lookup_zip (hkeys ▸ hnodup) hdone,
    Option.getD_some]

theorem setProperty_withValues (hkeys : keys node = dk ++ k :: ks)
    (hregular : Regular (keys node)) (hdone : dk.length = dv.length)
    (htodo : ks.length = vs.length) (v : PlainValue) :
    setProperty k v (withValues node (dv ++ w :: vs)) =
      withValues node (dv ++ v :: vs) := by
  have hlength : (dv ++ w :: vs).length = node.values.length := by
    rw [← keys_length, hkeys]
    simp [hdone, htodo]
  have hput := @put_zip _ _ _ _ _ vs w (hkeys ▸ hregular) hdone v
  rw [← hkeys] at hput
  have hproperties := nodeProperties_withValues hlength
  cases node with
  | object fs => exact congrArg Node.object hput
  | array es =>
      refine congrArg Node.array ?_
      change (put (nodeProperties (withValues (.array es) _)) k v).map Prod.snd = _
      rw [hproperties, hput]
      refine List.map_snd_zip ?_
      rw [hkeys]
      simp [hdone, htodo]

end Place

/-! ## Numbered trees -/

/-- A primitive value that JSON keeps and that does not look like a
reference. -/
def Survives : Prim → Prop
  | .null => True
  | .boolean _ => True
  | .number (.finite _) => True
  | .string s => ¬CIRCULAR <+: s
  | _ => False

/-- The objects of the trees have the numbers from `k` on and below `k'` in
the order in which they are visited, and references are to smaller numbers. -/
inductive Numbered : Nat → List PlainTree → Nat → Prop
  | nil {k} : Numbered k [] k
  | prim {k p ts k'} (hp : Survives p) (hrest : Numbered k ts k') :
      Numbered k (.prim p :: ts) k'
  | back {k i ts k'} (hi : i < k) (hrest : Numbered k ts k') :
      Numbered k (.prim (circular i) :: ts) k'
  | array {k us k₁ ts k'} (helements : Numbered k us k₁)
      (hrest : Numbered k₁ ts k') : Numbered k (.array us :: ts) k'
  | object {k k₁ k'} {ms : List (JsString × PlainTree)} {ts}
      (hmembers : Numbered (k + 1) (ms.map Prod.snd) k₁)
      (hregular : Regular (ms.map Prod.fst))
      (hidCount : idCount ∉ ms.map Prod.fst) (hrest : Numbered k₁ ts k') :
      Numbered k
        (.object ((idCount, .prim (.number (.finite k))) :: ms) :: ts) k'

theorem Numbered.le {k k' : Nat} {ts : List PlainTree}
    (hnum : Numbered k ts k') : k ≤ k' := by
  induction hnum with
  | nil => exact Nat.le_refl _
  | prim _ _ ih => exact ih
  | back _ _ ih => exact ih
  | array _ _ ihelements ihrest => omega
  | object _ _ _ _ ihmembers ihrest => omega

/-- The number of an object in the heap. -/
def HasId (h : PlainHeap) (a i : Nat) : Prop :=
  property h a idCount = .prim (.number (.finite i))

/-- Each number from `k` on and below `k'` belongs to one of the objects from
`lo` on and below `hi`. -/
structure Named (h : PlainHeap) (lo hi k k' : Nat) : Prop where
  exist : ∀ i, k ≤ i → i < k' → ∃ a, lo ≤ a ∧ a < hi ∧ HasId h a i
  range : ∀ a i, lo ≤ a → a < hi → HasId h a i → k ≤ i ∧ i < k'
  unique : ∀ a b i, lo ≤ a → a < hi → lo ≤ b → b < hi →
    HasId h a i → HasId h b i → a = b

theorem property_array {h : PlainHeap} {a : Nat} {es : List PlainValue}
    (hnode : h[a]? = some (.array es)) :
    property h a idCount = .prim .undefined := by
  have hnone : (indexed es).lookup idCount = none := by
    rw [List.lookup_eq_none_iff]
    rintro ⟨k, v⟩ hmem
    have hk : k ∈ (indexed es).map Prod.fst := List.mem_map_of_mem hmem
    rw [indexed_keys, List.mem_map] at hk
    obtain ⟨i, _, rfl⟩ := hk
    refine bne_iff_ne.mpr fun hid => decimal_not_reserved i ?_
    change idCount = decimal i at hid
    exact hid ▸ List.mem_cons_self
  rw [property, properties, hnode, Option.map_some, Option.getD_some,
    nodeProperties, hnone]
  rfl

theorem property_object {h : PlainHeap} {a : Nat} {v : PlainValue}
    {fs : List (JsString × PlainValue)}
    (hnode : h[a]? = some (.object ((idCount, v) :: fs))) :
    property h a idCount = v := by
  rw [property, properties, hnode, Option.map_some, Option.getD_some,
    nodeProperties, List.lookup_cons_self, Option.getD_some]

/-- The node of a numbered object. -/
theorem object_fields {h : PlainHeap} {S : Nat → Prop} {lo a : Nat} {p : Prim}
    {fs : List (JsString × PlainValue)} {ms : List (JsString × PlainTree)}
    (hvalues : Spans h S lo (fs.map Prod.snd)
      (((idCount, .prim p) :: ms).map Prod.snd) a)
    (hkeys : fs.map Prod.fst = ((idCount, .prim p) :: ms).map Prod.fst) :
    ∃ fs', fs = (idCount, .prim p) :: fs' ∧
      fs'.map Prod.fst = ms.map Prod.fst ∧
      Spans h S lo (fs'.map Prod.snd) (ms.map Prod.snd) a := by
  cases fs with
  | nil => cases hkeys
  | cons f fs =>
      obtain ⟨k, v⟩ := f
      rw [List.map_cons, List.map_cons, List.cons.injEq] at hkeys
      obtain ⟨rfl, hkeys⟩ : k = idCount ∧ _ := hkeys
      rw [List.map_cons, List.map_cons] at hvalues
      cases hvalues with
      | prim hrest => exact ⟨fs, rfl, hkeys, hrest⟩

theorem not_hasId_array {h : PlainHeap} {a i : Nat} {es : List PlainValue}
    (hnode : h[a]? = some (.array es)) : ¬HasId h a i := by
  rw [HasId, property_array hnode]
  exact nofun

/-- The numbers before and after a node; the node itself has the number `k` or
none. -/
theorem Named.append {h : PlainHeap} {lo a hi k k₁ k₂ k' : Nat}
    (hbelow : Named h lo a k₁ k₂) (hafter : Named h (a + 1) hi k₂ k')
    (hlo : lo ≤ a) (hhi : a < hi) (hle : k₁ ≤ k₂) (hle' : k₂ ≤ k')
    (hnode : (∀ i, HasId h a i ↔ i = k) ∧ k₁ = k + 1 ∨
      (∀ i, ¬HasId h a i) ∧ k₁ = k) : Named h lo hi k k' := by
  have hcases {b i : Nat} (hblo : lo ≤ b) (hbhi : b < hi) (hid : HasId h b i) :
      (b < a ∧ k₁ ≤ i ∧ i < k₂) ∨ (a < b ∧ k₂ ≤ i ∧ i < k') ∨
        (b = a ∧ i = k ∧ k₁ = k + 1) := by
    rcases Nat.lt_trichotomy b a with hlt | rfl | hlt
    · exact Or.inl ⟨hlt, hbelow.range b i hblo hlt hid⟩
    · rcases hnode with ⟨hiff, hk⟩ | ⟨hnone, _⟩
      · exact Or.inr (Or.inr ⟨rfl, (hiff i).mp hid, hk⟩)
      · exact absurd hid (hnone i)
    · exact Or.inr (Or.inl ⟨hlt, hafter.range b i hlt hbhi hid⟩)
  refine ⟨fun i hki hik' => ?_, fun b i hblo hbhi hid => ?_,
    fun b c i hblo hbhi hclo hchi hb hc => ?_⟩
  · by_cases hk₁ : i < k₁
    · rcases hnode with ⟨hiff, hk⟩ | ⟨_, hk⟩
      · exact ⟨a, hlo, hhi, (hiff i).mpr (by omega)⟩
      · omega
    · by_cases hk₂ : i < k₂
      · obtain ⟨b, hblo, hba, hid⟩ := hbelow.exist i (by omega) hk₂
        exact ⟨b, hblo, by omega, hid⟩
      · obtain ⟨b, hab, hbhi, hid⟩ := hafter.exist i (by omega) hik'
        exact ⟨b, by omega, hbhi, hid⟩
  · rcases hcases hblo hbhi hid with hin | hin | hin <;>
      rcases hnode with ⟨_, hk⟩ | ⟨_, hk⟩ <;> omega
  · rcases hcases hblo hbhi hb with hin | hin | hin <;>
      rcases hcases hclo hchi hc with hin' | hin' | hin'
    · exact hbelow.unique b c i hblo hin.1 hclo hin'.1 hb hc
    · omega
    · omega
    · omega
    · exact hafter.unique b c i hin.1 hbhi hin'.1 hchi hb hc
    · omega
    · omega
    · omega
    · omega

/-- Every number belongs to one object. -/
theorem Numbered.named {k k' : Nat} {ts : List PlainTree}
    (hnum : Numbered k ts k') {h : PlainHeap} {lo hi : Nat}
    {vs : List PlainValue}
    (hspans : Spans h (fun _ => False) lo vs ts hi) : Named h lo hi k k' := by
  induction hnum generalizing lo hi vs with
  | nil =>
      cases hspans
      exact ⟨by intros; omega, by intros; omega, by intros; omega⟩
  | prim _ _ ih =>
      cases hspans with
      | prim hrest => exact ih hrest
  | back _ _ ih =>
      cases hspans with
      | prim hrest => exact ih hrest
  | array helements hrest ihelements ihrest =>
      cases hspans with
      | shared hfalse => exact hfalse.elim
      | array hselements hnode hsrest =>
          exact (ihelements hselements).append (ihrest hsrest) hselements.le
            hsrest.le helements.le hrest.le
            (Or.inr ⟨fun i => not_hasId_array hnode, rfl⟩)
  | object hmembers _ _ hrest ihmembers ihrest =>
      cases hspans with
      | object hsvalues hnode hkeys hsrest =>
          obtain ⟨fs, rfl, _, hsmembers⟩ := object_fields hsvalues hkeys
          refine (ihmembers hsmembers).append (ihrest hsrest) hsmembers.le
            hsrest.le hmembers.le hrest.le (Or.inl ⟨fun i => ?_, rfl⟩)
          rw [HasId, property_object hnode]
          simp [eq_comm]

/-! ## Visiting numbered trees -/

theorem delete_idCount {fs : List (JsString × PlainValue)}
    (hfs : idCount ∉ fs.map Prod.fst) (v : PlainValue) :
    deleteProperty idCount (.object ((idCount, v) :: fs)) = .object fs := by
  rw [deleteProperty, List.filter_cons_of_neg (by simp)]
  refine congrArg Node.object (List.filter_eq_self.mpr fun f hf => ?_)
  exact decide_eq_true fun hfid => hfs (hfid ▸ List.mem_map_of_mem hf)

/-- A reference back is the object that `R` names. -/
def resolve (R : JsString → Nat) : PlainValue → PlainValue
  | .prim (.string t) =>
      if CIRCULAR <+: t then .ref (R (t.drop 9)) else .prim (.string t)
  | v => v

/-- What `deserialize` makes of a node. -/
def clean (R : JsString → Nat) (node : PlainNode) : PlainNode :=
  withValues (deleteProperty idCount node)
    ((deleteProperty idCount node).values.map (resolve R))

theorem resolve_survives (R : JsString → Nat) {p : Prim} (hp : Survives p) :
    resolve R (.prim p) = .prim p := by
  cases p with
  | string t => exact if_neg hp
  | _ => rfl

theorem circular_starts (i : Nat) : CIRCULAR <+: CIRCULAR ++ decimal i :=
  List.prefix_append _ _

theorem circular_index (i : Nat) : (CIRCULAR ++ decimal i).drop 9 = decimal i :=
  List.drop_left' rfl

theorem resolve_circular (R : JsString → Nat) (i : Nat) :
    resolve R (.prim (circular i)) = .ref (R (decimal i)) := by
  rw [circular, resolve, if_pos (circular_starts i), circular_index]

theorem property_congr {h h' : PlainHeap} {a : Nat} (ha : h'[a]? = h[a]?)
    (k : JsString) : property h' a k = property h a k := by
  rw [property, properties, ha, property, properties]

section Visit

variable {E : Engine} {rec : Nat → Comp Halt Deserializing Unit}
  {s : Deserializing} {a b : Nat} {prop t : JsString}

theorem visit_ref {Q : Unit → Deserializing → Prop}
    (hprop : property s.heap a prop = .ref b) (hrec : (rec b).Ends s Q)
    (hkeep : ∀ s', Q () s' → property s'.heap a prop = .ref b) :
    (visit E rec a prop).Ends s Q := by
  unfold visit
  refine Comp.ends_get_bind ?_
  rw [hprop]
  refine hrec.bind ?_
  intro _ s' hs'
  refine Comp.ends_get_bind ?_
  rw [hkeep s' hs']
  exact Comp.ends_pure hs'

theorem visit_plain {p : Prim} (hp : ∀ t, p = .string t → ¬CIRCULAR <+: t)
    (hprop : property s.heap a prop = .prim p) :
    visit E rec a prop s = (.ok (), s) := by
  unfold visit
  rw [Comp.bind_ok (Comp.get_apply s), hprop]
  dsimp only
  rw [Comp.bind_ok (Comp.get_apply s), hprop]
  cases p with
  | string t =>
      dsimp only
      rw [inflate, if_neg (hp t rfl)]
      rfl
  | _ => rfl

theorem visit_survives {p : Prim} (hp : Survives p)
    (hprop : property s.heap a prop = .prim p) :
    visit E rec a prop s = (.ok (), s) := by
  refine visit_plain ?_ hprop
  rintro t rfl
  exact hp

theorem visit_reference (hprop : property s.heap a prop = .prim (.string t))
    (ht : CIRCULAR <+: t) :
    visit E rec a prop s = (.ok (), { s with
      heap := s.heap.modify a
        (setProperty prop (s.objCache.get E s.heap (t.drop 9))) }) := by
  unfold visit
  rw [Comp.bind_ok (Comp.get_apply s), hprop]
  dsimp only
  rw [Comp.bind_ok (Comp.get_apply s), hprop]
  dsimp only
  rw [inflate, if_pos ht]
  rfl

end Visit

/-- The numbers below `k` are in the cache. -/
def Cached (R : JsString → Nat) (k : Nat) (s : Deserializing) : Prop :=
  ∀ i, i < k → s.objCache.entries.lookup (decimal i) = some (R (decimal i))

theorem Cached.get {R : JsString → Nat} {k i : Nat} {s : Deserializing}
    (hcached : Cached R k s) (hi : i < k) (E : Engine) :
    s.objCache.get E s.heap (decimal i) = .ref (R (decimal i)) := by
  rw [ObjCache.get, hcached i hi]

/-- The nodes from `lo` on and below `hi` have been visited, and while the
loop runs over node `a` it has the values `vs`. -/
structure Inflated (R : JsString → Nat) (node : PlainNode)
    (vs : List PlainValue) (a lo hi k : Nat) (s s' : Deserializing) : Prop where
  current : s'.heap[a]? = some (withValues node vs)
  inside : ∀ b, lo ≤ b → b < hi → s'.heap[b]? = s.heap[b]?.map (clean R)
  outside : ∀ b, b ≠ a → b < lo ∨ hi ≤ b → s'.heap[b]? = s.heap[b]?
  cached : Cached R k s'

/-- The same without a current node. -/
structure Visited (R : JsString → Nat) (lo hi k : Nat)
    (s s' : Deserializing) : Prop where
  inside : ∀ b, lo ≤ b → b < hi → s'.heap[b]? = s.heap[b]?.map (clean R)
  outside : ∀ b, b < lo ∨ hi ≤ b → s'.heap[b]? = s.heap[b]?
  cached : Cached R k s'

/-- `R` names the objects from `lo` on and below `hi`. -/
def NamesIn (R : JsString → Nat) (h : PlainHeap) (lo hi : Nat) : Prop :=
  ∀ b i, lo ≤ b → b < hi → HasId h b i → R (decimal i) = b

theorem NamesIn.congr {R : JsString → Nat} {h h' : PlainHeap} {lo hi : Nat}
    (hR : NamesIn R h lo hi)
    (hkeep : ∀ b, lo ≤ b → b < hi → h'[b]? = h[b]?) :
    NamesIn R h' lo hi := by
  intro b i hlo hhi hid
  rw [HasId, property_congr (hkeep b hlo hhi)] at hid
  exact hR b i hlo hhi hid

theorem NamesIn.mono {R : JsString → Nat} {h : PlainHeap} {lo lo' hi hi' : Nat}
    (hR : NamesIn R h lo hi) (hlo : lo ≤ lo') (hhi : hi' ≤ hi) :
    NamesIn R h lo' hi' := fun b i hblo hbhi =>
  hR b i (hlo.trans hblo) (hbhi.trans_le hhi)

theorem Inflated.trans {R : JsString → Nat} {node : PlainNode}
    {vs ws : List PlainValue} {a lo mid hi k k' : Nat}
    {s s' s'' : Deserializing} (hfirst : Inflated R node vs a lo mid k s s')
    (hsecond : Inflated R node ws a mid hi k' s' s'') (ha : a < lo ∨ hi ≤ a)
    (hlo : lo ≤ mid) (hhi : mid ≤ hi) : Inflated R node ws a lo hi k' s s'' := by
  refine ⟨hsecond.current, fun b hblo hbhi => ?_, fun b hba hb => ?_,
    hsecond.cached⟩
  · by_cases hb : b < mid
    · rw [hsecond.outside b (by omega) (Or.inl hb), hfirst.inside b hblo hb]
    · rw [hsecond.inside b (by omega) hbhi,
        hfirst.outside b (by omega) (Or.inr (by omega))]
  · rw [hsecond.outside b hba (by omega), hfirst.outside b hba (by omega)]

/-- What the loop over the keys `ks` of a node does when their values hold
the trees `ts`. -/
def Inflates (E : Engine) (R : JsString → Nat) (k : Nat) (ts : List PlainTree)
    (k' : Nat) : Prop :=
  ∀ {s : Deserializing} {lo hi : Nat} {vs dv : List PlainValue} {a F : Nat}
    {node : PlainNode} {dk ks : List JsString},
    Spans s.heap (fun _ => False) lo vs ts hi → NamesIn R s.heap lo hi →
    a < lo ∨ hi ≤ a → s.heap[a]? = some (withValues node (dv ++ vs)) →
    keys node = dk ++ ks → Regular (keys node) → dk.length = dv.length →
    ks.length = vs.length → Cached R k s → hi ≤ F + lo →
    (visitAll E (deserialize E F) a ks).Ends s fun _ s' =>
      Inflated R node (dv ++ vs.map (resolve R)) a lo hi k' s s'

section Loop

variable {E : Engine} {R : JsString → Nat} {k k₁ k' : Nat}

theorem visitAll_cons {s : Deserializing} {lo mid hi a F : Nat}
    {node : PlainNode} {dk ks : List JsString} {key : JsString} {w : PlainValue}
    {dv vs : List PlainValue} {ts : List PlainTree}
    (hvisit : (visit E (deserialize E F) a key).Ends s fun _ s' =>
      Inflated R node (dv ++ resolve R w :: vs) a lo mid k₁ s s')
    (hrest : Inflates E R k₁ ts k')
    (hspans : Spans s.heap (fun _ => False) mid vs ts hi)
    (hR : NamesIn R s.heap lo hi) (ha : a < lo ∨ hi ≤ a) (hlo : lo ≤ mid)
    (hkeys : keys node = dk ++ key :: ks) (hregular : Regular (keys node))
    (hdone : dk.length = dv.length) (htodo : ks.length = vs.length)
    (hF : hi ≤ F + lo) :
    (visitAll E (deserialize E F) a (key :: ks)).Ends s fun _ s' =>
      Inflated R node (dv ++ (w :: vs).map (resolve R)) a lo hi k' s s' := by
  have hle := hspans.le
  refine hvisit.bind ?_
  intro _ s₁ h₁
  have hkeep (b : Nat) (hmid : mid ≤ b) (hhi : b < hi) :
      s₁.heap[b]? = s.heap[b]? := h₁.outside b (by omega) (Or.inr hmid)
  have hcurrent : s₁.heap[a]? =
      some (withValues node ((dv ++ [resolve R w]) ++ vs)) := by
    rw [h₁.current, List.append_assoc, List.singleton_append]
  have hkeys₁ : keys node = (dk ++ [key]) ++ ks := by
    rw [hkeys, List.append_assoc, List.singleton_append]
  have hspans₁ : Spans s₁.heap (fun _ => False) mid vs ts hi :=
    hspans.congr fun b hb => hb.elim (fun hb => hkeep b hb.1 hb.2) False.elim
  refine (hrest hspans₁ ((hR.mono hlo le_rfl).congr hkeep) (by omega) hcurrent
    hkeys₁ hregular (by simp [hdone]) htodo h₁.cached (by omega)).mono ?_
  intro _ s₂ h₂
  rw [List.append_assoc, List.singleton_append] at h₂
  exact h₁.trans h₂ ha hlo hle

/-- After `register` the heap lacks the `idCount` of the object. -/
def registered (b : Nat) (key : JsString) (s : Deserializing) : Deserializing where
  heap := s.heap.modify b (deleteProperty idCount)
  objCache := { s.objCache with entries := (key, b) :: s.objCache.entries }

theorem register_number {s : Deserializing} {b : Nat}
    (hid : property s.heap b idCount = .prim (.number (.finite k))) :
    register E b s = (.ok (), registered b (decimal k) s) := by
  have hkey : propertyKey E (s.heap.modify b (deleteProperty idCount))
      (.prim (.number (.finite k))) = some (decimal k) := by
    rw [propertyKey, if_pos ⟨Rat.den_natCast k, Rat.num_natCast k ▸ Int.natCast_nonneg k⟩,
      Rat.num_natCast, Int.toNat_natCast]
  have hlength : decimal k ≠ units "length" :=
    decimal_ne (u := 108) rfl (Or.inr (by decide)) k
  have hproto : decimal k ≠ Serializer.proto :=
    decimal_ne (u := 95) rfl (Or.inr (by decide)) k
  rw [register, hid, hkey]
  dsimp only
  rw [ObjCache.set, if_neg hlength, if_neg hproto]
  rfl

theorem register_undefined {s : Deserializing} {b : Nat}
    (hid : property s.heap b idCount = .prim .undefined) :
    register E b s = (.ok (), registered b (units "undefined") s) := by
  rw [register, hid]
  rfl

/-- A node is visited when the loop over what is left of it has ended. -/
theorem deserialize_visits {us : List PlainTree} {s : Deserializing}
    {lo b F : Nat} {key : JsString} {node : PlainNode}
    (hloop : Inflates E R k us k')
    (hreg : register E b s = (.ok (), registered b key s))
    (hnode : s.heap[b]? = some node)
    (hspans : Spans s.heap (fun _ => False) lo
      (deleteProperty idCount node).values us b)
    (hR : NamesIn R s.heap lo b)
    (hregular : Regular (keys (deleteProperty idCount node)))
    (hcached : Cached R k (registered b key s)) (hF : b ≤ F + lo) :
    (deserialize E (F + 1) b).Ends s fun _ s' => Visited R lo (b + 1) k' s s' := by
  have hle := hspans.le
  have hkeep (c : Nat) (hc : c ≠ b) :
      (registered b key s).heap[c]? = s.heap[c]? :=
    List.getElem?_modify_ne _ _ (Ne.symm hc)
  have hnode₁ : (registered b key s).heap[b]? =
      some (deleteProperty idCount node) := by
    rw [registered, List.getElem?_modify_eq, hnode]
    rfl
  rw [deserialize]
  refine Comp.ends_bind_of_ok hreg ?_
  refine Comp.ends_get_bind ?_
  have hkeys : (properties (registered b key s).heap (.ref b)).map Prod.fst =
      keys (deleteProperty idCount node) := by
    rw [properties, hnode₁]
    rfl
  rw [hkeys]
  have hspans₁ : Spans (registered b key s).heap (fun _ => False) lo
      (deleteProperty idCount node).values us b :=
    hspans.congr fun c hc => hc.elim (fun hc => hkeep c (by omega)) False.elim
  have hR₁ : NamesIn R (registered b key s).heap lo b :=
    hR.congr fun c _ hcb => hkeep c (by omega)
  refine (@hloop _ _ _ _ [] _ _ _ [] _ hspans₁ hR₁ (Or.inr le_rfl)
    (by rw [hnode₁, List.nil_append, withValues_values]) rfl hregular rfl
    (keys_length _) hcached hF).mono ?_
  intro _ s' h
  refine ⟨fun c hlo hhi => ?_, fun c hc => ?_, h.cached⟩
  · rcases Nat.lt_or_ge c b with hcb | hcb
    · rw [h.inside c hlo hcb, hkeep c (by omega)]
    · obtain rfl : c = b := by omega
      rw [h.current, hnode]
      rfl
  · rw [h.outside c (by omega) (by omega), hkeep c (by omega)]

/-- The node under a property is visited; then the property holds what it held
before. -/
theorem visit_node {s : Deserializing} {lo a b F : Nat} {node : PlainNode}
    {dk ks : List JsString} {key : JsString} {dv vs : List PlainValue}
    (hdes : (deserialize E F b).Ends s fun _ s' => Visited R lo (b + 1) k' s s')
    (ha : a < lo ∨ b < a)
    (hcurrent : s.heap[a]? = some (withValues node (dv ++ .ref b :: vs)))
    (hkeys : keys node = dk ++ key :: ks) (hregular : Regular (keys node))
    (hdone : dk.length = dv.length) (htodo : ks.length = vs.length) :
    (visit E (deserialize E F) a key).Ends s fun _ s' =>
      Inflated R node (dv ++ resolve R (.ref b) :: vs) a lo (b + 1) k' s s' := by
  have hkeep (s' : Deserializing) (h : Visited R lo (b + 1) k' s s') :
      s'.heap[a]? = some (withValues node (dv ++ .ref b :: vs)) := by
    rw [h.outside a (by omega), hcurrent]
  have hprop {h : PlainHeap}
      (hnode : h[a]? = some (withValues node (dv ++ .ref b :: vs))) :
      property h a key = .ref b :=
    property_withValues hnode hkeys hregular.1 hdone htodo
  refine (visit_ref (hprop hcurrent) hdes fun s' h => hprop (hkeep s' h)).mono ?_
  intro _ s' h
  exact ⟨hkeep s' h, h.inside, fun c _ hc => h.outside c hc, h.cached⟩

/-- The loop inflates whatever is numbered. -/
theorem Numbered.inflates {ts : List PlainTree} (hnum : Numbered k ts k') :
    Inflates E R k ts k' := by
  induction hnum with
  | nil =>
      intro s lo hi vs dv a F node dk ks hspans _ _ hcurrent hkeys _ _ htodo
        hcached _
      cases hspans
      obtain rfl : ks = [] := List.length_eq_zero_iff.mp htodo
      exact Comp.ends_pure ⟨hcurrent, by intros; omega, by intros; rfl, hcached⟩
  | @prim k p ts k' hp hrest ih =>
      intro s lo hi vs dv a F node dk ks hspans hR ha hcurrent hkeys hregular
        hdone htodo hcached hF
      cases hspans with
      | @prim _ _ vs _ _ hsrest =>
          obtain ⟨key, ks, rfl⟩ := List.exists_cons_of_length_eq_add_one htodo
          have htodo := Nat.succ.inj htodo
          have hprop : property s.heap a key = .prim p :=
            property_withValues hcurrent hkeys hregular.1 hdone htodo
          refine visitAll_cons ⟨(), s, visit_survives hp hprop, ?_⟩ ih hsrest hR
            ha le_rfl hkeys hregular hdone htodo hF
          rw [resolve_survives R hp]
          exact ⟨hcurrent, by intros; omega, by intros; rfl, hcached⟩
  | @back k i ts k' hi hrest ih =>
      intro s lo hi' vs dv a F node dk ks hspans hR ha hcurrent hkeys hregular
        hdone htodo hcached hF
      cases hspans with
      | @prim _ _ vs _ _ hsrest =>
          obtain ⟨key, ks, rfl⟩ := List.exists_cons_of_length_eq_add_one htodo
          have htodo := Nat.succ.inj htodo
          have hprop : property s.heap a key = .prim (circular i) :=
            property_withValues hcurrent hkeys hregular.1 hdone htodo
          have hvisit := @visit_reference E (deserialize E F) _ _ _ _ hprop
            (circular_starts i)
          rw [circular_index, hcached.get hi E] at hvisit
          refine visitAll_cons ⟨(), _, hvisit, ?_⟩ ih hsrest hR ha le_rfl hkeys
            hregular hdone htodo hF
          rw [resolve_circular]
          refine ⟨?_, by intros; omega,
            fun b hb _ => List.getElem?_modify_ne _ _ (Ne.symm hb), hcached⟩
          rw [List.getElem?_modify_eq, hcurrent]
          exact congrArg some
            (setProperty_withValues hkeys hregular hdone htodo _)
  | @array k us k₁ ts k' helements hrest ihelements ihrest =>
      intro s lo hi vs dv a F node dk ks hspans hR ha hcurrent hkeys hregular
        hdone htodo hcached hF
      cases hspans with
      | shared hfalse => exact hfalse.elim
      | @array _ b es _ vs _ _ hselements hnode hsrest =>
          have hle := hselements.le
          have hle' := hsrest.le
          obtain ⟨key, ks, rfl⟩ := List.exists_cons_of_length_eq_add_one htodo
          have htodo := Nat.succ.inj htodo
          obtain ⟨F, rfl⟩ : ∃ F', F = F' + 1 := ⟨F - 1, by omega⟩
          have hcached₁ : Cached R k (registered b (units "undefined") s) := by
            intro i hi
            have hne : decimal i ≠ units "undefined" :=
              decimal_ne (u := 117) rfl (Or.inr (by decide)) i
            rw [registered, List.lookup_cons, beq_false_of_ne hne]
            exact hcached i hi
          have hregular₁ : Regular (keys (deleteProperty idCount (.array es))) := by
            obtain ⟨hnodup, hunreserved⟩ := indexed_unreserved es
            exact ⟨hnodup, fun hmem => hunreserved _ hmem (by simp [reserved])⟩
          have hdes := deserialize_visits ihelements
            (register_undefined (E := E) (property_array hnode)) hnode hselements
            (hR.mono le_rfl (by omega)) hregular₁ hcached₁ (F := F) (by omega)
          exact visitAll_cons (visit_node hdes (by omega) hcurrent hkeys hregular
            hdone htodo) ihrest hsrest hR ha (by omega) hkeys hregular hdone htodo
            hF
  | @object k k₁ k' ms ts hmembers hregular' hidCount hrest ihmembers ihrest =>
      intro s lo hi vs dv a F node dk ks hspans hR ha hcurrent hkeys hregular
        hdone htodo hcached hF
      cases hspans with
      | @object _ b fs _ vs _ _ hsvalues hnode hskeys hsrest =>
          have hle := hsvalues.le
          have hle' := hsrest.le
          obtain ⟨fs, rfl, hfs, hsmembers⟩ := object_fields hsvalues hskeys
          obtain ⟨key, ks, rfl⟩ := List.exists_cons_of_length_eq_add_one htodo
          have htodo := Nat.succ.inj htodo
          obtain ⟨F, rfl⟩ : ∃ F', F = F' + 1 := ⟨F - 1, by omega⟩
          have hid := property_object hnode
          have hcached₁ : Cached R (k + 1) (registered b (decimal k) s) := by
            intro i hi
            rw [registered, List.lookup_cons]
            by_cases hik : i = k
            · subst hik
              rw [beq_self_eq_true, hR b i hle (by omega) hid]
            · rw [beq_false_of_ne fun heq => hik (decimal_injective heq)]
              exact hcached i (by omega)
          have hdelete := delete_idCount (hfs ▸ hidCount)
            (.prim (.number (.finite k)))
          have hdes := deserialize_visits ihmembers (register_number (E := E) hid)
            hnode (by rw [hdelete]; exact hsmembers) (hR.mono le_rfl (by omega))
            (by rw [hdelete, keys, nodeProperties, hfs]; exact hregular')
            hcached₁ (F := F) (by omega)
          exact visitAll_cons (visit_node hdes (by omega) hcurrent hkeys hregular
            hdone htodo) ihrest hsrest hR ha (by omega) hkeys hregular hdone htodo
            hF

end Loop

/-! ## What JSON keeps -/

/-- A member that `JSON.stringify` writes. -/
def Written : PlainTree → Prop
  | .prim .undefined => False
  | .prim (.builtin _) => False
  | _ => True

theorem stringifiedMembers_eq {ms : List (JsString × PlainTree)}
    (hwritten : ∀ t ∈ ms.map Prod.snd, Written t)
    (hsame : stringifiedElements (ms.map Prod.snd) = ms.map Prod.snd) :
    stringifiedMembers ms = ms := by
  induction ms with
  | nil => rfl
  | cons m ms ih =>
      obtain ⟨k, t⟩ := m
      rw [List.map_cons, List.forall_mem_cons] at hwritten
      rw [List.map_cons, stringifiedElements, List.cons.injEq] at hsame
      rw [stringifiedMembers]
      · rw [hsame.1, ih hwritten.2 hsame.2]
      · rintro rfl
        exact hwritten.1
      · rintro p rfl
        exact hwritten.1

theorem stringified_survives {p : Prim} (hp : Survives p) :
    stringified (.prim p) = .prim p := by
  cases p with
  | number n =>
      cases n with
      | finite q => rfl
      | _ => exact hp.elim
  | undefined => exact hp.elim
  | builtin name => exact hp.elim
  | _ => rfl

/-- The trees are JSON as they are. -/
structure Literal (ts : List PlainTree) : Prop where
  same : stringifiedElements ts = ts
  written : ∀ t ∈ ts, Written t

namespace Literal

variable {us ts : List PlainTree}

theorem nil : Literal [] := ⟨rfl, List.forall_mem_nil _⟩

theorem prim {p : Prim} (hp : stringified (.prim p) = .prim p)
    (hts : Literal ts) : Literal (.prim p :: ts) where
  same := by rw [stringifiedElements, hp, hts.same]
  written := by
    refine List.forall_mem_cons.mpr ⟨?_, hts.written⟩
    cases p with
    | undefined => cases hp
    | builtin name => cases hp
    | _ => trivial

theorem array (hus : Literal us) (hts : Literal ts) :
    Literal (.array us :: ts) where
  same := by rw [stringifiedElements, stringified, hus.same, hts.same]
  written := List.forall_mem_cons.mpr ⟨trivial, hts.written⟩

/-- An object with its number. -/
theorem object {ms : List (JsString × PlainTree)} (i : Nat)
    (hms : Literal (ms.map Prod.snd)) (hts : Literal ts) :
    Literal (.object ((idCount, .prim (.number (.finite i))) :: ms) :: ts) where
  same := by
    rw [stringifiedElements, stringified, stringifiedMembers,
      stringifiedMembers_eq hms.written hms.same, hts.same]
    · rfl
    · exact nofun
    · exact nofun
  written := List.forall_mem_cons.mpr ⟨trivial, hts.written⟩

end Literal

theorem Numbered.literal {k k' : Nat} {ts : List PlainTree}
    (hnum : Numbered k ts k') : Literal ts := by
  induction hnum with
  | nil => exact .nil
  | prim hp _ ih => exact .prim (stringified_survives hp) ih
  | back _ _ ih => exact .prim rfl ih
  | array _ _ ihelements ihrest => exact .array ihelements ihrest
  | object _ _ _ _ ihmembers ihrest => exact .object _ ihmembers ihrest

/-! ## Graphs of plain objects -/

/-- A graph of plain objects whose arrays hold plain objects, with primitive
values that JSON keeps and that do not look like references. -/
structure PlainGraph extends Graph where
  root : Nat
  root_object : IsObject nodes root
  primitives : ∀ fs, .object fs ∈ nodes → ∀ p, .prim p ∈ fs.map Prod.snd →
    Survives p
  arrays : ∀ es, .array es ∈ nodes → ∀ e ∈ es, ∃ a, e = .ref a ∧
    IsObject nodes a

/-- What can stand where in such a graph. -/
def PlainAt (g : PlainGraph) : Place → PlainValue → Prop
  | .property, v => ∀ p, v = .prim p → Survives p
  | .element, v => ∃ a, v = .ref a ∧ IsObject g.nodes a

section Plain

variable {g : PlainGraph} {place : Place} {c c' vs : List PlainValue}
  {ts : List PlainTree}

theorem PlainGraph.fields_plain {a : Nat} {fs : List (JsString × PlainValue)}
    (hnode : g.nodes[a]? = some (.object fs)) :
    ∀ v ∈ fs.map Prod.snd, PlainAt g .property v := by
  rintro v hv p rfl
  exact g.primitives fs (List.mem_of_getElem? hnode) p hv

theorem PlainGraph.elements_plain {a : Nat} {es : List PlainValue}
    (hnode : g.nodes[a]? = some (.array es)) :
    ∀ v ∈ es, PlainAt g .element v :=
  g.arrays es (List.mem_of_getElem? hnode)

/-- Only objects go through the cache. -/
theorem PlainAt.object {v : PlainValue} (hv : PlainAt g place v)
    (href : Referenced g.nodes place v) :
    ∃ a fs, v = .ref a ∧ g.nodes[a]? = some (.object fs) := by
  cases place with
  | property =>
      rcases href with hplace | ⟨a, ha, fs, hfs⟩
      · cases hplace
      · exact ⟨a, fs, ha, hfs⟩
  | element =>
      obtain ⟨a, ha, fs, hfs⟩ := hv
      exact ⟨a, fs, ha, hfs⟩

theorem properties_object {h : PlainHeap} {a : Nat}
    {fs : List (JsString × PlainValue)} (hnode : h[a]? = some (.object fs)) :
    properties h (.ref a) = fs := by
  rw [properties, hnode]
  rfl

theorem getElem?_of_indexOf {objCache : List PlainValue} {v : PlainValue} {i : Nat}
    (hi : indexOf objCache v = some i) : objCache[i]? = some v := by
  rw [indexOf, List.findIdx?_eq_some_iff_getElem] at hi
  obtain ⟨hlt, heq, _⟩ := hi
  rw [List.getElem?_eq_getElem hlt]
  unfold strictEquals at heq
  split at heq
  · cases heq
  · exact congrArg some (of_decide_eq_true heq).symm

theorem indexNumber_ref {a : Nat} (hfresh : indexOf c (.ref a) = none) :
    indexNumber (c ++ [.ref a]) (.ref a) = .finite c.length := by
  rw [indexNumber, indexOf_push hfresh (by simp)]

/-- Zipping keys with as many trees. -/
theorem zip_keys {A : Type} {fs : List (JsString × PlainValue)} {us : List A}
    (hlength : (fs.map Prod.snd).length = us.length) :
    ((fs.map Prod.fst).zip us).map Prod.fst = fs.map Prod.fst ∧
      ((fs.map Prod.fst).zip us).map Prod.snd = us := by
  rw [List.length_map] at hlength
  exact ⟨List.map_fst_zip (by rw [List.length_map, hlength]),
    List.map_snd_zip (by rw [List.length_map, hlength])⟩

theorem Encodes.numbered (henc : Encodes g.nodes place c vs ts c')
    (hvs : ∀ v ∈ vs, PlainAt g place v) : Numbered c.length ts c'.length := by
  induction henc with
  | nil => exact .nil
  | prim _ ih =>
      rw [List.forall_mem_cons] at hvs
      exact .prim (hvs.1 _ rfl) (ih hvs.2)
  | array hnode _ _ ihelements ihrest =>
      rw [List.forall_mem_cons] at hvs
      exact .array (ihelements (PlainGraph.elements_plain hnode)) (ihrest hvs.2)
  | seen _ hseen _ ih =>
      rw [List.forall_mem_cons] at hvs
      exact .back (List.getElem?_eq_some_iff.mp (getElem?_of_indexOf hseen)).1
        (ih hvs.2)
  | fresh href hfresh hproperties _ ihproperties ihrest =>
      rw [List.forall_mem_cons] at hvs
      obtain ⟨a, fs, rfl, hnode⟩ := hvs.1.object href
      have hmem := List.mem_of_getElem? hnode
      rw [properties_object hnode] at hproperties ihproperties ⊢
      rw [indexNumber_ref hfresh]
      obtain ⟨hkeys, hvalues⟩ := zip_keys hproperties.length_eq
      have hnum := ihproperties (PlainGraph.fields_plain hnode)
      rw [List.length_append, List.length_singleton] at hnum
      have hreserved {k : JsString} (hk : k ∈ reserved) :
          k ∉ fs.map Prod.fst := fun hin => g.unreserved fs hmem k hin hk
      refine .object ?_ ⟨?_, ?_⟩ ?_ (ihrest hvs.2)
      · rwa [hvalues]
      · rw [hkeys]
        exact g.distinct fs hmem
      · rw [hkeys]
        exact hreserved (by simp [reserved])
      · rw [hkeys]
        exact hreserved (by simp [reserved])

/-- Nothing is pushed twice. -/
theorem Encodes.nodup (henc : Encodes g.nodes place c vs ts c')
    (hvs : ∀ v ∈ vs, PlainAt g place v) (hc : c.Nodup) : c'.Nodup := by
  induction henc with
  | nil => exact hc
  | prim _ ih =>
      rw [List.forall_mem_cons] at hvs
      exact ih hvs.2 hc
  | array hnode _ _ ihelements ihrest =>
      rw [List.forall_mem_cons] at hvs
      exact ihrest hvs.2 (ihelements (PlainGraph.elements_plain hnode) hc)
  | seen _ _ _ ih =>
      rw [List.forall_mem_cons] at hvs
      exact ih hvs.2 hc
  | fresh href hfresh _ _ ihproperties ihrest =>
      rw [List.forall_mem_cons] at hvs
      obtain ⟨a, fs, rfl, hnode⟩ := hvs.1.object href
      rw [properties_object hnode] at ihproperties
      refine ihrest hvs.2 (ihproperties (PlainGraph.fields_plain hnode) ?_)
      refine List.nodup_append_comm.mp (List.nodup_cons.mpr ⟨fun hmem => ?_, hc⟩)
      rw [indexOf, List.findIdx?_eq_none_iff] at hfresh
      have hself : strictEquals (.ref a) (.ref a) = true :=
        strictEquals_self (by simp)
      have hother := hfresh _ hmem
      rw [hself] at hother
      cases hother

end Plain

/-! ## The inflated graph -/

/-- The object with the number of `b` stands for `b`. -/
def Represents (R : JsString → Nat) (C : List PlainValue) (b m : Nat) : Prop :=
  ∃ i, C[i]? = some (.ref b) ∧ R (decimal i) = m

theorem clean_array (R : JsString → Nat) (es : List PlainValue) :
    clean R (.array es) = .array (es.map (resolve R)) := rfl

theorem clean_object (R : JsString → Nat) {fs : List (JsString × PlainValue)}
    (hfs : idCount ∉ fs.map Prod.fst) (v : PlainValue) :
    clean R (.object ((idCount, v) :: fs)) =
      .object ((fs.map Prod.fst).zip ((fs.map Prod.snd).map (resolve R))) := by
  rw [clean, delete_idCount hfs]
  rfl

/-- The values that the loop leaves agree with those of the graph, and each
object that was pushed agrees with the one that has its number. -/
theorem Encodes.same {g : PlainGraph} {place : Place}
    {c c' vs C : List PlainValue} {ts : List PlainTree}
    (henc : Encodes g.nodes place c vs ts c')
    (hvs : ∀ v ∈ vs, PlainAt g place v) (hC : c' <+: C) {R : JsString → Nat}
    {h h' : PlainHeap} {lo hi : Nat} {ws : List PlainValue}
    (hspans : Spans h (fun _ => False) lo ws ts hi) (hR : NamesIn R h lo hi)
    (hclean : ∀ b, lo ≤ b → b < hi → h'[b]? = h[b]?.map (clean R))
    (hobjects : ∀ i, i < C.length → IsObject h' (R (decimal i))) :
    SameValues (Represents R C) g.nodes h' vs (ws.map (resolve R)) ∧
      ∀ i, c.length ≤ i → i < c'.length → ∃ b, C[i]? = some (.ref b) ∧
        SameObject (Represents R C) g.nodes h' b (R (decimal i)) := by
  induction henc generalizing lo hi ws with
  | nil =>
      cases hspans
      exact ⟨.nil, by intros; omega⟩
  | prim hrest ih =>
      rw [List.forall_mem_cons] at hvs
      cases hspans with
      | prim hsrest =>
          obtain ⟨hsame, hpushed⟩ := ih hvs.2 hC hsrest hR hclean
          rw [List.map_cons, resolve_survives R (hvs.1 _ rfl)]
          exact ⟨.prim hsame, hpushed⟩
  | @array c a es us c₁ vs ts c' hnode helements hrest ihelements ihrest =>
      rw [List.forall_mem_cons] at hvs
      cases hspans with
      | shared hfalse => exact hfalse.elim
      | @array _ m es' _ _ _ _ hselements hnode' hsrest =>
          have hle := hselements.le
          have hle' := hsrest.le
          obtain ⟨hsame, hpushed⟩ := ihelements (PlainGraph.elements_plain hnode)
            (hrest.cache_grows.trans hC) hselements (hR.mono le_rfl (by omega))
            (fun b hlo hhi => hclean b hlo (by omega))
          obtain ⟨hsame', hpushed'⟩ := ihrest hvs.2 hC hsrest
            (hR.mono (by omega) le_rfl) (fun b hlo hhi => hclean b (by omega) hhi)
          have harray : h'[m]? = some (.array (es'.map (resolve R))) := by
            rw [hclean m hle (by omega), hnode', Option.map_some, clean_array]
          refine ⟨.array hnode harray hsame hsame', fun i hlo hhi => ?_⟩
          by_cases hi : i < c₁.length
          · exact hpushed i hlo hi
          · exact hpushed' i (Nat.le_of_not_lt hi) hhi
  | @seen place c v i vs ts c' href hseen hrest ih =>
      rw [List.forall_mem_cons] at hvs
      obtain ⟨b, fs, rfl, hnode⟩ := hvs.1.object href
      cases hspans with
      | prim hsrest =>
          obtain ⟨hsame, hpushed⟩ := ih hvs.2 hC hsrest hR hclean
          have hCi : C[i]? = some (.ref b) :=
            getElem?_grows (hrest.cache_grows.trans hC)
              (getElem?_of_indexOf hseen)
          have hi := (List.getElem?_eq_some_iff.mp hCi).1
          rw [List.map_cons, resolve_circular]
          exact ⟨.object ⟨fs, hnode⟩ (hobjects i hi) ⟨i, hCi, rfl⟩ hsame, hpushed⟩
  | @fresh place c v us c₁ vs ts c' href hfresh hproperties hrest ihproperties
      ihrest =>
      rw [List.forall_mem_cons] at hvs
      obtain ⟨b, fs, rfl, hnode⟩ := hvs.1.object href
      rw [properties_object hnode] at hproperties ihproperties hspans
      rw [indexNumber_ref hfresh] at hspans
      obtain ⟨hkeys, hvalues⟩ := zip_keys hproperties.length_eq
      cases hspans with
      | @object _ m fs' _ _ _ _ hsvalues hnode' hskeys hsrest =>
          obtain ⟨fs', rfl, hfs', hsmembers⟩ := object_fields hsvalues hskeys
          rw [hkeys] at hfs'
          rw [hvalues] at hsmembers
          have hle := hsmembers.le
          have hle' := hsrest.le
          obtain ⟨hsame, hpushed⟩ := ihproperties (PlainGraph.fields_plain hnode)
            (hrest.cache_grows.trans hC) hsmembers (hR.mono le_rfl (by omega))
            (fun b hlo hhi => hclean b hlo (by omega))
          obtain ⟨hsame', hpushed'⟩ := ihrest hvs.2 hC hsrest
            (hR.mono (by omega) le_rfl) (fun b hlo hhi => hclean b (by omega) hhi)
          have hidCount : idCount ∉ fs'.map Prod.fst := by
            rw [hfs']
            exact fun hin => g.unreserved fs (List.mem_of_getElem? hnode) _ hin
              List.mem_cons_self
          have hobject := hclean m hle (by omega)
          rw [hnode', Option.map_some, clean_object R hidCount, hfs'] at hobject
          have hid : R (decimal c.length) = m :=
            hR m c.length hle (by omega) (property_object hnode')
          have hCi : C[c.length]? = some (.ref b) :=
            getElem?_grows
              (hproperties.cache_grows.trans (hrest.cache_grows.trans hC))
              List.getElem?_concat_length
          have hzip := @zip_keys _ fs ((fs'.map Prod.snd).map (resolve R)) (by
            rw [List.length_map, List.length_map, List.length_map,
              ← @List.length_map _ _ fs' Prod.fst, hfs', List.length_map])
          have hsameObject : SameObject (Represents R C) g.nodes h' b m :=
            ⟨fs, _, hnode, hobject, hzip.1.symm, by rw [hzip.2]; exact hsame⟩
          refine ⟨.object ⟨fs, hnode⟩ ⟨_, hobject⟩ ⟨_, hCi, hid⟩ hsame',
            fun i hlo hhi => ?_⟩
          rcases Nat.lt_or_eq_of_le hlo with hlt | rfl
          · by_cases hi : i < c₁.length
            · exact hpushed i (by rwa [List.length_append]) hi
            · exact hpushed' i (Nat.le_of_not_lt hi) hhi
          · exact ⟨b, hCi, hid ▸ hsameObject⟩

open Classical in
theorem Named.names {h : PlainHeap} {lo hi k k' : Nat}
    (hnamed : Named h lo hi k k') :
    ∃ R, NamesIn R h lo hi ∧
      ∀ i, k ≤ i → i < k' → HasId h (R (decimal i)) i ∧
        lo ≤ R (decimal i) ∧ R (decimal i) < hi := by
  let named (t : JsString) (a : Nat) : Prop :=
    ∃ i, t = decimal i ∧ lo ≤ a ∧ a < hi ∧ HasId h a i
  let R (t : JsString) : Nat := if ht : ∃ a, named t a then ht.choose else 0
  have hR {a i : Nat} (ha : named (decimal i) a) : named (decimal i) (R (decimal i)) := by
    have hex : ∃ a, named (decimal i) a := ⟨a, ha⟩
    have hchoose : R (decimal i) = hex.choose := dif_pos hex
    rw [hchoose]
    exact hex.choose_spec
  refine ⟨R, fun a i hlo hhi hid => ?_, fun i hk hk' => ?_⟩
  · obtain ⟨j, hij, hlo', hhi', hid'⟩ := hR ⟨i, rfl, hlo, hhi, hid⟩
    cases decimal_injective hij
    exact hnamed.unique _ _ i hlo' hhi' hlo hhi hid' hid
  · obtain ⟨a, hlo, hhi, hid⟩ := hnamed.exist i hk hk'
    obtain ⟨j, hij, hlo', hhi', hid'⟩ := hR ⟨i, rfl, hlo, hhi, hid⟩
    cases decimal_injective hij
    exact ⟨hid', hlo', hhi'⟩

/-- An object with a number stays an object. -/
theorem HasId.isObject {h h' : PlainHeap} {a i : Nat} {R : JsString → Nat}
    (hid : HasId h a i) (hclean : h'[a]? = h[a]?.map (clean R)) :
    IsObject h' a := by
  cases hnode : h[a]? with
  | none =>
      rw [HasId, property, properties, hnode] at hid
      cases hid
  | some node =>
      cases node with
      | array es => exact absurd hid (not_hasId_array hnode)
      | object fs =>
          rw [hnode, Option.map_some] at hclean
          exact ⟨_, hclean⟩

/-- `deserialize` on the text of a numbered tree. -/
theorem deserializeGraph_numbered (E : Engine) {ms : List (JsString × PlainTree)}
    {k : Nat} (hmembers : Numbered 1 (ms.map Prod.snd) k)
    (hregular : Regular (ms.map Prod.fst)) (hidCount : idCount ∉ ms.map Prod.fst)
    (h : PlainHeap) :
    ∃ R a H, ∃ fs : List (JsString × PlainValue),
      NamesIn R H h.length (a + 1) ∧
      (∀ i, i < k → HasId H (R (decimal i)) i ∧ h.length ≤ R (decimal i) ∧
        R (decimal i) < a + 1) ∧
      R (decimal 0) = a ∧
      H[a]? = some (.object ((idCount, .prim (.number (.finite 0))) :: fs)) ∧
      fs.map Prod.fst = ms.map Prod.fst ∧
      Spans H (fun _ => False) h.length (fs.map Prod.snd) (ms.map Prod.snd) a ∧
      ∀ m, a < m → ∃ s', deserializeGraph E m h
          (.text (.object ((idCount, .prim (.number (.finite 0))) :: ms))) =
            (.ok (.ref a), s') ∧
        ∀ b, h.length ≤ b → b < a + 1 → s'.heap[b]? = H[b]?.map (clean R) := by
  have hzero : (.finite 0 : Number) = .finite ((0 : Nat) : ℚ) := by
    rw [Nat.cast_zero]
  rw [hzero]
  have hnum : Numbered 0 [.object ((idCount,
      .prim (.number (.finite ((0 : Nat) : ℚ)))) :: ms)] k :=
    .object hmembers hregular hidCount .nil
  obtain ⟨hext, hspans⟩ := load_spec (fun _ => False)
    (.object ((idCount, .prim (.number (.finite ((0 : Nat) : ℚ)))) :: ms)) h
  generalize hload : load (.object ((idCount,
    .prim (.number (.finite ((0 : Nat) : ℚ)))) :: ms)) h = loaded at hext hspans
  obtain ⟨v, H⟩ := loaded
  obtain ⟨R, hR, hnamed⟩ := (hnum.named hspans).names
  cases hspans with
  | @object _ a fs _ _ _ _ hvalues hnode hkeys hnil =>
      have hH : a + 1 = H.length := hnil.eq_of_nil
      change NamesIn R H h.length H.length at hR
      dsimp only at hnamed
      rw [← hH] at hR hnamed
      obtain ⟨fs, rfl, hfs, hsmembers⟩ := object_fields hvalues hkeys
      have hle : h.length ≤ a := hsmembers.le
      have hid : HasId H a 0 := property_object hnode
      have ha : R (decimal 0) = a := hR a 0 hle (by omega) hid
      have hidCount' : idCount ∉ fs.map Prod.fst := hfs ▸ hidCount
      have hdelete := delete_idCount hidCount'
        (.prim (.number (.finite ((0 : Nat) : ℚ))))
      refine ⟨R, a, H, fs, hR, fun i hi => hnamed i (Nat.zero_le i) hi, ha, hnode,
        hfs, hsmembers, fun m hm => ?_⟩
      obtain ⟨m, rfl⟩ : ∃ F, m = F + 1 := ⟨m - 1, by omega⟩
      let s₀ : Deserializing := { heap := H, objCache := { entries := [], proto := none } }
      have hcached : Cached R 1 (registered a (decimal 0) s₀) := by
        intro i hi
        obtain rfl : i = 0 := by omega
        rw [registered, List.lookup_cons_self, ha]
      obtain ⟨_, s', hrun, hvisited⟩ := deserialize_visits (s := s₀)
        (hmembers.inflates (E := E) (R := R)) (register_number (E := E) hid) hnode
        (by rw [hdelete]; exact hsmembers) (hR.mono le_rfl (by omega))
        (by rw [hdelete, keys, nodeProperties, hfs]; exact hregular) hcached
        (F := m) (by omega)
      refine ⟨s', ?_, hvisited.inside⟩
      rw [deserializeGraph]
      dsimp only
      rw [hload]
      exact Comp.bind_ok hrun _

/-- Entries of the cache stand for one object each. -/
theorem represents_bisim {R : JsString → Nat} {C : List PlainValue}
    {h H h' : PlainHeap} (hnodup : C.Nodup)
    (hids : ∀ i < C.length, HasId H (R (decimal i)) i)
    (hsame : ∀ i < C.length, ∃ b, C[i]? = some (.ref b) ∧
      SameObject (Represents R C) h h' b (R (decimal i))) :
    Bisim (Represents R C) h h' where
  left := by
    rintro b m m' ⟨i, hi, rfl⟩ ⟨j, hj, rfl⟩
    have hlt := (List.getElem?_eq_some_iff.mp hi).1
    rw [(List.getElem?_inj hlt hnodup).mp (hi.trans hj.symm)]
  right := by
    rintro b b' m ⟨i, hi, rfl⟩ ⟨j, hj, hij⟩
    have hidi := hids i (List.getElem?_eq_some_iff.mp hi).1
    have hidj := hids j (List.getElem?_eq_some_iff.mp hj).1
    rw [hij, HasId, hidi] at hidj
    have hcast : (i : ℚ) = j := by simpa using hidj
    obtain rfl := Nat.cast_injective hcast
    rw [hi] at hj
    cases hj
    rfl
  same := by
    rintro b m ⟨i, hi, rfl⟩
    obtain ⟨b', hb', hsame'⟩ := hsame i (List.getElem?_eq_some_iff.mp hi).1
    rw [hi] at hb'
    cases hb'
    exact hsame'

/-- The graph that is inflated from the text of a graph. -/
theorem PlainGraph.inflated (E : Engine) (g : PlainGraph) {n : Nat}
    (hn : g.values.length ≤ n) :
    ∃ M, ∀ m, M ≤ m → ∃ r h,
      roundTrip E (n + 1) m g.nodes (.ref g.root) = (.ok (.ref r), h) ∧
      Isomorphic g.nodes g.root h r := by
  obtain ⟨fs, hroot⟩ := g.root_object
  have hhas : g.Has (.ref g.root) := by
    rintro a ha
    cases ha
    exact (List.getElem?_eq_some_iff.mp hroot).1
  obtain ⟨w, s, hrun, hbuilt⟩ := newObject_built E hhas hn
  obtain ⟨us, henc, hunfold⟩ := hbuilt.unfold
  have htext := serializeGraph_eq hrun hbuilt hunfold
  rw [properties_object hroot] at henc htext
  dsimp only at henc
  have hfields := PlainGraph.fields_plain hroot
  have hmem := List.mem_of_getElem? hroot
  have hnum : Numbered 1 us s.objCache.length := henc.numbered hfields
  obtain ⟨hkeys, hvalues⟩ := zip_keys henc.length_eq
  generalize (fs.map Prod.fst).zip us = ms at hkeys hvalues htext
  rw [← hvalues] at hnum henc
  have hreserved {k : JsString} (hk : k ∈ reserved) : k ∉ ms.map Prod.fst := by
    rw [hkeys]
    exact fun hin => g.unreserved fs hmem k hin hk
  have hregular : Regular (ms.map Prod.fst) :=
    ⟨hkeys ▸ g.distinct fs hmem, hreserved (by simp [reserved])⟩
  have hstringified : stringified
      (.object ((idCount, .prim (.number (.finite 0))) :: ms)) =
        .object ((idCount, .prim (.number (.finite 0))) :: ms) := by
    rw [stringified, stringifiedMembers, stringifiedMembers_eq hnum.literal.written
      hnum.literal.same]
    · rfl
    · simp
    · simp
  rw [hstringified] at htext
  obtain ⟨R, a, H, fs', hR, hnamed, hzero, hnode, hfs', hspans, hdes⟩ :=
    deserializeGraph_numbered E hnum hregular (hreserved (by simp [reserved]))
      s.heap
  refine ⟨a + 1, fun m hm => ?_⟩
  obtain ⟨s', hrun', hclean⟩ := hdes m hm
  refine ⟨a, s'.heap, by rw [roundTrip, htext]; dsimp only; rw [hrun'], ?_⟩
  have hle : s.heap.length ≤ a := hspans.le
  obtain ⟨hsame, hpushed⟩ := henc.same hfields (List.prefix_refl _) hspans
    (hR.mono le_rfl (by omega)) (fun b hlo hhi => hclean b hlo (by omega))
    (fun i hi => (hnamed i hi).1.isObject
      (hclean _ (hnamed i hi).2.1 (hnamed i hi).2.2))
  have hfirst : s.objCache[0]? = some (.ref g.root) :=
    getElem?_grows henc.cache_grows rfl
  have hrootSame : SameObject (Represents R s.objCache) g.nodes s'.heap g.root
      (R (decimal 0)) := by
    have hobject := hclean a hle (by omega)
    rw [hnode, Option.map_some,
      clean_object R (hfs' ▸ hreserved (by simp [reserved])), hfs', hkeys] at hobject
    have hzip := @zip_keys _ fs ((fs'.map Prod.snd).map (resolve R)) (by
      rw [List.length_map, List.length_map, List.length_map,
        ← @List.length_map _ _ fs' Prod.fst, hfs', hkeys, List.length_map])
    rw [hzero]
    exact ⟨fs, _, hroot, hobject, hzip.1.symm, by rw [hzip.2]; exact hsame⟩
  refine (represents_bisim (henc.nodup hfields (List.nodup_singleton _))
    (fun i hi => (hnamed i hi).1) fun i hi => ?_).isomorphic ⟨0, hfirst, hzero⟩
  rcases Nat.eq_zero_or_pos i with rfl | hpos
  · exact ⟨g.root, hfirst, hrootSame⟩
  · exact hpushed i hpos hi

/-- Every graph of plain objects survives, with its sharing and its cycles. -/
theorem graph_survives (E : Engine) (g : PlainGraph) {n : Nat}
    (hn : g.values.length < n) :
    ∃ M, ∀ m, M ≤ m → ∃ r h,
      roundTrip E n m g.nodes (.ref g.root) = (.ok (.ref r), h) ∧
      Isomorphic g.nodes g.root h r := by
  obtain ⟨n, rfl⟩ : ∃ k, n = k + 1 := ⟨n - 1, by omega⟩
  exact g.inflated E (Nat.lt_succ_iff.mp hn)

end Serializer

namespace SerializerGraphsWitness

open Serializer SerializerRunsWitness

/-- `o = { self: o, child: p, list: [p, o] }` and `p = { parent: o, name: 'p' }`. -/
def cycle : PlainGraph where
  nodes :=
    [.object [(units "self", .ref 0), (units "child", .ref 1),
      (units "list", .ref 2)],
      .object [(units "parent", .ref 0), (units "name", .prim (.string (units "p")))],
      .array [.ref 1, .ref 0]]
  closed := by simp
  distinct := by
    simp only [List.mem_cons, Node.object.injEq, reduceCtorEq,
      List.not_mem_nil, or_false]
    rintro _ (rfl | rfl) <;> decide
  unreserved := by
    simp only [List.mem_cons, Node.object.injEq, reduceCtorEq,
      List.not_mem_nil, or_false]
    rintro _ (rfl | rfl) <;> decide
  root := 0
  root_object := ⟨_, rfl⟩
  primitives := by
    simp only [List.mem_cons, Node.object.injEq, reduceCtorEq,
      List.not_mem_nil, or_false]
    rintro _ (rfl | rfl)
    · simp
    · rintro p hp
      obtain rfl : p = .string (units "p") := by simpa using hp
      change ¬CIRCULAR <+: units "p"
      decide
  arrays := by
    simp only [List.mem_cons, Node.array.injEq, reduceCtorEq,
      List.not_mem_nil, or_false, false_or]
    rintro _ rfl e he
    rcases List.mem_pair.mp he with rfl | rfl
    · exact ⟨1, rfl, _, rfl⟩
    · exact ⟨0, rfl, _, rfl⟩

theorem cycle_survives :
    ∃ M, ∀ m, M ≤ m → ∃ r h,
      roundTrip engine 8 m cycle.nodes (.ref 0) = (.ok (.ref r), h) ∧
      Isomorphic cycle.nodes 0 h r :=
  graph_survives engine cycle (by decide)

end SerializerGraphsWitness

end Appmetrics
