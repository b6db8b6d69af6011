/-
Keys that never come back.  No object that `serialize` builds has a property
`hasOwnProperty` or `__proto__` of its own, and `deserialize` deletes every
`idCount`; so no object in the result has one of these keys, whatever was
serialized.
-/
import Appmetrics.SerializerVisits

namespace Appmetrics

open Effect ObjectGraph

namespace Serializer

/-- No key twice, and none that `serialize` never writes. -/
def Lawful (ks : List JsString) : Prop := Regular ks ∧ hasOwnProperty ∉ ks

/-! ## What `serialize` builds -/

/-- A node that was added to a heap of `lo` nodes, or an empty array. -/
def New (lo : Nat) (h : PlainHeap) (a : Nat) : Prop :=
  (lo ≤ a ∧ a < h.length) ∨ h[a]? = some (.array [])

def Held (lo : Nat) (h : PlainHeap) (v : PlainValue) : Prop :=
  ∀ a, v = .ref a → New lo h a

/-- The new nodes have lawful keys and refer to new nodes only. -/
def Laid (lo : Nat) (h : PlainHeap) : Prop :=
  ∀ a node, lo ≤ a → h[a]? = some node →
    node.Keyed Lawful ∧ ∀ v ∈ node.values, Held lo h v

/-- New nodes have been added, and the values that are returned are new. -/
structure Adds (lo : Nat) (s : Serializing) (vs : List PlainValue)
    (s' : Serializing) : Prop where
  grows : s.heap <+: s'.heap
  laid : Laid lo s'.heap
  held : ∀ v ∈ vs, Held lo s'.heap v

section Serialize

variable {lo : Nat} {h h' : PlainHeap} {s s' s'' : Serializing}
  {v w : PlainValue} {vs ws : List PlainValue}

theorem New.grows {a : Nat} (hnew : New lo h a) (hext : h <+: h') :
    New lo h' a := by
  rcases hnew with hnew | hnew
  · exact Or.inl ⟨hnew.1, hnew.2.trans_le hext.length_le⟩
  · exact Or.inr (getElem?_grows hext hnew)

theorem Held.grows (hheld : Held lo h v) (hext : h <+: h') : Held lo h' v :=
  fun a ha => (hheld a ha).grows hext

theorem held_prim (p : Prim) : Held lo h (.prim p) := by
  intro a ha
  cases ha

theorem Adds.cons (hfirst : Adds lo s [w] s') (hrest : Adds lo s' ws s'') :
    Adds lo s (w :: ws) s'' where
  grows := hfirst.grows.trans hrest.grows
  laid := hrest.laid
  held := List.forall_mem_cons.mpr
    ⟨(hfirst.held w List.mem_cons_self).grows hrest.grows, hrest.held⟩

theorem alloc_adds {node : PlainNode} (hlo : lo ≤ s.heap.length)
    (hlaid : Laid lo s.heap) (hkeyed : node.Keyed Lawful)
    (hheld : ∀ v ∈ node.values, Held lo s.heap v) :
    (alloc node).Leads s fun w s' => Adds lo s [w] s' := by
  intro w s' hrun
  cases hrun
  have hext : s.heap <+: s.heap ++ [node] := List.prefix_append _ _
  refine ⟨hext, fun a node' ha hnode => ?_, ?_⟩
  · rcases Nat.lt_trichotomy a s.heap.length with hlt | rfl | hlt
    · rw [List.getElem?_append_left hlt] at hnode
      obtain ⟨hkeyed', hheld'⟩ := hlaid a node' ha hnode
      exact ⟨hkeyed', fun v hv => (hheld' v hv).grows hext⟩
    · rw [List.getElem?_concat_length] at hnode
      cases hnode
      exact ⟨hkeyed, fun v hv => (hheld v hv).grows hext⟩
    · rw [List.getElem?_eq_none (by rw [List.length_append]; exact hlt)] at hnode
      cases hnode
  · intro v hv a ha
    rw [List.mem_singleton.mp hv] at ha
    cases ha
    exact Or.inl ⟨hlo, by simp⟩

/-- What is assumed of the recursive calls. -/
def AddsAll (lo : Nat)
    (rec : PlainValue → Number → Comp Halt Serializing PlainValue) : Prop :=
  ∀ v id s, lo ≤ s.heap.length → Laid lo s.heap →
    (rec v id).Leads s fun w s' => Adds lo s [w] s'

variable {rec : PlainValue → Number → Comp Halt Serializing PlainValue}

theorem reference_adds (hrec : AddsAll lo rec) (hlo : lo ≤ s.heap.length)
    (hlaid : Laid lo s.heap) (v : PlainValue) :
    (reference rec v).Leads s fun w s' => Adds lo s [w] s' := by
  unfold reference
  refine Comp.leads_get_bind ?_
  cases indexOf s.objCache v with
  | some id =>
      exact Comp.leads_pure ⟨List.prefix_refl _, hlaid,
        List.forall_mem_singleton.mpr (held_prim _)⟩
  | none =>
      refine Comp.leads_modify_bind ?_
      intro w s' hrun
      have hadds := hrec v _ { s with objCache := s.objCache ++ [v] } hlo hlaid
        w s' hrun
      exact ⟨hadds.grows, hadds.laid, hadds.held⟩

theorem elements_adds (hrec : AddsAll lo rec) (hlo : lo ≤ s.heap.length)
    (hlaid : Laid lo s.heap) (vs : List PlainValue) :
    (elements rec vs).Leads s fun ws s' => Adds lo s ws s' := by
  induction vs generalizing s with
  | nil =>
      exact Comp.leads_pure ⟨List.prefix_refl _, hlaid, List.forall_mem_nil _⟩
  | cons v vs ih =>
      rw [elements]
      refine (reference_adds hrec hlo hlaid v).bind fun w s' hfirst => ?_
      refine (ih (hlo.trans hfirst.grows.length_le) hfirst.laid).bind
        fun ws s'' hrest => ?_
      exact Comp.leads_pure (hfirst.cons hrest)

theorem flatten_adds (hrec : AddsAll lo rec) (hlo : lo ≤ s.heap.length)
    (hlaid : Laid lo s.heap) (v : PlainValue) :
    (flatten rec v).Leads s fun w s' => Adds lo s [w] s' := by
  have href := reference_adds hrec hlo hlaid v
  unfold flatten
  refine Comp.leads_get_bind ?_
  cases v with
  | prim p =>
      exact Comp.leads_pure ⟨List.prefix_refl _, hlaid,
        List.forall_mem_singleton.mpr (held_prim p)⟩
  | ref a =>
      cases hnode : s.heap[a]? with
      | none => simpa only [hnode] using href
      | some node =>
          cases node with
          | object fs => simpa only [hnode] using href
          | array es =>
              cases es with
              | nil =>
                  simp only [hnode]
                  refine Comp.leads_pure ⟨List.prefix_refl _, hlaid,
                    List.forall_mem_singleton.mpr ?_⟩
                  intro b hb
                  cases hb
                  exact Or.inr hnode
              | cons e es =>
                  simp only [hnode]
                  refine (elements_adds hrec hlo hlaid (e :: es)).bind
                    fun ws s' hadds => ?_
                  intro w s'' hrun
                  have halloc := alloc_adds
                    (hlo.trans hadds.grows.length_le) hadds.laid
                    (show (Node.array ws).Keyed Lawful from trivial) hadds.held
                    w s'' hrun
                  exact ⟨hadds.grows.trans halloc.grows, halloc.laid, halloc.held⟩

theorem put_lawful {fs : List (JsString × PlainValue)} {k : JsString}
    (hfs : Lawful (fs.map Prod.fst)) (hk : k ≠ hasOwnProperty) (v : PlainValue) :
    Lawful ((put fs k v).map Prod.fst) := by
  rw [put]
  split_ifs with hproto hin
  · exact hfs
  · change Lawful ((fs.map (replace k v)).map Prod.fst)
    rwa [map_replace_keys]
  · obtain ⟨⟨hnodup, hfsproto⟩, hown⟩ := hfs
    rw [List.map_append, List.map_singleton]
    refine ⟨⟨?_, ?_⟩, ?_⟩
    · exact List.nodup_append_comm.mp (List.nodup_cons.mpr ⟨hin, hnodup⟩)
    · exact fun hmem => (List.mem_append.mp hmem).elim hfsproto
        fun hmem => hproto (List.mem_singleton.mp hmem).symm
    · exact fun hmem => (List.mem_append.mp hmem).elim hown
        fun hmem => hk (List.mem_singleton.mp hmem).symm

theorem put_values {fs : List (JsString × PlainValue)} {k : JsString} :
    ∀ u ∈ (put fs k v).map Prod.snd, u = v ∨ u ∈ fs.map Prod.snd := by
  intro u hu
  rw [put] at hu
  split_ifs at hu
  · exact Or.inr hu
  · obtain ⟨f', hf', rfl⟩ := List.mem_map.mp hu
    obtain ⟨f, hf, rfl⟩ := List.mem_map.mp hf'
    split_ifs
    · exact Or.inl rfl
    · exact Or.inr (List.mem_map_of_mem hf)
  · rw [List.map_append, List.mem_append] at hu
    rcases hu with hu | hu
    · exact Or.inr hu
    · exact Or.inl (List.mem_singleton.mp hu)

theorem walk_adds (hrec : AddsAll lo rec) (hlo : lo ≤ s.heap.length)
    (hlaid : Laid lo s.heap) {fs props : List (JsString × PlainValue)}
    (hfs : Lawful (fs.map Prod.fst))
    (hheld : ∀ v ∈ fs.map Prod.snd, Held lo s.heap v)
    (hown : hasOwnProperty ∉ props.map Prod.fst) :
    (walk rec fs props).Leads s fun fs' s' =>
      Lawful (fs'.map Prod.fst) ∧ Adds lo s (fs'.map Prod.snd) s' := by
  induction props generalizing s fs with
  | nil => exact Comp.leads_pure ⟨hfs, List.prefix_refl _, hlaid, hheld⟩
  | cons prop props ih =>
      obtain ⟨k, v⟩ := prop
      rw [List.map_cons, List.mem_cons, not_or] at hown
      rw [walk]
      refine (flatten_adds hrec hlo hlaid v).bind fun w s' hadds => ?_
      have hput : ∀ u ∈ (put fs k w).map Prod.snd, Held lo s'.heap u := by
        intro u hu
        rcases put_values u hu with rfl | hu
        · exact hadds.held u List.mem_cons_self
        · exact (hheld u hu).grows hadds.grows
      intro fs' s'' hrun
      obtain ⟨hfs', hadds'⟩ := ih (hlo.trans hadds.grows.length_le) hadds.laid
        (put_lawful hfs (Ne.symm hown.1) w) hput hown.2 fs' s'' hrun
      exact ⟨hfs', hadds.grows.trans hadds'.grows, hadds'.laid, hadds'.held⟩

theorem lawful_idCount : Lawful [idCount] :=
  ⟨⟨List.nodup_singleton _, by decide⟩, by decide⟩

theorem build_adds (hrec : AddsAll lo rec) (hlo : lo ≤ s.heap.length)
    (hlaid : Laid lo s.heap) (obj : PlainValue) (id : Number) :
    (build rec obj id).Leads s fun w s' => Adds lo s [w] s' := by
  unfold build
  refine Comp.leads_get_bind ?_
  dsimp only
  split_ifs with hown
  · exact Comp.leads_throw _ _ _
  · have hfirst : Lawful ([(idCount, Value.prim (Prim.number id))].map Prod.fst) :=
      lawful_idCount
    refine (walk_adds hrec hlo hlaid hfirst
      (List.forall_mem_singleton.mpr (held_prim _)) hown).bind
      fun fs s' hwalk => ?_
    intro w s'' hrun
    have halloc := alloc_adds (hlo.trans hwalk.2.grows.length_le) hwalk.2.laid
      (show (Node.object fs).Keyed Lawful from hwalk.1) hwalk.2.held w s'' hrun
    exact ⟨hwalk.2.grows.trans halloc.grows, halloc.laid, halloc.held⟩

end Serialize

mutual

theorem stringified_keyed : ∀ {t : PlainTree}, Keyed Lawful t →
    Keyed Lawful (stringified t)
  | .prim p, _ => by
      cases p with
      | number n => cases n <;> exact .prim
      | _ => exact .prim
  | .object ms, ht => by
      cases ht with
      | object hkeys hmembers =>
          obtain ⟨hsub, hms⟩ := stringifiedMembers_keyed hmembers
          exact .object ⟨⟨hkeys.1.1.sublist hsub, fun hin => hkeys.1.2 (hsub.subset hin)⟩,
            fun hin => hkeys.2 (hsub.subset hin)⟩ hms
  | .array ts, ht => by
      cases ht with
      | array helements => exact .array (stringifiedElements_keyed helements)

theorem stringifiedMembers_keyed : ∀ {ms : List (JsString × PlainTree)},
    (∀ t ∈ ms.map Prod.snd, Keyed Lawful t) →
    List.Sublist ((stringifiedMembers ms).map Prod.fst) (ms.map Prod.fst) ∧
      ∀ t ∈ (stringifiedMembers ms).map Prod.snd, Keyed Lawful t
  | [], _ => ⟨List.Sublist.refl _, List.forall_mem_nil _⟩
  | (k, t) :: ms, hms => by
      rw [List.map_cons, List.forall_mem_cons] at hms
      obtain ⟨hsub, hrest⟩ := stringifiedMembers_keyed hms.2
      have ht := stringified_keyed hms.1
      unfold stringifiedMembers
      split
      · exact ⟨hsub.cons _, hrest⟩
      · exact ⟨hsub.cons _, hrest⟩
      · exact ⟨hsub.cons_cons _, List.forall_mem_cons.mpr ⟨ht, hrest⟩⟩

theorem stringifiedElements_keyed : ∀ {ts : List PlainTree},
    (∀ t ∈ ts, Keyed Lawful t) →
    ∀ t ∈ stringifiedElements ts, Keyed Lawful t
  | [], _ => List.forall_mem_nil _
  | t :: ts, hts => by
      rw [List.forall_mem_cons] at hts
      exact List.forall_mem_cons.mpr
        ⟨stringified_keyed hts.1, stringifiedElements_keyed hts.2⟩

end

/-- The new nodes hold whatever they refer to. -/
theorem Laid.closed {lo : Nat} {h : PlainHeap} (hlaid : Laid lo h) :
    ∀ a node, New lo h a → h[a]? = some node →
      node.Keyed Lawful ∧ ∀ b, .ref b ∈ node.values → New lo h b := by
  rintro a node (⟨ha, _⟩ | ha) hnode
  · obtain ⟨hkeyed, hheld⟩ := hlaid a node ha hnode
    exact ⟨hkeyed, fun b hb => hheld _ hb b rfl⟩
  · rw [hnode] at ha
    cases ha
    exact ⟨trivial, fun b hb => by cases hb⟩

def Returned.Lawful (lo : Nat) (h : PlainHeap) : Returned → Prop
  | .text t => Keyed Serializer.Lawful t
  | .value v => Held lo h v

theorem finish_adds (E : Engine) {lo : Nat} {s : Serializing} {w : PlainValue}
    (hlaid : Laid lo s.heap) (hheld : Held lo s.heap w) :
    (finish E w).Leads s fun r s' => s' = s ∧ r.Lawful lo s'.heap := by
  unfold finish
  refine Comp.leads_get_bind ?_
  cases isZero E s.heap
      (((properties s.heap w).lookup idCount).getD (.prim .undefined)) with
  | none => exact Comp.leads_throw _ _ _
  | some zero =>
      cases zero with
      | false => exact Comp.leads_pure ⟨rfl, hheld⟩
      | true =>
          cases hunfold : unfold s.heap (s.heap.length + 1) w with
          | none => exact Comp.leads_throw _ _ _
          | some t =>
              exact Comp.leads_pure ⟨rfl,
                stringified_keyed (keyed_of_unfold hlaid.closed hheld hunfold)⟩

theorem Returned.Lawful.held {lo : Nat} {h : PlainHeap} {r : Returned}
    (hr : r.Lawful lo h) (E : Engine) : Held lo h (r.toValue E) := by
  cases r with
  | text t => exact held_prim _
  | value v => exact hr

theorem serialize_adds (E : Engine) (lo n : Nat) :
    ∀ v id s, lo ≤ s.heap.length → Laid lo s.heap →
      (serialize E n v id).Leads s fun r s' =>
        Adds lo s [r.toValue E] s' ∧ r.Lawful lo s'.heap := by
  induction n with
  | zero => exact fun _ _ _ _ _ => Comp.leads_throw _ _ _
  | succ n ih =>
      have hrec : AddsAll lo (nested E n) := by
        intro v id s hlo hlaid
        refine (ih v id s hlo hlaid).bind fun r s' hadds => ?_
        exact Comp.leads_pure hadds.1
      intro v id s hlo hlaid
      rw [serialize]
      refine Comp.Leads.bind (build_adds hrec hlo hlaid v id)
        fun w s' hadds => ?_
      intro r s'' hrun
      obtain ⟨rfl, hr⟩ := finish_adds E hadds.laid
        (hadds.held w List.mem_cons_self) r s'' hrun
      exact ⟨⟨hadds.grows, hadds.laid,
        List.forall_mem_singleton.mpr (hr.held E)⟩, hr⟩

/-! ## What `deserialize` leaves -/

/-- None of the keys that the format uses itself. -/
def Unreserved (ks : List JsString) : Prop := ∀ k ∈ ks, k ∉ reserved

section Deserialize

variable {E : Engine} {H : PlainHeap} {W : Nat → Prop}

theorem Node.lawful {node : PlainNode} (hnode : node.Keyed Lawful) :
    Lawful (keys node) := by
  cases node with
  | object fs => exact hnode
  | array es =>
      obtain ⟨hnodup, hunreserved⟩ := indexed_unreserved es
      exact ⟨⟨hnodup, fun hmem => hunreserved _ hmem (by simp [reserved])⟩,
        fun hmem => hunreserved _ hmem (by simp [reserved])⟩

theorem value_mem {node : PlainNode} {f : JsString × PlainValue}
    (hf : f ∈ nodeProperties node) : f.2 ∈ node.values := by
  rw [nodeProperties_eq] at hf
  exact (List.of_mem_zip hf).2

theorem property_of_value {node : PlainNode} {v : PlainValue}
    (hv : v ∈ node.values) : ∃ f ∈ nodeProperties node, f.2 = v := by
  cases node with
  | object fs => exact List.mem_map.mp hv
  | array es =>
      rw [Node.values_array, ← indexed_values es] at hv
      exact List.mem_map.mp hv

/-- With lawful keys, references can be followed through properties. -/
theorem nodes_of_closed (hW : ∀ a, W a → ∃ node, H[a]? = some node)
    (hclosed : ∀ a node, W a → H[a]? = some node →
      node.Keyed Lawful ∧ ∀ b, .ref b ∈ node.values → W b) :
    ∀ a, W a → ∃ node, H[a]? = some node ∧ Regular (keys node) ∧
      ∀ f ∈ nodeProperties node, ∀ b, f.2 = .ref b → W b := by
  intro a ha
  obtain ⟨node, hnode⟩ := hW a ha
  obtain ⟨hkeyed, hrefs⟩ := hclosed a node ha hnode
  exact ⟨node, hnode, (Node.lawful hkeyed).1,
    fun f hf b hb => hrefs b (hb ▸ value_mem hf)⟩

/-- What the nodes `W` refer to stays within `W`. -/
theorem sound_within (hW : ∀ a, W a → ∃ node, H[a]? = some node)
    (hclosed : ∀ a node, W a → H[a]? = some node →
      node.Keyed Lawful ∧ ∀ b, .ref b ∈ node.values → W b) :
    Sound E H W
      (fun c => (∀ e ∈ c.entries, W e.2) ∧ ∀ a, c.proto = some a → W a)
      (fun _ v => ∀ b, v = .ref b → W b) (fun _ => True) where
  nodes := nodes_of_closed hW hclosed
  again := by
    intro t v v' hv hev
    cases hev with
    | kept => exact hv
    | inflated _ hv' => exact hv'
  within _ b hb := hb b rfl
  plain _ _ := trivial
  inflated _ _ _ := trivial
  register := by
    rintro h c a key c' _ ⟨hentries, hproto⟩ ha _ hset
    obtain ⟨hentries', hproto'⟩ := ObjCache.set_entries hset
    refine ⟨fun e he => ?_, fun b hb => ?_⟩
    · rcases hentries' e he with he | he
      · exact hentries e he
      · exact he ▸ ha
    · rcases hproto' b hb with hb | rfl
      · exact hproto b hb
      · exact ha
  get := by
    rintro h c t hev ⟨hentries, hproto⟩ b hb
    refine ObjCache.get_ref hentries hproto (fun _ ha => ha) ?_ hb
    intro a node' ha hnode' f' hf' w hw
    obtain ⟨node, hnode⟩ := hW a ha
    obtain ⟨node₁, hnode₁, hnodes⟩ := hev a node hnode
    rw [hnode'] at hnode₁
    cases hnode₁
    obtain ⟨f, hf, _, hvalue⟩ := hnodes.back hf'
    generalize hv : f.2 = v at hvalue
    rw [hw] at hvalue
    cases hvalue with
    | kept => exact (hclosed a node ha hnode).2 w (hv ▸ value_mem hf)
    | inflated _ hL => exact hL w rfl

/-- The object that `deserialize` returns leads to no reserved key. -/
theorem deserialize_unreserved (hW : ∀ a, W a → ∃ node, H[a]? = some node)
    (hclosed : ∀ a node, W a → H[a]? = some node →
      node.Keyed Lawful ∧ ∀ b, .ref b ∈ node.values → W b)
    {m r : Nat} {u : Unit} {s' : Deserializing} (hr : W r)
    (hrun : deserialize E m r ⟨H, ⟨[], none⟩⟩ = (.ok u, s')) {k : Nat}
    {t : PlainTree} (hunfold : unfold s'.heap k (.ref r) = some t) :
    Keyed Unreserved t := by
  have hI : (∀ e ∈ ([] : List (JsString × Nat)), W e.2) ∧
      ∀ a, (none : Option Nat) = some a → W a :=
    ⟨List.forall_mem_nil _, fun a ha => by cases ha⟩
  obtain ⟨V, hVr, hafter⟩ := deserialize_closed (sound_within hW hclosed) hr hI hrun
  refine keyed_of_unfold (C := V) (fun a node' ha hnode' => ?_)
    (fun a ha => Value.ref.inj ha ▸ hVr) hunfold
  obtain ⟨node, hnode⟩ := hW a (hafter.inv.visited a ha)
  obtain ⟨node₁, hnode₁, hnodes⟩ := hafter.evolves a node hnode
  rw [hnode'] at hnode₁
  cases hnode₁
  have hlawful := Node.lawful (hclosed a node (hafter.inv.visited a ha) hnode).1
  refine ⟨?_, fun b hb => ?_⟩
  · have hclean := hafter.inv.clean a node' ha hnode'
    have hsub := hnodes.keys_sublist.subset
    have hkeys : Unreserved (keys node') := by
      intro k hk hreserved
      rw [reserved, List.mem_cons, List.mem_cons, List.mem_singleton] at hreserved
      rcases hreserved with rfl | rfl | rfl
      · exact hclean hk
      · exact hlawful.2 (hsub hk)
      · exact hlawful.1.2 (hsub hk)
    cases node' with
    | object fs => exact hkeys
    | array es => trivial
  · obtain ⟨f, hf, hfb⟩ := property_of_value hb
    exact (hafter.inv.closed a node' ha hnode' f hf b hfb).resolve_right id

end Deserialize

/-- The object that `deserialize` starts from, and its heap. -/
def Returned.Parsed (h : PlainHeap) (r : Nat) (H : PlainHeap) : Returned → Prop
  | .text t => load t h = (.ref r, H)
  | .value v => v = .ref r ∧ H = h

theorem deserializeGraph_eq_ok {E : Engine} {m r : Nat} {h : PlainHeap}
    {obj : Returned} {s' : Deserializing}
    (hrun : deserializeGraph E m h obj = (.ok (.ref r), s')) :
    ∃ H u, obj.Parsed h r H ∧
      deserialize E m r ⟨H, ⟨[], none⟩⟩ = (.ok u, s') := by
  cases obj with
  | text t =>
      rw [deserializeGraph] at hrun
      dsimp only at hrun
      rcases hload : load t h with ⟨v, H⟩
      rw [hload] at hrun
      cases v with
      | ref a =>
          obtain ⟨u, s'', hrun, hpure⟩ := Comp.bind_eq_ok.mp hrun
          cases hpure
          exact ⟨H, u, hload, hrun⟩
      | prim p =>
          dsimp only at hrun
          split_ifs at hrun <;> cases hrun
  | value v =>
      unfold deserializeGraph at hrun
      dsimp only at hrun
      cases v with
      | ref a =>
          obtain ⟨u, s'', hrun, hpure⟩ := Comp.bind_eq_ok.mp hrun
          cases hpure
          exact ⟨h, u, ⟨rfl, rfl⟩, hrun⟩
      | prim p =>
          dsimp only at hrun
          split_ifs at hrun <;> cases hrun

/-- What a text is parsed to. -/
theorem load_closed {t : PlainTree} {h H : PlainHeap} {r : Nat}
    (ht : Keyed Lawful t) (hload : load t h = (.ref r, H)) :
    (h.length ≤ r ∧ r < H.length) ∧
      ∀ a node, h.length ≤ a ∧ a < H.length → H[a]? = some node →
        node.Keyed Lawful ∧
          ∀ b, .ref b ∈ node.values → h.length ≤ b ∧ b < H.length := by
  obtain ⟨_, hspans⟩ := load_spec (fun _ => False) t h
  rw [hload] at hspans
  refine ⟨?_, fun a node ha hnode => ⟨?_, fun b hb => ?_⟩⟩
  · rcases hspans.refs_between (c := r) List.mem_cons_self with hin | hshared
    · exact hin
    · exact hshared.1.elim
  · exact hspans.keyed (List.forall_mem_singleton.mpr ht) a node ha.1 ha.2 hnode
  · rcases hspans.descends ha (mem_nodeRefs hnode hb) with hin | hshared
    · exact ⟨hin.1, hin.2.trans ha.2⟩
    · exact hshared.1.elim

/-- Whatever is serialized, what `deserialize` returns leads to no reserved
key. -/
theorem roundTrip_unreserved {E : Engine} {n m k r : Nat} {h h' : PlainHeap}
    {obj : PlainValue} {t : PlainTree}
    (hrun : roundTrip E n m h obj = (.ok (.ref r), h'))
    (hunfold : unfold h' k (.ref r) = some t) : Keyed Unreserved t := by
  rw [roundTrip] at hrun
  rcases hser : serializeGraph E n h obj with ⟨e | obj', s⟩
  · rw [hser] at hrun
    cases hrun
  rw [hser] at hrun
  dsimp only at hrun
  rcases hdes : deserializeGraph E m s.heap obj' with ⟨v, s'⟩
  rw [hdes] at hrun
  cases hrun
  have hlaid : Laid h.length h := by
    intro a node ha hnode
    rw [List.getElem?_eq_none ha] at hnode
    cases hnode
  obtain ⟨hadds, hr⟩ := serialize_adds E h.length n obj (.finite 0)
    { heap := h, objCache := [obj] } le_rfl hlaid obj' s hser
  obtain ⟨H, u, hparsed, hrun⟩ := deserializeGraph_eq_ok hdes
  cases obj' with
  | text t' =>
      obtain ⟨hroot, hclosed⟩ := load_closed hr hparsed
      exact deserialize_unreserved
        (fun a ha => ⟨_, List.getElem?_eq_getElem ha.2⟩) hclosed hroot hrun hunfold
  | value v =>
      obtain ⟨rfl, rfl⟩ := hparsed
      refine deserialize_unreserved (fun a ha => ?_) hadds.laid.closed (hr r rfl)
        hrun hunfold
      rcases ha with ha | ha
      · exact ⟨_, List.getElem?_eq_getElem ha.2⟩
      · exact ⟨_, ha⟩

end Serializer

end Appmetrics
