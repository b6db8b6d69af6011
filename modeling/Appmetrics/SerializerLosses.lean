/-
Documents that do not come back.  Strings that look like references are
inflated to something else, and the elements of arrays that are no objects
become objects.  So what comes back equal is safe.
-/
import Appmetrics.SerializerDocuments

namespace Appmetrics

open Effect ObjectGraph

namespace Serializer

/-! ## The trees that are written -/

/-- JSON trees whose objects start with their number. -/
inductive Encoded : List PlainTree → Prop
  | nil : Encoded []
  | prim {p ts} (hp : IsJson p) (hrest : Encoded ts) : Encoded (.prim p :: ts)
  | array {us ts} (helements : Encoded us) (hrest : Encoded ts) :
      Encoded (.array us :: ts)
  | object {i : Nat} {ms : List (JsString × PlainTree)} {ts}
      (hkeys : Lawful (idCount :: ms.map Prod.fst))
      (hmembers : Encoded (ms.map Prod.snd)) (hrest : Encoded ts) :
      Encoded (.object ((idCount, .prim (.number (.finite i))) :: ms) :: ts)

namespace Encoded

variable {ts : List PlainTree}

theorem keyed (henc : Encoded ts) : ∀ t ∈ ts, Keyed Lawful t := by
  induction henc with
  | nil => exact List.forall_mem_nil _
  | prim _ _ ih => exact List.forall_mem_cons.mpr ⟨.prim, ih⟩
  | array _ _ ihelements ihrest =>
      exact List.forall_mem_cons.mpr ⟨.array ihelements, ihrest⟩
  | object hkeys _ _ ihmembers ihrest =>
      exact List.forall_mem_cons.mpr
        ⟨.object hkeys (List.forall_mem_cons.mpr ⟨.prim, ihmembers⟩), ihrest⟩

/-- The text of such a tree is the tree itself. -/
theorem literal (henc : Encoded ts) : Literal ts := by
  induction henc with
  | nil => exact .nil
  | @prim p ts hp _ ih =>
      refine .prim ?_ ih
      cases p with
      | number n => cases n <;> first | rfl | exact hp.elim
      | undefined => exact hp.elim
      | builtin name => exact hp.elim
      | _ => rfl
  | array _ _ ihelements ihrest => exact .array ihelements ihrest
  | object _ _ _ ihmembers ihrest => exact .object _ ihmembers ihrest

/-- Where the numbers are in a heap. -/
theorem ids {h : PlainHeap} {lo hi : Nat} {vs : List PlainValue}
    (henc : Encoded ts) (hspans : Spans h (fun _ => False) lo vs ts hi) {a : Nat}
    (ha : lo ≤ a ∧ a < hi) :
    (∃ es, h[a]? = some (.array es)) ∨
      ∃ i : Nat, ∃ fs, h[a]? =
        some (.object ((idCount, .prim (.number (.finite i))) :: fs)) := by
  induction hspans with
  | nil => omega
  | prim _ ih =>
      cases henc with
      | prim _ hrest => exact ih hrest ha
  | shared hshared _ _ _ => exact hshared.elim
  | @array lo b es us vs ts hi _ hnode _ ihelements ihrest =>
      cases henc with
      | array helements hrest =>
          rcases Nat.lt_trichotomy a b with hlt | rfl | hlt
          · exact ihelements helements ⟨ha.1, hlt⟩
          · exact Or.inl ⟨es, hnode⟩
          · exact ihrest hrest ⟨hlt, ha.2⟩
  | @object lo b fs ms vs ts hi hvalues hnode hkeys _ ihvalues ihrest =>
      cases henc with
      | @object i ms _ _ hmembers hrest =>
          rcases Nat.lt_trichotomy a b with hlt | rfl | hlt
          · exact ihvalues (.prim trivial hmembers) ⟨ha.1, hlt⟩
          · obtain ⟨fs, rfl, _⟩ := object_fields hvalues hkeys
            exact Or.inr ⟨i, fs, hnode⟩
          · exact ihrest hrest ⟨hlt, ha.2⟩

end Encoded

/-- Every primitive value is one of JSON. -/
def JsonValues (vs : List PlainValue) : Prop := ∀ p, .prim p ∈ vs → IsJson p

def JsonHeap (h : PlainHeap) : Prop := ∀ node ∈ h, JsonValues node.values

theorem JsonValues.cons {v : PlainValue} {vs : List PlainValue}
    (hv : ∀ p, v = .prim p → IsJson p) (hvs : JsonValues vs) :
    JsonValues (v :: vs) := by
  intro p hp
  rcases List.mem_cons.mp hp with hp | hp
  · exact hv p hp.symm
  · exact hvs p hp

theorem JsonTrees.values {h : PlainHeap} {lo hi : Nat} {vs : List PlainValue}
    {ts : List PlainTree} (hjson : JsonTrees ts)
    (hspans : Spans h (fun _ => False) lo vs ts hi) :
    JsonValues vs ∧ ∀ a node, lo ≤ a → a < hi → h[a]? = some node →
      JsonValues node.values := by
  induction hspans with
  | nil => exact ⟨fun p hp => (List.not_mem_nil hp).elim, fun a _ hlo hhi => by omega⟩
  | prim _ ih =>
      cases hjson with
      | prim hp hjson =>
          obtain ⟨hvs, hnodes⟩ := ih hjson
          exact ⟨.cons (fun q hq => Value.prim.inj hq ▸ hp) hvs, hnodes⟩
  | shared hshared _ _ _ => exact hshared.elim
  | @array lo a es us vs ts hi _ hnode _ ihelements ihrest =>
      cases hjson with
      | array hjson hjson' =>
          obtain ⟨hes, hnodes⟩ := ihelements hjson
          obtain ⟨hvs, hnodes'⟩ := ihrest hjson'
          exact ⟨.cons (by simp) hvs, forall_nodes hnode hnodes hes hnodes'⟩
  | @object lo a fs ms vs ts hi _ hnode _ _ ihvalues ihrest =>
      cases hjson with
      | object _ hjson hjson' =>
          obtain ⟨hfs, hnodes⟩ := ihvalues hjson
          obtain ⟨hvs, hnodes'⟩ := ihrest hjson'
          exact ⟨.cons (by simp) hvs, forall_nodes hnode hnodes hfs hnodes'⟩

theorem JsonHeap.properties {h : PlainHeap} (hjson : JsonHeap h)
    (v : PlainValue) : JsonValues ((properties h v).map Prod.snd) := by
  intro p hp
  cases v with
  | prim q =>
      cases q with
      | string s =>
          rw [Serializer.properties, indexed_values] at hp
          obtain ⟨u, _, hu⟩ := List.mem_map.mp hp
          cases hu
          trivial
      | _ => cases hp
  | ref a =>
      rw [Serializer.properties] at hp
      cases hnode : h[a]? with
      | none =>
          rw [hnode] at hp
          cases hp
      | some node =>
          rw [hnode] at hp
          obtain ⟨f, hf, hfp⟩ := List.mem_map.mp hp
          exact hjson node (List.mem_of_getElem? hnode) p (hfp ▸ value_mem hf)

theorem Encodes.encoded {g : Graph} (hjson : JsonHeap g.nodes) {place : Place}
    {c vs c' : List PlainValue} {ts : List PlainTree}
    (henc : Encodes g.nodes place c vs ts c') (hvs : JsonValues vs)
    (hhas : ∀ v ∈ vs, g.Has v) : Encoded ts := by
  have htail {v : PlainValue} {vs : List PlainValue}
      (hvs : JsonValues (v :: vs)) : JsonValues vs :=
    fun p hp => hvs p (List.mem_cons_of_mem _ hp)
  induction henc with
  | nil => exact .nil
  | prim _ ih =>
      rw [List.forall_mem_cons] at hhas
      exact .prim (hvs _ List.mem_cons_self) (ih (htail hvs) hhas.2)
  | array hnode _ _ ihelements ihrest =>
      rw [List.forall_mem_cons] at hhas
      have hmem := List.mem_of_getElem? hnode
      exact .array (ihelements (hjson _ hmem) fun e he =>
        Graph.has_of_mem (List.mem_flatMap.mpr ⟨_, hmem, he⟩))
        (ihrest (htail hvs) hhas.2)
  | seen _ _ _ ih =>
      rw [List.forall_mem_cons] at hhas
      exact .prim trivial (ih (htail hvs) hhas.2)
  | @fresh place c v us c₁ vs ts c' _ hfresh hproperties _ ihproperties ihrest =>
      rw [List.forall_mem_cons] at hhas
      have hnan : v ≠ .prim (.number .nan) := by
        rintro rfl
        exact hvs _ List.mem_cons_self
      have hnumber : indexNumber (c ++ [v]) v = .finite c.length := by
        rw [indexNumber, indexOf_push hfresh hnan]
      obtain ⟨hkeys, hvalues⟩ := zip_keys hproperties.length_eq
      obtain ⟨hnodup, hunreserved⟩ := Graph.properties_keys hhas.1
      have hreserved {k : JsString} (hk : k ∈ reserved) :
          k ∉ (properties g.nodes v).map Prod.fst :=
        fun hin => hunreserved k hin hk
      rw [hnumber]
      refine .object ?_ ?_ (ihrest (htail hvs) hhas.2)
      · rw [hkeys]
        refine ⟨⟨List.nodup_cons.mpr ⟨hreserved (by simp [reserved]), hnodup⟩, ?_⟩, ?_⟩
        · exact List.not_mem_cons_of_ne_of_not_mem (by decide)
            (hreserved (by simp [reserved]))
        · exact List.not_mem_cons_of_ne_of_not_mem (by decide)
            (hreserved (by simp [reserved]))
      · rw [hvalues]
        refine ihproperties (hjson.properties v) fun w hw a ha => ?_
        exact Graph.has_of_mem (Graph.properties_values hw ha).1 a ha

/-! ## What is made of them -/

/-- What can be in the place of a reference with the index `t`. -/
def Resolved (W : Nat → Prop) (t : JsString) (v : PlainValue) : Prop :=
  (∀ u, v ≠ .prim (.string u)) ∧ (∀ b, v = .ref b → W b) ∧
    ∀ i, t = decimal i → ∀ p, v = .prim p → ¬IsJson p

/-- A primitive value that does not look like a reference. -/
def NoReference (p : Prim) : Prop := ∀ t, p = .string t → ¬CIRCULAR <+: t

section Sound

variable {E : Engine} {H h : PlainHeap} {W : Nat → Prop}
  {L : JsString → PlainValue → Prop}

theorem resolved_ref {b : Nat} (t : JsString) (hb : W b) :
    Resolved W t (.ref b) :=
  ⟨by simp, fun _ hb' => Value.ref.inj hb' ▸ hb, by simp⟩

theorem resolved_prim {t : JsString} {p : Prim} (hp : ∀ u, p ≠ .string u)
    (hjson : ∀ i, t = decimal i → ¬IsJson p) : Resolved W t (.prim p) :=
  ⟨fun u hu => hp u (Value.prim.inj hu), by simp,
    fun i hi _ hq => Value.prim.inj hq ▸ hjson i hi⟩

/-- The number of an object is its number for as long as it has one. -/
theorem property_idCount (hev : HeapEvolves L H h) {a : Nat} {node : PlainNode}
    (hnode : H[a]? = some node) (hnodup : (keys node).Nodup) {i : Nat}
    (hid : property H a idCount = .prim (.number (.finite i))) :
    property h a idCount = .prim (.number (.finite i)) ∨
      property h a idCount = .prim .undefined := by
  obtain ⟨node', hnode', hnodes⟩ := hev a node hnode
  by_cases hin : idCount ∈ keys node'
  · obtain ⟨f, hf, hkey, hvalue⟩ := hnodes.back (mem_of_property hnode' hin rfl)
    rw [eq_of_property hnode hnodup hid f hf hkey] at hvalue
    dsimp only at hvalue
    generalize property h a idCount = v at hvalue
    cases hvalue
    exact Or.inl rfl
  · refine Or.inr ?_
    have hnone : (nodeProperties node').lookup idCount = none := by
      rw [List.lookup_eq_none_iff]
      rintro ⟨k, v⟩ hmem
      refine bne_iff_ne.mpr fun hk => hin ?_
      exact hk ▸ List.mem_map_of_mem hmem
    rw [property, properties, hnode', Option.map_some, Option.getD_some, hnone,
      Option.getD_none]

/-- The entries of the cache are nodes of the text, and it is an array. -/
def Plain (W : Nat → Prop) (c : ObjCache) : Prop :=
  c.proto = none ∧ ∀ e ∈ c.entries, W e.2

theorem Plain.set {c c' : ObjCache} (hc : Plain W c) {a : Nat} (ha : W a)
    {key : JsString} (hkey : key ≠ Serializer.proto)
    (hset : c.set key a = some c') : Plain W c' := by
  rw [ObjCache.set, if_neg hkey] at hset
  split_ifs at hset
  cases hset
  exact ⟨hc.1, List.forall_mem_cons.mpr ⟨ha, hc.2⟩⟩

theorem Plain.get {c : ObjCache} (hc : Plain W c) (E : Engine) (h : PlainHeap)
    (t : JsString) : Resolved W t (c.get E h t) := by
  rw [ObjCache.get]
  cases hlookup : c.entries.lookup t with
  | some a => exact resolved_ref t (hc.2 _ (mem_of_lookup hlookup))
  | none =>
      dsimp only
      by_cases hlength : t = units "length"
      · rw [if_pos hlength]
        refine resolved_prim (by simp) fun i hi => ?_
        exact absurd (hi.symm.trans hlength)
          (decimal_ne (u := 108) rfl (Or.inr (by decide)) i)
      · rw [if_neg hlength, hc.1]
        dsimp only
        split_ifs
        · exact resolved_prim (by simp) fun _ _ => id
        · exact resolved_prim (by simp) fun _ _ => id

/-- The objects of the heap have numbers. -/
theorem sound_numbered (hW : ∀ a, W a → ∃ node, H[a]? = some node)
    (hclosed : ∀ a node, W a → H[a]? = some node →
      node.Keyed Lawful ∧ ∀ b, .ref b ∈ node.values → W b)
    (hids : ∀ a, W a → (∃ es, H[a]? = some (.array es)) ∨
      ∃ i : Nat, ∃ fs, H[a]? =
        some (.object ((idCount, .prim (.number (.finite i))) :: fs))) :
    Sound E H W (Plain W) (Resolved W) NoReference where
  nodes := nodes_of_closed hW hclosed
  again := by
    intro t v v' hv hev
    cases hev with
    | kept => exact hv
    | inflated _ _ => exact absurd rfl (hv.1 _)
  within _ b hb := hb.2.1 b rfl
  plain _ hp := hp
  inflated := by
    rintro t p hv u rfl
    exact absurd rfl (hv.1 u)
  register := by
    intro h c a key c' hev hc ha hkey hset
    have hid : (∃ i : Nat, property h a idCount = .prim (.number (.finite i))) ∨
        property h a idCount = .prim .undefined := by
      rcases hids a ha with ⟨es, hnode⟩ | ⟨i, fs, hnode⟩
      · obtain ⟨node', hnode', hkind, _⟩ := hev a _ hnode
        cases node' with
        | object fs => exact hkind.elim
        | array es' => exact Or.inr (property_array hnode')
      · have hnodup := (Node.lawful (hclosed a _ ha hnode).1).1.1
        exact (property_idCount hev hnode hnodup (property_object hnode)).imp_left
          fun hid => ⟨i, hid⟩
    refine hc.set ha ?_ hset
    rcases hid with ⟨i, hid⟩ | hid
    · rw [hid, propertyKey, if_pos ⟨Rat.den_natCast i,
        Rat.num_natCast i ▸ Int.natCast_nonneg i⟩] at hkey
      cases hkey
      exact decimal_ne (u := 95) rfl (Or.inr (by decide)) _
    · rw [hid] at hkey
      cases hkey
      decide
  get h c t _ hc := hc.get E h t

end Sound

/-- What comes back of the trees that are written.  A string that looks like a
reference comes back as something else. -/
inductive Restored : List PlainTree → List PlainTree → Prop
  | nil : Restored [] []
  | prim {p ts us} (hp : NoReference p) (hrest : Restored ts us) :
      Restored (.prim p :: ts) (.prim p :: us)
  | inflated {t u ts us} (hstring : ∀ s, u ≠ .prim (.string s))
      (hindex : ∀ i, t.drop 9 = decimal i → ∀ p, u = .prim p → ¬IsJson p)
      (hrest : Restored ts us) :
      Restored (.prim (.string t) :: ts) (u :: us)
  | array {ts' us' ts us} (helements : Restored ts' us')
      (hrest : Restored ts us) :
      Restored (.array ts' :: ts) (.array us' :: us)
  | object {p} {ms ns : List (JsString × PlainTree)} {ts us}
      (hkeys : ns.map Prod.fst = ms.map Prod.fst)
      (hmembers : Restored (ms.map Prod.snd) (ns.map Prod.snd))
      (hrest : Restored ts us) :
      Restored (.object ((idCount, .prim p) :: ms) :: ts) (.object ns :: us)

section Restored

variable {H h : PlainHeap} {W V : Nat → Prop}

/-- A value whose nodes have been visited and that does not look like a
reference. -/
def SettledValue (V : Nat → Prop) (v : PlainValue) : Prop :=
  (∀ p, v = .prim p → NoReference p) ∧ ∀ b, v = .ref b → V b

/-- The nodes `V` have been visited. -/
structure Settled (H : PlainHeap) (W V : Nat → Prop) (h : PlainHeap) : Prop where
  evolves : HeapEvolves (Resolved W) H h
  clean : ∀ a node, V a → h[a]? = some node → idCount ∉ keys node
  values : ∀ a node, V a → h[a]? = some node →
    ∀ f ∈ nodeProperties node, SettledValue V f.2

/-- In the end the value `w` has become one that stands for `t`. -/
def Becomes (W V : Nat → Prop) (h : PlainHeap) (w : PlainValue)
    (t : PlainTree) : Prop :=
  ∃ v k, Evolved (Resolved W) w v ∧ SettledValue V v ∧ unfold h k v = some t

theorem Settled.node (hsettled : Settled H W V h) {a : Nat} {node : PlainNode}
    (ha : V a) (hnode : H[a]? = some node) :
    ∃ node', h[a]? = some node' ∧ SameKind node node' ∧
      List.Forall₂ (FieldEvolves (Resolved W)) (withoutId (nodeProperties node))
        (nodeProperties node') := by
  obtain ⟨node', hnode', hkind, fs, hfs, hall⟩ := hsettled.evolves a node hnode
  have hclean := hsettled.clean a node' ha hnode'
  refine ⟨node', hnode', hkind, ?_⟩
  rcases hfs with rfl | rfl
  · rw [keys, forall_keys hall] at hclean
    rwa [withoutId_eq hclean]
  · exact hall

theorem forall_values {L : JsString → PlainValue → Prop}
    {fs fs' : List (JsString × PlainValue)}
    (hfs : List.Forall₂ (FieldEvolves L) fs fs') :
    List.Forall₂ (Evolved L) (fs.map Prod.snd) (fs'.map Prod.snd) := by
  rw [List.forall₂_map_left_iff, List.forall₂_map_right_iff]
  exact hfs.imp fun _ _ hf => hf.2

theorem forall_becomes {ws vs : List PlainValue} {ts : List PlainTree} {k : Nat}
    (hev : List.Forall₂ (Evolved (Resolved W)) ws vs)
    (hvs : ∀ v ∈ vs, SettledValue V v)
    (hts : List.Forall₂ (fun v t => unfold h k v = some t) vs ts) :
    List.Forall₂ (Becomes W V h) ws ts := by
  induction hev generalizing ts with
  | nil =>
      cases hts
      exact .nil
  | cons hwv _ ih =>
      rw [List.forall_mem_cons] at hvs
      cases hts with
      | cons ht hts => exact .cons ⟨_, k, hwv, hvs.1, ht⟩ (ih hvs.2 hts)

/-- What an array that is written becomes. -/
theorem Becomes.array (hsettled : Settled H W V h) {a : Nat}
    {es : List PlainValue} (hnode : H[a]? = some (.array es)) {t : PlainTree}
    (hbecomes : Becomes W V h (.ref a) t) :
    ∃ ts, t = .array ts ∧ List.Forall₂ (Becomes W V h) es ts := by
  obtain ⟨v, k, hev, hv, hunfold⟩ := hbecomes
  cases hev.ref rfl
  have ha := hv.2 a rfl
  obtain ⟨node', hnode', hkind, hall⟩ := hsettled.node ha hnode
  cases node' with
  | object fs => exact hkind.elim
  | array es' =>
      obtain ⟨m, ts, rfl, rfl, hts⟩ := unfold_array hnode' hunfold
      have hid : idCount ∉ (indexed es).map Prod.fst :=
        fun hin => (indexed_unreserved es).2 _ hin List.mem_cons_self
      rw [nodeProperties, withoutId_eq hid] at hall
      have hvalues := forall_values hall
      rw [indexed_values, nodeProperties, indexed_values] at hvalues
      refine ⟨ts, rfl, forall_becomes hvalues (fun e he => ?_) hts⟩
      obtain ⟨f, hf, rfl⟩ :=
        property_of_value (show e ∈ (Node.array es').values from he)
      exact hsettled.values a _ ha hnode' f hf

/-- What an object that is written becomes. -/
theorem Becomes.object (hsettled : Settled H W V h) {a : Nat} {p : Prim}
    {fs : List (JsString × PlainValue)}
    (hnode : H[a]? = some (.object ((idCount, .prim p) :: fs)))
    (hid : idCount ∉ fs.map Prod.fst) {t : PlainTree}
    (hbecomes : Becomes W V h (.ref a) t) :
    ∃ ns : List (JsString × PlainTree), t = .object ns ∧
      ns.map Prod.fst = fs.map Prod.fst ∧
      List.Forall₂ (Becomes W V h) (fs.map Prod.snd) (ns.map Prod.snd) := by
  obtain ⟨v, k, hev, hv, hunfold⟩ := hbecomes
  cases hev.ref rfl
  have ha := hv.2 a rfl
  obtain ⟨node', hnode', hkind, hall⟩ := hsettled.node ha hnode
  cases node' with
  | array es => exact hkind.elim
  | object fs' =>
      obtain ⟨m, ts, rfl, rfl, hts⟩ := unfold_object hnode' hunfold
      have hfields : withoutId ((idCount, .prim p) :: fs) = fs := by
        rw [withoutId, List.filter_cons_of_neg (by simp)]
        exact withoutId_eq hid
      rw [nodeProperties, hfields, nodeProperties] at hall
      obtain ⟨hkeys, hvalues⟩ := zip_keys hts.length_eq
      refine ⟨_, rfl, hkeys.trans (forall_keys hall), ?_⟩
      rw [hvalues]
      refine forall_becomes (forall_values hall) (fun e he => ?_) hts
      obtain ⟨f, hf, rfl⟩ := List.mem_map.mp he
      exact hsettled.values a _ ha hnode' f hf

theorem Becomes.prim {p : Prim} {t : PlainTree} {ts us : List PlainTree}
    (hbecomes : Becomes W V h (.prim p) t) (hrest : Restored ts us) :
    Restored (.prim p :: ts) (t :: us) := by
  obtain ⟨v, k, hev, hv, hunfold⟩ := hbecomes
  cases hev with
  | kept =>
      rw [unfold_prim] at hunfold
      cases hunfold
      exact .prim (hv.1 p rfl) hrest
  | inflated _ hresolved =>
      refine .inflated ?_ ?_ hrest
      · rintro s rfl
        exact hresolved.1 s (eq_prim_of_unfold hunfold)
      · rintro i hi q rfl
        exact hresolved.2.2 i hi q (eq_prim_of_unfold hunfold)

/-- What the trees that are written become. -/
theorem Spans.restored (hsettled : Settled H W V h) {lo hi : Nat}
    {ws : List PlainValue} {ts us : List PlainTree}
    (hspans : Spans H (fun _ => False) lo ws ts hi) (henc : Encoded ts)
    (hus : List.Forall₂ (Becomes W V h) ws us) : Restored ts us := by
  induction hspans generalizing us with
  | nil =>
      cases hus
      exact .nil
  | prim _ ih =>
      cases henc with
      | prim _ henc =>
          cases hus with
          | cons hu hus => exact hu.prim (ih henc hus)
  | shared hshared _ _ _ => exact hshared.elim
  | array _ hnode _ ihelements ihrest =>
      cases henc with
      | array helements henc =>
          cases hus with
          | cons hu hus =>
              obtain ⟨us', rfl, hus'⟩ := hu.array hsettled hnode
              exact .array (ihelements helements hus') (ihrest henc hus)
  | object hvalues hnode hkeys _ ihvalues ihrest =>
      cases henc with
      | @object i ms _ hlawful hmembers henc =>
          cases hus with
          | cons hu hus =>
              obtain ⟨fs, rfl, hfs, _⟩ := object_fields hvalues hkeys
              have hid := (List.nodup_cons.mp hlawful.1.1).1
              rw [← hfs] at hid
              obtain ⟨ns, rfl, hns, hus'⟩ := hu.object hsettled hnode hid
              have hnumber : Becomes W V h (.prim (.number (.finite i)))
                  (.prim (.number (.finite i))) :=
                ⟨_, 0, .kept, ⟨by simp [NoReference], by simp⟩, unfold_prim 0 _⟩
              cases ihvalues (.prim trivial hmembers) (.cons hnumber hus') with
              | prim _ hall => exact .object (hns.trans hfs) hall (ihrest henc hus)

end Restored

/-- What `deserialize` makes of a text. -/
theorem Encoded.restored {E : Engine} {text t : PlainTree}
    (henc : Encoded [text]) {h H : PlainHeap} {r m k : Nat} {u : Unit}
    {s' : Deserializing} (hload : load text h = (.ref r, H))
    (hrun : deserialize E m r ⟨H, ⟨[], none⟩⟩ = (.ok u, s'))
    (hunfold : unfold s'.heap k (.ref r) = some t) : Restored [text] [t] := by
  obtain ⟨hr, hclosed⟩ := load_closed (henc.keyed _ List.mem_cons_self) hload
  obtain ⟨_, hspans⟩ := load_spec (fun _ => False) text h
  rw [hload] at hspans
  have hsound := sound_numbered (E := E)
    (fun a ha => ⟨_, List.getElem?_eq_getElem ha.2⟩) hclosed
    (fun a ha => henc.ids hspans ha)
  obtain ⟨V, hV, hafter⟩ := deserialize_closed hsound hr
    ⟨rfl, List.forall_mem_nil _⟩ hrun
  have hsettled : Settled H _ V s'.heap := {
    evolves := hafter.evolves
    clean := hafter.inv.clean
    values := by
      intro a node ha hnode f hf
      refine ⟨fun p hp => ?_, fun b hb => ?_⟩
      · exact ((hafter.settled a ha).resolve_left id) f.1 node hnode f hf rfl p hp
      · exact (hafter.inv.closed a node ha hnode f hf b hb).resolve_right id }
  refine Spans.restored hsettled hspans henc (.cons ?_ .nil)
  exact ⟨_, k, .kept, ⟨by simp, fun b hb => Value.ref.inj hb ▸ hV⟩, hunfold⟩

/-! ## What comes back equal is safe -/

theorem properties_refs {h : PlainHeap} {v : PlainValue} {b : Nat}
    (hb : .ref b ∈ (properties h v).map Prod.snd) :
    ∃ a, v = .ref a ∧ b ∈ nodeRefs h a := by
  cases v with
  | prim p =>
      cases p with
      | string s =>
          rw [properties, indexed_values] at hb
          obtain ⟨u, _, hu⟩ := List.mem_map.mp hb
          cases hu
      | _ => cases hb
  | ref a =>
      refine ⟨a, rfl, ?_⟩
      rw [properties] at hb
      cases hnode : h[a]? with
      | none =>
          rw [hnode] at hb
          cases hb
      | some node =>
          rw [hnode] at hb
          obtain ⟨f, hf, hfb⟩ := List.mem_map.mp hb
          exact mem_nodeRefs hnode (hfb ▸ value_mem hf)

/-- Only the objects of a part of the heap are pushed. -/
theorem Encodes.pushed {h : PlainHeap} {place : Place} {c vs c' : List PlainValue}
    {ts : List PlainTree} (henc : Encodes h place c vs ts c') {C : Nat → Prop}
    (hC : ∀ a b, C a → b ∈ nodeRefs h a → C b) (hvs : ∀ b, .ref b ∈ vs → C b) :
    ∀ b, .ref b ∈ c' → .ref b ∈ c ∨ C b := by
  induction henc with
  | nil => exact fun b hb => Or.inl hb
  | prim _ ih => exact ih fun b hb => hvs b (List.mem_cons_of_mem _ hb)
  | @array c a es us c₁ vs ts c' hnode _ _ ihelements ihrest =>
      intro b hb
      have ha := hvs a List.mem_cons_self
      rcases ihrest (fun b hb => hvs b (List.mem_cons_of_mem _ hb)) b hb with hb | hb
      · exact ihelements (fun b hb => hC a b ha (mem_nodeRefs hnode hb)) b hb
      · exact Or.inr hb
  | seen _ _ _ ih => exact ih fun b hb => hvs b (List.mem_cons_of_mem _ hb)
  | @fresh place c v us c₁ vs ts c' _ _ _ _ ihproperties ihrest =>
      intro b hb
      have hproperties : ∀ b, .ref b ∈ (properties h v).map Prod.snd → C b := by
        intro b hb
        obtain ⟨a, rfl, hab⟩ := properties_refs hb
        exact hC a b (hvs a List.mem_cons_self) hab
      rcases ihrest (fun b hb => hvs b (List.mem_cons_of_mem _ hb)) b hb with hb | hb
      · rcases ihproperties hproperties b hb with hb | hb
        · rcases List.mem_append.mp hb with hb | hb
          · exact Or.inl hb
          · exact Or.inr (hvs b (List.mem_singleton.mp hb ▸ List.mem_cons_self))
        · exact Or.inr hb
      · exact Or.inr hb

/-- What has been pushed is no part of the heap above `a`. -/
theorem Encodes.passed {h : PlainHeap} {place : Place} {c vs c' : List PlainValue}
    {ts ds : List PlainTree} {lo a hi : Nat} (henc : Encodes h place c vs ts c')
    (hspans : Spans h (fun _ => False) lo vs ds a)
    (hfresh : ∀ b, .ref b ∈ c → b ≤ a ∨ hi ≤ b) :
    ∀ b, .ref b ∈ c' → b < a + 1 ∨ hi ≤ b := by
  intro b hb
  have hpushed := henc.pushed (C := fun b => lo ≤ b ∧ b < a)
    (fun b d hbin hd => ?_) (fun d hd => ?_) b hb
  · rcases hpushed with hb | hb
    · exact (hfresh b hb).imp_left Nat.lt_succ_iff.mpr
    · exact Or.inl (by omega)
  · rcases hspans.descends hbin hd with hin | hshared
    · exact ⟨hin.1, hin.2.trans hbin.2⟩
    · exact hshared.1.elim
  · have hrefs : d ∈ refs vs := List.mem_filterMap.mpr ⟨_, hd, rfl⟩
    exact (hspans.refs_between hrefs).resolve_right fun hshared => hshared.1

theorem eq_of_perm_keys {A : Type} {ms ns : List (JsString × A)}
    (hperm : ms.Perm ns) (hkeys : ms.map Prod.fst = ns.map Prod.fst)
    (hnodup : (ns.map Prod.fst).Nodup) : ms = ns := by
  refine List.ext_getElem hperm.length_eq fun i hi hi' => ?_
  refine List.inj_on_of_nodup_map hnodup (hperm.subset (List.getElem_mem hi))
    (List.getElem_mem hi') ?_
  have hi'' : i < (ms.map Prod.fst).length := by rwa [List.length_map]
  have hget := List.getElem_of_eq hkeys hi''
  rwa [List.getElem_map, List.getElem_map] at hget

theorem survives_of_json {p : Prim} (hjson : IsJson p) (hp : NoReference p) :
    Survives p := by
  cases p with
  | string t => exact hp t rfl
  | number n => cases n <;> trivial
  | undefined => exact hjson.elim
  | builtin name => exact hjson.elim
  | _ => trivial

/-- If the trees `ds` of the values `vs`, of which none has been pushed, are
equal to what comes back of `ts`, they are safe. -/
def SafeIfEqual (h : PlainHeap) (place : Place) (c vs : List PlainValue)
    (ts : List PlainTree) : Prop :=
  ∀ ⦃lo hi : Nat⦄ ⦃ds us : List PlainTree⦄,
    Spans h (fun _ => False) lo vs ds hi → JsonTrees ds →
    (∀ d ∈ ds, Keyed Unreserved d) → (∀ a, .ref a ∈ c → a < lo ∨ hi ≤ a) →
    Restored ts us → EqualTrees us ds → Safe place ds

namespace SafeIfEqual

variable {h : PlainHeap} {place : Place} {c c₁ vs es : List PlainValue}
  {v : PlainValue} {a : Nat} {us ts : List PlainTree}

theorem nil : SafeIfEqual h place c [] [] := by
  intro lo hi ds us hspans _ _ _ _ _
  cases hspans
  exact .nil

theorem prim {p : Prim} (hrest : SafeIfEqual h .property c vs ts) :
    SafeIfEqual h .property c (.prim p :: vs) (.prim p :: ts) := by
  intro lo hi ds us hspans hjson hkeyed hfresh hrestored hequal
  cases hspans with
  | prim hspans =>
      rw [List.forall_mem_cons] at hkeyed
      cases hjson with
      | prim hp hjson =>
          cases hrestored with
          | prim href hrestored =>
              cases hequal with
              | prim hequal =>
                  exact .prim (survives_of_json hp href)
                    (hrest hspans hjson hkeyed.2 hfresh hrestored hequal)
          | inflated hstring _ _ =>
              cases hequal with
              | prim _ => exact absurd rfl (hstring _)

theorem array (hnode : h[a]? = some (.array es))
    (helements : Encodes h .element c es us c₁)
    (hsafe : SafeIfEqual h .element c es us)
    (hrest : SafeIfEqual h .property c₁ vs ts) :
    SafeIfEqual h .property c (.ref a :: vs) (.array us :: ts) := by
  intro lo hi ds us' hspans hjson hkeyed hfresh hrestored hequal
  cases hspans with
  | shared hshared _ _ => exact hshared.elim
  | object _ hobject _ _ =>
      rw [hnode] at hobject
      cases hobject
  | array hselements harray hsrest =>
      rw [hnode] at harray
      cases harray
      rw [List.forall_mem_cons] at hkeyed
      cases hjson with
      | array hjson hjson' =>
          cases hrestored with
          | array hrestored hrestored' =>
              cases hequal with
              | array hequal hequal' =>
                  cases hkeyed.1 with
                  | array hkeyed' =>
                      have hle := hselements.le
                      have hle' := hsrest.le
                      have hfresh₁ := helements.passed hselements
                        fun b hb => (hfresh b hb).imp_left (by omega)
                      exact .array
                        (hsafe hselements hjson hkeyed'
                          (fun b hb => (hfresh b hb).imp_right (by omega))
                          hrestored hequal)
                        (hrest hsrest hjson' hkeyed.2 hfresh₁ hrestored'
                          hequal')

/-- What has been pushed is not among the values. -/
theorem seen {i : Nat} (hseen : indexOf c v = some i) :
    SafeIfEqual h place c (v :: vs) (.prim (circular i) :: ts) := by
  intro lo hi ds us hspans hjson _ hfresh hrestored hequal
  have hmem := List.mem_of_getElem? (getElem?_of_indexOf hseen)
  cases hspans with
  | prim hspans =>
      cases hjson with
      | prim hp _ =>
          -- A string comes back as something that is not of JSON.
          cases hrestored with
          | prim hreference _ =>
              exact absurd (circular_starts _) (hreference _ rfl)
          | inflated _ hindex _ =>
              cases hequal with
              | prim _ => exact absurd hp (hindex _ (circular_index _) _ rfl)
  | shared hshared _ _ => exact hshared.elim
  | array helements _ hrest =>
      have hle := helements.le
      have hle' := hrest.le
      have hout := hfresh _ hmem
      omega
  | object hvalues _ _ hrest =>
      have hle := hvalues.le
      have hle' := hrest.le
      have hout := hfresh _ hmem
      omega

theorem fresh {k : JsString × PlainTree}
    (hproperties : Encodes h .property (c ++ [v])
      ((properties h v).map Prod.snd) us c₁)
    (hsafe : SafeIfEqual h .property (c ++ [v])
      ((properties h v).map Prod.snd) us)
    (hrest : SafeIfEqual h place c₁ vs ts) :
    SafeIfEqual h place c (v :: vs)
      (.object (k :: ((properties h v).map Prod.fst).zip us) :: ts) := by
  intro lo hi ds us' hspans hjson hkeyed hfresh hrestored hequal
  cases hrestored with
  | object hns hrestored hrestored' =>
      cases hequal with
      | object hperm hns' hequal hequal' =>
          cases hspans with
          | @object _ a _ _ _ _ _ hvalues hnode hkeys hsrest =>
              rw [List.forall_mem_cons] at hkeyed
              cases hjson with
              | object hnodup hjson hjson' =>
                  cases hkeyed.1 with
                  | object hunreserved hkeyed' =>
                      rw [properties_object hnode] at hproperties hsafe
                      rw [properties_object hnode] at hns hrestored
                      obtain ⟨hzkeys, hzvalues⟩ :=
                        zip_keys hproperties.length_eq
                      rw [hzkeys, hkeys] at hns
                      rw [hzvalues] at hrestored
                      obtain rfl := eq_of_perm_keys hperm
                        (hns'.symm.trans hns) hnodup
                      have hle := hvalues.le
                      have hle' := hsrest.le
                      have hpush {b : Nat} (hb : .ref b ∈ c ++ [.ref a]) :
                          .ref b ∈ c ∨ b = a := by
                        simpa using hb
                      have hfresh₁ := hproperties.passed hvalues fun b hb =>
                        (hpush hb).elim
                          (fun hb => (hfresh b hb).imp_left (by omega))
                          fun hb => Or.inl hb.le
                      refine .object hunreserved
                        (hsafe hvalues hjson hkeyed' (fun b hb => ?_)
                          hrestored hequal)
                        (hrest hsrest hjson' hkeyed.2 hfresh₁ hrestored'
                          hequal')
                      rcases hpush hb with hb | rfl
                      · exact (hfresh b hb).imp_right (by omega)
                      · exact Or.inr le_rfl

end SafeIfEqual

theorem Encodes.safe {h : PlainHeap} {place : Place}
    {c vs c' : List PlainValue} {ts : List PlainTree}
    (henc : Encodes h place c vs ts c') : SafeIfEqual h place c vs ts := by
  induction henc with
  | nil => exact .nil
  | prim _ ih => exact .prim ih
  | array hnode helements _ ihelements ihrest =>
      exact .array hnode helements ihelements ihrest
  | seen _ hseen _ _ => exact .seen hseen
  | fresh _ _ hproperties _ ihproperties ihrest =>
      exact .fresh hproperties ihproperties ihrest

theorem EqualTrees.keyed {ts us : List PlainTree} (hequal : EqualTrees ts us)
    (hts : ∀ t ∈ ts, Keyed Unreserved t) : ∀ u ∈ us, Keyed Unreserved u := by
  induction hequal with
  | nil => exact hts
  | prim _ ih =>
      rw [List.forall_mem_cons] at hts
      exact List.forall_mem_cons.mpr ⟨.prim, ih hts.2⟩
  | array _ _ ihelements ihrest =>
      rw [List.forall_mem_cons] at hts
      cases hts.1 with
      | array hts' =>
          exact List.forall_mem_cons.mpr ⟨.array (ihelements hts'), ihrest hts.2⟩
  | object horder hkeys _ _ ihmembers ihrest =>
      rw [List.forall_mem_cons] at hts
      cases hts.1 with
      | object hunreserved hts' =>
          refine List.forall_mem_cons.mpr ⟨.object (fun k hk => ?_) fun t ht => ?_,
            ihrest hts.2⟩
          · refine hunreserved k ?_
            rw [hkeys]
            exact (horder.map _).mem_iff.mpr hk
          · exact ihmembers hts' t ((horder.map _).mem_iff.mpr ht)

/-- The text of a document without reserved keys. -/
theorem Document.text (E : Engine) (d : Document) {g : Graph} {root n : Nat}
    (hroot : IsObject g.nodes root)
    (hspans : Spans g.nodes (fun _ => False) 0 [.ref root] [d.tree] g.nodes.length)
    (hn : g.values.length ≤ n) :
    ∃ t c s, serializeGraph E (n + 1) g.nodes (.ref root) = (.ok (.text t), s) ∧
      Encodes g.nodes .property [] [.ref root] [t] c ∧ Encoded [t] := by
  have hhas : g.Has (.ref root) := by
    rintro a ha
    cases ha
    obtain ⟨fs, hfs⟩ := hroot
    exact (List.getElem?_eq_some_iff.mp hfs).1
  obtain ⟨w, s, hrun, hbuilt⟩ := newObject_built E hhas hn
  obtain ⟨us, henc, hunfold⟩ := hbuilt.unfold
  have htext := serializeGraph_eq hrun hbuilt hunfold
  have hall : Encodes g.nodes .property [] [.ref root] _ _ :=
    .fresh (Or.inr ⟨root, rfl, hroot⟩) rfl henc .nil
  have hnumber : indexNumber ([] ++ [.ref root]) (.ref root) = .finite 0 := by
    rw [indexNumber_ref rfl]
    rfl
  rw [hnumber] at hall
  obtain ⟨hvalues, hnodes⟩ := d.json.values hspans
  have hjson : JsonHeap g.nodes := by
    intro node hnode
    obtain ⟨a, ha, rfl⟩ := List.mem_iff_getElem.mp hnode
    exact hnodes a _ (Nat.zero_le a) ha (List.getElem?_eq_getElem ha)
  have hencoded := hall.encoded hjson hvalues (List.forall_mem_singleton.mpr hhas)
  have hstringified := hencoded.literal.same
  rw [stringifiedElements, stringifiedElements, List.cons.injEq] at hstringified
  rw [hstringified.1] at htext
  exact ⟨_, _, s, htext, hall, hencoded⟩

/-- Documents that come back equal are safe. -/
theorem Document.safe (E : Engine) (d : Document)
    (hall : ∃ N, ∀ n, N ≤ n → ∃ M, ∀ m, M ≤ m → d.RoundTrips E n m) :
    Safe .property [d.tree] := by
  obtain ⟨N, hN⟩ := hall
  have hkeyed : ∀ u ∈ [d.tree], Keyed Unreserved u := by
    obtain ⟨M, hM⟩ := hN N le_rfl
    obtain ⟨r, h, k, t, hrun, hunfold, hequal⟩ := hM M le_rfl
    exact hequal.keyed
      (List.forall_mem_singleton.mpr (roundTrip_unreserved hrun hunfold))
  obtain ⟨g, root, hload, hroot, hspans⟩ := d.graph (hkeyed _ List.mem_cons_self)
  obtain ⟨M, hM⟩ := hN (N + g.values.length + 1) (by omega)
  obtain ⟨r, h, k, t, hrun, hunfold, hequal⟩ := hM M le_rfl
  obtain ⟨text, c, s, htext, henc, hencoded⟩ :=
    d.text E hroot hspans (show g.values.length ≤ N + g.values.length by omega)
  rw [hload, roundTrip, htext] at hrun
  dsimp only at hrun
  rcases hdes : deserializeGraph E M s.heap (.text text) with ⟨v, s'⟩
  rw [hdes] at hrun
  cases hrun
  obtain ⟨H, u, hparsed, hrun⟩ := deserializeGraph_eq_ok hdes
  exact henc.safe hspans d.json hkeyed (by simp)
    (hencoded.restored hparsed hrun hunfold) hequal

/-- A JSON document comes back equal just if none of its objects has one of the
keys that the format uses itself, none of its properties is a string that looks
like a reference, and its arrays hold objects. -/
theorem document_round_trip_iff (E : Engine) (d : Document) :
    (∃ N, ∀ n, N ≤ n → ∃ M, ∀ m, M ≤ m → d.RoundTrips E n m) ↔
      Safe .property [d.tree] :=
  ⟨d.safe E, d.roundTrips E⟩

end Serializer

namespace SerializerLossesWitness

open Serializer SerializerRunsWitness

/-- `{"a":[1]}`. -/
def listed : Document where
  members := [(units "a", .array [.prim (.number (.finite 1))])]
  json := .object (List.nodup_singleton _)
    (.array (.prim trivial .nil) .nil) .nil

/-- The number comes back as an object. -/
theorem listed_lost :
    ¬ ∀ (E : Engine) (d : Document),
      ∃ N, ∀ n, N ≤ n → ∃ M, ∀ m, M ≤ m → d.RoundTrips E n m := by
  intro hall
  cases listed.safe engine (hall engine listed) with
  | object _ hmembers _ =>
      cases hmembers with
      | array helements _ => cases helements

end SerializerLossesWitness

end Appmetrics
