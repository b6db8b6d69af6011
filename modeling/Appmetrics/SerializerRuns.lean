/-
What `serialize` builds from a graph, and that it returns on every graph.  The
encoding of a graph is stated as a relation between values and trees; the run
of `serialize` follows it and lays the tree out in the heap.
-/
import Appmetrics.Serializer
import Mathlib.Data.List.Nodup

namespace Appmetrics

open Effect ObjectGraph

namespace Serializer

/-! ## Keys -/

theorem decimal_eq (n : Nat) :
    decimal n = (showNat n).map fun c => .ofNat c.toNat :=
  Utf16.ofText_eq_map fun c hc => by
    have hdigit := isDigit_of_mem_showNat hc
    simp only [Char.isDigit, Bool.and_eq_true, decide_eq_true_eq] at hdigit
    have hle : c.toNat ≤ 57 := hdigit.2
    omega

theorem mem_decimal {n : Nat} {u : UInt16} (hu : u ∈ decimal n) :
    48 ≤ u.toNat ∧ u.toNat ≤ 57 := by
  rw [decimal_eq, List.mem_map] at hu
  obtain ⟨c, hc, rfl⟩ := hu
  have hdigit := isDigit_of_mem_showNat hc
  simp only [Char.isDigit, Bool.and_eq_true, decide_eq_true_eq] at hdigit
  have hge : 48 ≤ c.toNat := hdigit.1
  have hle : c.toNat ≤ 57 := hdigit.2
  rw [UInt16.toNat_ofNat']
  omega

/-- No name that starts with something else than a digit is a position. -/
theorem decimal_ne {k : JsString} {u : UInt16} (hk : k.head? = some u)
    (hu : u.toNat < 48 ∨ 57 < u.toNat) (n : Nat) : decimal n ≠ k := by
  rintro rfl
  have hdigit := mem_decimal (List.mem_of_mem_head? hk)
  omega

theorem decimal_injective : Function.Injective decimal := by
  have hback (n : Nat) :
      ((decimal n).map fun u => Char.ofNat u.toNat) = showNat n := by
    rw [decimal_eq, List.map_map]
    refine (List.map_congr_left fun c hc => ?_).trans (List.map_id _)
    have hdigit := isDigit_of_mem_showNat hc
    simp only [Char.isDigit, Bool.and_eq_true, decide_eq_true_eq] at hdigit
    have hle : c.toNat ≤ 57 := hdigit.2
    have hsmall : c.toNat % 2 ^ 16 = c.toNat := Nat.mod_eq_of_lt (by omega)
    simp only [Function.comp_apply, UInt16.toNat_ofNat', hsmall,
      Char.ofNat_toNat, id_eq]
  intro n m hnm
  rw [← ofDigitChars_showNat n, ← ofDigitChars_showNat m, ← hback n,
    ← hback m, hnm]

theorem put_new {A : Type} {fields : List (JsString × A)} {k : JsString}
    (hproto : k ≠ proto) (hnew : k ∉ fields.map Prod.fst) (v : A) :
    put fields k v = fields ++ [(k, v)] := by
  rw [put, if_neg hproto, if_neg hnew]

theorem indexed_keys {A : Type} (vs : List A) :
    (indexed vs).map Prod.fst = (List.range vs.length).map decimal := by
  rw [indexed, List.map_map, List.range_eq_range', ← List.zipIdx_map_snd,
    List.map_map]
  rfl

theorem indexed_values {A : Type} (vs : List A) :
    (indexed vs).map Prod.snd = vs := by
  rw [indexed, List.map_map]
  exact List.zipIdx_map_fst 0 vs

/-! ## Graphs -/

/-- The keys that the format uses itself. -/
def reserved : List JsString := [idCount, hasOwnProperty, proto]

theorem decimal_not_reserved (n : Nat) : decimal n ∉ reserved := by
  have hid : decimal n ≠ idCount :=
    decimal_ne (u := 105) rfl (Or.inr (by decide)) n
  have hown : decimal n ≠ hasOwnProperty :=
    decimal_ne (u := 104) rfl (Or.inr (by decide)) n
  have hproto : decimal n ≠ proto :=
    decimal_ne (u := 95) rfl (Or.inr (by decide)) n
  simp only [reserved, List.mem_cons, List.not_mem_nil, or_false, not_or]
  exact ⟨hid, hown, hproto⟩

theorem indexed_unreserved {A : Type} (vs : List A) :
    ((indexed vs).map Prod.fst).Nodup ∧
      ∀ k ∈ (indexed vs).map Prod.fst, k ∉ reserved := by
  rw [indexed_keys]
  refine ⟨List.Nodup.map decimal_injective List.nodup_range, fun k hk => ?_⟩
  obtain ⟨i, _, rfl⟩ := List.mem_map.mp hk
  exact decimal_not_reserved i

/-- A graph of plain objects and arrays, with references and primitive values
wherever a value can stand. -/
structure Graph where
  nodes : PlainHeap
  closed : ∀ node ∈ nodes, ∀ a, .ref a ∈ node.values → a < nodes.length
  distinct : ∀ fs, .object fs ∈ nodes → (fs.map Prod.fst).Nodup
  unreserved : ∀ fs, .object fs ∈ nodes → ∀ k ∈ fs.map Prod.fst, k ∉ reserved

namespace Graph

def values (g : Graph) : List PlainValue := g.nodes.flatMap Node.values

/-- A value that can stand in the graph. -/
def Has (g : Graph) (v : PlainValue) : Prop :=
  ∀ a, v = .ref a → a < g.nodes.length

theorem has_of_mem {g : Graph} {v : PlainValue} (hv : v ∈ g.values) :
    g.Has v := by
  rintro a rfl
  obtain ⟨node, hnode, hmem⟩ := List.mem_flatMap.mp hv
  exact g.closed node hnode a hmem

theorem properties_keys {g : Graph} {v : PlainValue} (hv : g.Has v) :
    ((properties g.nodes v).map Prod.fst).Nodup ∧
      ∀ k ∈ (properties g.nodes v).map Prod.fst, k ∉ reserved := by
  cases v with
  | prim p =>
      cases p with
      | string s => exact indexed_unreserved _
      | _ => exact ⟨List.nodup_nil, fun k hk => nomatch hk⟩
  | ref a =>
      have hlt := hv a rfl
      rw [properties, List.getElem?_eq_getElem hlt]
      have hmem := List.getElem_mem hlt
      cases hnode : g.nodes[a] with
      | object fs =>
          rw [hnode] at hmem
          exact ⟨g.distinct fs hmem, g.unreserved fs hmem⟩
      | array es => exact indexed_unreserved es

/-- The values of the properties are those of the node, or the units of a
string. -/
theorem properties_values {g : Graph} {v w : PlainValue}
    (hw : w ∈ (properties g.nodes v).map Prod.snd) {b : Nat} (hb : w = .ref b) :
    w ∈ g.values ∧ ∃ a, v = .ref a := by
  subst hb
  cases v with
  | prim p =>
      cases p with
      | string s =>
          rw [properties, indexed_values] at hw
          obtain ⟨u, _, hu⟩ := List.mem_map.mp hw
          cases hu
      | _ => cases hw
  | ref a =>
      refine ⟨?_, a, rfl⟩
      rw [properties] at hw
      cases hnode : g.nodes[a]? with
      | none =>
          rw [hnode] at hw
          cases hw
      | some node =>
          rw [hnode, Option.map_some, Option.getD_some] at hw
          refine List.mem_flatMap.mpr ⟨node, List.mem_of_getElem? hnode, ?_⟩
          cases node with
          | object fs => exact hw
          | array es => rwa [nodeProperties, indexed_values] at hw

end Graph

/-! ## The cache -/

theorem strictEquals_self {v : PlainValue} (hv : v ≠ .prim (.number .nan)) :
    strictEquals v v = true := by
  rw [strictEquals]
  · exact decide_eq_true rfl
  · exact hv

theorem indexOf_append {c : List PlainValue} {v : PlainValue} {i : Nat}
    (hi : indexOf c v = some i) (d : List PlainValue) :
    indexOf (c ++ d) v = some i := by
  rw [indexOf, List.findIdx?_append, ← indexOf, hi]
  rfl

theorem indexOf_push {c : List PlainValue} {v : PlainValue}
    (hnone : indexOf c v = none) (hv : v ≠ .prim (.number .nan)) :
    indexOf (c ++ [v]) v = some c.length := by
  rw [indexOf, List.findIdx?_append, ← indexOf, hnone, List.findIdx?_singleton,
    strictEquals_self hv]
  exact congrArg some (Nat.zero_add _)

theorem indexOf_nan (c : List PlainValue) :
    indexOf c (.prim (.number .nan)) = none := by
  rw [indexOf, List.findIdx?_eq_none_iff]
  exact fun _ _ => rfl

/-- Only the first entry of the cache has the number 0. -/
theorem indexNumber_push {c : List PlainValue} {v : PlainValue}
    (hnone : indexOf c v = none) (hc : c ≠ []) :
    indexNumber (c ++ [v]) v ≠ .finite 0 := by
  rw [indexNumber]
  by_cases hv : v = .prim (.number .nan)
  · rw [hv, indexOf_nan]
    decide
  · rw [indexOf_push hnone hv]
    intro hzero
    have hlength : (c.length : ℚ) = 0 := Number.finite.inj hzero
    exact hc (List.length_eq_zero_iff.mp (Nat.cast_eq_zero.mp hlength))

/-- The values of the graph that the cache does not find. -/
def pending (g : Graph) (c : List PlainValue) : List PlainValue :=
  g.values.filter fun v => indexOf c v = none

theorem pending_append (g : Graph) (c d : List PlainValue) :
    pending g (c ++ d) =
      (pending g c).filter fun v => indexOf (c ++ d) v = none := by
  rw [pending, pending, List.filter_filter]
  refine List.filter_congr fun v _ => ?_
  cases hv : indexOf c v with
  | none => simp
  | some i => simp [indexOf_append hv]

theorem pending_length_le (g : Graph) {c c' : List PlainValue}
    (hext : c <+: c') : (pending g c').length ≤ (pending g c).length := by
  obtain ⟨d, rfl⟩ := hext
  rw [pending_append]
  exact List.length_filter_le _ _

/-- Every push of something that can be found again leaves less to push. -/
theorem pending_push {g : Graph} {c : List PlainValue} {v : PlainValue}
    (hv : v ∈ g.values) (hnone : indexOf c v = none)
    (hnan : v ≠ .prim (.number .nan)) :
    (pending g (c ++ [v])).length < (pending g c).length := by
  rw [pending_append, List.length_filter_lt_length_iff_exists]
  refine ⟨v, List.mem_filter.mpr ⟨hv, decide_eq_true hnone⟩, ?_⟩
  rw [indexOf_push hnone hnan]
  exact ne_of_eq_of_ne (decide_eq_false nofun) Bool.false_ne_true

/-! ## What is built -/

/-- Where a value stands: what `for (.. in ..)` finds, or an element of an
array that is the value of a property. -/
inductive Place
  | property
  | element

/-- The value goes through the cache. -/
def Referenced (h : PlainHeap) (place : Place) (v : PlainValue) : Prop :=
  place = .element ∨ ∃ a, v = .ref a ∧ IsObject h a

/-- With the cache `c` the values become these trees, and the cache becomes
`c'`. -/
inductive Encodes (h : PlainHeap) : Place → List PlainValue →
    List PlainValue → List PlainTree → List PlainValue → Prop
  | nil {place c} : Encodes h place c [] [] c
  | prim {c p vs ts c'} (hrest : Encodes h .property c vs ts c') :
      Encodes h .property c (.prim p :: vs) (.prim p :: ts) c'
  | array {c a es us c₁ vs ts c'} (hnode : h[a]? = some (.array es))
      (helements : Encodes h .element c es us c₁)
      (hrest : Encodes h .property c₁ vs ts c') :
      Encodes h .property c (.ref a :: vs) (.array us :: ts) c'
  | seen {place c v i vs ts c'} (href : Referenced h place v)
      (hseen : indexOf c v = some i) (hrest : Encodes h place c vs ts c') :
      Encodes h place c (v :: vs) (.prim (circular i) :: ts) c'
  | fresh {place c v us c₁ vs ts c'} (href : Referenced h place v)
      (hfresh : indexOf c v = none)
      (hproperties : Encodes h .property (c ++ [v])
        ((properties h v).map Prod.snd) us c₁)
      (hrest : Encodes h place c₁ vs ts c') :
      Encodes h place c (v :: vs)
        (.object ((idCount, .prim (.number (indexNumber (c ++ [v]) v))) ::
          ((properties h v).map Prod.fst).zip us) :: ts) c'

namespace Encodes

variable {h : PlainHeap} {place : Place} {c c₁ c' vs : List PlainValue}
  {v : PlainValue} {t : PlainTree} {ts : List PlainTree}

theorem cons (hhead : Encodes h place c [v] [t] c₁)
    (htail : Encodes h place c₁ vs ts c') :
    Encodes h place c (v :: vs) (t :: ts) c' := by
  cases hhead with
  | prim hnil =>
      cases hnil
      exact .prim htail
  | array hnode helements hnil =>
      cases hnil
      exact .array hnode helements htail
  | seen href hseen hnil =>
      cases hnil
      exact .seen href hseen htail
  | fresh href hfresh hproperties hnil =>
      cases hnil
      exact .fresh href hfresh hproperties htail

theorem length_eq (henc : Encodes h place c vs ts c') :
    vs.length = ts.length := by
  induction henc with
  | nil => rfl
  | prim _ ih => exact congrArg (· + 1) ih
  | array _ _ _ _ ih => exact congrArg (· + 1) ih
  | seen _ _ _ ih => exact congrArg (· + 1) ih
  | fresh _ _ _ _ _ ih => exact congrArg (· + 1) ih

/-- The cache only grows. -/
theorem cache_grows (henc : Encodes h place c vs ts c') : c <+: c' := by
  induction henc with
  | nil => exact List.prefix_refl _
  | prim _ ih => exact ih
  | array _ _ _ ihelements ihrest => exact ihelements.trans ihrest
  | seen _ _ _ ih => exact ih
  | fresh _ _ _ _ ihproperties ihrest =>
      exact (List.prefix_append _ _).trans (ihproperties.trans ihrest)

end Encodes

/-- From the state `s` to the state `s'` the values `vs` of the graph have
become the values `ws`, which hold the trees that encode them. -/
def Built (g : Graph) (place : Place) (s : Serializing)
    (vs ws : List PlainValue) (s' : Serializing) : Prop :=
  s.heap <+: s'.heap ∧ ∃ ts,
    Encodes g.nodes place s.objCache vs ts s'.objCache ∧
    Spans s'.heap (· < g.nodes.length) s.heap.length ws ts s'.heap.length

/-- The same for the object that a value is serialized to. -/
def BuiltObject (g : Graph) (v : PlainValue) (id : Number) (s : Serializing)
    (w : PlainValue) (s' : Serializing) : Prop :=
  s.heap <+: s'.heap ∧ ∃ us,
    Encodes g.nodes .property s.objCache
      ((properties g.nodes v).map Prod.snd) us s'.objCache ∧
    Spans s'.heap (· < g.nodes.length) s.heap.length [w]
      [.object ((idCount, .prim (.number id)) ::
        ((properties g.nodes v).map Prod.fst).zip us)] s'.heap.length

/-- The graph is in the heap and the first object in the cache. -/
structure Ready (g : Graph) (s : Serializing) : Prop where
  graph : g.nodes <+: s.heap
  started : s.objCache ≠ []

section Serialize

variable {g : Graph} {s s' s'' : Serializing} {place : Place} {n : Nat}

theorem Built.nil : Built g place s [] [] s :=
  ⟨List.prefix_refl _, [], .nil, .nil⟩

theorem Built.cons {v w : PlainValue} {vs ws : List PlainValue}
    (hhead : Built g place s [v] [w] s') (htail : Built g place s' vs ws s'') :
    Built g place s (v :: vs) (w :: ws) s'' := by
  obtain ⟨hext, ts, henc, hspans⟩ := hhead
  obtain ⟨hext', us, henc', hspans'⟩ := htail
  obtain ⟨t, rfl⟩ : ∃ t, ts = [t] := List.length_eq_one_iff.mp henc.length_eq.symm
  exact ⟨hext.trans hext', t :: us, henc.cons henc',
    (hspans.extend hext').cons hspans'⟩

theorem Built.objCache {vs ws : List PlainValue}
    (hbuilt : Built g place s vs ws s') : s.objCache <+: s'.objCache := by
  obtain ⟨_, ts, henc, _⟩ := hbuilt
  exact henc.cache_grows

theorem Ready.built (hs : Ready g s) {vs ws : List PlainValue}
    (hbuilt : Built g place s vs ws s') : Ready g s' :=
  ⟨hs.graph.trans hbuilt.1, fun hnil => hs.started
    (List.prefix_nil.mp (hnil ▸ hbuilt.objCache))⟩

theorem Ready.node (hs : Ready g s) {a : Nat} (ha : a < g.nodes.length) :
    s.heap[a]? = g.nodes[a]? := by
  obtain ⟨built, hbuilt⟩ := hs.graph
  rw [← hbuilt, List.getElem?_append_left ha]

theorem Ready.properties (hs : Ready g s) {v : PlainValue} (hv : g.Has v) :
    properties s.heap v = properties g.nodes v := by
  cases v with
  | prim p => cases p <;> rfl
  | ref a => rw [Serializer.properties, hs.node (hv a rfl), Serializer.properties]

/-- What is assumed of the recursive calls, for fuel above the number of values
that are still to be pushed. -/
def Serializes (g : Graph) (n : Nat)
    (rec : PlainValue → Number → Comp Halt Serializing PlainValue) : Prop :=
  ∀ s v id, Ready g s → g.Has v → 0 < n →
    (∀ a, v = .ref a → (pending g s.objCache).length < n) → id ≠ .finite 0 →
    (rec v id).Ends s (BuiltObject g v id s)

variable {rec : PlainValue → Number → Comp Halt Serializing PlainValue}

theorem reference_built (hrec : Serializes g n rec) (hs : Ready g s)
    {v : PlainValue} (hv : v ∈ g.values)
    (hn : (pending g s.objCache).length ≤ n)
    (href : Referenced g.nodes place v) :
    (reference rec v).Ends s fun w s' => Built g place s [v] [w] s' := by
  unfold reference
  refine Comp.ends_get_bind ?_
  cases hindex : indexOf s.objCache v with
  | some i =>
      exact Comp.ends_pure ⟨List.prefix_refl _, [.prim (circular i)],
        .seen href hindex .nil, .prim .nil⟩
  | none =>
      have hpos : 0 < n := by
        have hmem : v ∈ pending g s.objCache :=
          List.mem_filter.mpr ⟨hv, decide_eq_true hindex⟩
        exact (List.length_pos_of_mem hmem).trans_le hn
      have hfuel (a : Nat) (ha : v = .ref a) :
          (pending g (s.objCache ++ [v])).length < n := by
        have hnan : v ≠ .prim (.number .nan) := by
          rw [ha]
          exact nofun
        exact (pending_push hv hindex hnan).trans_le hn
      have hready : Ready g { s with objCache := s.objCache ++ [v] } :=
        ⟨hs.graph, List.append_ne_nil_of_right_ne_nil _ (List.cons_ne_nil _ _)⟩
      refine Comp.ends_modify_bind ?_
      refine (hrec _ v _ hready (Graph.has_of_mem hv) hpos hfuel
        (indexNumber_push hindex hs.started)).mono ?_
      rintro w s' ⟨hext, us, henc, hspans⟩
      exact ⟨hext, _, .fresh href hindex henc .nil, hspans⟩

theorem elements_built (hrec : Serializes g n rec) (vs : List PlainValue)
    (hs : Ready g s) (hvs : ∀ v ∈ vs, v ∈ g.values)
    (hn : (pending g s.objCache).length ≤ n) :
    (elements rec vs).Ends s fun ws s' => Built g .element s vs ws s' := by
  induction vs generalizing s with
  | nil => exact Comp.ends_pure Built.nil
  | cons v vs ih =>
      rw [List.forall_mem_cons] at hvs
      refine (reference_built hrec hs hvs.1 hn (Or.inl rfl)).bind ?_
      intro w s₁ hw
      have hn₁ := (pending_length_le g hw.objCache).trans hn
      refine (ih (hs.built hw) hvs.2 hn₁).bind ?_
      intro ws s₂ hws
      exact Comp.ends_pure (hw.cons hws)

theorem alloc_ends (node : PlainNode) {Q : PlainValue → Serializing → Prop}
    (hQ : Q (.ref s.heap.length) { s with heap := s.heap ++ [node] }) :
    (alloc node).Ends s Q := ⟨_, _, rfl, hQ⟩

theorem flatten_built (hrec : Serializes g n rec) (hs : Ready g s)
    {v : PlainValue}
    (hv : ∀ a, v = .ref a →
      v ∈ g.values ∧ (pending g s.objCache).length ≤ n) :
    (flatten rec v).Ends s fun w s' => Built g .property s [v] [w] s' := by
  unfold flatten
  refine Comp.ends_get_bind ?_
  cases v with
  | prim p =>
      exact Comp.ends_pure ⟨List.prefix_refl _, [.prim p], .prim .nil,
        .prim .nil⟩
  | ref a =>
      obtain ⟨hmem, hn⟩ := hv a rfl
      have hlt := Graph.has_of_mem hmem a rfl
      have hnode := List.getElem?_eq_getElem hlt
      have hnodes := List.getElem_mem hlt
      dsimp only
      rw [hs.node hlt, hnode]
      cases hcase : g.nodes[a] with
      | object fs =>
          rw [hcase] at hnode
          exact reference_built hrec hs hmem hn (Or.inr ⟨a, rfl, fs, hnode⟩)
      | array es =>
          rw [hcase] at hnode hnodes
          cases es with
          | nil =>
              refine Comp.ends_pure ⟨List.prefix_refl _, [.array []],
                .array hnode .nil .nil, .shared hlt ?_ .nil⟩
              rw [hs.node hlt, hnode]
          | cons e es =>
              have helements : ∀ v ∈ e :: es, v ∈ g.values := fun v hv =>
                List.mem_flatMap.mpr ⟨_, hnodes, hv⟩
              refine (elements_built hrec _ hs helements hn).bind ?_
              rintro ws s₁ ⟨hext, ts, henc, hspans⟩
              have hadd := List.prefix_append s₁.heap [.array ws]
              refine alloc_ends _ ⟨hext.trans hadd, [.array ts],
                .array hnode henc .nil, ?_⟩
              rw [List.length_append]
              exact .array (hspans.extend hadd) List.getElem?_concat_length .nil

theorem walk_built (hrec : Serializes g n rec)
    (props newObj : List (JsString × PlainValue)) (hs : Ready g s)
    (hkeys : ((newObj ++ props).map Prod.fst).Nodup)
    (hproto : proto ∉ props.map Prod.fst)
    (hprops : ∀ v ∈ props.map Prod.snd, ∀ a, v = .ref a →
      v ∈ g.values ∧ (pending g s.objCache).length ≤ n) :
    (walk rec newObj props).Ends s fun fields s' =>
      ∃ ws, fields = newObj ++ (props.map Prod.fst).zip ws ∧
        ws.length = props.length ∧
        Built g .property s (props.map Prod.snd) ws s' := by
  induction props generalizing newObj s with
  | nil =>
      exact Comp.ends_pure ⟨[], (List.append_nil _).symm, rfl, Built.nil⟩
  | cons prop props ih =>
      obtain ⟨k, v⟩ := prop
      rw [List.map_cons, List.forall_mem_cons] at hprops
      rw [List.map_cons, List.mem_cons, not_or] at hproto
      refine (flatten_built hrec hs hprops.1).bind ?_
      intro w s₁ hw
      have hnew : k ∉ newObj.map Prod.fst := by
        rw [List.map_append, List.nodup_append] at hkeys
        exact fun hk => hkeys.2.2 k hk k List.mem_cons_self rfl
      rw [put_new (Ne.symm hproto.1) hnew]
      have hkeys₁ : ((newObj ++ [(k, w)] ++ props).map Prod.fst).Nodup := by
        rw [List.append_assoc, List.map_append]
        rwa [List.map_append] at hkeys
      have hprops₁ (u : PlainValue) (hu : u ∈ props.map Prod.snd) (a : Nat)
          (ha : u = .ref a) :
          u ∈ g.values ∧ (pending g s₁.objCache).length ≤ n := by
        obtain ⟨hmem, hn⟩ := hprops.2 u hu a ha
        exact ⟨hmem, (pending_length_le g hw.objCache).trans hn⟩
      refine (ih _ (hs.built hw) hkeys₁ hproto.2 hprops₁).mono ?_
      rintro fields s₂ ⟨ws, rfl, hlength, hws⟩
      exact ⟨w :: ws, List.append_assoc _ _ _, congrArg (· + 1) hlength,
        hw.cons hws⟩

theorem build_built (hrec : Serializes g n rec) (hs : Ready g s)
    {v : PlainValue} (hv : g.Has v)
    (hn : ∀ a, v = .ref a → (pending g s.objCache).length ≤ n) (id : Number) :
    (build rec v id).Ends s (BuiltObject g v id s) := by
  unfold build
  refine Comp.ends_get_bind ?_
  dsimp only
  rw [hs.properties hv]
  obtain ⟨hnodup, hkeys⟩ := Graph.properties_keys hv
  have hmem {k : JsString} (hk : k ∈ reserved) :
      k ∉ (properties g.nodes v).map Prod.fst := fun hin => hkeys k hin hk
  rw [if_neg (hmem (by simp [reserved]))]
  have hnew : (idCount :: (properties g.nodes v).map Prod.fst).Nodup :=
    List.nodup_cons.mpr ⟨hmem (by simp [reserved]), hnodup⟩
  have hprops (w : PlainValue)
      (hw : w ∈ (properties g.nodes v).map Prod.snd) (b : Nat)
      (hb : w = .ref b) :
      w ∈ g.values ∧ (pending g s.objCache).length ≤ n := by
    obtain ⟨hmem, a, ha⟩ := Graph.properties_values hw hb
    exact ⟨hmem, hn a ha⟩
  refine (walk_built hrec (properties g.nodes v)
    [(idCount, .prim (.number id))] hs hnew (hmem (by simp [reserved]))
    hprops).bind ?_
  rintro fields s₁ ⟨ws, rfl, hlength, hext, us, henc, hspans⟩
  have hadd := List.prefix_append s₁.heap
    [.object ([(idCount, .prim (.number id))] ++
      ((properties g.nodes v).map Prod.fst).zip ws)]
  refine alloc_ends _ ⟨hext.trans hadd, us, henc, ?_⟩
  have hus : us.length = ws.length := by
    rw [← henc.length_eq, List.length_map, hlength]
  have hkeys_le {A : Type} {l : List A} (hl : l.length = ws.length) :
      ((properties g.nodes v).map Prod.fst).length = l.length := by
    rw [List.length_map, hl, hlength]
  rw [List.length_append]
  refine .object ?_ List.getElem?_concat_length ?_ .nil
  · rw [List.singleton_append, List.map_cons, List.map_cons,
      List.map_snd_zip (hkeys_le rfl).ge, List.map_snd_zip (hkeys_le hus).ge]
    exact .prim (hspans.extend hadd)
  · rw [List.singleton_append, List.map_cons, List.map_cons,
      List.map_fst_zip (hkeys_le rfl).le, List.map_fst_zip (hkeys_le hus).le]

/-- The `idCount` of an object that was built is its id. -/
theorem BuiltObject.idCount {v w : PlainValue} {id : Number}
    (hbuilt : BuiltObject g v id s w s') :
    ((properties s'.heap w).lookup idCount).getD (.prim .undefined) =
      .prim (.number id) := by
  obtain ⟨_, us, _, hspans⟩ := hbuilt
  cases hspans with
  | @object _ a fs _ _ _ _ hvalues hnode hkeys _ =>
      rw [properties, hnode, Option.map_some, Option.getD_some, nodeProperties]
      cases fs with
      | nil => cases hkeys
      | cons f fs =>
          rw [List.map_cons, List.map_cons, List.cons.injEq] at hkeys
          rw [List.map_cons, List.map_cons] at hvalues
          obtain ⟨k, w⟩ := f
          obtain rfl : k = Serializer.idCount := hkeys.1
          cases hvalues with
          | prim _ => rw [List.lookup_cons_self, Option.getD_some]

theorem nested_built (E : Engine) (g : Graph) (n : Nat) :
    Serializes g n (nested E n) := by
  induction n with
  | zero => exact fun _ _ _ _ _ hpos => absurd hpos (Nat.lt_irrefl 0)
  | succ n ih =>
      intro s v id hs hv _ hn hid
      have hserialize : (serialize E (n + 1) v id).Ends s fun r s' =>
          ∃ w, r = .value w ∧ BuiltObject g v id s w s' := by
        refine (build_built ih hs hv
          (fun a ha => Nat.le_of_lt_succ (hn a ha)) id).bind ?_
        intro w s' hw
        refine Comp.ends_get_bind ?_
        rw [hw.idCount, isZero, decide_eq_false hid]
        exact Comp.ends_pure ⟨w, rfl, hw⟩
      refine hserialize.bind ?_
      rintro _ s' ⟨w, rfl, hw⟩
      exact Comp.ends_pure hw

theorem newObject_built (E : Engine) {v : PlainValue} (hv : g.Has v)
    (hn : g.values.length ≤ n) :
    ∃ w s', newObject E n g.nodes v = (.ok w, s') ∧
      BuiltObject g v (.finite 0) ⟨g.nodes, [v]⟩ w s' := by
  have hpending : (pending g [v]).length ≤ n :=
    (List.length_filter_le _ _).trans hn
  exact build_built (nested_built E g n) (s := ⟨g.nodes, [v]⟩)
    ⟨List.prefix_refl _, List.cons_ne_nil _ _⟩ hv (fun _ _ => hpending) _

/-- The text that `serialize(obj)` returns is that of `newObj`. -/
theorem serializeGraph_eq {E : Engine} {v w : PlainValue}
    (hrun : newObject E n g.nodes v = (.ok w, s'))
    (hbuilt : BuiltObject g v (.finite 0) s w s') {t : PlainTree}
    (ht : unfold s'.heap (s'.heap.length + 1) w = some t) :
    serializeGraph E (n + 1) g.nodes v = (.ok (.text (stringified t)), s') := by
  have hfinish : finish E w s' = (.ok (.text (stringified t)), s') := by
    rw [finish, Comp.bind_ok (Comp.get_apply s'), hbuilt.idCount, isZero,
      decide_eq_true rfl]
    dsimp only
    rw [ht]
    rfl
  exact (Comp.bind_ok hrun _).trans hfinish

/-- The tree that an object was built to hold. -/
theorem BuiltObject.unfold {v w : PlainValue} {id : Number}
    (hbuilt : BuiltObject g v id s w s') :
    ∃ us, Encodes g.nodes .property s.objCache
        ((properties g.nodes v).map Prod.snd) us s'.objCache ∧
      unfold s'.heap (s'.heap.length + 1) w =
        some (.object ((Serializer.idCount, .prim (.number id)) ::
          ((properties g.nodes v).map Prod.fst).zip us)) := by
  obtain ⟨_, us, henc, hspans⟩ := hbuilt
  exact ⟨us, henc,
    unfold_of_mapM (hspans.unfold (s'.heap.length + 1) (by omega))⟩

end Serialize

/-! ## Every graph -/

/-- The object `r` that was built next to the graph `h`.  Its objects and
arrays are the new nodes: they refer to earlier nodes only, the root nowhere
and every other one in one place.  What they share with the graph, and perhaps
among themselves, are empty arrays. -/
structure BuiltTree (h h' : PlainHeap) (r : Nat) : Prop where
  graph : h <+: h'
  root : h.length ≤ r ∧ r + 1 = h'.length
  acyclic : ∀ a c, h.length ≤ a → c ∈ nodeRefs h' a → c < a
  once : ∀ c, h.length ≤ c →
    (refsBetween h' h.length h'.length).count c = if c < r then 1 else 0
  shared : ∀ c ∈ refsBetween h' h.length h'.length, c < h.length →
    h[c]? = some (.array [])

theorem BuiltObject.tree {g : Graph} {v w : PlainValue} {id : Number}
    {c c' : List PlainValue} {h' : PlainHeap}
    (hbuilt : BuiltObject g v id ⟨g.nodes, c⟩ w ⟨h', c'⟩) :
    ∃ r, w = .ref r ∧ BuiltTree g.nodes h' r := by
  obtain ⟨hext, us, _, hspans⟩ := hbuilt
  change g.nodes <+: h' at hext
  change Spans h' _ g.nodes.length _ _ h'.length at hspans
  have hall := hspans
  cases hspans with
  | @object _ r fs _ _ _ _ hvalues _ _ hnil =>
      have hlength : r + 1 = h'.length := hnil.eq_of_nil
      have hle : g.nodes.length ≤ r := hvalues.le
      refine ⟨r, rfl, hext, ⟨hle, hlength⟩, ?_, ?_, ?_⟩
      · intro a b ha hb
        by_cases hlt : a < h'.length
        · rcases hall.descends ⟨ha, hlt⟩ hb with hin | ⟨hshared, _⟩
          · exact hin.2
          · exact hshared.trans_le ha
        · rw [nodeRefs, List.getElem?_eq_none (by omega)] at hb
          cases hb
      · intro b hb
        have hcount := hall.count (show ¬b < g.nodes.length by omega)
        rw [refs_ref, List.count_cons] at hcount
        simp only [refs, List.filterMap_nil, List.count_nil, beq_iff_eq]
          at hcount
        split_ifs at hcount ⊢ <;> omega
      · intro b hb hlt
        rw [refsBetween, List.mem_flatMap] at hb
        obtain ⟨a, ha, hb⟩ := hb
        rw [List.mem_range'_1] at ha
        rcases hall.descends (a := a) ⟨ha.1, by omega⟩ hb with hin | ⟨_, hnode⟩
        · omega
        · obtain ⟨built, rfl⟩ := hext
          rwa [List.getElem?_append_left hlt] at hnode

/-- `serialize` returns on every graph.  The depth of its recursion is at most
the number of values in the graph, and what it builds is a tree but for the
empty arrays. -/
theorem serialize_returns (E : Engine) (g : Graph) {v : PlainValue}
    (hv : g.Has v) {n : Nat} (hn : g.values.length ≤ n) :
    ∃ r s', newObject E n g.nodes v = (.ok (.ref r), s') ∧
      BuiltTree g.nodes s'.heap r ∧
      ∃ t, serializeGraph E (n + 1) g.nodes v = (.ok (.text t), s') := by
  obtain ⟨w, s', hrun, hbuilt⟩ := newObject_built E hv hn
  obtain ⟨r, rfl, htree⟩ := hbuilt.tree
  obtain ⟨us, _, hunfold⟩ := hbuilt.unfold
  exact ⟨r, s', hrun, htree, _, serializeGraph_eq hrun hbuilt hunfold⟩

end Serializer

namespace SerializerRunsWitness

open Serializer

/-- None of it is used on the graphs below. -/
def engine : Engine where
  jsonText _ := []
  equalsZero _ _ := some false
  primText _ := []
  objectText _ _ := some (units "[object Object]")
  arrayMembers _ := false
  objectMembers _ := false
  arrayLength _ := 0

/-- `{ list: a }`, where `a` is `[NaN, NaN, a, 'ab']`. -/
def listGraph : Graph where
  nodes :=
    [.object [(units "list", .ref 1)],
      .array [.prim (.number .nan), .prim (.number .nan), .ref 1,
        .prim (.string (units "ab"))]]
  closed := by simp
  distinct := by simp
  unreserved := by
    simp only [List.mem_cons, Node.object.injEq, reduceCtorEq,
      List.not_mem_nil, or_false]
    rintro _ rfl
    decide

theorem listGraph_returns :
    ∃ r s', newObject engine 5 listGraph.nodes (.ref 0) = (.ok (.ref r), s') ∧
      BuiltTree listGraph.nodes s'.heap r ∧
      ∃ t, serializeGraph engine 6 listGraph.nodes (.ref 0) =
        (.ok (.text t), s') :=
  serialize_returns engine listGraph (v := .ref 0)
    (by
      rintro a ha
      cases ha
      decide)
    (by decide)

/-- `{ x: e, y: e }`, where `e` is `[]`. -/
def sharedGraph : Graph where
  nodes :=
    [.array [], .object [(units "x", .ref 0), (units "y", .ref 0)]]
  closed := by simp
  distinct := by
    simp only [List.mem_cons, Node.object.injEq, reduceCtorEq,
      List.not_mem_nil, or_false, false_or]
    rintro _ rfl
    decide
  unreserved := by
    simp only [List.mem_cons, Node.object.injEq, reduceCtorEq,
      List.not_mem_nil, or_false, false_or]
    rintro _ rfl
    decide

/-- Both properties of `newObj` are `e` itself, so it is no tree. -/
theorem empty_array_shared :
    ¬ ∀ (E : Engine) (g : Graph) (v : PlainValue), g.Has v →
      ∀ n, g.values.length ≤ n →
        ∃ r s', newObject E n g.nodes v = (.ok (.ref r), s') ∧
          (∀ a c, g.nodes.length ≤ a → c ∈ nodeRefs s'.heap a → c < a) ∧
          ∀ c, (refsBetween s'.heap g.nodes.length s'.heap.length).count c ≤ 1 := by
  intro hall
  have hhas : sharedGraph.Has (.ref 1) := by
    rintro a ha
    cases ha
    decide
  obtain ⟨r, s', hrun, _, honce⟩ := hall engine sharedGraph (.ref 1) hhas 2
    (by decide)
  have hbuilt : newObject engine 2 sharedGraph.nodes (.ref 1) =
      (.ok (.ref 2), ⟨sharedGraph.nodes ++ [.object
        [(idCount, .prim (.number (.finite 0))), (units "x", .ref 0),
          (units "y", .ref 0)]], [.ref 1]⟩) := rfl
  rw [hbuilt] at hrun
  cases hrun
  exact absurd (honce 0) (by decide)

end SerializerRunsWitness

end Appmetrics
