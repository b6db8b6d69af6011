/-
JSON documents in `deserialize(serialize(d))`.  Which documents come back is a
condition on their keys, on the strings among the values of properties and on
the elements of arrays.
-/
import Appmetrics.SerializerKeys

namespace Appmetrics

open Effect ObjectGraph

namespace Serializer

/-! ## Documents -/

/-- The primitive values of JSON. -/
def IsJson : Prim → Prop
  | .null => True
  | .boolean _ => True
  | .number (.finite _) => True
  | .string _ => True
  | _ => False

inductive JsonTrees : List PlainTree → Prop
  | nil : JsonTrees []
  | prim {p ts} (hp : IsJson p) (hrest : JsonTrees ts) :
      JsonTrees (.prim p :: ts)
  | array {us ts} (helements : JsonTrees us) (hrest : JsonTrees ts) :
      JsonTrees (.array us :: ts)
  | object {ms : List (JsString × PlainTree)} {ts}
      (hkeys : (ms.map Prod.fst).Nodup) (hmembers : JsonTrees (ms.map Prod.snd))
      (hrest : JsonTrees ts) : JsonTrees (.object ms :: ts)

/-- A JSON document whose root is an object. -/
structure Document where
  members : List (JsString × PlainTree)
  json : JsonTrees [.object members]

def Document.tree (d : Document) : PlainTree := .object d.members

/-- Equal trees, up to the order of the members of objects. -/
inductive EqualTrees : List PlainTree → List PlainTree → Prop
  | nil : EqualTrees [] []
  | prim {p ts us} (hrest : EqualTrees ts us) :
      EqualTrees (.prim p :: ts) (.prim p :: us)
  | array {ts' us' ts us} (helements : EqualTrees ts' us')
      (hrest : EqualTrees ts us) :
      EqualTrees (.array ts' :: ts) (.array us' :: us)
  | object {ms ns ns' : List (JsString × PlainTree)} {ts us}
      (horder : ns'.Perm ns) (hkeys : ms.map Prod.fst = ns'.map Prod.fst)
      (hmembers : EqualTrees (ms.map Prod.snd) (ns'.map Prod.snd))
      (hrest : EqualTrees ts us) :
      EqualTrees (.object ms :: ts) (.object ns :: us)

/-- With this fuel, `deserialize(serialize(d))` is equal to `d`. -/
def Document.RoundTrips (E : Engine) (d : Document) (n m : Nat) : Prop :=
  ∃ r h k t,
    roundTrip E n m (load d.tree []).2 (load d.tree []).1 = (.ok (.ref r), h) ∧
    unfold h k (.ref r) = some t ∧ EqualTrees [t] [d.tree]

/-- No object has one of the keys that the format uses itself, no property is a
string that looks like a reference, and arrays hold objects. -/
inductive Safe : Place → List PlainTree → Prop
  | nil {place} : Safe place []
  | prim {p ts} (hp : Survives p) (hrest : Safe .property ts) :
      Safe .property (.prim p :: ts)
  | array {us ts} (helements : Safe .element us) (hrest : Safe .property ts) :
      Safe .property (.array us :: ts)
  | object {place} {ms : List (JsString × PlainTree)} {ts}
      (hkeys : ∀ k ∈ ms.map Prod.fst, k ∉ reserved)
      (hmembers : Safe .property (ms.map Prod.snd)) (hrest : Safe place ts) :
      Safe place (.object ms :: ts)

theorem JsonTrees.equal {ts : List PlainTree} (hjson : JsonTrees ts) :
    EqualTrees ts ts := by
  induction hjson with
  | nil => exact .nil
  | prim _ _ ih => exact .prim ih
  | array _ _ ihelements ihrest => exact .array ihelements ihrest
  | object _ _ _ ihmembers ihrest =>
      exact .object (List.Perm.refl _) rfl ihmembers ihrest

/-! ## Safe documents come back -/

section Safe

variable {h : PlainHeap} {place : Place} {lo hi : Nat} {vs : List PlainValue}
  {ts : List PlainTree}

/-- What can stand where in a safe document. -/
def StandsAt (h : PlainHeap) : Place → PlainValue → Prop
  | .property, v => ∀ p, v = .prim p → Survives p
  | .element, v => ∃ a, v = .ref a ∧ IsObject h a

theorem StandsAt.object {a : Nat} (place : Place) (hobject : IsObject h a) :
    StandsAt h place (.ref a) := by
  cases place with
  | property =>
      rintro p hp
      cases hp
  | element => exact ⟨a, rfl, hobject⟩

/-- What holds of a node of a safe document. -/
def SafeNode (h : PlainHeap) : PlainNode → Prop
  | .object fs => ∀ v ∈ fs.map Prod.snd, StandsAt h .property v
  | .array es => ∀ e ∈ es, StandsAt h .element e

theorem Safe.nodes (hsafe : Safe place ts)
    (hspans : Spans h (fun _ => False) lo vs ts hi) :
    (∀ v ∈ vs, StandsAt h place v) ∧
      ∀ a node, lo ≤ a → a < hi → h[a]? = some node → SafeNode h node := by
  induction hspans generalizing place with
  | nil => exact ⟨List.forall_mem_nil _, fun a _ hlo hhi => by omega⟩
  | prim _ ih =>
      cases hsafe with
      | prim hp hrest =>
          obtain ⟨hvs, hnodes⟩ := ih hrest
          refine ⟨List.forall_mem_cons.mpr ⟨?_, hvs⟩, hnodes⟩
          rintro q hq
          cases hq
          exact hp
  | shared hshared _ _ _ => exact hshared.elim
  | @array lo a es us vs ts hi helements hnode hrest ihelements ihrest =>
      cases hsafe with
      | array hsafe hsafe' =>
          obtain ⟨hes, hnodes⟩ := ihelements hsafe
          obtain ⟨hvs, hnodes'⟩ := ihrest hsafe'
          refine ⟨List.forall_mem_cons.mpr ⟨?_, hvs⟩, ?_⟩
          · rintro p hp
            cases hp
          · exact forall_nodes hnode hnodes hes hnodes'
  | @object lo a fs ms vs ts hi hvalues hnode hkeys hrest ihvalues ihrest =>
      cases hsafe with
      | object _ hsafe hsafe' =>
          obtain ⟨hfs, hnodes⟩ := ihvalues hsafe
          obtain ⟨hvs, hnodes'⟩ := ihrest hsafe'
          exact ⟨List.forall_mem_cons.mpr
            ⟨StandsAt.object place ⟨fs, hnode⟩, hvs⟩,
              forall_nodes hnode hnodes hfs hnodes'⟩

theorem Safe.unreserved (hsafe : Safe place ts) :
    ∀ t ∈ ts, Keyed Unreserved t := by
  induction hsafe with
  | nil => exact List.forall_mem_nil _
  | prim _ _ ih => exact List.forall_mem_cons.mpr ⟨.prim, ih⟩
  | array _ _ ihelements ihrest =>
      exact List.forall_mem_cons.mpr ⟨.array ihelements, ihrest⟩
  | object hkeys _ _ ihmembers ihrest =>
      exact List.forall_mem_cons.mpr ⟨.object hkeys ihmembers, ihrest⟩

theorem JsonTrees.distinct (hjson : JsonTrees ts) :
    ∀ t ∈ ts, Keyed List.Nodup t := by
  induction hjson with
  | nil => exact List.forall_mem_nil _
  | prim _ _ ih => exact List.forall_mem_cons.mpr ⟨.prim, ih⟩
  | array _ _ ihelements ihrest =>
      exact List.forall_mem_cons.mpr ⟨.array ihelements, ihrest⟩
  | object hkeys _ _ ihmembers ihrest =>
      exact List.forall_mem_cons.mpr ⟨.object hkeys ihmembers, ihrest⟩

end Safe

/-- The heap that a document is read into. -/
theorem Document.loaded (d : Document) :
    ∃ r h, load d.tree [] = (.ref r, h) ∧ IsObject h r ∧
      Spans h (fun _ => False) 0 [.ref r] [d.tree] h.length := by
  obtain ⟨_, hspans⟩ := load_spec (fun _ => False) d.tree []
  have hall := hspans
  generalize load d.tree [] = loaded at hspans hall
  obtain ⟨v, h⟩ := loaded
  cases hspans with
  | object _ hnode _ _ => exact ⟨_, h, rfl, ⟨_, hnode⟩, hall⟩

/-- A document without reserved keys is a graph. -/
theorem Document.graph (d : Document) (hkeys : Keyed Unreserved d.tree) :
    ∃ (g : Graph) (r : Nat), load d.tree [] = (.ref r, g.nodes) ∧
      IsObject g.nodes r ∧
      Spans g.nodes (fun _ => False) 0 [.ref r] [d.tree] g.nodes.length := by
  obtain ⟨r, h, hload, hroot, hspans⟩ := d.loaded
  have hkeyed {Q : List JsString → Prop} (hQ : Keyed Q d.tree) {node : PlainNode}
      (hnode : node ∈ h) : node.Keyed Q := by
    obtain ⟨a, ha, rfl⟩ := List.mem_iff_getElem.mp hnode
    exact hspans.keyed (List.forall_mem_singleton.mpr hQ) a _ (Nat.zero_le a) ha
      (List.getElem?_eq_getElem ha)
  have hdistinct := d.json.distinct d.tree List.mem_cons_self
  refine ⟨{
    nodes := h
    closed := fun node hnode b hb => ?_
    distinct := fun fs hfs => hkeyed hdistinct hfs
    unreserved := fun fs hfs => hkeyed hkeys hfs }, r, hload, hroot, hspans⟩
  obtain ⟨a, ha, rfl⟩ := List.mem_iff_getElem.mp hnode
  rcases hspans.descends ⟨Nat.zero_le a, ha⟩
    (mem_nodeRefs (List.getElem?_eq_getElem ha) hb) with hin | hshared
  · omega
  · exact hshared.1.elim

/-- Safe documents come back as they are. -/
theorem Document.roundTrips (E : Engine) (d : Document)
    (hsafe : Safe .property [d.tree]) :
    ∃ N, ∀ n, N ≤ n → ∃ M, ∀ m, M ≤ m → d.RoundTrips E n m := by
  obtain ⟨g, root, hload, hroot, hspans⟩ :=
    d.graph (hsafe.unreserved d.tree List.mem_cons_self)
  obtain ⟨_, hnodes⟩ := hsafe.nodes hspans
  have hsafeNode {node : PlainNode} (hnode : node ∈ g.nodes) :
      SafeNode g.nodes node := by
    obtain ⟨a, ha, rfl⟩ := List.mem_iff_getElem.mp hnode
    exact hnodes a _ (Nat.zero_le a) ha (List.getElem?_eq_getElem ha)
  let plain : PlainGraph := {
    g with
    root := root
    root_object := hroot
    primitives := fun fs hfs p hp => hsafeNode hfs _ hp p rfl
    arrays := fun es hes => hsafeNode hes }
  refine ⟨g.values.length + 1, fun n hn => ?_⟩
  obtain ⟨n, rfl⟩ : ∃ k, n = k + 1 := ⟨n - 1, by omega⟩
  obtain ⟨M, hM⟩ := plain.inflated E (show g.values.length ≤ n by omega)
  refine ⟨M, fun m hm => ?_⟩
  obtain ⟨r, h, hrun, hiso⟩ := hM m hm
  obtain ⟨k, hunfold⟩ := hiso.unfold hroot hspans
  refine ⟨r, h, k, d.tree, ?_, hunfold, d.json.equal⟩
  rw [hload]
  exact hrun

end Serializer

end Appmetrics
