/-
The ids of a profile.  `visit` numbers the nodes of all profiles in one
sequence; the ids are valid until the 32-bit counter has run out.
-/
import Appmetrics.Profile
import Mathlib.Data.List.Nodup

namespace Appmetrics

/-- A node by the trees below it. -/
theorem CpuProfileNode.induction {P : CpuProfileNode → Prop}
    {Q : List CpuProfileNode → Prop}
    (node : ∀ functionName scriptResourceName lineNumber hitCount children,
      Q children →
        P ⟨functionName, scriptResourceName, lineNumber, hitCount, children⟩)
    (nil : Q []) (cons : ∀ child rest, P child → Q rest → Q (child :: rest)) :
    (∀ t, P t) ∧ ∀ ts, Q ts :=
  ⟨CpuProfileNode.rec node nil cons, CpuProfileNode.rec_1 node nil cons⟩

mutual

/-- The nodes in the order of visiting. -/
def CpuProfileNode.preorder : CpuProfileNode → List CpuProfileNode
  | ⟨functionName, scriptResourceName, lineNumber, hitCount, children⟩ =>
      ⟨functionName, scriptResourceName, lineNumber, hitCount, children⟩ ::
        preorderAll children

def preorderAll : List CpuProfileNode → List CpuProfileNode
  | [] => []
  | child :: rest => child.preorder ++ preorderAll rest

end

/-- A node with its rank in the order of visiting and that of its parent. -/
structure Ranked where
  node : CpuProfileNode
  rank : Nat
  parent : Option Nat

mutual

/-- A node of rank `k` and the nodes below it. -/
def CpuProfileNode.ranked (parent : Option Nat) (k : Nat) :
    CpuProfileNode → List Ranked
  | ⟨functionName, scriptResourceName, lineNumber, hitCount, children⟩ =>
      ⟨⟨functionName, scriptResourceName, lineNumber, hitCount, children⟩,
        k, parent⟩ :: rankedAll k (k + 1) children

def rankedAll (parent k : Nat) : List CpuProfileNode → List Ranked
  | [] => []
  | child :: rest =>
      child.ranked (some parent) k ++
        rankedAll parent (k + child.preorder.length) rest

end

/-- The id of the next node after `m` others. -/
def idOf (m : Nat) : Int := ((m : Int) + 1).bmod 0x100000000

/-- The call of the callback for a ranked node after `m` nodes of earlier
profiles. -/
def callFor (m : Nat) (x : Ranked) : VisitCall where
  node := x.node
  id := idOf (m + x.rank)
  parentId := x.parent.elim 0 fun k => idOf (m + k)

theorem idOf_of_lt {m : Nat} (hm : m + 1 < 2 ^ 31) : idOf m = m + 1 := by
  exact Int.bmod_eq_of_le (by omega) (by omega)

/-- The counter runs out. -/
theorem idOf_limit : idOf (2 ^ 31 - 1) = -2 ^ 31 := by
  unfold idOf
  rw [Int.bmod_def]
  split <;> omega

theorem increment_idOf (m : Nat) : increment (idOf m) = idOf (m + 1) := by
  have hcast : ((m + 1 : Nat) : Int) = (m : Int) + 1 := Nat.cast_succ m
  unfold idOf increment
  rw [Int.bmod_add_bmod, hcast]

attribute [irreducible] idOf

theorem callFor_id (m : Nat) (x : Ranked) :
    (callFor m x).id = idOf (m + x.rank) := by
  rw [callFor]

theorem ranked_nodes :
    (∀ (t : CpuProfileNode) (parent : Option Nat) (k : Nat),
      (t.ranked parent k).map Ranked.node = t.preorder) ∧
      ∀ (ts : List CpuProfileNode) (parent k : Nat),
        (rankedAll parent k ts).map Ranked.node = preorderAll ts := by
  apply CpuProfileNode.induction
  case node =>
    intro functionName scriptResourceName lineNumber hitCount children ih
      parent k
    rw [CpuProfileNode.ranked, CpuProfileNode.preorder, List.map_cons, ih]
  case nil =>
    intro parent k
    rfl
  case cons =>
    intro child rest hchild hrest parent k
    rw [rankedAll, preorderAll, List.map_append, hchild, hrest]

theorem ranked_length (t : CpuProfileNode) (parent : Option Nat) (k : Nat) :
    (t.ranked parent k).length = t.preorder.length := by
  rw [← ranked_nodes.1 t parent k, List.length_map]

/-- After the nodes `xs`, the first of rank `k`, have been visited. -/
structure Visit.Visits (m k : Nat) (xs : List Ranked) (s s' : Visit) :
    Prop where
  nextid : s'.nextid = idOf (m + (k + xs.length))
  calls : s'.calls = s.calls ++ xs.map (callFor m)

theorem Visit.Visits.append {m k : Nat} {xs ys : List Ranked}
    {s s' s'' : Visit}
    (hxs : Visits m k xs s s') (hys : Visits m (k + xs.length) ys s' s'') :
    Visits m k (xs ++ ys) s s'' where
  nextid := by rw [hys.nextid, List.length_append, Nat.add_assoc]
  calls := by rw [hys.calls, hxs.calls, List.map_append, List.append_assoc]

theorem visit_visits (jsonEnabled : Bool) (cb : VisitCallback) (m : Nat) :
    (∀ (t : CpuProfileNode) (parent : Option Nat) (k : Nat) (s : Visit),
      s.nextid = idOf (m + k) →
        s.Visits m k (t.ranked parent k) (visit jsonEnabled cb
          (parent.elim 0 fun p => idOf (m + p)) t s)) ∧
      ∀ (ts : List CpuProfileNode) (parent k : Nat) (s : Visit),
        s.nextid = idOf (m + k) →
          s.Visits m k (rankedAll parent k ts)
            (visitChildren jsonEnabled cb (idOf (m + parent)) ts s) := by
  apply CpuProfileNode.induction
  case node =>
    intro functionName scriptResourceName lineNumber hitCount children ih
      parent k s hs
    have hfirst : s.Visits m k
        [⟨⟨functionName, scriptResourceName, lineNumber, hitCount, children⟩,
          k, parent⟩]
        (s.call cb ⟨functionName, scriptResourceName, lineNumber, hitCount,
          children⟩ (parent.elim 0 fun p => idOf (m + p))) := {
      nextid := by
        change increment s.nextid = _
        rw [hs, increment_idOf, List.length_singleton, Nat.add_assoc]
      calls := by
        change s.calls ++ [⟨_, s.nextid, _⟩] = _
        rw [hs, List.map_singleton, callFor] }
    have hbelow := hfirst.append (ih k (k + 1) _ hfirst.nextid)
    rw [visit, CpuProfileNode.ranked, hs]
    split
    · exact ⟨hbelow.nextid, hbelow.calls⟩
    · exact hbelow
  case nil =>
    intro parent k s hs
    rw [visitChildren, rankedAll]
    exact ⟨hs, (List.append_nil _).symm⟩
  case cons =>
    intro child rest hchild hrest parent k s hs
    have hhead := hchild (some parent) k s hs
    rw [Option.elim_some] at hhead
    have hcomma : s.Visits m k (child.ranked (some parent) k)
        (if rest ≠ [] ∧ jsonEnabled then
          (visit jsonEnabled cb (idOf (m + parent)) child s).write
            (some [','])
        else visit jsonEnabled cb (idOf (m + parent)) child s) := by
      split
      · exact ⟨hhead.nextid, hhead.calls⟩
      · exact hhead
    rw [visitChildren, rankedAll, ← ranked_length child (some parent) k]
    exact hcomma.append (hrest parent _ _ hcomma.nextid)

/-! ## Valid ids -/

/-- Profiles serialised one after the other, in either mode, with the calls
that `visit` made for each. -/
def serialise (cb : Bool → VisitCallback) (nextid : Int) :
    List (Bool × CpuProfileNode) →
      List (CpuProfileNode × List VisitCall)
  | [] => []
  | (jsonEnabled, t) :: rest =>
      let s := visit jsonEnabled (cb jsonEnabled) 0 t ⟨nextid, some [], []⟩
      (t, s.calls) :: serialise cb s.nextid rest

/-- The calls for one profile: a positive id of its own for every node, and
the parent field 0 for the root and the id of the actual parent, which has
been called before, for any other node. -/
structure ValidIds (t : CpuProfileNode) (calls : List VisitCall) : Prop where
  nodes : calls.map VisitCall.node = t.preorder
  positive : ∀ c ∈ calls, 0 < c.id
  distinct : (calls.map VisitCall.id).Nodup
  root : ∀ (k : Nat) (c : VisitCall) (x : Ranked), calls[k]? = some c →
    (t.ranked none 0)[k]? = some x → x.parent = none → c.parentId = 0
  parent : ∀ (k : Nat) (c : VisitCall) (x : Ranked), calls[k]? = some c →
    (t.ranked none 0)[k]? = some x → ∀ j, x.parent = some j →
      j < k ∧ ∃ d, calls[j]? = some d ∧ c.parentId = d.id

/-- The ranks count the nodes in the order of visiting. -/
theorem ranked_ranks :
    (∀ (t : CpuProfileNode) (parent : Option Nat) (k : Nat),
      (t.ranked parent k).map Ranked.rank =
        List.range' k t.preorder.length) ∧
      ∀ (ts : List CpuProfileNode) (parent k : Nat),
        (rankedAll parent k ts).map Ranked.rank =
          List.range' k (preorderAll ts).length := by
  apply CpuProfileNode.induction
  case node =>
    intro functionName scriptResourceName lineNumber hitCount children ih
      parent k
    rw [CpuProfileNode.ranked, CpuProfileNode.preorder, List.map_cons, ih,
      List.length_cons, List.range'_succ]
  case nil =>
    intro parent k
    rfl
  case cons =>
    intro child rest hchild hrest parent k
    rw [rankedAll, preorderAll, List.map_append, hchild, hrest,
      List.length_append, List.range'_append_1]

/-- A node's parent is visited before it. -/
theorem ranked_parent :
    (∀ (t : CpuProfileNode) (parent : Option Nat) (k : Nat),
      ∀ x ∈ t.ranked parent k, k ≤ x.rank ∧ (x.parent = parent ∨
        ∃ j, x.parent = some j ∧ k ≤ j ∧ j < x.rank)) ∧
      ∀ (ts : List CpuProfileNode) (parent k : Nat),
        ∀ x ∈ rankedAll parent k ts, k ≤ x.rank ∧ (x.parent = some parent ∨
          ∃ j, x.parent = some j ∧ k ≤ j ∧ j < x.rank) := by
  apply CpuProfileNode.induction
  case node =>
    intro functionName scriptResourceName lineNumber hitCount children ih
      parent k x hx
    rw [CpuProfileNode.ranked] at hx
    rcases List.mem_cons.mp hx with rfl | hx
    · exact ⟨Nat.le_refl k, Or.inl rfl⟩
    · obtain ⟨hrank, hparent⟩ := ih k (k + 1) x hx
      refine ⟨by omega, Or.inr ?_⟩
      rcases hparent with hk | ⟨j, hj, hle, hlt⟩
      · exact ⟨k, hk, Nat.le_refl k, by omega⟩
      · exact ⟨j, hj, by omega, hlt⟩
  case nil =>
    intro parent k x hx
    cases hx
  case cons =>
    intro child rest hchild hrest parent k x hx
    rw [rankedAll] at hx
    rcases List.mem_append.mp hx with hx | hx
    · exact hchild (some parent) k x hx
    · obtain ⟨hrank, hparent⟩ := hrest parent _ x hx
      refine ⟨by omega, hparent.imp_right ?_⟩
      rintro ⟨j, hj, hle, hlt⟩
      exact ⟨j, hj, by omega, hlt⟩

theorem ranked_rank {t : CpuProfileNode} {k : Nat} {x : Ranked}
    (hx : (t.ranked none 0)[k]? = some x) : x.rank = k := by
  have hranks := congrArg (·[k]?) (ranked_ranks.1 t none 0)
  simp only [List.getElem?_map, hx, Option.map_some] at hranks
  obtain ⟨hlt, hval⟩ := List.getElem?_eq_some_iff.mp hranks.symm
  rw [List.getElem_range'] at hval
  omega

/-- Below the bound the ids count up from `m + 1`. -/
theorem map_id_of_lt {t : CpuProfileNode} {m : Nat}
    (hm : m + t.preorder.length < 2 ^ 31) :
    ((t.ranked none 0).map (callFor m)).map VisitCall.id =
      (List.range t.preorder.length).map fun k =>
        ((m + k : Nat) : Int) + 1 := by
  have hranks := ranked_ranks.1 t none 0
  rw [List.map_map, List.range_eq_range', ← hranks, List.map_map]
  apply List.map_congr_left
  intro x hx
  rw [Function.comp_apply, Function.comp_apply, callFor_id]
  have hrank : x.rank ∈ (t.ranked none 0).map Ranked.rank :=
    List.mem_map_of_mem hx
  rw [hranks, List.mem_range'_1] at hrank
  exact idOf_of_lt (by omega)

theorem validIds_of_lt {t : CpuProfileNode} {m : Nat}
    (hm : m + t.preorder.length < 2 ^ 31) :
    ValidIds t ((t.ranked none 0).map (callFor m)) := by
  have hcall {k : Nat} {c : VisitCall} {x : Ranked}
      (hc : ((t.ranked none 0).map (callFor m))[k]? = some c)
      (hx : (t.ranked none 0)[k]? = some x) : c = callFor m x := by
    rw [List.getElem?_map, hx] at hc
    exact (Option.some.inj hc).symm
  have hids := map_id_of_lt hm
  refine ⟨?_, ?_, ?_, ?_, ?_⟩
  · rw [List.map_map, ← ranked_nodes.1 t none 0]
    rfl
  · intro c hc
    have hid := List.mem_map_of_mem (f := VisitCall.id) hc
    rw [hids, List.mem_map] at hid
    obtain ⟨k, -, hk⟩ := hid
    omega
  · rw [hids]
    refine List.nodup_range.map fun j k hjk => ?_
    omega
  · intro k c x hc hx hroot
    rw [hcall hc hx, callFor, hroot]
    rfl
  · intro k c x hc hx j hj
    have hrank := ranked_rank hx
    obtain ⟨-, hparent⟩ := ranked_parent.1 t none 0 x
      (List.mem_of_getElem? hx)
    have hlt : j < x.rank := by
      rcases hparent with hnone | ⟨i, hi, -, hlt⟩
      · rw [hj] at hnone
        cases hnone
      · rw [hj] at hi
        cases hi
        exact hlt
    have hbound : j < (t.ranked none 0).length := by
      have hk := (List.getElem?_eq_some_iff.mp hx).1
      omega
    have hy : (t.ranked none 0)[j]? = some (t.ranked none 0)[j] :=
      List.getElem?_eq_getElem hbound
    refine ⟨by omega, callFor m (t.ranked none 0)[j], ?_, ?_⟩
    · rw [List.getElem?_map, hy]
      rfl
    · rw [hcall hc hx, callFor_id, ranked_rank hy, callFor, hj,
        Option.elim_some]

/-- The node that finds the counter run out gets a negative id. -/
theorem lt_of_validIds {t : CpuProfileNode} {m : Nat} (hm : m < 2 ^ 31)
    (hvalid : ValidIds t ((t.ranked none 0).map (callFor m))) :
    m + t.preorder.length < 2 ^ 31 := by
  by_contra hge
  have hrank : 2 ^ 31 - 1 - m ∈ (t.ranked none 0).map Ranked.rank := by
    rw [ranked_ranks.1 t none 0, List.mem_range'_1]
    omega
  obtain ⟨x, hx, hrank⟩ := List.mem_map.mp hrank
  have hpositive := hvalid.positive _ (List.mem_map_of_mem hx)
  have hid : (callFor m x).id = -2 ^ 31 := by
    have hsum : m + x.rank = 2 ^ 31 - 1 := by omega
    rw [callFor_id, hsum, idOf_limit]
  rw [hid] at hpositive
  exact absurd hpositive (by decide)

theorem serialise_valid_iff (cb : Bool → VisitCallback) {m : Nat}
    (hm : m < 2 ^ 31) (profiles : List (Bool × CpuProfileNode)) :
    (∀ p ∈ serialise cb (idOf m) profiles, ValidIds p.1 p.2) ↔
      m + (profiles.map fun p => p.2.preorder.length).sum < 2 ^ 31 := by
  induction profiles generalizing m with
  | nil => simpa [serialise] using hm
  | cons p rest ih =>
      obtain ⟨jsonEnabled, t⟩ := p
      have hvisits := (visit_visits jsonEnabled (cb jsonEnabled) m).1 t none 0
        ⟨idOf m, some [], []⟩ rfl
      have hnextid := hvisits.nextid
      have hcalls := hvisits.calls
      rw [ranked_length, Nat.zero_add, Option.elim_none] at hnextid
      rw [List.nil_append, Option.elim_none] at hcalls
      rw [serialise, List.forall_mem_cons, hnextid, hcalls, List.map_cons,
        List.sum_cons]
      constructor
      · rintro ⟨hhead, hrest⟩
        have hlt : m + t.preorder.length < 2 ^ 31 :=
          lt_of_validIds hm hhead
        have h := (ih hlt).mp hrest
        change m + (t.preorder.length + _) < 2 ^ 31
        omega
      · intro hlt
        have hhead : m + t.preorder.length < 2 ^ 31 := by
          dsimp only at hlt
          omega
        refine ⟨validIds_of_lt hhead, (ih hhead).mpr ?_⟩
        dsimp only at hlt
        omega

/-- The ids of all profiles are valid as long as fewer than 2^31 nodes are
serialised in the life of the process. -/
theorem profile_ids (cb : Bool → VisitCallback)
    (profiles : List (Bool × CpuProfileNode)) :
    (∀ p ∈ serialise cb 1 profiles, ValidIds p.1 p.2) ↔
      (profiles.map fun p => p.2.preorder.length).sum < 2 ^ 31 := by
  have hone : idOf 0 = 1 := idOf_of_lt (by decide)
  rw [← hone, serialise_valid_iff cb (by decide), Nat.zero_add]

namespace ProfileIdsWitness

def root : CpuProfileNode := ⟨"(root)".toList, [], 0, 0, []⟩

theorem roots_valid_iff (n : Nat) :
    (∀ p ∈ serialise constructNodeData 1 (List.replicate n (false, root)),
      ValidIds p.1 p.2) ↔ n < 2 ^ 31 := by
  have hone : idOf 0 = 1 := idOf_of_lt (by decide)
  have hsize : root.preorder.length = 1 := rfl
  rw [← hone, serialise_valid_iff constructNodeData (by decide),
    List.map_replicate, List.sum_replicate, hsize, Nat.zero_add]
  simp

/-- Ids turn negative after 2^31 - 1 nodes. -/
theorem ids_run_out :
    ¬ ∀ p ∈ serialise constructNodeData 1
      (List.replicate (2 ^ 31) (false, root)), ValidIds p.1 p.2 :=
  fun h => Nat.lt_irrefl _ ((roots_valid_iff (2 ^ 31)).mp h)

end ProfileIdsWitness

end Appmetrics
