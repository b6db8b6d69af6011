/-
The text of a profile.  What `visit` writes follows the shape of the tree; as
lines it is read back by `formatProfiling` where no name disturbs a line and
no hit count needs an exponent.
-/
import Appmetrics.ProfileIds

namespace Appmetrics

/-! ## What `visit` writes -/

/-- Both names fit the buffers that `ExtractV8String` allocates. -/
def CpuProfileNode.Ascii (x : CpuProfileNode) : Prop :=
  ∀ c ∈ x.functionName ++ x.scriptResourceName, c.toNat < 128

instance (x : CpuProfileNode) : Decidable x.Ascii :=
  inferInstanceAs (Decidable (∀ _ ∈ _, _))

/-- What a call adds to the result when the names fit. -/
def callText (jsonEnabled : Bool) (c : VisitCall) : List Char :=
  nodeData jsonEnabled (cText c.node.scriptResourceName)
    (cText c.node.functionName) c.node.lineNumber c.node.hitCount c.id
    c.parentId

mutual

/-- What `visit` writes for a node of rank `k` after `m` nodes of earlier
profiles. -/
def treeText (jsonEnabled : Bool) (m : Nat) (parent : Option Nat) (k : Nat) :
    CpuProfileNode → List Char
  | ⟨functionName, scriptResourceName, lineNumber, hitCount, children⟩ =>
      callText jsonEnabled (callFor m
        ⟨⟨functionName, scriptResourceName, lineNumber, hitCount, children⟩,
          k, parent⟩) ++
      treesText jsonEnabled m k (k + 1) children ++
      if jsonEnabled then [']', '\x7d'] else []

def treesText (jsonEnabled : Bool) (m parent k : Nat) :
    List CpuProfileNode → List Char
  | [] => []
  | child :: rest =>
      treeText jsonEnabled m (some parent) k child ++
      (if rest ≠ [] ∧ jsonEnabled then [','] else []) ++
      treesText jsonEnabled m parent (k + child.preorder.length) rest

end

/-- The result with more text, unless a buffer is overrun. -/
def extend (ok : Prop) [Decidable ok] (text : List Char)
    (result : Option (List Char)) : Option (List Char) :=
  if ok then result.map (· ++ text) else none

theorem extend_extend {p q : Prop} [Decidable p] [Decidable q]
    (u v : List Char) (result : Option (List Char)) :
    extend q v (extend p u result) = extend (p ∧ q) (u ++ v) result := by
  unfold extend
  by_cases hp : p
  · by_cases hq : q
    · simp only [hp, hq, and_self, if_true, Option.map_map]
      congr 1
      funext r
      simp
    · simp [hq]
  · by_cases hq : q <;> simp [hp, hq]

theorem constructNodeData_eq (jsonEnabled : Bool) (c : VisitCall) :
    constructNodeData jsonEnabled c.node c.id c.parentId =
      if c.node.Ascii then some (callText jsonEnabled c) else none := by
  have hascii : c.node.Ascii ↔ (∀ x ∈ c.node.functionName, x.toNat < 128) ∧
      ∀ x ∈ c.node.scriptResourceName, x.toNat < 128 :=
    List.forall_mem_append
  unfold constructNodeData
  rw [extractV8String_eq, extractV8String_eq]
  by_cases hf : ∀ x ∈ c.node.functionName, x.toNat < 128
  · by_cases hs : ∀ x ∈ c.node.scriptResourceName, x.toNat < 128
    · rw [if_pos hf, if_pos hs, if_pos (hascii.mpr ⟨hf, hs⟩)]
      rfl
    · rw [if_pos hf, if_neg hs, if_neg fun h => hs (hascii.mp h).2]
      rfl
  · rw [if_neg hf, if_neg fun h => hf (hascii.mp h).1]
    rfl

theorem extend_congr {p q : Prop} [Decidable p] [Decidable q]
    {u v : List Char} (hpq : p ↔ q) (huv : u = v)
    (result : Option (List Char)) :
    extend p u result = extend q v result := by
  unfold extend
  simp only [hpq, huv]

theorem write_some_result (s : Visit) (text : List Char) :
    (s.write (some text)).result = extend True text s.result := by
  cases h : s.result <;> simp [Visit.write, extend, h]

theorem write_result (s : Visit) (p : Prop) [Decidable p] (text : List Char) :
    (if p then s.write (some text) else s).result =
      extend True (if p then text else []) s.result := by
  by_cases hp : p <;> cases h : s.result <;> simp [Visit.write, extend, hp, h]

theorem write_nextid (s : Visit) (p : Prop) [Decidable p]
    (text : Option (List Char)) :
    (if p then s.write text else s).nextid = s.nextid := by
  split <;> rfl

theorem call_result (jsonEnabled : Bool) (s : Visit) (m : Nat) (x : Ranked)
    (hs : s.nextid = idOf (m + x.rank)) :
    (s.call (constructNodeData jsonEnabled) x.node
      (x.parent.elim 0 fun p => idOf (m + p))).result =
        extend x.node.Ascii (callText jsonEnabled (callFor m x)) s.result := by
  have hdata := constructNodeData_eq jsonEnabled (callFor m x)
  have hcall : (s.call (constructNodeData jsonEnabled) x.node
      (x.parent.elim 0 fun p => idOf (m + p))).result =
        s.result.bind fun result => (constructNodeData jsonEnabled
          (callFor m x).node (callFor m x).id (callFor m x).parentId).map
            (result ++ ·) := by
    rw [callFor, ← hs]
    rfl
  have hnode : (callFor m x).node.Ascii ↔ x.node.Ascii := by rw [callFor]
  rw [hcall, hdata, extend]
  by_cases h : x.node.Ascii
  · rw [if_pos h, if_pos (hnode.mpr h)]
    cases s.result <;> rfl
  · rw [if_neg h, if_neg fun h' => h (hnode.mp h')]
    cases s.result <;> rfl

theorem visit_result (jsonEnabled : Bool) (m : Nat) :
    (∀ (t : CpuProfileNode) (parent : Option Nat) (k : Nat) (s : Visit),
      s.nextid = idOf (m + k) →
        (visit jsonEnabled (constructNodeData jsonEnabled)
          (parent.elim 0 fun p => idOf (m + p)) t s).result =
            extend (∀ x ∈ t.preorder, x.Ascii)
              (treeText jsonEnabled m parent k t) s.result) ∧
      ∀ (ts : List CpuProfileNode) (parent k : Nat) (s : Visit),
        s.nextid = idOf (m + k) →
          (visitChildren jsonEnabled (constructNodeData jsonEnabled)
            (idOf (m + parent)) ts s).result =
              extend (∀ x ∈ preorderAll ts, x.Ascii)
                (treesText jsonEnabled m parent k ts) s.result := by
  apply CpuProfileNode.induction
  case node =>
    intro functionName scriptResourceName lineNumber hitCount children ih
      parent k s hs
    let node : CpuProfileNode :=
      ⟨functionName, scriptResourceName, lineNumber, hitCount, children⟩
    have hcall := call_result jsonEnabled s m ⟨node, k, parent⟩ hs
    have hnext : (s.call (constructNodeData jsonEnabled) node
        (parent.elim 0 fun p => idOf (m + p))).nextid = idOf (m + (k + 1)) := by
      change increment s.nextid = _
      rw [hs, increment_idOf, Nat.add_assoc]
    have hbelow := ih k (k + 1) _ hnext
    rw [visit, hs, write_result, hbelow, hcall, extend_extend, extend_extend,
      treeText]
    refine extend_congr ?_ (List.append_assoc _ _ _).symm s.result
    rw [CpuProfileNode.preorder, List.forall_mem_cons, and_true]
  case nil =>
    intro parent k s hs
    rw [visitChildren]
    cases h : s.result <;> simp [extend, preorderAll, treesText]
  case cons =>
    intro child rest hchild hrest parent k s hs
    have hhead := hchild (some parent) k s hs
    have hnext := ((visit_visits jsonEnabled (constructNodeData jsonEnabled)
      m).1 child (some parent) k s hs).nextid
    rw [Option.elim_some, ranked_length] at hnext
    rw [Option.elim_some] at hhead
    rw [visitChildren, hrest parent (k + child.preorder.length) _
      (by rw [write_nextid]; exact hnext), write_result, hhead,
      extend_extend, extend_extend, treesText]
    refine extend_congr ?_ (List.append_assoc _ _ _).symm s.result
    rw [preorderAll, List.forall_mem_append, true_and]

/-- What `ConstructData` writes before and after the tree. -/
def frameText (jsonEnabled : Bool) (time : Nat) : List Char × List Char :=
  if jsonEnabled then
    ("\x7b\"date\":".toList ++ showNat time ++ ",\"head\":".toList,
      ['\x7d'])
  else
    ("NodeProfData,Start,".toList ++ showNat time ++ ['\n'],
      "NodeProfData,End\n".toList)

theorem constructData_eq (jsonEnabled : Bool) (time : Nat)
    (t : CpuProfileNode) (m : Nat) :
    constructData jsonEnabled time t (idOf m) =
      if ∀ x ∈ t.preorder, x.Ascii then
        some (cText ((frameText jsonEnabled time).1 ++
          treeText jsonEnabled m none 0 t ++ (frameText jsonEnabled time).2))
      else none := by
  have hdata : constructData jsonEnabled time t (idOf m) =
      ((visit jsonEnabled (constructNodeData jsonEnabled) 0 t
        ⟨idOf m, some (frameText jsonEnabled time).1, []⟩).write
          (some (frameText jsonEnabled time).2)).result.map cText := by
    cases jsonEnabled <;> rfl
  have hvisit := (visit_result jsonEnabled m).1 t none 0
    ⟨idOf m, some (frameText jsonEnabled time).1, []⟩ rfl
  rw [Option.elim_none] at hvisit
  rw [hdata, write_some_result, hvisit, extend_extend, extend]
  by_cases h : ∀ x ∈ t.preorder, x.Ascii
  · rw [if_pos ⟨h, trivial⟩, if_pos h, List.append_assoc]
    rfl
  · rw [if_neg fun h' => h h'.1, if_neg h]
    rfl

/-! ## Lines -/

/-- The fields of a node's line. -/
def callFields (c : VisitCall) : List (List Char) :=
  ["NodeProfData".toList, "Node".toList, showInt c.id, showInt c.parentId,
    cText c.node.scriptResourceName, cText c.node.functionName,
    showInt c.node.lineNumber, showDouble c.node.hitCount]

theorem callText_lines (c : VisitCall) :
    callText false c = [','].intercalate (callFields c) ++ ['\n'] := by
  simp [callText, nodeData, callFields, List.intercalate_cons_cons]

theorem treeText_lines (m : Nat) :
    (∀ (t : CpuProfileNode) (parent : Option Nat) (k : Nat),
      treeText false m parent k t =
        (t.ranked parent k).flatMap fun x => callText false (callFor m x)) ∧
      ∀ (ts : List CpuProfileNode) (parent k : Nat),
        treesText false m parent k ts =
          (rankedAll parent k ts).flatMap fun x =>
            callText false (callFor m x) := by
  apply CpuProfileNode.induction
  case node =>
    intro functionName scriptResourceName lineNumber hitCount children ih
      parent k
    rw [treeText, CpuProfileNode.ranked, List.flatMap_cons, ih]
    exact List.append_nil _
  case nil =>
    intro parent k
    rfl
  case cons =>
    intro child rest hchild hrest parent k
    rw [treesText, rankedAll, List.flatMap_append, hchild, hrest]
    simp

/-- Names that stay within a field of a line. -/
def CpuProfileNode.Plain (x : CpuProfileNode) : Prop :=
  ∀ c ∈ x.functionName ++ x.scriptResourceName,
    c.toNat < 128 ∧ c ≠ '\x00' ∧ c ≠ ',' ∧ c ≠ '\n'

/-- The entry that says of a call what V8 and `visit` say of it. -/
def VisitCall.entry (c : VisitCall) : FunctionEntry where
  self := some c.id
  parent := some c.parentId
  file := some c.node.scriptResourceName
  name := some c.node.functionName
  line := some c.node.lineNumber
  count := some c.node.hitCount

/-- The entry that is read from the line of a call. -/
def VisitCall.readEntry (c : VisitCall) : FunctionEntry :=
  { c.entry with count := parseInt (showDouble c.node.hitCount) }

theorem CpuProfileNode.Plain.names {x : CpuProfileNode} (hx : x.Plain) :
    cText x.functionName = x.functionName ∧
      cText x.scriptResourceName = x.scriptResourceName := by
  rw [cText_eq_self_iff, cText_eq_self_iff]
  exact ⟨fun h => (hx _ (List.mem_append_left _ h)).2.1 rfl,
    fun h => (hx _ (List.mem_append_right _ h)).2.1 rfl⟩

/-- A character that no number has and no plain name. -/
theorem not_mem_callFields {x : Char} (hx : x ∈ ['\x00', ',', '\n'])
    {c : VisitCall} (hc : c.node.Plain) :
    ∀ field ∈ callFields c, x ∉ field := by
  simp only [List.mem_cons, List.not_mem_nil, or_false] at hx
  have hdigit : x.isDigit = false ∧ x ≠ '-' ∧ x ≠ '.' ∧ x ≠ 'e' ∧ x ≠ '+' := by
    rcases hx with rfl | rfl | rfl <;> decide
  have hint (n : Int) : x ∉ showInt n := not_mem_showInt hdigit.1 hdigit.2.1 n
  have hcount : x ∉ showDouble c.node.hitCount := fun h => by
    rcases mem_showDouble h with h | h
    · rw [hdigit.1] at h
      cases h
    · exact absurd h (by simp [hdigit])
  have hname {y : Char} (hy : y ∈ c.node.functionName ++
      c.node.scriptResourceName) : y ≠ x := by
    rcases hx with rfl | rfl | rfl
    · exact (hc y hy).2.1
    · exact (hc y hy).2.2.1
    · exact (hc y hy).2.2.2
  rw [callFields, hc.names.1, hc.names.2]
  simp only [List.forall_mem_cons]
  refine ⟨?_, ?_, hint _, hint _,
    fun h => hname (List.mem_append_right _ h) rfl,
    fun h => hname (List.mem_append_left _ h) rfl, hint _, hcount, nofun⟩
  · rcases hx with rfl | rfl | rfl <;> decide
  · rcases hx with rfl | rfl | rfl <;> decide

theorem formatLine_node {line : List Char} {values : List (List Char)}
    (hvalues : line.splitOn ',' = values)
    (hnode : values[1]? = some "Node".toList) (prof : Prof) :
    formatLine prof line = { prof with
      functions := prof.functions ++
        [⟨values[2]?.bind parseInt, values[3]?.bind parseInt, values[4]?,
          values[5]?, values[6]?.bind parseInt, values[7]?.bind parseInt⟩] } := by
  unfold formatLine
  rw [hvalues]
  exact if_pos hnode

theorem formatLine_start {line : List Char} {values : List (List Char)}
    (hvalues : line.splitOn ',' = values)
    (hstart : values[1]? = some "Start".toList) (prof : Prof) :
    formatLine prof line =
      { prof with time := some (values[2]?.bind parseInt) } := by
  have hnode : ¬ values[1]? = some "Node".toList := by
    rw [hstart]
    decide
  unfold formatLine
  rw [hvalues]
  dsimp only
  rw [if_neg hnode, if_pos hstart]

theorem formatLine_call (prof : Prof) {c : VisitCall} (hc : c.node.Plain) :
    formatLine prof ([','].intercalate (callFields c)) =
      { prof with functions := prof.functions ++ [c.readEntry] } := by
  have hsplit : ([','].intercalate (callFields c)).splitOn ',' =
      callFields c :=
    List.splitOn_intercalate ',' (not_mem_callFields (by simp) hc)
      (List.cons_ne_nil _ _)
  have hentry : c.readEntry = ⟨(some (showInt c.id)).bind parseInt,
      (some (showInt c.parentId)).bind parseInt,
      some (cText c.node.scriptResourceName),
      some (cText c.node.functionName),
      (some (showInt c.node.lineNumber)).bind parseInt,
      (some (showDouble c.node.hitCount)).bind parseInt⟩ := by
    rw [Option.bind_some, Option.bind_some, Option.bind_some,
      Option.bind_some, parseInt_showInt, parseInt_showInt, parseInt_showInt,
      hc.names.1, hc.names.2]
    rfl
  rw [formatLine_node hsplit rfl, hentry]
  rfl

/-- The lines of a profile before the last one. -/
def profileLines (time m : Nat) (t : CpuProfileNode) : List (List Char) :=
  ("NodeProfData,Start,".toList ++ showNat time) ::
    (t.ranked none 0).map fun x => [','].intercalate (callFields (callFor m x))

theorem profileLines_text (time m : Nat) (t : CpuProfileNode) :
    (frameText false time).1 ++ treeText false m none 0 t ++
        (frameText false time).2 =
      (profileLines time m t).flatMap (fun l => l ++ ['\n']) ++
        "NodeProfData,End".toList ++ ['\n'] := by
  have hcalls (x : Ranked) : callText false (callFor m x) =
      [','].intercalate (callFields (callFor m x)) ++ ['\n'] :=
    callText_lines _
  simp only [frameText, (treeText_lines m).1, hcalls, profileLines,
    List.flatMap_cons, List.flatMap_map]
  simp

theorem mem_preorder_of_mem_ranked {t : CpuProfileNode} {x : Ranked}
    (hx : x ∈ t.ranked none 0) : x.node ∈ t.preorder := by
  rw [← ranked_nodes.1 t none 0]
  exact List.mem_map_of_mem hx

theorem not_mem_profileLines {x : Char} (hx : x ∈ ['\x00', '\n'])
    (time m : Nat) {t : CpuProfileNode} (ht : ∀ x ∈ t.preorder, x.Plain) :
    ∀ l ∈ profileLines time m t, x ∉ l := by
  have hfixed : x.isDigit = false ∧ x ∉ "NodeProfData,Start,".toList ∧
      x ∉ [','] ∧ x ∈ ['\x00', ',', '\n'] := by
    simp only [List.mem_cons, List.not_mem_nil, or_false] at hx
    rcases hx with rfl | rfl <;> decide
  obtain ⟨hdigit, hstart, hcomma, hmem⟩ := hfixed
  rw [profileLines, List.forall_mem_cons]
  constructor
  · rw [List.mem_append, not_or]
    exact ⟨hstart, not_mem_showNat hdigit time⟩
  · intro l hl
    obtain ⟨y, hy, rfl⟩ := List.mem_map.mp hl
    exact not_mem_intercalate hcomma (not_mem_callFields hmem
      (ht _ (mem_preorder_of_mem_ranked hy)))

theorem foldl_formatLine (prof : Prof) (cs : List VisitCall)
    (hcs : ∀ c ∈ cs, c.node.Plain) :
    (cs.map fun c => [','].intercalate (callFields c)).foldl formatLine prof =
      { prof with
        functions := prof.functions ++ cs.map VisitCall.readEntry } := by
  induction cs generalizing prof with
  | nil => simp
  | cons c cs ih =>
      rw [List.forall_mem_cons] at hcs
      rw [List.map_cons, List.foldl_cons, formatLine_call prof hcs.1,
        ih _ hcs.2]
      simp

/-- Only the last newline of a message is trimmed. -/
theorem jsTrim_lines (time m : Nat) (t : CpuProfileNode) :
    jsTrim ((profileLines time m t).flatMap (fun l => l ++ ['\n']) ++
      "NodeProfData,End".toList ++ ['\n']) =
      (profileLines time m t).flatMap (fun l => l ++ ['\n']) ++
        "NodeProfData,End".toList := by
  have hlast : (profileLines time m t).flatMap (fun l => l ++ ['\n']) ++
      "NodeProfData,End".toList ++ ['\n'] =
        ((profileLines time m t).flatMap (fun l => l ++ ['\n']) ++
          "NodeProfData,En".toList) ++ 'd' :: ['\n'] := by
    simp
  have hnone : ['\n'].rdropWhile isJsSpace = [] := by decide
  rw [hlast, jsTrim_append_cons ?_ (by decide), hnone]
  · simp
  · rintro x ⟨⟩
    decide

theorem formatLine_startLine (time : Nat) :
    formatLine ⟨0, [], none⟩
        ("NodeProfData,Start,".toList ++ showNat time) =
      ⟨0, [], some (some time)⟩ := by
  have hline : "NodeProfData,Start,".toList ++ showNat time =
      [','].intercalate
        ["NodeProfData".toList, "Start".toList, showNat time] := by
    simp [List.intercalate_cons_cons]
  have hsplit : ("NodeProfData,Start,".toList ++ showNat time).splitOn ',' =
      ["NodeProfData".toList, "Start".toList, showNat time] := by
    rw [hline]
    apply List.splitOn_intercalate ',' _ (List.cons_ne_nil _ _)
    simp only [List.forall_mem_cons]
    exact ⟨by decide, by decide, not_mem_showNat rfl time, nofun⟩
  rw [formatLine_start hsplit rfl]
  change Prof.mk 0 [] (some (parseInt (showNat time))) = _
  rw [parseInt_showNat]

/-- Reading a profile with plain names back. -/
theorem formatProfiling_lines (time m : Nat) {t : CpuProfileNode}
    (ht : ∀ x ∈ t.preorder, x.Plain) :
    formatProfiling false ((profileLines time m t).flatMap
        (fun l => l ++ ['\n']) ++ "NodeProfData,End".toList ++ ['\n']) =
      some (.lines
        { date := 0
          functions := (t.ranked none 0).map fun x => (callFor m x).readEntry
          time := some (some time) }) := by
  have hlines := splitOn_lines
    (not_mem_profileLines (x := '\n') (by decide) time m ht)
    (by decide : '\n' ∉ "NodeProfData,End".toList)
  have hend (prof : Prof) :
      formatLine prof "NodeProfData,End".toList = prof := rfl
  have hcalls : ((t.ranked none 0).map fun x =>
      [','].intercalate (callFields (callFor m x))).foldl formatLine
        ⟨0, [], some (some time)⟩ =
      ⟨0, (t.ranked none 0).map fun x => (callFor m x).readEntry,
        some (some time)⟩ := by
    have h := foldl_formatLine ⟨0, [], some (some time)⟩
      ((t.ranked none 0).map (callFor m)) (by
        intro c hc
        obtain ⟨x, hx, rfl⟩ := List.mem_map.mp hc
        exact ht _ (mem_preorder_of_mem_ranked hx))
    rw [List.map_map, List.map_map] at h
    exact h
  rw [formatProfiling, if_neg Bool.false_ne_true, jsTrim_lines, hlines]
  dsimp only
  rw [profileLines, List.cons_append, List.foldl_cons, formatLine_startLine,
    List.foldl_append, hcalls, List.foldl_cons, hend, List.foldl_nil]

theorem constructData_lines (time m : Nat) {t : CpuProfileNode}
    (ht : ∀ x ∈ t.preorder, x.Plain) :
    constructData false time t (idOf m) =
      some ((profileLines time m t).flatMap (fun l => l ++ ['\n']) ++
        "NodeProfData,End".toList ++ ['\n']) := by
  have hascii : ∀ x ∈ t.preorder, x.Ascii := fun x hx c hc =>
    (ht x hx c hc).1
  have hlines := not_mem_profileLines (x := '\x00') (by decide) time m ht
  rw [constructData_eq, if_pos hascii, profileLines_text,
    cText_eq_self_iff.mpr]
  rw [List.mem_append, List.mem_append, not_or, not_or, List.mem_flatMap]
  refine ⟨⟨?_, by decide⟩, by decide⟩
  rintro ⟨l, hl, hmem⟩
  rcases List.mem_append.mp hmem with hmem | hmem
  · exact hlines l hl hmem
  · exact absurd hmem (by decide)

/-- `formatProfiling` reads a profile back: one entry for each node, in the
order of visiting, that carries what V8 and `visit` say of the node. -/
def ReadsBack (time m : Nat) (t : CpuProfileNode) : Prop :=
  ∃ message prof, constructData false time t (idOf m) = some message ∧
    formatProfiling false message = some (.lines prof) ∧
    prof.functions = (t.ranked none 0).map fun x => (callFor m x).entry

/-- The names in an entry are fields of a line. -/
def FunctionEntry.FromLine (line : List Char) (e : FunctionEntry) : Prop :=
  ∀ name, e.file = some name ∨ e.name = some name → name ∈ line.splitOn ','

theorem formatLine_fromLine {prof : Prof} {line : List Char}
    {e : FunctionEntry} (he : e ∈ (formatLine prof line).functions) :
    e ∈ prof.functions ∨ e.FromLine line := by
  unfold formatLine at he
  dsimp only at he
  split at he
  · rcases List.mem_append.mp he with he | he
    · exact Or.inl he
    · rw [List.mem_singleton.mp he]
      exact Or.inr fun name h =>
        h.elim List.mem_of_getElem? List.mem_of_getElem?
  · split at he <;> exact Or.inl he

theorem foldl_fromLine {prof : Prof} {lines : List (List Char)}
    {e : FunctionEntry} (he : e ∈ (lines.foldl formatLine prof).functions) :
    e ∈ prof.functions ∨ ∃ line ∈ lines, e.FromLine line := by
  induction lines generalizing prof with
  | nil => exact Or.inl he
  | cons line lines ih =>
      rcases ih he with hprof | ⟨l, hl, hfrom⟩
      · rcases formatLine_fromLine hprof with h | h
        · exact Or.inl h
        · exact Or.inr ⟨line, List.mem_cons_self, h⟩
      · exact Or.inr ⟨l, List.mem_cons_of_mem line hl, hfrom⟩

/-- Names that are read from a message have no separator in them, and no
character that the message has not. -/
theorem formatProfiling_names {message : List Char} {prof : Prof}
    (hprof : formatProfiling false message = some (.lines prof))
    {e : FunctionEntry} (he : e ∈ prof.functions) {name : List Char}
    (hname : e.file = some name ∨ e.name = some name) :
    ∀ c ∈ name, c ∈ message ∧ c ≠ ',' ∧ c ≠ '\n' := by
  rw [formatProfiling, if_neg Bool.false_ne_true, Option.some.injEq,
    ProfilingEvent.lines.injEq] at hprof
  rw [← hprof] at he
  rcases foldl_fromLine he with h | ⟨line, hline, hfrom⟩
  · cases h
  · have hfield := hfrom name hname
    intro c hc
    have hline' : c ∈ line := subset_of_mem_splitOn hfield hc
    refine ⟨?_, ?_, ?_⟩
    · have htrim := subset_of_mem_splitOn hline hline'
      exact (List.dropWhile_suffix _).subset
        ((List.rdropWhile_prefix _ _).subset htrim)
    · rintro rfl
      exact not_mem_of_mem_splitOn hfield hc
    · rintro rfl
      exact not_mem_of_mem_splitOn hline hline'

theorem ReadsBack.plain {time m : Nat} {t : CpuProfileNode}
    (h : ReadsBack time m t) : ∀ x ∈ t.preorder, x.Plain := by
  obtain ⟨message, prof, hmessage, hprof, hfunctions⟩ := h
  rw [constructData_eq] at hmessage
  split at hmessage
  case isFalse => cases hmessage
  case isTrue hascii =>
    intro x hx c hc
    rw [← ranked_nodes.1 t none 0, List.mem_map] at hx
    obtain ⟨y, hy, rfl⟩ := hx
    have he : (callFor m y).entry ∈ prof.functions := by
      rw [hfunctions]
      exact List.mem_map_of_mem hy
    have hnames {name : List Char}
        (hname : (callFor m y).entry.file = some name ∨
          (callFor m y).entry.name = some name) (hc : c ∈ name) :=
      formatProfiling_names hprof he hname c hc
    have hfield : c ∈ message ∧ c ≠ ',' ∧ c ≠ '\n' := by
      rcases List.mem_append.mp hc with hc | hc
      · exact hnames (Or.inr rfl) hc
      · exact hnames (Or.inl rfl) hc
    refine ⟨hascii _ (mem_preorder_of_mem_ranked hy) c hc, ?_, hfield.2⟩
    rintro rfl
    rw [← Option.some.inj hmessage] at hfield
    exact mem_cText hfield.1

theorem readEntry_eq_iff (c : VisitCall) :
    c.readEntry = c.entry ↔ c.node.hitCount < 1000000 := by
  rw [← parseInt_showDouble, VisitCall.readEntry, VisitCall.entry]
  simp

theorem readsBack_iff_entries {time m : Nat} {t : CpuProfileNode}
    (hplain : ∀ x ∈ t.preorder, x.Plain) : ReadsBack time m t ↔
      (t.ranked none 0).map (fun x => (callFor m x).readEntry) =
        (t.ranked none 0).map fun x => (callFor m x).entry := by
  have hmessage := constructData_lines time m hplain
  have hprof := formatProfiling_lines time m hplain
  constructor
  · rintro ⟨message, prof, hm, hp, hfunctions⟩
    rw [hmessage] at hm
    rw [← Option.some.inj hm, hprof] at hp
    rw [← hfunctions, ← ProfilingEvent.lines.inj (Option.some.inj hp)]
  · intro hfunctions
    exact ⟨_, _, hmessage, hprof, hfunctions⟩

/-- A profile is read back exactly if its names are ASCII without separators
and its hit counts are less than a million. -/
theorem profile_lines_round_trip (time m : Nat) (t : CpuProfileNode) :
    ReadsBack time m t ↔
      ∀ x ∈ t.preorder, x.Plain ∧ x.hitCount < 1000000 := by
  have hcounts (hplain : ∀ x ∈ t.preorder, x.Plain) : ReadsBack time m t ↔
      ∀ x ∈ t.preorder, x.hitCount < 1000000 := by
    rw [readsBack_iff_entries hplain, List.map_inj_left,
      ← ranked_nodes.1 t none 0, List.forall_mem_map]
    have hentry (x : Ranked) : (callFor m x).readEntry = (callFor m x).entry ↔
        x.node.hitCount < 1000000 := readEntry_eq_iff _
    simp only [hentry]
  constructor
  · intro h x hx
    exact ⟨h.plain x hx, (hcounts h.plain).mp h x hx⟩
  · intro h
    exact (hcounts fun x hx => (h x hx).1).mpr fun x hx => (h x hx).2

namespace ProfileTextWitness

def commaInPath : CpuProfileNode :=
  ⟨"f".toList, "/a,b.js".toList, 7, 3, []⟩

def millionHits : CpuProfileNode :=
  ⟨"f".toList, "/a.js".toList, 7, 1000000, []⟩

/-- A comma in a path moves the fields after it, and a million hits are read
as one. -/
theorem not_read_back :
    ¬ ReadsBack 1 0 commaInPath ∧ ¬ ReadsBack 1 0 millionHits := by
  constructor
  · intro h
    have hplain := h.plain commaInPath List.mem_cons_self
    exact (hplain ',' (by decide)).2.2.1 rfl
  · intro h
    have hentries := (readsBack_iff_entries h.plain).mp h
    rw [List.map_inj_left] at hentries
    have hentry := hentries ⟨millionHits, 0, none⟩ List.mem_cons_self
    have hcount := (readEntry_eq_iff _).mp hentry
    exact absurd hcount (Nat.lt_irrefl 1000000)

end ProfileTextWitness

end Appmetrics
