/-
The environment messages.  The environment plugin writes `key=value` lines
under a `#` header; the API splits them into an object again, each kind of
message with a splitter of its own.
-/
import Appmetrics.Text
import Mathlib.Logic.Function.Basic
import Mathlib.Data.List.Nodup

namespace Appmetrics

/-! ## The native writer -/

/-- What `GetNodeInformation` asks node and the agent for.  The first three
are V8 strings, the properties are C strings. -/
structure NodeProcess where
  version : List Char
  tag : List Char
  execArgv : List (List Char)
  appmetricsVersion : List Char
  agentVersion : List Char
  heapSizeLimit : Nat
  maxOldSpaceSizeGuess : Nat
  maxSemiSpaceSizeGuess : Nat
deriving Repr, DecidableEq

/-- The variables of the plugin that go into the message. -/
structure NodeInformation where
  nodeVersion : List Char
  nodeTag : List Char
  appmetricsVersion : List Char
  agentVersion : List Char
  nodeVendor : List Char
  nodeName : List Char
  heapSizeLimit : Nat
  maxSemiSpaceSizeGuess : Nat
  maxOldSpaceSizeGuess : Nat
  maxHeapSizeGuess : Nat
  commandLineArguments : List Char
deriving Repr, DecidableEq

/-- `GetNodeArguments`: `none` when some argument overruns its buffer. -/
def getNodeArguments (execArgv : List (List Char)) : Option (List Char) :=
  (execArgv.mapM extractV8String).map ("@@@".toList.intercalate ·)

/-- `tag.find("IBMBuild") != npos`. -/
def isIbmBuild (tag : List Char) : Bool :=
  tag.tails.any ("IBMBuild".toList.isPrefixOf ·)

/-- The first half of `GetNodeInformation`. -/
def readNode (n : NodeProcess) : Option NodeInformation := do
  let version ← extractV8String n.version
  let tag ← extractV8String n.tag
  let arguments ← getNodeArguments n.execArgv
  some
    { nodeVersion := version
      nodeTag := tag
      appmetricsVersion := cText n.appmetricsVersion
      agentVersion := cText n.agentVersion
      nodeVendor := if isIbmBuild tag then "IBM".toList else []
      nodeName :=
        if isIbmBuild tag then "IBM SDK for Node.js".toList
        else "Node.js".toList
      heapSizeLimit := n.heapSizeLimit
      maxSemiSpaceSizeGuess := n.maxSemiSpaceSizeGuess
      maxOldSpaceSizeGuess := n.maxOldSpaceSizeGuess
      maxHeapSizeGuess :=
        (2 * n.maxSemiSpaceSizeGuess + n.maxOldSpaceSizeGuess) % 2 ^ 64
      commandLineArguments := arguments }

/-- A line of a message, before its newline. -/
def envLine (entry : List Char × List Char) : List Char :=
  entry.1 ++ '=' :: entry.2

/-- A message in the format of both plugins. -/
def envMessage (header : List Char) (entries : List (List Char × List Char)) :
    List Char :=
  header ++ '\n' :: entries.flatMap fun e => envLine e ++ ['\n']

namespace NodeInformation

/-- An entry that is only written for a positive size. -/
def sizeEntry (key : String) (size : Nat) : List (List Char × List Char) :=
  if 0 < size then [(key.toList, showNat size)] else []

/-- An entry that is only written for a nonempty text. -/
def textEntry (key : String) (text : List Char) :
    List (List Char × List Char) :=
  if text ≠ [] then [(key.toList, text)] else []

/-- What is written before the command line arguments. -/
def facts (i : NodeInformation) : List (List Char × List Char) :=
  [("runtime.version".toList, i.nodeVersion ++ i.nodeTag),
    ("appmetrics.version".toList, i.appmetricsVersion),
    ("agentcore.version".toList, i.agentVersion)] ++
  textEntry "runtime.vendor" i.nodeVendor ++
  textEntry "runtime.name" i.nodeName ++
  [("heap.size.limit".toList, showNat i.heapSizeLimit)] ++
  sizeEntry "max.semi.space.size" i.maxSemiSpaceSizeGuess ++
  sizeEntry "max.old.space.size" i.maxOldSpaceSizeGuess ++
  sizeEntry "max.heap.size" i.maxHeapSizeGuess

def entries (i : NodeInformation) : List (List Char × List Char) :=
  i.facts ++ [("command.line.arguments".toList, i.commandLineArguments)]

/-- The second half of `GetNodeInformation`: the data it pushes, if any. -/
def message (i : NodeInformation) : Option (List Char) :=
  if i.nodeVersion ≠ [] then
    some (envMessage "#EnvironmentSource".toList i.entries)
  else none

end NodeInformation

/-! ## The readers of the API -/

/-- A JavaScript object as its own properties; an inner `none` is the value
`undefined`. -/
abbrev Env := List Char → Option (Option (List Char))

namespace Env

def empty : Env := fun _ => none

/-- `env[key] = value`.  Assigning a string to `__proto__` does nothing. -/
def assign (env : Env) (key : List Char) (value : Option (List Char)) : Env :=
  if key = "__proto__".toList then env
  else Function.update env key (some value)

/-- `env[terms[0]] = terms[1]` for the parts of a line around `=`. -/
def assignLine (env : Env) (line : List Char) : Env :=
  let terms := line.splitOn '='
  env.assign (terms.headD []) terms[1]?

end Env

/-- The object that `formatOSEnv` builds; only lines that begin with `#` are
skipped. -/
def osEnv (message : List Char) : Env :=
  (message.splitOn '\n').foldl
    (fun env value => if value.head? = some '#' then env
      else env.assignLine value) Env.empty

/-- The object that `formatRuntimeEnv` builds; lines without `=` are
skipped. -/
def runtimeEnv (message : List Char) : Env :=
  ((jsTrim message).splitOn '\n').foldl
    (fun env value => if '=' ∈ value then env.assignLine value else env)
    Env.empty

/-- `setEnv`: the properties of `env` are copied into the environment. -/
def setEnv (environment env : Env) : Env := fun p =>
  match env p with
  | some value => some value
  | none => environment p

/-- Reading a message bound each key to its value, and nothing else. -/
structure Binds (entries : List (List Char × List Char)) (before after : Env) :
    Prop where
  bound : ∀ e ∈ entries, after e.1 = some (some e.2)
  others : ∀ p, p ∉ entries.map Prod.fst → after p = before p

/-! ## Reading lines -/

theorem Env.assignLine_envLine {env : Env} {e : List Char × List Char}
    (hkey : '=' ∉ e.1) :
    env.assignLine (envLine e) = env.assign e.1 (some (upTo '=' e.2)) := by
  have hsplit : (envLine e).splitOn '=' = e.1 :: e.2.splitOn '=' :=
    List.splitOn_append_cons_self_of_not_mem hkey _
  rw [Env.assignLine, hsplit]
  dsimp only [List.headD_cons]
  rw [List.getElem?_cons_succ, splitOn_head]

/-- Reading the lines of entries with distinct keys binds each key that is
not skipped to the part of its value before the next `=`. -/
theorem foldl_lines (f : Env → List Char → Env) (skip : List Char → Prop)
    (entries : List (List Char × List Char))
    (hskip : ∀ env, ∀ e ∈ entries, skip e.1 → f env (envLine e) = env)
    (hread : ∀ env, ∀ e ∈ entries, ¬ skip e.1 → f env (envLine e) =
      Function.update env e.1 (some (some (upTo '=' e.2))))
    (hnodup : (entries.map Prod.fst).Nodup) (env : Env) :
    (∀ e ∈ entries, ¬ skip e.1 →
      (entries.map envLine).foldl f env e.1 =
        some (some (upTo '=' e.2))) ∧
    ∀ p, p ∉ entries.map Prod.fst ∨ skip p →
      (entries.map envLine).foldl f env p = env p := by
  induction entries generalizing env with
  | nil => exact ⟨nofun, fun _ _ => rfl⟩
  | cons e es ih =>
      rw [List.map_cons, List.nodup_cons] at hnodup
      rw [List.forall_mem_cons]
      have hrest := ih
        (fun env e' he' => hskip env e' (List.mem_cons_of_mem e he'))
        (fun env e' he' => hread env e' (List.mem_cons_of_mem e he'))
        hnodup.2 (f env (envLine e))
      rw [List.map_cons, List.foldl_cons]
      refine ⟨⟨fun hno => ?_, hrest.1⟩, fun p hp => ?_⟩
      · rw [hrest.2 e.1 (Or.inl hnodup.1),
          hread env e List.mem_cons_self hno, Function.update_self]
      · have hp' : p ∉ es.map Prod.fst ∨ skip p := by
          refine hp.imp (fun h hmem => h ?_) id
          rw [List.map_cons]
          exact List.mem_cons_of_mem _ hmem
        rw [hrest.2 p hp']
        by_cases hs : skip e.1
        · rw [hskip env e List.mem_cons_self hs]
        · have hne : p ≠ e.1 := by
            rintro rfl
            rcases hp with h | h
            · exact h (by rw [List.map_cons]; exact List.mem_cons_self)
            · exact hs h
          rw [hread env e List.mem_cons_self hs, Function.update_of_ne hne]

theorem newline_not_mem_envLine {e : List Char × List Char}
    (hkey : '\n' ∉ e.1) (hvalue : '\n' ∉ e.2) : '\n' ∉ envLine e := by
  rw [envLine, List.mem_append, List.mem_cons, not_or, not_or]
  exact ⟨hkey, by decide, hvalue⟩

/-! ## The runtime environment -/

/-- A text without its trailing spaces. -/
def trimEnd (s : List Char) : List Char := s.rdropWhile isJsSpace

/-- The lines that `formatRuntimeEnv` sees: trimming the message takes the
last newline and the spaces before it. -/
theorem splitOn_trim_envMessage {header : List Char} {x : Char}
    {es : List (List Char × List Char)} {e : List Char × List Char}
    (hfirst : isJsSpace x = false) (hheader : '\n' ∉ x :: header)
    (hes : ∀ e ∈ es, '\n' ∉ envLine e) (he : '\n' ∉ envLine e) :
    (jsTrim (envMessage (x :: header) (es ++ [e]))).splitOn '\n' =
      (x :: header) :: (es ++ [(e.1, trimEnd e.2)]).map envLine := by
  have hlines : envMessage (x :: header) (es ++ [e]) =
      ((((x :: header) :: es.map envLine).flatMap fun l => l ++ ['\n']) ++
        e.1) ++ '=' :: (e.2 ++ ['\n']) := by
    simp [envMessage, envLine, List.flatMap_map]
  have hspace : isJsSpace '\n' = true := by decide
  have htrim : jsTrim (envMessage (x :: header) (es ++ [e])) =
      (((x :: header) :: es.map envLine).flatMap fun l => l ++ ['\n']) ++
        envLine (e.1, trimEnd e.2) := by
    rw [hlines, jsTrim_append_cons ?_ (by decide),
      List.rdropWhile_concat_pos _ _ _ hspace, List.append_assoc]
    · rfl
    · rw [← hlines]
      rintro y ⟨⟩
      exact hfirst
  have htail : '\n' ∉ envLine (e.1, trimEnd e.2) := by
    rw [envLine, List.mem_append, List.mem_cons, not_or, not_or] at he ⊢
    exact ⟨he.1, he.2.1, fun h =>
      he.2.2 ((List.rdropWhile_prefix _ _).subset h)⟩
  rw [htrim, splitOn_lines (List.forall_mem_cons.mpr ⟨hheader, ?_⟩) htail]
  · simp
  · intro l hl
    obtain ⟨e', he', rfl⟩ := List.mem_map.mp hl
    exact hes e' he'

theorem eq_mem_envLine (e : List Char × List Char) : '=' ∈ envLine e :=
  List.mem_append_right _ List.mem_cons_self

/-- Keys that both readers take as they are. -/
structure ProperKeys (keys : List (List Char)) : Prop where
  nodup : keys.Nodup
  eq_free : ∀ k ∈ keys, '=' ∉ k
  newline_free : ∀ k ∈ keys, '\n' ∉ k

theorem ProperKeys.sublist {keys keys' : List (List Char)}
    (h : ProperKeys keys) (hsub : keys'.Sublist keys) : ProperKeys keys' where
  nodup := h.nodup.sublist hsub
  eq_free k hk := h.eq_free k (hsub.subset hk)
  newline_free k hk := h.newline_free k (hsub.subset hk)

section Runtime

variable {header : List Char} {x : Char}
  {es : List (List Char × List Char)} {e : List Char × List Char}
  (hfirst : isJsSpace x = false) (hheader : '\n' ∉ x :: header)
  (hplain : '=' ∉ x :: header)
  (hkeys : ProperKeys ((es ++ [e]).map Prod.fst))
  (hproto : "__proto__".toList ∉ (es ++ [e]).map Prod.fst)
  (hvalues : ∀ e' ∈ es ++ [e], '\n' ∉ e'.2)

include hfirst hheader hplain hkeys hproto hvalues

/-- What `formatRuntimeEnv` makes of a message: each value up to its first
`=`, and the last value without its trailing spaces. -/
theorem runtimeEnv_envMessage :
    (∀ e' ∈ es ++ [(e.1, trimEnd e.2)],
      runtimeEnv (envMessage (x :: header) (es ++ [e])) e'.1 =
        some (some (upTo '=' e'.2))) ∧
    ∀ p, p ∉ (es ++ [e]).map Prod.fst →
      runtimeEnv (envMessage (x :: header) (es ++ [e])) p = none := by
  have hnames : (es ++ [(e.1, trimEnd e.2)]).map Prod.fst =
      (es ++ [e]).map Prod.fst := by simp
  have hline {e' : List Char × List Char} (he' : e' ∈ es ++ [e]) :
      '\n' ∉ envLine e' :=
    newline_not_mem_envLine
      (hkeys.newline_free _ (List.mem_map_of_mem he')) (hvalues e' he')
  have hread := foldl_lines
    (fun env value => if '=' ∈ value then env.assignLine value else env)
    (fun _ => False) (es ++ [(e.1, trimEnd e.2)])
    (fun _ _ _ h => h.elim)
    (fun env e' he' _ => by
      have hmem : e'.1 ∈ (es ++ [e]).map Prod.fst := by
        rw [← hnames]
        exact List.mem_map_of_mem he'
      have hne : e'.1 ≠ "__proto__".toList := by
        intro heq
        exact hproto (heq ▸ hmem)
      rw [if_pos (eq_mem_envLine e'),
        Env.assignLine_envLine (hkeys.eq_free _ hmem), Env.assign,
        if_neg hne])
    (by rw [hnames]; exact hkeys.nodup) Env.empty
  have hlines : runtimeEnv (envMessage (x :: header) (es ++ [e])) =
      ((es ++ [(e.1, trimEnd e.2)]).map envLine).foldl
        (fun env value =>
          if '=' ∈ value then env.assignLine value else env) Env.empty := by
    rw [runtimeEnv, splitOn_trim_envMessage hfirst hheader
      (fun e' he' => hline (List.mem_append_left _ he'))
      (hline (List.mem_append_right _ (List.mem_singleton_self e))),
      List.foldl_cons, if_neg hplain]
  rw [hlines]
  refine ⟨fun e' he' => hread.1 e' he' id, fun p hp => ?_⟩
  exact hread.2 p (Or.inl (by rw [hnames]; exact hp))

/-- The round trip through `formatRuntimeEnv`. -/
theorem runtimeEnv_binds_iff :
    (∀ environment, Binds (es ++ [e]) environment
      (setEnv environment
        (runtimeEnv (envMessage (x :: header) (es ++ [e]))))) ↔
    (∀ e' ∈ es ++ [e], '=' ∉ e'.2) ∧ trimEnd e.2 = e.2 := by
  obtain ⟨hbound, hothers⟩ :=
    runtimeEnv_envMessage hfirst hheader hplain hkeys hproto hvalues
  have hset (environment : Env) {p v : List Char}
      (h : runtimeEnv (envMessage (x :: header) (es ++ [e])) p =
        some (some v)) :
      setEnv environment (runtimeEnv (envMessage (x :: header) (es ++ [e]))) p =
        some (some v) := by rw [setEnv, h]
  have hlast := hbound (e.1, trimEnd e.2)
    (List.mem_append_right _ (List.mem_singleton_self _))
  constructor
  · intro h
    have hall := (h Env.empty).bound
    have hvalue (e' : List Char × List Char) (he' : e' ∈ es) :
        '=' ∉ e'.2 := by
      have hb := hset Env.empty
        (hbound e' (List.mem_append_left _ he'))
      have heq := (hall e' (List.mem_append_left _ he')).symm.trans hb
      rw [← upTo_eq_self_iff]
      exact (Option.some.inj (Option.some.inj heq)).symm
    have heq := (hall e (List.mem_append_right _
      (List.mem_singleton_self e))).symm.trans (hset _ hlast)
    have hupTo : e.2 = upTo '=' (trimEnd e.2) :=
      Option.some.inj (Option.some.inj heq)
    have htrim : trimEnd e.2 = e.2 := by
      have hprefix : e.2 <+: trimEnd e.2 := by
        conv_lhs => rw [hupTo]
        exact List.takeWhile_prefix _
      exact (List.rdropWhile_prefix _ _).eq_of_length_le hprefix.length_le
    rw [htrim] at hupTo
    refine ⟨fun e' he' => ?_, htrim⟩
    rcases List.mem_append.mp he' with he' | he'
    · exact hvalue e' he'
    · rw [List.mem_singleton.mp he']
      exact upTo_eq_self_iff.mp hupTo.symm
  · rintro ⟨hfree, htrim⟩ environment
    rw [htrim] at hbound
    constructor
    · intro e' he'
      rw [hset _ (hbound e' he'), upTo_eq_self_iff.mpr (hfree e' he')]
    · intro p hp
      rw [setEnv, hothers p hp]

end Runtime

/-- All keys of the runtime environment, in the order they are written. -/
def nodeKeys : List (List Char) :=
  ["runtime.version", "appmetrics.version", "agentcore.version",
    "runtime.vendor", "runtime.name", "heap.size.limit",
    "max.semi.space.size", "max.old.space.size", "max.heap.size",
    "command.line.arguments"].map String.toList

theorem nodeKeys_proper : ProperKeys nodeKeys where
  nodup := by decide
  eq_free := by decide
  newline_free := by decide

theorem proto_not_mem_nodeKeys : "__proto__".toList ∉ nodeKeys := by decide

namespace NodeInformation

theorem entries_keys (i : NodeInformation) :
    (i.entries.map Prod.fst).Sublist nodeKeys := by
  have htext (key : String) (text : List Char) :
      ((textEntry key text).map Prod.fst).Sublist [key.toList] := by
    unfold textEntry
    split <;> simp
  have hsize (key : String) (size : Nat) :
      ((sizeEntry key size).map Prod.fst).Sublist [key.toList] := by
    unfold sizeEntry
    split <;> simp
  simp only [entries, facts, List.map_append]
  exact ((((((((List.Sublist.refl _).append (htext _ _)).append
    (htext _ _)).append (List.Sublist.refl _)).append (hsize _ _)).append
      (hsize _ _)).append (hsize _ _)).append (List.Sublist.refl _))

/-- What holds of the texts and of all numbers holds of every value. -/
theorem forall_facts {P : List Char → Prop} (hnumber : ∀ n, P (showNat n))
    (i : NodeInformation) :
    (∀ e ∈ i.facts, P e.2) ↔
      P (i.nodeVersion ++ i.nodeTag) ∧ P i.appmetricsVersion ∧
        P i.agentVersion ∧ (i.nodeVendor ≠ [] → P i.nodeVendor) ∧
          (i.nodeName ≠ [] → P i.nodeName) := by
  have htext (key : String) (text : List Char) :
      (∀ e ∈ textEntry key text, P e.2) ↔ (text ≠ [] → P text) := by
    unfold textEntry
    split <;> simp_all
  have hsize (key : String) (size : Nat) :
      ∀ e ∈ sizeEntry key size, P e.2 := by
    unfold sizeEntry
    split <;> simp [hnumber]
  simp only [facts, List.forall_mem_append, List.forall_mem_cons, htext,
    hnumber, true_and]
  simp only [List.not_mem_nil, false_imp_iff, implies_true, and_true]
  constructor
  · rintro ⟨⟨⟨⟨⟨⟨hv, ha, hg⟩, hvendor⟩, hname⟩, -⟩, -⟩, -⟩
    exact ⟨hv, ha, hg, hvendor, hname⟩
  · rintro ⟨hv, ha, hg, hvendor, hname⟩
    exact ⟨⟨⟨⟨⟨⟨hv, ha, hg⟩, hvendor⟩, hname⟩, hsize _ _⟩, hsize _ _⟩,
      hsize _ _⟩

end NodeInformation

namespace NodeProcess

/-- The V8 strings that `GetNodeInformation` extracts. -/
def v8Strings (n : NodeProcess) : List (List Char) :=
  n.version :: n.tag :: n.execArgv

/-- No extracted string overruns its buffer. -/
def Ascii (n : NodeProcess) : Prop :=
  ∀ s ∈ n.v8Strings, ∀ c ∈ s, c.toNat < 128

def NewlineFree (n : NodeProcess) : Prop :=
  ∀ s ∈ n.appmetricsVersion :: n.agentVersion :: n.v8Strings, '\n' ∉ s

/-- The arguments as they are written. -/
def arguments (n : NodeProcess) : List Char :=
  "@@@".toList.intercalate (n.execArgv.map cText)

/-- The values have no `=` in them, and the last one, which stands at the
end of the message, does not end in a space. -/
structure Decodable (n : NodeProcess) : Prop where
  eq_free : ∀ s ∈ n.appmetricsVersion :: n.agentVersion :: n.v8Strings,
    '=' ∉ cText s
  ending : ∀ c ∈ n.arguments.getLast?, isJsSpace c = false

/-- The message of this process, if it writes one, is read as it was
written, whatever the environment holds before. -/
def RoundTrips (n : NodeProcess) : Prop :=
  ∃ i, readNode n = some i ∧ ∀ message ∈ i.message, ∀ environment,
    Binds i.entries environment (setEnv environment (runtimeEnv message))

def information (n : NodeProcess) : NodeInformation where
  nodeVersion := cText n.version
  nodeTag := cText n.tag
  appmetricsVersion := cText n.appmetricsVersion
  agentVersion := cText n.agentVersion
  nodeVendor := if isIbmBuild (cText n.tag) then "IBM".toList else []
  nodeName :=
    if isIbmBuild (cText n.tag) then "IBM SDK for Node.js".toList
    else "Node.js".toList
  heapSizeLimit := n.heapSizeLimit
  maxSemiSpaceSizeGuess := n.maxSemiSpaceSizeGuess
  maxOldSpaceSizeGuess := n.maxOldSpaceSizeGuess
  maxHeapSizeGuess :=
    (2 * n.maxSemiSpaceSizeGuess + n.maxOldSpaceSizeGuess) % 2 ^ 64
  commandLineArguments := n.arguments

theorem mapM_extract_of_ascii {args : List (List Char)}
    (h : ∀ a ∈ args, ∀ c ∈ a, c.toNat < 128) :
    args.mapM extractV8String = some (args.map cText) := by
  induction args with
  | nil => rfl
  | cons a args ih =>
      obtain ⟨ha, hargs⟩ := List.forall_mem_cons.mp h
      rw [List.mapM_cons, ih hargs, extractV8String_eq, if_pos ha]
      rfl

theorem mapM_extract_of_not_ascii {args : List (List Char)}
    (h : ¬ ∀ a ∈ args, ∀ c ∈ a, c.toNat < 128) :
    args.mapM extractV8String = none := by
  induction args with
  | nil => exact absurd nofun h
  | cons a args ih =>
      rw [List.mapM_cons, extractV8String_eq]
      by_cases ha : ∀ c ∈ a, c.toNat < 128
      · rw [if_pos ha,
          ih fun hargs => h (List.forall_mem_cons.mpr ⟨ha, hargs⟩)]
        rfl
      · rw [if_neg ha]
        rfl

theorem readNode_eq_some {n : NodeProcess} {i : NodeInformation} :
    readNode n = some i ↔ n.Ascii ∧ n.information = i := by
  rw [Ascii, v8Strings, List.forall_mem_cons, List.forall_mem_cons, readNode,
    getNodeArguments, extractV8String_eq, extractV8String_eq]
  by_cases hversion : ∀ c ∈ n.version, c.toNat < 128
  · by_cases htag : ∀ c ∈ n.tag, c.toNat < 128
    · by_cases hargs : ∀ a ∈ n.execArgv, ∀ c ∈ a, c.toNat < 128
      · rw [if_pos hversion, if_pos htag, mapM_extract_of_ascii hargs]
        have hrun : (some n.information = some i) ↔ n.information = i :=
          Option.some_inj
        exact hrun.trans ⟨fun h => ⟨⟨hversion, htag, hargs⟩, h⟩, And.right⟩
      · rw [if_pos hversion, if_pos htag, mapM_extract_of_not_ascii hargs]
        refine iff_of_false ?_ fun h => hargs h.1.2.2
        rintro ⟨⟩
    · rw [if_pos hversion, if_neg htag]
      refine iff_of_false ?_ fun h => htag h.1.2.1
      rintro ⟨⟩
  · rw [if_neg hversion]
    refine iff_of_false ?_ fun h => hversion h.1.1
    rintro ⟨⟩

theorem mem_arguments {n : NodeProcess} {c : Char} (hc : c ≠ '@') :
    c ∈ n.arguments ↔ ∃ a ∈ n.execArgv, c ∈ cText a := by
  unfold arguments
  induction n.execArgv with
  | nil => simp
  | cons a args ih =>
      cases args with
      | nil => simp
      | cons b args =>
          rw [List.map_cons, List.map_cons, List.intercalate_cons_cons,
            ← List.map_cons, List.mem_append, List.mem_append, ih]
          simp [hc]

theorem trimEnd_eq_self_iff {s : List Char} :
    trimEnd s = s ↔ ∀ c ∈ s.getLast?, isJsSpace c = false := by
  rw [trimEnd, List.rdropWhile_eq_self_iff]
  constructor
  · intro h c hc
    obtain ⟨hne, rfl⟩ := List.mem_getLast?_eq_getLast hc
    simpa using h hne
  · intro h hne
    rw [h _ (List.getLast?_eq_getLast_of_ne_nil hne)]
    exact Bool.false_ne_true

/-- Vendor and name are fixed texts. -/
theorem forall_information_entries {n : NodeProcess} {c : Char}
    (hdigit : c.isDigit = false) (hat : c ≠ '@')
    (hfixed : c ∉ "IBM SDK for Node.js".toList) :
    (∀ e ∈ n.information.entries, c ∉ e.2) ↔
      ∀ s ∈ n.appmetricsVersion :: n.agentVersion :: n.v8Strings,
        c ∉ cText s := by
  have hvendor : c ∉ n.information.nodeVendor := by
    unfold information
    dsimp only
    split
    · exact fun h => hfixed (List.mem_of_mem_take (i := 3) h)
    · exact List.not_mem_nil
  have hname : c ∉ n.information.nodeName := by
    unfold information
    dsimp only
    split
    · exact hfixed
    · exact fun h => hfixed (List.mem_of_mem_drop (i := 12) h)
  have hfacts := NodeInformation.forall_facts (P := fun v => c ∉ v)
    (not_mem_showNat hdigit) n.information
  rw [NodeInformation.entries, List.forall_mem_append, hfacts,
    List.forall_mem_singleton]
  simp only [hvendor, hname, not_false_eq_true, implies_true, and_true]
  have hargs : c ∉ n.information.commandLineArguments ↔
      ∀ a ∈ n.execArgv, c ∉ cText a := by
    change c ∉ n.arguments ↔ _
    rw [mem_arguments hat]
    push Not
    rfl
  rw [hargs]
  simp only [v8Strings, List.forall_mem_cons, List.mem_append, not_or,
    information]
  tauto

theorem newline_not_mem_entries {n : NodeProcess} (hn : n.NewlineFree) :
    ∀ e ∈ n.information.entries, '\n' ∉ e.2 := by
  rw [forall_information_entries (by decide) (by decide) (by decide)]
  exact fun s hs hmem => hn s hs (cText_subset hmem)

/-- A process round-trips when its strings can be extracted and its message,
if there is one, is read as it was written. -/
theorem roundTrips_iff {n : NodeProcess} (hn : n.NewlineFree) :
    n.RoundTrips ↔ n.Ascii ∧ (cText n.version ≠ [] → n.Decodable) := by
  have hkeys := nodeKeys_proper.sublist n.information.entries_keys
  have hproto : "__proto__".toList ∉ n.information.entries.map Prod.fst :=
    fun h => proto_not_mem_nodeKeys (n.information.entries_keys.subset h)
  have hbinds := @runtimeEnv_binds_iff "EnvironmentSource".toList '#'
    n.information.facts ("command.line.arguments".toList, n.arguments)
    (by decide) (by decide) (by decide) hkeys hproto
    (newline_not_mem_entries hn)
  have hdecodable : (∀ e ∈ n.information.entries, '=' ∉ e.2) ∧
      trimEnd n.arguments = n.arguments ↔ n.Decodable := by
    rw [forall_information_entries (by decide) (by decide) (by decide),
      trimEnd_eq_self_iff]
    exact ⟨fun h => ⟨h.1, h.2⟩, fun h => ⟨h.eq_free, h.ending⟩⟩
  have hmessage : (∀ message ∈ n.information.message, ∀ environment,
      Binds n.information.entries environment
        (setEnv environment (runtimeEnv message))) ↔
      (cText n.version ≠ [] → n.Decodable) := by
    rw [← hdecodable, NodeInformation.message]
    by_cases hversion : cText n.version = []
    · have hnone : ¬ n.information.nodeVersion ≠ [] := not_not.mpr hversion
      rw [if_neg hnone]
      exact iff_of_true nofun fun h => absurd hversion h
    · have hsome : n.information.nodeVersion ≠ [] := hversion
      rw [if_pos hsome]
      simp only [Option.mem_some_iff, forall_eq']
      rw [imp_iff_right hversion]
      exact hbinds
  rw [← hmessage]
  constructor
  · rintro ⟨i, hi, hall⟩
    obtain ⟨hascii, rfl⟩ := readNode_eq_some.mp hi
    exact ⟨hascii, hall⟩
  · rintro ⟨hascii, hall⟩
    exact ⟨n.information, readNode_eq_some.mpr ⟨hascii, rfl⟩, hall⟩

end NodeProcess

/-! ## The OS environment -/

/-- Keys on whose lines `formatOSEnv` binds nothing. -/
def IsSkipped (key : List Char) : Prop :=
  key.head? = some '#' ∨ key = "__proto__".toList

/-- What `formatOSEnv` does with one line. -/
def osLine (env : Env) (value : List Char) : Env :=
  if value.head? = some '#' then env else env.assignLine value

/-- A value does not make a line a comment. -/
theorem envLine_head (e : List Char × List Char) :
    (envLine e).head? = some '#' ↔ e.1.head? = some '#' := by
  obtain ⟨key, value⟩ := e
  cases key with
  | nil => simp [envLine]
  | cons c key => rfl

theorem osLine_of_skipped (env : Env) {e : List Char × List Char}
    (hfree : '=' ∉ e.1) (hskip : IsSkipped e.1) :
    osLine env (envLine e) = env := by
  unfold osLine
  by_cases hhash : e.1.head? = some '#'
  · rw [if_pos ((envLine_head e).mpr hhash)]
  · rw [if_neg fun h => hhash ((envLine_head e).mp h),
      Env.assignLine_envLine hfree, Env.assign,
      if_pos (hskip.resolve_left hhash)]

theorem osLine_of_not_skipped (env : Env) {e : List Char × List Char}
    (hfree : '=' ∉ e.1) (hno : ¬ IsSkipped e.1) :
    osLine env (envLine e) =
      Function.update env e.1 (some (some (upTo '=' e.2))) := by
  unfold osLine
  rw [if_neg fun h => hno (Or.inl ((envLine_head e).mp h)),
    Env.assignLine_envLine hfree, Env.assign, if_neg fun h => hno (Or.inr h)]

section Os

variable {header : List Char} {es : List (List Char × List Char)}
  (hheader : '\n' ∉ header) (hkeys : ProperKeys (es.map Prod.fst))
  (hvalues : ∀ e ∈ es, '\n' ∉ e.2)

include hheader hkeys hvalues

/-- Nothing is trimmed, so the text after the last newline is a line. -/
theorem splitOn_envMessage :
    (envMessage ('#' :: header) es).splitOn '\n' =
      (('#' :: header) :: es.map envLine) ++ [[]] := by
  have hmessage : envMessage ('#' :: header) es =
      (((('#' :: header) :: es.map envLine).flatMap fun l => l ++ ['\n']) ++
        []) := by
    simp [envMessage, List.flatMap_map]
  rw [hmessage]
  apply splitOn_lines _ List.not_mem_nil
  rw [List.forall_mem_cons]
  refine ⟨by simpa using hheader, fun l hl => ?_⟩
  obtain ⟨e, he, rfl⟩ := List.mem_map.mp hl
  exact newline_not_mem_envLine
    (hkeys.newline_free _ (List.mem_map_of_mem he)) (hvalues e he)

/-- What `formatOSEnv` makes of a message: the text after the last newline is
one more line, and binds the empty key to `undefined`. -/
theorem osEnv_envMessage :
    (∀ e ∈ es, e.1 ≠ [] → ¬ IsSkipped e.1 →
      osEnv (envMessage ('#' :: header) es) e.1 =
        some (some (upTo '=' e.2))) ∧
    osEnv (envMessage ('#' :: header) es) [] = some none ∧
    ∀ p, p ≠ [] → p ∉ es.map Prod.fst ∨ IsSkipped p →
      osEnv (envMessage ('#' :: header) es) p = none := by
  have hfree {e : List Char × List Char} (he : e ∈ es) : '=' ∉ e.1 :=
    hkeys.eq_free _ (List.mem_map_of_mem he)
  have hread := foldl_lines osLine IsSkipped es
    (fun env e he hskip => osLine_of_skipped env (hfree he) hskip)
    (fun env e he hno => osLine_of_not_skipped env (hfree he) hno)
    hkeys.nodup Env.empty
  have hlines : osEnv (envMessage ('#' :: header) es) =
      Function.update ((es.map envLine).foldl osLine Env.empty) []
        (some none) := by
    rw [osEnv, splitOn_envMessage hheader hkeys hvalues, List.foldl_append,
      List.foldl_cons]
    rfl
  rw [hlines]
  refine ⟨fun e he hne hno => ?_, Function.update_self _ _ _,
    fun p hne hp => ?_⟩
  · rw [Function.update_of_ne hne]
    exact hread.1 e he hno
  · rw [Function.update_of_ne hne]
    exact hread.2 p hp

/-- `formatOSEnv` never binds the written keys and no others. -/
theorem osEnv_not_binds {environment : Env}
    (hempty : environment [] ≠ some none) :
    ¬ Binds es environment
      (setEnv environment (osEnv (envMessage ('#' :: header) es))) := by
  obtain ⟨_, hundefined, _⟩ := osEnv_envMessage hheader hkeys hvalues
  have hset : setEnv environment (osEnv (envMessage ('#' :: header) es)) [] =
      some none := by rw [setEnv, hundefined]
  intro h
  by_cases hmem : [] ∈ es.map Prod.fst
  · obtain ⟨e, he, hkey⟩ := List.mem_map.mp hmem
    have hbound := h.bound e he
    rw [hkey, hset] at hbound
    cases hbound
  · exact hempty ((h.others [] hmem).symm.trans hset)

/-- Apart from the empty key, the values without `=` are bound to the keys
that are not skipped. -/
theorem osEnv_named_iff :
    (∀ environment,
      (∀ e ∈ es, e.1 ≠ [] →
        setEnv environment (osEnv (envMessage ('#' :: header) es)) e.1 =
          some (some e.2)) ∧
      ∀ p, p ≠ [] → p ∉ es.map Prod.fst →
        setEnv environment (osEnv (envMessage ('#' :: header) es)) p =
          environment p) ↔
    ∀ e ∈ es, e.1 ≠ [] → '=' ∉ e.2 ∧ ¬ IsSkipped e.1 := by
  obtain ⟨hbound, _, hothers⟩ := osEnv_envMessage hheader hkeys hvalues
  constructor
  · intro h e he hne
    have hvalue := (h Env.empty).1 e he hne
    by_cases hskip : IsSkipped e.1
    · rw [setEnv, hothers e.1 hne (Or.inr hskip)] at hvalue
      cases hvalue
    · rw [setEnv, hbound e he hne hskip] at hvalue
      refine ⟨upTo_eq_self_iff.mp ?_, hskip⟩
      exact Option.some.inj (Option.some.inj hvalue)
  · intro h environment
    constructor
    · intro e he hne
      obtain ⟨hfree, hskip⟩ := h e he hne
      rw [setEnv, hbound e he hne hskip, upTo_eq_self_iff.mpr hfree]
    · intro p hne hp
      rw [setEnv, hothers p hne (Or.inl hp)]

end Os

/-- Node's facts round-trip through `formatRuntimeEnv` exactly when all its
strings are ASCII and, if a message is written, no value has an `=` in it and
the arguments do not end in a space.  Through `formatOSEnv` no message
round-trips; what it does to keys other than the empty one is right exactly
for values without `=` under keys that it does not skip. -/
theorem environment_round_trip (n : NodeProcess) (hn : n.NewlineFree)
    (header : List Char) (es : List (List Char × List Char))
    (hheader : '\n' ∉ header) (hkeys : ProperKeys (es.map Prod.fst))
    (hvalues : ∀ e ∈ es, '\n' ∉ e.2) :
    (n.RoundTrips ↔ n.Ascii ∧ (cText n.version ≠ [] → n.Decodable)) ∧
    (∀ environment : Env, environment [] ≠ some none →
      ¬ Binds es environment
        (setEnv environment (osEnv (envMessage ('#' :: header) es)))) ∧
    ((∀ environment,
      (∀ e ∈ es, e.1 ≠ [] →
        setEnv environment (osEnv (envMessage ('#' :: header) es)) e.1 =
          some (some e.2)) ∧
      ∀ p, p ≠ [] → p ∉ es.map Prod.fst →
        setEnv environment (osEnv (envMessage ('#' :: header) es)) p =
          environment p) ↔
    ∀ e ∈ es, e.1 ≠ [] → '=' ∉ e.2 ∧ ¬ IsSkipped e.1) :=
  ⟨NodeProcess.roundTrips_iff hn,
    fun _ hempty => osEnv_not_binds hheader hkeys hvalues hempty,
    osEnv_named_iff hheader hkeys hvalues⟩

namespace EnvironmentWitness

/-- Node started with a heap size option. -/
def bigHeap : NodeProcess where
  version := "v8.9.0".toList
  tag := []
  execArgv := ["--expose-gc".toList, "--max-old-space-size=4096".toList]
  appmetricsVersion := "4.0.0".toList
  agentVersion := "3.2.6".toList
  heapSizeLimit := 4345298944
  maxOldSpaceSizeGuess := 4294967296
  maxSemiSpaceSizeGuess := 16777216

/-- The size is cut off, and the last line of an OS message adds a key. -/
theorem arguments_cut :
    bigHeap.NewlineFree ∧
      (∃ i ∈ readNode bigHeap, ∃ message ∈ i.message,
        runtimeEnv message "command.line.arguments".toList =
            some (some "--expose-gc@@@--max-old-space-size".toList) ∧
          ("command.line.arguments".toList,
            "--expose-gc@@@--max-old-space-size=4096".toList) ∈
              i.entries) ∧
      osEnv (envMessage "#EnvironmentSource".toList
        [("os.arch".toList, "x86_64".toList)]) [] = some none := by
  refine ⟨by unfold NodeProcess.NewlineFree; decide, ?_, by decide⟩
  exact ⟨bigHeap.information, by decide +kernel,
    envMessage "#EnvironmentSource".toList bigHeap.information.entries,
    by decide +kernel, by decide +kernel, by decide +kernel⟩

theorem environment_round_trip_bigHeap :
    bigHeap.NewlineFree ∧
      (bigHeap.RoundTrips ↔ bigHeap.Ascii ∧
        (cText bigHeap.version ≠ [] → bigHeap.Decodable)) ∧
      ¬ Binds [("os.arch".toList, "x86_64".toList)] Env.empty
        (setEnv Env.empty (osEnv (envMessage "#EnvironmentSource".toList
          [("os.arch".toList, "x86_64".toList)]))) := by
  have hlines : bigHeap.NewlineFree := by
    unfold NodeProcess.NewlineFree
    decide
  obtain ⟨hnode, hos, -⟩ := environment_round_trip bigHeap hlines
    "EnvironmentSource".toList [("os.arch".toList, "x86_64".toList)]
    (by decide) ⟨by decide, by decide, by decide⟩ (by decide)
  exact ⟨hlines, hnode, hos Env.empty nofun⟩

end EnvironmentWitness

end Appmetrics
