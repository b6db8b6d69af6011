/-
Profiles on their way from nodeprofplugin.cpp to appmetrics-api.js.  The
plugin writes each in the mode that a control message has set, and
`formatProfiling` reads it in the mode of index.js when it arrives; the two
are set apart from each other.
-/
import Appmetrics.ProfileJson
import Appmetrics.Profiler
import Appmetrics.ProfileText

namespace Appmetrics

open StepMachine JsonText

/-- A profile that was collected; `visited` counts the nodes of the earlier
ones. -/
structure SentProfile where
  jsonEnabled : Bool
  time : Nat
  visited : Nat
  tree : CpuProfileNode

/-- The message with a profile; `none` once a name has overrun its buffer. -/
def SentProfile.text (p : SentProfile) : Option (List Char) :=
  constructData p.jsonEnabled p.time p.tree (idOf p.visited)

/-- The plugin, the messages that have not arrived, and the mode of index.js;
`events` is the history of `formatProfiling`, `none` where it threw. -/
structure ProfilePipeline where
  profiler : Profiler
  visited : Nat
  inFlight : List SentProfile
  jsonProfilingMode : Bool
  events : List (SentProfile × Option ProfilingEvent)

/-- A callback and a tick come with the time and the tree that V8 has for
them; messages may arrive in any order. -/
inductive PipelineStep
  | message (id : String) (message : List Char)
  | callback (h : AsyncHandle) (time : Nat) (tree : CpuProfileNode)
  | tick (time : Nat) (tree : CpuProfileNode)
  | setJSONProfilingMode (val : Bool)
  | deliver (i : Nat)

/-- The tree of a step that may collect a profile. -/
def PipelineStep.tree? : PipelineStep → Option CpuProfileNode
  | callback .stopProfiler _ tree => some tree
  | tick _ tree => some tree
  | _ => none

namespace ProfilePipeline

/-- The started plugin, before any profile. -/
def started (watchdog : Bool) (enabledProp : List Char) :
    ProfilePipeline where
  profiler := (Profiler.registered watchdog enabledProp).pluginStart
  visited := 0
  inFlight := []
  jsonProfilingMode := false
  events := []

/-- Whether `collectData` gets a profile. -/
def Collects (s : ProfilePipeline) : Prop :=
  s.profiler.enabled = true ∧ s.profiler.running = true

instance (s : ProfilePipeline) : Decidable s.Collects :=
  inferInstanceAs (Decidable (_ ∧ _))

/-- `collectData` sends the profile that it gets. -/
def collect (time : Nat) (tree : CpuProfileNode) (s : ProfilePipeline) :
    ProfilePipeline :=
  if s.Collects then
    { s with
      visited := s.visited + tree.preorder.length
      inFlight := s.inFlight ++
        [⟨s.profiler.jsonEnabled, time, s.visited, tree⟩] }
  else s

/-- A message arrives. -/
def deliver (i : Nat) (s : ProfilePipeline) : Option ProfilePipeline :=
  s.inFlight[i]?.bind fun p => p.text.map fun text =>
    { s with
      inFlight := s.inFlight.eraseIdx i
      events := s.events ++ [(p, formatProfiling s.jsonProfilingMode text)] }

def step (s : ProfilePipeline) : PipelineStep → Option ProfilePipeline
  | .message id message =>
      some { s with profiler := s.profiler.receiveMessage id message }
  | .callback h time tree =>
      if s.profiler.pending h then
        let s := if h = .stopProfiler then s.collect time tree else s
        some { s with profiler := s.profiler.serve h }
      else none
  | .tick time tree => s.profiler.tick.map fun p =>
      { s.collect time tree with profiler := p }
  | .setJSONProfilingMode val => some { s with jsonProfilingMode := val }
  | .deliver i => s.deliver i

def machine (watchdog : Bool) (enabledProp : List Char) :
    Machine ProfilePipeline PipelineStep where
  init := started watchdog enabledProp
  step := step

end ProfilePipeline

/-! ## Reading in the wrong mode -/

/-- Names and counts that both modes show in full. -/
def CpuProfileNode.Clear (x : CpuProfileNode) : Prop :=
  x.Plain ∧ x.Quotable ∧ x.hitCount < 1000000

theorem newline_not_mem_callText {c : VisitCall} (hc : c.node.Legible) :
    '\n' ∉ callText true c := by
  have hprintable {s : List Char} (hs : Printable s) : '\n' ∉ s :=
    fun h => absurd (hs _ h) (by decide)
  have hint (n : Int) : '\n' ∉ showInt n := not_mem_showInt rfl (by decide) n
  have hcount : '\n' ∉ showDouble c.node.hitCount := fun h => by
    rcases mem_showDouble h with h | h | h | h <;> exact absurd h (by decide)
  have hfunction : '\n' ∉ escapeFunction (cText c.node.functionName) := by
    unfold escapeFunction
    split
    · exact not_mem_replaceInString (by decide)
        (not_mem_replaceInString (by decide) (hprintable hc.1))
    · exact hprintable hc.1
  have hscript : '\n' ∉ escapeScript (cText c.node.scriptResourceName) := by
    unfold escapeScript
    split
    · exact not_mem_replaceInString (by decide)
        (not_mem_replaceInString (by decide) (hprintable hc.2))
    · exact hprintable hc.2
  unfold callText nodeData
  rw [if_pos rfl]
  simp only [List.mem_append, not_or]
  refine ⟨⟨⟨⟨⟨⟨⟨⟨⟨⟨?_, hfunction⟩, ?_⟩, hscript⟩, ?_⟩, hint _⟩, ?_⟩, hcount⟩,
    ?_⟩, hint _⟩, ?_⟩ <;> decide

theorem newline_not_mem_treeText (m : Nat) :
    (∀ (t : CpuProfileNode) (parent : Option Nat) (k : Nat),
      (∀ x ∈ t.preorder, x.Legible) → '\n' ∉ treeText true m parent k t) ∧
      ∀ (ts : List CpuProfileNode) (parent k : Nat),
        (∀ x ∈ preorderAll ts, x.Legible) →
          '\n' ∉ treesText true m parent k ts := by
  apply CpuProfileNode.induction
  case node =>
    intro functionName scriptResourceName lineNumber hitCount children ih
      parent k ht
    rw [preorder_node, List.forall_mem_cons] at ht
    rw [treeText_node, List.mem_append, List.mem_append, not_or, not_or]
    exact ⟨newline_not_mem_callText ht.1, ih k (k + 1) ht.2, by decide⟩
  case nil =>
    intro parent k _
    exact List.not_mem_nil
  case cons =>
    intro child rest hchild hrest parent k ht
    rw [preorderAll, List.forall_mem_append] at ht
    rw [treesText, List.mem_append, List.mem_append, not_or, not_or]
    refine ⟨⟨hchild _ _ ht.1, ?_⟩, hrest _ _ ht.2⟩
    split <;> decide

/-- A line whose second field begins with a quote is passed over. -/
theorem formatLine_quote {front rest : List Char} (hfront : ',' ∉ front)
    (prof : Prof) : formatLine prof (front ++ ',' :: '"' :: rest) = prof := by
  have hsecond : ((front ++ ',' :: '"' :: rest).splitOn ',')[1]? =
      some ('"' :: upTo ',' rest) := by
    rw [List.splitOn_append_cons_self_of_not_mem hfront]
    exact splitOn_head ',' ('"' :: rest)
  have hne {w : List Char} (hw : w.head? ≠ some '"') :
      ((front ++ ',' :: '"' :: rest).splitOn ',')[1]? ≠ some w := by
    rw [hsecond]
    intro h
    rw [← Option.some.inj h] at hw
    exact hw rfl
  unfold formatLine
  dsimp only
  rw [if_neg (hne (by decide)), if_neg (hne (by decide))]

/-- A document is one line, of which nothing is read. -/
theorem formatProfiling_document (time m : Nat) {t : CpuProfileNode}
    (ht : ∀ x ∈ t.preorder, x.Legible) :
    formatProfiling false (documentText time m t) =
      some (.lines ⟨0, [], none⟩) := by
  have hdocument : documentText time m t =
      ("\x7b\"date\":".toList ++ showNat time) ++ ',' :: '"' ::
        ("head\":".toList ++ treeText true m none 0 t ++ ['\x7d']) := by
    simp [documentText, frameText]
  have hcomma : ',' ∉ "\x7b\"date\":".toList ++ showNat time := by
    rw [List.mem_append, not_or]
    exact ⟨by decide, not_mem_showNat rfl time⟩
  have htrim : jsTrim (documentText time m t) = documentText time m t := by
    rw [documentText, frameText, if_pos rfl]
    refine (jsTrim_append_cons ?_ (by decide)).trans ?_
    · rintro x ⟨⟩
      decide
    · rfl
  have hnewline : '\n' ∉ documentText time m t := by
    rw [documentText, frameText, if_pos rfl]
    simp only [List.mem_append, not_or]
    exact ⟨⟨⟨⟨by decide, not_mem_showNat rfl time⟩, by decide⟩,
      (newline_not_mem_treeText m).1 t none 0 ht⟩, by decide⟩
  rw [formatProfiling, if_neg Bool.false_ne_true, htrim,
    List.splitOn_eq_singleton hnewline]
  dsimp only
  rw [List.foldl_cons, List.foldl_nil, hdocument, formatLine_quote hcomma]

/-- The event tells of the profile what V8 and `visit` said, as entries or as
a document. -/
def SentProfile.Told (p : SentProfile) (event : Option ProfilingEvent) :
    Prop :=
  if p.jsonEnabled then
    ∃ j head, event = some (.json j) ∧ j.get "date" = some (.num p.time) ∧
      j.get "head" = some head ∧ Shows p.visited 0 head p.tree
  else
    ∃ prof, event = some (.lines prof) ∧
      prof.time = some (some (p.time : Int)) ∧
      prof.functions =
        (p.tree.ranked none 0).map fun x => (callFor p.visited x).entry

/-- What `formatProfiling` makes of a profile in either mode: it is told, or
`JSON.parse` throws, or an event without functions is raised. -/
def SentProfile.Outcome (p : SentProfile) (jsonProfilingMode : Bool)
    (event : Option ProfilingEvent) : Prop :=
  if p.jsonEnabled = jsonProfilingMode then p.Told event
  else if jsonProfilingMode then event = none
  else event = some (.lines ⟨0, [], none⟩)

theorem SentProfile.outcome {p : SentProfile}
    (hp : ∀ x ∈ p.tree.preorder, x.Clear) (jsonProfilingMode : Bool) :
    ∃ text, p.text = some text ∧
      p.Outcome jsonProfilingMode
        (formatProfiling jsonProfilingMode text) := by
  obtain ⟨jsonEnabled, time, m, t⟩ := p
  have hplain : ∀ x ∈ t.preorder, x.Plain := fun x hx => (hp x hx).1
  cases jsonEnabled with
  | false =>
      have hlines := constructData_lines time m hplain
      refine ⟨_, hlines, ?_⟩
      cases jsonProfilingMode with
      | false =>
          have hcounts : (t.ranked none 0).map
                (fun x => (callFor m x).readEntry) =
              (t.ranked none 0).map fun x => (callFor m x).entry := by
            apply List.map_congr_left
            intro x hx
            exact (readEntry_eq_iff _).mpr
              (hp _ (mem_preorder_of_mem_ranked hx)).2.2
          exact ⟨_, formatProfiling_lines time m hplain, rfl, hcounts⟩
      | true => rfl
  | true =>
      have hquotable := fun x hx =>
        (quotable_iff x).mp (hp x hx).2.1
      have hdata : constructData true time t (idOf m) =
          some (documentText time m t) := by
        rw [constructData_eq, if_pos fun x hx => (hquotable x hx).1,
          ← documentText, cText_documentText]
      refine ⟨_, hdata, ?_⟩
      cases jsonProfilingMode with
      | false =>
          exact formatProfiling_document time m fun x hx =>
            (hquotable x hx).2.1
      | true =>
          have hparse := parse_documentText time m t
          rw [if_pos fun x hx => (hquotable x hx).2.1] at hparse
          refine ⟨documentJson time m t, treeJson m none 0 t, ?_, rfl, rfl,
            ?_⟩
          · rw [formatProfiling, if_pos rfl, hparse]
            rfl
          · exact ((shows_treeJson m).1 t none 0).mpr fun x hx =>
              (hquotable x hx).2.2

theorem SentProfile.Outcome.told_iff {p : SentProfile}
    {jsonProfilingMode : Bool} {event : Option ProfilingEvent}
    (h : p.Outcome jsonProfilingMode event) :
    p.jsonEnabled = jsonProfilingMode ↔ p.Told event := by
  constructor
  · intro heq
    rwa [Outcome, if_pos heq] at h
  · intro htold
    by_contra hne
    rw [Outcome, if_neg hne] at h
    cases hjson : p.jsonEnabled with
    | true =>
        have hmode : jsonProfilingMode = false := by
          simpa [hjson] using hne
        rw [hmode, if_neg Bool.false_ne_true] at h
        rw [Told, if_pos hjson, h] at htold
        obtain ⟨_, _, heq, _⟩ := htold
        cases heq
    | false =>
        have hmode : jsonProfilingMode = true := by
          simpa [hjson] using hne
        rw [hmode, if_pos rfl] at h
        rw [Told, hjson, if_neg Bool.false_ne_true, h] at htold
        obtain ⟨_, heq, _⟩ := htold
        cases heq

namespace ProfilePipeline

variable {s s' : ProfilePipeline} {e : PipelineStep}

/-- All profiles on the way are clear. -/
def Clear (s : ProfilePipeline) : Prop :=
  ∀ p ∈ s.inFlight, ∀ x ∈ p.tree.preorder, x.Clear

/-- The message that arrives was written in the mode it is read in. -/
def Agrees (s : ProfilePipeline) : PipelineStep → Prop
  | .deliver i => ∀ p ∈ s.inFlight[i]?, p.jsonEnabled = s.jsonProfilingMode
  | _ => True

instance (s : ProfilePipeline) : (e : PipelineStep) → Decidable (s.Agrees e)
  | .deliver i => inferInstanceAs (Decidable (∀ _ ∈ s.inFlight[i]?, _))
  | .message _ _ | .callback _ _ _ | .tick _ _ | .setJSONProfilingMode _ =>
      instDecidableTrue

/-- A delivery adds the event of one message to the history. -/
def Delivers (P : SentProfile → Bool → Option ProfilingEvent → Prop)
    (s : ProfilePipeline) (e : PipelineStep) (s' : ProfilePipeline) : Prop :=
  match e with
  | .deliver i => ∃ p event, s.inFlight[i]? = some p ∧
      s'.events = s.events ++ [(p, event)] ∧ P p s.jsonProfilingMode event
  | _ => True

theorem deliver_eq_some {i : Nat} (hstep : s.deliver i = some s') :
    ∃ p text, s.inFlight[i]? = some p ∧ p.text = some text ∧
      s' = { s with
        inFlight := s.inFlight.eraseIdx i
        events := s.events ++
          [(p, formatProfiling s.jsonProfilingMode text)] } := by
  obtain ⟨p, hp, hstep⟩ := Option.bind_eq_some_iff.mp hstep
  obtain ⟨text, htext, rfl⟩ := Option.map_eq_some_iff.mp hstep
  exact ⟨p, text, hp, htext, rfl⟩

/-- Whatever a step does, what is on the way afterwards was on the way or has
just been collected. -/
theorem step_inFlight (hstep : s.step e = some s') :
    ∀ p ∈ s'.inFlight, p ∈ s.inFlight ∨
      (s.Collects ∧ p.jsonEnabled = s.profiler.jsonEnabled ∧
        e.tree? = some p.tree) := by
  have hcollect (time : Nat) (tree : CpuProfileNode) :
      ∀ p ∈ (s.collect time tree).inFlight, p ∈ s.inFlight ∨
        (s.Collects ∧ p.jsonEnabled = s.profiler.jsonEnabled ∧
          p.tree = tree) := by
    intro p hp
    by_cases hcollects : s.Collects
    · rw [collect, if_pos hcollects] at hp
      rcases List.mem_append.mp hp with hp | hp
      · exact Or.inl hp
      · rw [List.mem_singleton.mp hp]
        exact Or.inr ⟨hcollects, rfl, rfl⟩
    · rw [collect, if_neg hcollects] at hp
      exact Or.inl hp
  cases e with
  | message id message =>
      cases hstep
      exact fun p hp => Or.inl hp
  | callback h time tree =>
      obtain ⟨-, hs'⟩ := Option.ite_none_right_eq_some.mp hstep
      cases hs'
      by_cases hstop : h = .stopProfiler
      · rw [if_pos hstop, hstop]
        intro p hp
        rcases hcollect time tree p hp with hold | ⟨hnew, hjson, htree⟩
        · exact Or.inl hold
        · exact Or.inr ⟨hnew, hjson, congrArg some htree.symm⟩
      · rw [if_neg hstop]
        exact fun p hp => Or.inl hp
  | tick time tree =>
      obtain ⟨p, -, rfl⟩ := Option.map_eq_some_iff.mp hstep
      intro p hp
      rcases hcollect time tree p hp with hold | ⟨hnew, hjson, htree⟩
      · exact Or.inl hold
      · exact Or.inr ⟨hnew, hjson, congrArg some htree.symm⟩
  | setJSONProfilingMode val =>
      cases hstep
      exact fun p hp => Or.inl hp
  | deliver i =>
      obtain ⟨_, _, -, -, rfl⟩ := deliver_eq_some hstep
      exact fun p hp => Or.inl (List.mem_of_mem_eraseIdx hp)

theorem clear_inductive (watchdog : Bool) (enabledProp : List Char) :
    (machine watchdog enabledProp).Inductive
      (fun _ e => ∀ t ∈ e.tree?, ∀ x ∈ t.preorder, x.Clear) Clear where
  init := fun _ hp => absurd hp List.not_mem_nil
  step := by
    intro s e s' hs hclear hstep p hp
    rcases step_inFlight hstep p hp with hold | ⟨-, -, htree⟩
    · exact hs p hold
    · exact hclear p.tree htree

theorem Clear.deliver {i : Nat} (hs : s.Clear)
    (hstep : s.deliver i = some s') :
    ∃ p event, s.inFlight[i]? = some p ∧
      s'.events = s.events ++ [(p, event)] ∧
      p.Outcome s.jsonProfilingMode event := by
  obtain ⟨p, text, hp, htext, rfl⟩ := deliver_eq_some hstep
  obtain ⟨text', htext', houtcome⟩ :=
    SentProfile.outcome (hs p (List.mem_of_getElem? hp)) s.jsonProfilingMode
  rw [htext] at htext'
  cases htext'
  exact ⟨p, _, hp, rfl, houtcome⟩

theorem Clear.delivers (hs : s.Clear) (hstep : s.step e = some s') :
    s.Delivers SentProfile.Outcome e s' := by
  cases e with
  | deliver i => exact hs.deliver hstep
  | _ => trivial

theorem Clear.agrees_iff (hs : s.Clear) (hstep : s.step e = some s') :
    s.Agrees e ↔ s.Delivers (fun p _ event => p.Told event) e s' := by
  cases e with
  | deliver i =>
      obtain ⟨p, event, hp, hevents, houtcome⟩ := hs.deliver hstep
      have hagrees : s.Agrees (.deliver i) ↔
          p.jsonEnabled = s.jsonProfilingMode := by
        simp [Agrees, hp]
      rw [hagrees, houtcome.told_iff]
      constructor
      · exact fun htold => ⟨p, event, hp, hevents, htold⟩
      · rintro ⟨p', event', hp', hevents', htold⟩
        have hsame := List.append_cancel_left (hevents.symm.trans hevents')
        cases hsame
        exact htold
  | _ => exact iff_of_true trivial trivial

/-! ## Setting the modes -/

/-- The mode of index.js is set only with nothing on the way, and no profile
is collected while the plugin has another one. -/
def Careful (s : ProfilePipeline) (e : PipelineStep) : Prop :=
  (∀ val, e = .setJSONProfilingMode val → s.inFlight = []) ∧
    (e.tree?.isSome = true → s.Collects →
      s.profiler.jsonEnabled = s.jsonProfilingMode)

theorem step_jsonProfilingMode (hstep : s.step e = some s') :
    s'.jsonProfilingMode = s.jsonProfilingMode ∨
      ∃ val, e = .setJSONProfilingMode val := by
  have hcollect (time : Nat) (tree : CpuProfileNode) :
      (s.collect time tree).jsonProfilingMode = s.jsonProfilingMode := by
    unfold collect
    split <;> rfl
  cases e with
  | message id message =>
      cases hstep
      exact Or.inl rfl
  | callback h time tree =>
      obtain ⟨-, hs'⟩ := Option.ite_none_right_eq_some.mp hstep
      cases hs'
      by_cases hstop : h = .stopProfiler
      · rw [if_pos hstop]
        exact Or.inl (hcollect time tree)
      · rw [if_neg hstop]
        exact Or.inl rfl
  | tick time tree =>
      obtain ⟨p, -, rfl⟩ := Option.map_eq_some_iff.mp hstep
      exact Or.inl (hcollect time tree)
  | setJSONProfilingMode val => exact Or.inr ⟨val, rfl⟩
  | deliver i =>
      obtain ⟨_, _, -, -, rfl⟩ := deliver_eq_some hstep
      exact Or.inl rfl

theorem agrees_of_all
    (hs : ∀ p ∈ s.inFlight, p.jsonEnabled = s.jsonProfilingMode) :
    s.Agrees e := by
  cases e with
  | deliver i => exact fun p hp => hs p (List.mem_of_getElem? hp)
  | _ => trivial

/-- With care, what is on the way is in the mode of index.js. -/
theorem careful_inductive (watchdog : Bool) (enabledProp : List Char) :
    (machine watchdog enabledProp).Inductive Careful
      fun s => ∀ p ∈ s.inFlight, p.jsonEnabled = s.jsonProfilingMode where
  init := fun _ hp => absurd hp List.not_mem_nil
  step := by
    intro s e s' hs hcareful hstep p hp
    have hflight := step_inFlight hstep p hp
    rcases step_jsonProfilingMode hstep with hmode | ⟨val, rfl⟩
    · rw [hmode]
      rcases hflight with hold | ⟨hcollects, hjson, htree⟩
      · exact hs p hold
      · rw [hjson]
        exact hcareful.2 (by rw [htree]; rfl) hcollects
    · rcases hflight with hold | ⟨-, -, htree⟩
      · rw [hcareful.1 val rfl] at hold
        exact absurd hold List.not_mem_nil
      · cases htree

end ProfilePipeline

/-- Over every run of control messages, callbacks, ticks, deliveries and
changes of the mode in index.js, with names and counts that both modes show in
full: a profile is told in full if the mode that it was written in is the one
that it is read in; else `JSON.parse` throws, or the event has no functions
and no time.  So all are told exactly if the modes agree at each delivery, and
they do if the mode of index.js is set with nothing on the way only and no
profile is collected while the plugin has another one. -/
theorem profile_modes {watchdog : Bool} {enabledProp : List Char}
    {es : List PipelineStep} {s : ProfilePipeline}
    (hrun : (ProfilePipeline.machine watchdog enabledProp).run
      (ProfilePipeline.started watchdog enabledProp) es = some s)
    (hclear : ∀ e ∈ es, ∀ t ∈ e.tree?, ∀ x ∈ t.preorder, x.Clear) :
    (ProfilePipeline.machine watchdog enabledProp).Each
      (ProfilePipeline.Delivers SentProfile.Outcome)
      (ProfilePipeline.started watchdog enabledProp) es ∧
    ((ProfilePipeline.machine watchdog enabledProp).Guarded
        ProfilePipeline.Agrees
        (ProfilePipeline.started watchdog enabledProp) es ↔
      (ProfilePipeline.machine watchdog enabledProp).Each
        (ProfilePipeline.Delivers fun p _ event => p.Told event)
        (ProfilePipeline.started watchdog enabledProp) es) ∧
    ((ProfilePipeline.machine watchdog enabledProp).Guarded
        ProfilePipeline.Careful
        (ProfilePipeline.started watchdog enabledProp) es →
      (ProfilePipeline.machine watchdog enabledProp).Guarded
        ProfilePipeline.Agrees
        (ProfilePipeline.started watchdog enabledProp) es) := by
  have hinductive := ProfilePipeline.clear_inductive watchdog enabledProp
  have hguarded : (ProfilePipeline.machine watchdog enabledProp).Guarded
      (fun _ e => ∀ t ∈ e.tree?, ∀ x ∈ t.preorder, x.Clear)
      (ProfilePipeline.started watchdog enabledProp) es :=
    guarded_of_forall fun _ e he => hclear e he
  refine ⟨?_, ?_, ?_⟩
  · exact hinductive.each (fun hs _ hstep => hs.delivers hstep) hguarded
  · exact (hinductive.mono fun _ _ h => h.1).guarded_iff_each
      (fun hs _ hstep => hs.agrees_iff hstep) hinductive.init hguarded hrun
  · exact (ProfilePipeline.careful_inductive watchdog
      enabledProp).guarded_from (fun hs _ => ProfilePipeline.agrees_of_all hs)
      fun _ hp => absurd hp List.not_mem_nil

namespace ProfileModesWitness

def root : CpuProfileNode := ⟨"(root)".toList, [], 0, 3, []⟩

theorem root_clear : ∀ x ∈ root.preorder, x.Clear := by
  have hpreorder : root.preorder = [root] := by
    rw [root, CpuProfileNode.preorder, preorderAll]
  rw [hpreorder, List.forall_mem_singleton]
  refine ⟨?_, ⟨?_, rfl⟩, by decide⟩
  · simp [CpuProfileNode.Plain, root]
  · simp [root]

/-- The modes are set one after the other; the profile that is collected in
between arrives when both are set. -/
def switched : List PipelineStep :=
  [.tick 5 root, .deliver 0,
    .message "profiling_node" (controlMessage "profiling_node_v8json" true),
    .tick 6 root, .setJSONProfilingMode true, .deliver 0, .tick 7 root]

theorem switched_runs : ∃ s,
    (ProfilePipeline.machine true "on".toList).run
      (ProfilePipeline.started true "on".toList) switched = some s :=
  ⟨_, rfl⟩

theorem profile_modes_switched :
    (ProfilePipeline.machine true "on".toList).Each
      (ProfilePipeline.Delivers fun p _ event => p.Told event)
      (ProfilePipeline.started true "on".toList) switched := by
  obtain ⟨s, hrun⟩ := switched_runs
  have htrees : ∀ e ∈ switched, ∀ t ∈ e.tree?, t = root := by
    simp [switched, PipelineStep.tree?]
  refine (profile_modes hrun fun e he t ht => ?_).2.1.mp (by decide +kernel)
  rw [htrees e he t ht]
  exact root_clear

end ProfileModesWitness

end Appmetrics
