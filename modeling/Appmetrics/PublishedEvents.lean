/-
The events that `emit` publishes.  `nativeEmit` pushes each as a line, through
a pointer that it does not test, and `formatApi` of appmetrics-api.js splits
such lines again.  In the process itself the callback of `localConnect` drops
the topic `api`, as its events are passed by copy, so there `formatApi` is not
reached.
-/
import Appmetrics.Lifecycle
import Appmetrics.JsonWriting
import Appmetrics.ProfileJson

namespace Appmetrics

open StepMachine JsonText

namespace AgentStep

/-- What a call of `start` finds, or of `monitor` if it starts. -/
def found? : AgentStep → Option MonitorApi
  | .start found => some found
  | .monitor found => some found
  | _ => none

end AgentStep

namespace AgentModule

variable {S : PropertyStore} {positive : String → Bool}
  {a a' : AgentModule S} {e : AgentStep}

/-- `pushData` was found when an event is published. -/
def Pushes (a : AgentModule S) (e : AgentStep) : Prop :=
  e.published.isSome = true → a.core.monitorApi.pushData = true

/-- What a step does to the state that events depend on. -/
structure EmitEffect (a : AgentModule S) (e : AgentStep)
    (a' : AgentModule S) : Prop where
  live : a.crashed = false
  crashed : a'.crashed = false ↔ a.Pushes e
  pushed : a'.crashed = false → a'.core.pushed =
    a.core.pushed ++ (e.published.map fun p => AgentCore.content p.1 p.2).toList
  monitorApi : a'.core.monitorApi =
    if a.starts e then e.found?.getD a.core.monitorApi else a.core.monitorApi
  api : a'.api = true → a.api = true ∨ e.found?.isSome = true

/-- A step that publishes nothing. -/
theorem emitEffect_of_quiet (hlive : a.crashed = false)
    (hquiet : e.published = none) (hcrashed : a'.crashed = a.crashed)
    (hpushed : a'.core.pushed = a.core.pushed)
    (hapi : a'.core.monitorApi = if a.starts e
      then e.found?.getD a.core.monitorApi else a.core.monitorApi)
    (hlistening : a'.api = true → a.api = true ∨ e.found?.isSome = true) :
    a.EmitEffect e a' where
  live := hlive
  crashed := by
    rw [hcrashed, hlive]
    exact iff_of_true rfl fun h => by rw [hquiet] at h; cases h
  pushed _ := by rw [hpushed, hquiet]; exact (List.append_nil _).symm
  monitorApi := hapi
  api := hlistening

theorem emit_effect (hlive : a.crashed = false) (topic data : List Char) :
    a.EmitEffect (.emit topic data) (a.emit topic data) := by
  rw [emit_eq]
  by_cases htopic : topic ∈ publishedTopics
  · have hpublished : (AgentStep.emit topic data).published =
        some (topic, data) := if_pos htopic
    constructor
    case live => exact hlive
    case crashed => simp [Pushes, hpublished, hlive, htopic]
    case pushed =>
      intro hno
      have hpush : a.core.monitorApi.pushData = true := by
        simpa [hlive, htopic] using hno
      rw [hpublished]
      simp [htopic, AgentCore.nativeEmit, hpush]
    case monitorApi =>
      obtain ⟨pushed, heq⟩ := a.core.nativeEmit_frame topic data
      simp [htopic, heq, starts]
    case api => exact Or.inl
  · exact emitEffect_of_quiet hlive (if_neg htopic) (by simp [htopic])
      (by simp [htopic]) (by simp [htopic, starts]) Or.inl

theorem step_emitEffect (hstep : a.step positive e = some a') :
    a.EmitEffect e a' := by
  unfold step at hstep
  split at hstep
  · cases hstep
  next hopen =>
    have hlive : a.crashed = false := by simp_all
    have hstart (found : MonitorApi) :
        (a.start positive found).core.pushed = a.core.pushed := by
      obtain ⟨running, calls, asyncZip, reused, heq⟩ := AgentCore.start_frame
        { a.core with
          properties := startProperties a.mainFilename a.core.properties }
        found
      have hpushed := congrArg AgentCore.pushed heq
      exact hpushed
    cases e with
    | start found =>
        cases hstep
        exact emitEffect_of_quiet hlive rfl rfl (hstart found) rfl Or.inl
    | monitor found =>
        cases hstep
        cases hapi : a.api with
        | true =>
            rw [monitor, hapi, if_pos rfl]
            exact emitEffect_of_quiet hlive rfl rfl rfl (by simp [starts, hapi])
              Or.inl
        | false =>
            obtain ⟨listener, heq⟩ :=
              (a.start positive found).core.localConnect_frame .api
            have hstarts : a.starts (.monitor found) = true := by
              simp [starts, hapi]
            rw [monitor_eq hapi, heq]
            exact emitEffect_of_quiet hlive rfl rfl (hstart found)
              (by rw [hstarts]; rfl) fun _ => Or.inr rfl
    | stop =>
        cases hstep
        obtain ⟨running, calls, asyncZip, heq⟩ := a.core.stop_frame
        rw [heq]
        exact emitEffect_of_quiet hlive rfl rfl rfl rfl Or.inl
    | emit topic data =>
        cases hstep
        exact emit_effect hlive topic data
    | localConnect f =>
        cases hstep
        obtain ⟨listener, heq⟩ := a.core.localConnect_frame (.callback f)
        rw [heq]
        exact emitEffect_of_quiet hlive rfl rfl rfl rfl Or.inl
    | exit =>
        cases hstep
        obtain ⟨running, calls, asyncZip, heq⟩ :=
          a.core.iterate_stop_frame a.exitListeners
        rw [exit, exitListener_iterate, heq]
        exact emitEffect_of_quiet hlive rfl rfl rfl rfl Or.inl
    | _ =>
        cases hstep
        exact emitEffect_of_quiet hlive rfl rfl rfl rfl Or.inl

/-! ## When publishing crashes -/

/-- No event is published before the first call of `start` or `monitor`. -/
def Prepared : Bool → List AgentStep → Prop
  | _, [] => True
  | started, e :: steps =>
      (e.published.isSome = true → started = true) ∧
        Prepared (started || e.found?.isSome) steps

theorem starts_iff (a : AgentModule S) (e : AgentStep) :
    (a.starts e = true → ∃ found, e.found? = some found) ∧
      (e.found?.isSome = true → a.starts e = true ∨ a.api = true) := by
  cases e with
  | start found => exact ⟨fun _ => ⟨found, rfl⟩, fun _ => Or.inl rfl⟩
  | monitor found =>
      refine ⟨fun _ => ⟨found, rfl⟩, fun _ => ?_⟩
      cases hapi : a.api with
      | true => exact Or.inr rfl
      | false => exact Or.inl (by simp [starts, hapi])
  | _ => exact ⟨fun h => (by cases h), fun h => (by cases h)⟩

/-- From the first start on every event is published safely, if the plugin is
found each time. -/
theorem guarded_of_prepared {main : String} {properties : S.Properties}
    (started : Bool) {steps : List AgentStep}
    (hpush : started = true → a.core.monitorApi.pushData = true)
    (hapi : a.api = true → started = true)
    (hfound : ∀ e ∈ steps, ∀ found ∈ e.found?, found.pushData = true)
    (hprepared : Prepared started steps) :
    (lifecycleMachine positive main properties).Guarded Pushes a steps := by
  induction steps generalizing a started with
  | nil => trivial
  | cons e steps ih =>
      rw [List.forall_mem_cons] at hfound
      refine ⟨fun h => hpush (hprepared.1 h), fun a' hstep => ?_⟩
      have heffect := step_emitEffect hstep
      obtain ⟨hstarts, hstarted⟩ := a.starts_iff e
      refine ih _ ?_ ?_ hfound.2 hprepared.2
      · intro h
        rw [heffect.monitorApi]
        by_cases hstart : a.starts e = true
        · obtain ⟨found, he⟩ := hstarts hstart
          rw [if_pos hstart, he]
          exact hfound.1 found he
        · rw [if_neg hstart]
          rcases Bool.or_eq_true_iff.mp h with h | h
          · exact hpush h
          · exact hpush (hapi ((hstarted h).resolve_left hstart))
      · intro h
        rcases heffect.api h with h | h
        · exact Bool.or_eq_true_iff.mpr (Or.inl (hapi h))
        · exact Bool.or_eq_true_iff.mpr (Or.inr h)

end AgentModule

/-- The process crashes exactly when an event is published while the last
start, if there was one, has not found `pushData`.  It does not crash if every
start finds it and nothing is published before the first. -/
theorem emit_crashes_iff {S : PropertyStore} (positive : String → Bool)
    (main : String) (properties : S.Properties) {steps : List AgentStep}
    {a : AgentModule S}
    (hrun : (lifecycleMachine positive main properties).run
      (AgentModule.loaded main properties) steps = some a) :
    (a.crashed = false ↔
      (lifecycleMachine positive main properties).Guarded AgentModule.Pushes
        (AgentModule.loaded main properties) steps) ∧
    ((∀ e ∈ steps, ∀ found ∈ e.found?, found.pushData = true) →
      AgentModule.Prepared false steps → a.crashed = false) := by
  have hany : (lifecycleMachine positive main properties).Inductive
      (fun _ _ => True) fun _ => True := ⟨trivial, fun _ _ _ => trivial⟩
  have hiff : a.crashed = false ↔
      (lifecycleMachine positive main properties).Guarded AgentModule.Pushes
        (AgentModule.loaded main properties) steps := by
    have hcount := (hany.count_eq_iff_guarded (C := AgentModule.Pushes)
      (fun a => a.crashed.toNat) (fun _ hstep => by
        have heffect := AgentModule.step_emitEffect hstep
        rw [heffect.live, ← heffect.crashed]
        refine ⟨Nat.zero_le _, ?_⟩
        exact Bool.toNat_eq_zero) trivial hrun).2
    rw [← hcount]
    exact Bool.toNat_eq_zero.symm
  refine ⟨hiff, fun hfound hprepared => hiff.mpr ?_⟩
  exact AgentModule.guarded_of_prepared false nofun nofun hfound hprepared

/-! ## The lines -/

/-- A text up to the first line terminator. -/
def upToTerminator (s : List Char) : List Char :=
  s.takeWhile fun c => !isLineTerminator c

/-- The first two parts of `line.split(/:(.+)/)`. -/
def splitTopic : List Char → List Char × Option (List Char)
  | [] => ([], none)
  | c :: u =>
      if c = ':' ∧ upToTerminator u ≠ [] then ([], some (upToTerminator u))
      else (c :: (splitTopic u).1, (splitTopic u).2)

/-- `formatApi` up to `deserialize`, which parses the text and takes any
references in it apart: the topic and the text of each event. -/
def formatApi (message : List Char) :
    List (List Char × Option (List Char)) :=
  ((jsTrim message).splitOn '\n').map splitTopic

theorem splitTopic_append {topic data : List Char} (htopic : ':' ∉ topic)
    (hdata : upToTerminator data ≠ []) :
    splitTopic (topic ++ ':' :: data) =
      (topic, some (upToTerminator data)) := by
  induction topic with
  | nil => exact if_pos ⟨rfl, hdata⟩
  | cons c topic ih =>
      rw [List.mem_cons, not_or] at htopic
      rw [List.cons_append, splitTopic, if_neg fun h => htopic.1 h.1.symm,
        ih htopic.2]

theorem upToTerminator_eq_self_iff {s : List Char} :
    upToTerminator s = s ↔ ∀ c ∈ s, isLineTerminator c = false := by
  rw [upToTerminator, List.takeWhile_eq_self_iff]
  simp

/-- A published event, before its text is made. -/
abbrev ApiEvent := List Char × Json

namespace ApiEvent

/-- The line of an event, without its end. -/
def line (N : NumberText) (e : ApiEvent) : List Char :=
  e.1 ++ ':' :: write N e.2

theorem topic_plain {topic : List Char} (htopic : topic ∈ publishedTopics) :
    ∀ c ∈ topic, Graphic c ∧ c ≠ ':' := by
  simp only [publishedTopics, List.mem_cons, List.not_mem_nil,
    or_false] at htopic
  rcases htopic with rfl | rfl | rfl | rfl <;> simp [Graphic]

theorem cText_printable {s : List Char} (hs : Printable s) : cText s = s := by
  rw [cText, List.takeWhile_eq_self_iff]
  intro c hc
  have hge := hs c hc
  rw [decide_eq_true_eq]
  rintro rfl
  exact absurd hge (by decide)

theorem newline_not_mem {s : List Char} (hs : Printable s) : '\n' ∉ s :=
  fun hmem => absurd (hs _ hmem) (by decide)

variable (N : NumberText) {e : ApiEvent} (htopic : e.1 ∈ publishedTopics)

include htopic

theorem line_printable : Printable (e.line N) := by
  apply printable_append
  · exact fun c hc => Nat.le_of_lt (topic_plain htopic c hc).1.1
  · exact printable_cons.mpr ⟨by decide, write_printable N e.2⟩

theorem content_eq :
    AgentCore.content e.1 (write N e.2) = e.line N ++ ['\n'] := by
  have hline := line_printable N htopic
  have hleft : Printable e.1 := fun c hc =>
    hline c (List.mem_append_left _ hc)
  rw [AgentCore.content, cText_printable hleft,
    cText_printable (write_printable N e.2), line]
  simp

theorem splitTopic_line : splitTopic (e.line N) =
    (e.1, some (upToTerminator (write N e.2))) := by
  have hcolon : ':' ∉ e.1 := fun hmem => (topic_plain htopic _ hmem).2 rfl
  obtain ⟨c, u, hwrite, hgraphic, _⟩ := write_head N e.2
  have hc : isLineTerminator c = false := by
    simp only [isLineTerminator, Bool.or_eq_false_iff,
      decide_eq_false_iff_not]
    refine ⟨⟨⟨?_, ?_⟩, ?_⟩, ?_⟩ <;>
    · rintro rfl
      exact absurd hgraphic (by decide)
  apply splitTopic_append hcolon
  rw [hwrite, upToTerminator, List.takeWhile_cons_of_pos (by simp [hc])]
  exact List.cons_ne_nil _ _

omit htopic

theorem not_jsSpace {c : Char} (hc : Graphic c) : isJsSpace c = false := by
  obtain ⟨hlo, hhi⟩ := hc
  simp [isJsSpace]
  omega

/-- `formatApi` of any number of events. -/
theorem formatApi_lines {events : List ApiEvent} (hne : events ≠ [])
    (htopics : ∀ e ∈ events, e.1 ∈ publishedTopics) :
    formatApi (events.flatMap fun e => e.line N ++ ['\n']) =
      events.map fun e => (e.1, some (upToTerminator (write N e.2))) := by
  have hnewline : ∀ e ∈ events, '\n' ∉ e.line N := fun e he =>
    newline_not_mem (line_printable N (htopics e he))
  have hhead : ∀ x ∈ (events.flatMap fun e => e.line N ++ ['\n']).head?,
      isJsSpace x = false := by
    obtain ⟨e, rest, rfl⟩ := List.exists_cons_of_ne_nil hne
    have htopic := htopics e List.mem_cons_self
    obtain ⟨c, u, htext⟩ : ∃ c u, e.1 = c :: u := by
      apply List.exists_cons_of_ne_nil
      intro hnil
      rw [hnil] at htopic
      exact absurd htopic (by decide)
    intro x hx
    rw [List.flatMap_cons, line, htext] at hx
    cases hx
    exact not_jsSpace (topic_plain htopic c
      (by rw [htext]; exact List.mem_cons_self)).1
  have hlines : jsTrim (events.flatMap fun e => e.line N ++ ['\n']) =
      (events.dropLast.map (line N)).flatMap (fun l => l ++ ['\n']) ++
        (events.getLast hne).line N := by
    have hsplit := List.dropLast_append_getLast hne
    obtain ⟨u, c, hwrite, hc⟩ := write_last N (events.getLast hne).2
    have hend : events.flatMap (fun e => e.line N ++ ['\n']) =
        ((events.dropLast.map (line N)).flatMap (fun l => l ++ ['\n']) ++
          ((events.getLast hne).1 ++ ':' :: u)) ++ c :: ['\n'] := by
      conv_lhs => rw [← hsplit]
      rw [List.flatMap_append, List.flatMap_singleton, line, hwrite,
        List.flatMap_map]
      simp
    rw [hend] at hhead ⊢
    have hnone : ['\n'].rdropWhile isJsSpace = [] := by decide
    rw [jsTrim_append_cons hhead (not_jsSpace hc), hnone, line, hwrite]
    simp
  have hinit : ∀ l ∈ events.dropLast.map (line N), '\n' ∉ l := by
    intro l hl
    obtain ⟨e, he, rfl⟩ := List.mem_map.mp hl
    exact hnewline e (List.dropLast_subset _ he)
  have hall : events.dropLast.map (line N) ++ [(events.getLast hne).line N] =
      events.map (line N) := by
    conv_rhs => rw [← List.dropLast_append_getLast hne]
    simp
  rw [formatApi, hlines, splitOn_lines hinit
    (hnewline _ (List.getLast_mem hne)), hall, List.map_map]
  exact List.map_congr_left fun e he => splitTopic_line N (htopics e he)

end ApiEvent

namespace AgentModule

variable {S : PropertyStore} {positive : String → Bool}
  {a a' : AgentModule S}

/-- Over a run that does not crash, what is published is pushed. -/
theorem run_pushed {main : String} {properties : S.Properties}
    {steps : List AgentStep}
    (hrun : (lifecycleMachine positive main properties).run a steps = some a')
    (hlive : a'.crashed = false) :
    a'.core.pushed = a.core.pushed ++
      (steps.filterMap AgentStep.published).map
        fun p => AgentCore.content p.1 p.2 := by
  induction steps generalizing a with
  | nil =>
      cases hrun
      simp
  | cons e steps ih =>
      obtain ⟨b, hstep, hrest⟩ := run_cons_eq_some.mp hrun
      have hb : b.crashed = false := by
        cases steps with
        | nil =>
            cases hrest
            exact hlive
        | cons e' steps =>
            obtain ⟨c, hstep', _⟩ := run_cons_eq_some.mp hrest
            exact (step_emitEffect hstep').live
      rw [ih hrest, (step_emitEffect hstep).pushed hb, List.append_assoc]
      cases hpublished : e.published with
      | none => simp [hpublished]
      | some p => simp [hpublished]

end AgentModule

/-- Every event published in a run is pushed once, in order, as one line; what
`formatApi` makes of the lines are these events, each with its text up to the
first line terminator.  So the texts come back exactly if none of them has a
separator of lines or paragraphs in it, and then `JSON.parse` makes of them
what was published. -/
theorem published_events {S : PropertyStore} (positive : String → Bool)
    (main : String) (properties : S.Properties) (N : NumberText)
    {steps : List AgentStep} {a : AgentModule S}
    (hrun : (lifecycleMachine positive main properties).run
      (AgentModule.loaded main properties) steps = some a)
    (hlive : a.crashed = false) {events : List ApiEvent} (hne : events ≠ [])
    (hevents : steps.filterMap AgentStep.published =
      events.map fun e => (e.1, write N e.2)) :
    a.core.pushed = events.map (fun e => e.line N ++ ['\n']) ∧
    formatApi a.core.pushed.flatten =
      events.map (fun e => (e.1, some (upToTerminator (write N e.2)))) ∧
    (formatApi a.core.pushed.flatten =
        events.map (fun e => (e.1, some (write N e.2))) ↔
      ∀ e ∈ events, ∀ c ∈ write N e.2, isLineTerminator c = false) ∧
    ((∀ e ∈ events, e.2.Within N.numbers ∧
        ∀ c ∈ write N e.2, isLineTerminator c = false) →
      (formatApi a.core.pushed.flatten).map
          (fun p => (p.1, p.2.bind JsonText.parse)) =
        events.map fun e => (e.1, some e.2)) := by
  have htopics : ∀ e ∈ events, e.1 ∈ publishedTopics := by
    intro e he
    have hmem : (e.1, write N e.2) ∈ steps.filterMap AgentStep.published := by
      rw [hevents]
      exact List.mem_map_of_mem he
    obtain ⟨step, _, hstep⟩ := List.mem_filterMap.mp hmem
    cases step with
    | emit topic data =>
        obtain ⟨htopic, heq⟩ := Option.ite_none_right_eq_some.mp hstep
        cases heq
        exact htopic
    | _ => cases hstep
  have hpushed : a.core.pushed =
      events.map fun e => e.line N ++ ['\n'] := by
    rw [AgentModule.run_pushed hrun hlive, hevents, List.map_map]
    change events.map _ = _
    exact List.map_congr_left fun e he => ApiEvent.content_eq N (htopics e he)
  have hformat := ApiEvent.formatApi_lines N hne htopics
  rw [List.flatMap_def, ← hpushed] at hformat
  have hiff : formatApi a.core.pushed.flatten =
      events.map (fun e => (e.1, some (write N e.2))) ↔
        ∀ e ∈ events, ∀ c ∈ write N e.2, isLineTerminator c = false := by
    rw [hformat, List.map_inj_left]
    simp only [Prod.mk.injEq, Option.some.injEq, true_and,
      upToTerminator_eq_self_iff]
  refine ⟨hpushed, hformat, hiff, fun hclean => ?_⟩
  rw [hiff.mpr fun e he => (hclean e he).2, List.map_map]
  apply List.map_congr_left
  intro e he
  simp [parse_write N (hclean e he).1]

namespace PublishedEventsWitness

open LifecycleWitness (bag)

theorem follows_head {rest : List Char}
    (hrest : ∀ c ∈ rest.head?, c = ',' ∨ c = ']' ∨ c = '\x7d') :
    ∀ c ∈ rest.head?, c.isDigit = false ∧ c ≠ '.' ∧ c ≠ 'e' ∧ c ≠ 'E' := by
  intro c hc
  rcases hrest c hc with rfl | rfl | rfl <;> decide

/-- Natural numbers as JavaScript writes them. -/
def naturals : NumberText where
  numbers := {q | ((q.num.toNat : Nat) : ℚ) = q}
  write q := showNat q.num.toNat
  plain q c hc := Or.inl (isDigit_of_mem_showNat hc)
  first q := by
    obtain ⟨c, u, hcons, hc⟩ := (whole_showNat q.num.toNat).exists_cons
    exact ⟨c, u, hcons, Or.inl hc⟩
  read q hq rest hrest := by
    obtain ⟨c, u, hcons, hc⟩ := (whole_showNat q.num.toNat).exists_cons
    have hread := unsigned_whole (whole_showNat q.num.toNat)
      (follows_head hrest)
    rw [ofDigitChars_showNat] at hread
    rw [hcons, List.cons_append, number_of_digit hc, ← List.cons_append,
      ← hcons, hread]
    exact congrArg (fun q => some (q, rest)) hq

/-- The data of a request with a line break in its query, and of a mongo
operation. -/
def request : ApiEvent :=
  ("http".toList, .obj [("url".toList, .str "/a\nb".toList),
    ("duration".toList, .num 12)])

def operation : ApiEvent :=
  ("mongo".toList, .arr [.null, .bool true, .str []])

def published : List AgentStep :=
  [.monitor ⟨true, true, true⟩,
    .emit "http".toList (write naturals request.2),
    .emit "eventloop".toList [], .stop,
    .emit "mongo".toList (write naturals operation.2)]

theorem published_runs :
    ∃ a, (lifecycleMachine (S := bag) (fun _ => true) "app.js" fun _ => "").run
        (AgentModule.loaded "app.js" fun _ => "") published = some a ∧
      a.crashed = false :=
  ⟨_, rfl, rfl⟩

theorem published_clean : ∀ e ∈ [request, operation],
    e.2.Within naturals.numbers ∧
      ∀ c ∈ write naturals e.2, isLineTerminator c = false := by
  have htwelve : (12 : ℚ) ∈ naturals.numbers := rfl
  have hrequest : (write naturals request.2).any isLineTerminator = false := by
    decide +kernel
  have hoperation :
      (write naturals operation.2).any isLineTerminator = false := by
    decide +kernel
  rw [List.forall_mem_cons, List.forall_mem_singleton]
  constructor
  · refine ⟨?_, fun c hc =>
      Bool.eq_false_iff.mpr (List.any_eq_false.mp hrequest c hc)⟩
    simpa [request, Json.Within, membersWithin] using htwelve
  · refine ⟨?_, fun c hc =>
      Bool.eq_false_iff.mpr (List.any_eq_false.mp hoperation c hc)⟩
    simp [operation, Json.Within, elementsWithin]

theorem published_events_two :
    ∃ a, (lifecycleMachine (S := bag) (fun _ => true) "app.js" fun _ => "").run
        (AgentModule.loaded "app.js" fun _ => "") published = some a ∧
      (formatApi a.core.pushed.flatten).map
          (fun p => (p.1, p.2.bind JsonText.parse)) =
        [request, operation].map fun e => (e.1, some e.2) := by
  obtain ⟨a, hrun, hlive⟩ := published_runs
  have hevents := published_events _ _ _ naturals hrun hlive
    (List.cons_ne_nil request [operation]) rfl
  exact ⟨a, hrun, hevents.2.2.2 published_clean⟩

theorem emit_crashes_iff_published :
    ∃ a, (lifecycleMachine (S := bag) (fun _ => true) "app.js" fun _ => "").run
        (AgentModule.loaded "app.js" fun _ => "") published = some a ∧
      a.crashed = false := by
  obtain ⟨a, hrun, _⟩ := published_runs
  refine ⟨a, hrun, (emit_crashes_iff _ _ _ hrun).2 ?_ ?_⟩
  · simp [published, AgentStep.found?]
  · simp [published, AgentModule.Prepared, AgentStep.found?,
      AgentStep.published]

end PublishedEventsWitness

end Appmetrics
