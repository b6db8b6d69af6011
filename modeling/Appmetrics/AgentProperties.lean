/-
index.js: what the agent core is told.  `configure` and `setOption` write
properties, and `start` copies the `appmetrics.file` properties to those of
the headless mode before the core reads them.
-/
import Appmetrics.Lifecycle

namespace Appmetrics

open StepMachine

namespace AgentModule

variable {S : PropertyStore} {positive : String → Bool} {a : AgentModule S}

/-! ## The properties after a loop -/

/-- Of several options for one property the last one counts. -/
def optionsProperty (options : List (String × OptionValue))
    (get : String → String) (key : String) : String :=
  match (options.filter fun option => optionProperty option.1 = key).getLast? with
  | some option => option.2.text
  | none => get key

theorem getProperty_options (options : List (String × OptionValue))
    (p : S.Properties) (key : String) :
    S.getProperty (options.foldl setOptionProperty p) key =
      optionsProperty options (S.getProperty p) key := by
  induction options using List.reverseRecOn with
  | nil => rfl
  | append_singleton options option ih =>
      rw [List.foldl_concat, setOptionProperty, S.getProperty_setProperty, ih,
        optionsProperty, optionsProperty, List.filter_append]
      by_cases hkey : key = optionProperty option.1
      · simp [hkey]
      · simp [hkey, Ne.symm hkey]

/-- What `start` leaves of the properties `get` for the core. -/
def startProperty (mainFilename : String) (get : String → String)
    (key : String) : String :=
  if key = applicationID then mainFilename
  else
    match headlessPropertyMappings.find? fun mapping => mapping.2 = key with
    | some mapping =>
        if get mapping.1 ≠ "" then get mapping.1 else get key
    | none => get key

theorem getProperty_setHeadless (p : S.Properties) (m : String × String)
    (key : String) :
    S.getProperty (setHeadlessProperty p m) key =
      if key = m.2 ∧ S.getProperty p m.1 ≠ "" then S.getProperty p m.1
      else S.getProperty p key := by
  by_cases hprop : S.getProperty p m.1 = ""
  · simp [setHeadlessProperty, hprop]
  · simp [setHeadlessProperty, hprop]

/-- A loop over mappings none of which sets what another one reads. -/
theorem getProperty_mappings {mappings : List (String × String)}
    (hapart : ∀ m ∈ mappings, ∀ n ∈ mappings, n.1 ≠ m.2)
    (hnodup : (mappings.map Prod.snd).Nodup) (p : S.Properties)
    (key : String) :
    S.getProperty (mappings.foldl setHeadlessProperty p) key =
      match mappings.find? fun mapping => mapping.2 = key with
      | some mapping =>
          if S.getProperty p mapping.1 ≠ "" then S.getProperty p mapping.1
          else S.getProperty p key
      | none => S.getProperty p key := by
  induction mappings generalizing p with
  | nil => rfl
  | cons m mappings ih =>
      rw [List.map_cons, List.nodup_cons] at hnodup
      have hget (k : String) (hk : k ≠ m.2) :
          S.getProperty (setHeadlessProperty p m) k = S.getProperty p k := by
        rw [getProperty_setHeadless, if_neg fun h => hk h.1]
      have hrest := ih (fun m hm n hn => hapart m (List.mem_cons_of_mem _ hm) n
        (List.mem_cons_of_mem _ hn)) hnodup.2 (setHeadlessProperty p m)
      rw [List.foldl_cons, hrest, List.find?_cons]
      by_cases hkey : m.2 = key
      · subst hkey
        have hnone : mappings.find? (fun mapping => mapping.2 = m.2) =
            none := by
          rw [List.find?_eq_none]
          intro n hn heq
          exact hnodup.1 (List.mem_map.mpr ⟨n, hn, of_decide_eq_true heq⟩)
        rw [hnone, decide_eq_true rfl]
        simp [getProperty_setHeadless]
      · rw [decide_eq_false hkey, hget key (Ne.symm hkey)]
        cases hn : mappings.find? fun mapping => mapping.2 = key with
        | none => rfl
        | some n =>
            have hmem := List.mem_of_find?_eq_some hn
            dsimp only
            rw [hget n.1 (hapart m List.mem_cons_self n
              (List.mem_cons_of_mem _ hmem))]

theorem getProperty_start (mainFilename : String) (p : S.Properties)
    (key : String) :
    S.getProperty (startProperties mainFilename p) key =
      startProperty mainFilename (S.getProperty p) key := by
  have hsource : ∀ m ∈ headlessPropertyMappings, m.1 ≠ applicationID := by
    decide
  have htarget : ∀ m ∈ headlessPropertyMappings, m.2 ≠ applicationID := by
    decide
  rw [startProperties, getProperty_mappings (by decide) (by decide),
    startProperty]
  split
  · next m hm =>
      have hmem := List.mem_of_find?_eq_some hm
      have hkey : m.2 = key := by simpa using List.find?_some hm
      rw [S.getProperty_setProperty, if_neg (hsource m hmem),
        S.getProperty_setProperty, ← hkey, if_neg (htarget m hmem),
        if_neg (htarget m hmem)]
  · rw [S.getProperty_setProperty]

/-! ## The properties over a run -/

/-- The properties after a step, in terms of those before it. -/
def propertyAfter (a : AgentModule S) (e : AgentStep) (key : String) :
    String :=
  let get := S.getProperty a.core.properties
  match e with
  | .configure options => optionsProperty options get key
  | .setOption option value => if key = option then value else get key
  | .spath path =>
      if key = "com.ibm.diagnostics.healthcenter.plugin.path" then path
      else get key
  | e => if a.starts e then startProperty a.mainFilename get key else get key

/-- What a step makes of the properties, which the core reads when it is
initialised, and what `start` hands on to headless_zip.js. -/
structure Configures (a : AgentModule S) (e : AgentStep)
    (a' : AgentModule S) : Prop where
  properties : ∀ key, a'.core.getOption key = a.propertyAfter e key
  calls : a.starts e = true → a.core.running = false →
    a'.core.calls = a.core.calls ++ [.init a'.core.properties, .start]
  dirToWriteTo : a.starts e = true → a'.dirToWriteTo =
    if a.propertyAfter e headlessOutputDirectory ≠ "" then
      some (a.propertyAfter e headlessOutputDirectory)
    else a.dirToWriteTo

theorem configures_of_same {e : AgentStep} {a' : AgentModule S}
    (hsame : a'.core.properties = a.core.properties)
    (hstarts : a.starts e = false)
    (hafter : ∀ key,
      a.propertyAfter e key = S.getProperty a.core.properties key) :
    a.Configures e a' where
  properties key := by rw [hafter, AgentCore.getOption, hsame]
  calls h := absurd (hstarts.symm.trans h) Bool.false_ne_true
  dirToWriteTo h := absurd (hstarts.symm.trans h) Bool.false_ne_true

/-- A step that runs `start`, whatever it does besides. -/
theorem configures_of_start {e : AgentStep} {a' : AgentModule S}
    {found : MonitorApi} (hstarts : a.starts e = true)
    (hcore : ∃ listener, a'.core =
      { (a.start positive found).core with listener := listener })
    (hdir : a'.dirToWriteTo = (a.start positive found).dirToWriteTo) :
    a.Configures e a' := by
  have hafter (key : String) : a.propertyAfter e key =
      startProperty a.mainFilename (S.getProperty a.core.properties) key := by
    cases e with
    | start | monitor => simp only [propertyAfter, hstarts, if_true]
    | _ => cases hstarts
  have hproperties : (a.start positive found).core.properties =
      startProperties a.mainFilename a.core.properties := by
    obtain ⟨running, calls, asyncZip, reused, heq⟩ := AgentCore.start_frame
      { a.core with
        properties := startProperties a.mainFilename a.core.properties } found
    exact congrArg AgentCore.properties heq
  obtain ⟨listener, hcore⟩ := hcore
  constructor
  case properties =>
    intro key
    rw [hafter, hcore, AgentCore.getOption, hproperties, getProperty_start]
  case calls =>
    intro _ hrunning
    rw [hcore]
    simp [AgentModule.start, setHeadlessZip, AgentCore.start, hrunning,
      AgentCore.initMonitorApi, AgentCore.headlessStart]
  case dirToWriteTo =>
    intro _
    rw [hafter, hdir, ← getProperty_start]
    rfl

theorem step_configures {a' : AgentModule S} {e : AgentStep}
    (hstep : a.step positive e = some a') : a.Configures e a' := by
  unfold step at hstep
  split at hstep
  · cases hstep
  cases e with
  | configure options =>
      cases hstep
      exact ⟨getProperty_options options a.core.properties, nofun, nofun⟩
  | setOption option value =>
      cases hstep
      exact ⟨fun key => S.getProperty_setProperty _ _ _ key, nofun, nofun⟩
  | spath path =>
      cases hstep
      exact ⟨fun key => S.getProperty_setProperty _ _ _ key, nofun, nofun⟩
  | start found =>
      cases hstep
      exact configures_of_start rfl ⟨_, rfl⟩ rfl
  | monitor found =>
      cases hstep
      cases hapi : a.api with
      | true =>
          rw [monitor, hapi, if_pos rfl]
          have hstarts : a.starts (.monitor found) = false := by
            simp [starts, hapi]
          exact configures_of_same rfl hstarts fun key => by
            simp [propertyAfter, hstarts]
      | false =>
          rw [monitor_eq hapi]
          exact configures_of_start (by simp [starts, hapi])
            ((a.start positive found).core.localConnect_frame .api) rfl
  | emit topic data =>
      cases hstep
      obtain ⟨pushed, raised, crashed, heq⟩ := a.emit_frame topic data
      rw [heq]
      exact configures_of_same rfl rfl fun key => rfl
  | localConnect f =>
      cases hstep
      obtain ⟨listener, heq⟩ := a.core.localConnect_frame (.callback f)
      rw [heq]
      exact configures_of_same rfl rfl fun key => rfl
  | stop =>
      cases hstep
      obtain ⟨running, calls, asyncZip, heq⟩ := a.core.stop_frame
      rw [heq]
      exact configures_of_same rfl rfl fun key => rfl
  | loopTurn =>
      cases hstep
      exact configures_of_same rfl rfl fun key => rfl
  | exit =>
      cases hstep
      obtain ⟨running, calls, asyncZip, heq⟩ :=
        a.core.iterate_stop_frame a.exitListeners
      rw [exit, exitListener_iterate, heq]
      exact configures_of_same rfl rfl fun key => rfl

/-- The application's name after the calls of `configure`, which `start` sets
as a property. -/
def renamed (mainFilename : String) : AgentStep → String
  | .configure options => (applicationIDOption options).getD mainFilename
  | _ => mainFilename

theorem step_mainFilename {a' : AgentModule S} {e : AgentStep}
    (hstep : a.step positive e = some a') :
    a'.mainFilename = renamed a.mainFilename e := by
  unfold step at hstep
  split at hstep
  · cases hstep
  cases e with
  | monitor found =>
      cases hstep
      cases hapi : a.api with
      | true =>
          rw [monitor, hapi, if_pos rfl]
          rfl
      | false =>
          rw [monitor_eq hapi]
          rfl
  | emit topic data =>
      cases hstep
      rw [emit_eq]
      rfl
  | exit =>
      cases hstep
      rw [exit, exitListener_iterate]
      rfl
  | _ =>
      cases hstep
      rfl

theorem run_mainFilename {main : String} {properties : S.Properties}
    {a' : AgentModule S} {steps : List AgentStep}
    (hrun : (lifecycleMachine positive main properties).run a steps =
      some a') : a'.mainFilename = steps.foldl renamed a.mainFilename := by
  induction steps generalizing a with
  | nil =>
      cases hrun
      rfl
  | cons e steps ih =>
      obtain ⟨b, hstep, hrest⟩ := run_cons_eq_some.mp hrun
      rw [ih hrest, List.foldl_cons, step_mainFilename hstep]

/-- A limit that reaches headless_zip.js is that of a positive number. -/
def Positive (positive : String → Bool) (a : AgentModule S) : Prop :=
  ∀ text, a.filesToKeep = some text → text ≠ "" ∧ positive text = true

theorem Positive.start (ha : a.Positive positive) (found : MonitorApi) :
    (a.start positive found).Positive positive := by
  intro text htext
  simp only [AgentModule.start, setHeadlessZip] at htext
  split at htext
  · next hpositive =>
      cases htext
      exact hpositive
  · exact ha text htext

theorem positive_inductive (positive : String → Bool) (main : String)
    (properties : S.Properties) :
    (lifecycleMachine positive main properties).Inductive (fun _ _ => True)
      (Positive positive) where
  init text htext := nomatch htext
  step := by
    intro a e a' ha _ hstep
    change step positive a e = some a' at hstep
    unfold step at hstep
    split at hstep
    · cases hstep
    cases e with
    | start found =>
        cases hstep
        exact ha.start found
    | monitor found =>
        cases hstep
        cases hapi : a.api with
        | true =>
            rw [monitor, hapi, if_pos rfl]
            exact ha
        | false =>
            rw [monitor_eq hapi]
            exact ha.start found
    | emit topic data =>
        cases hstep
        rw [emit_eq]
        exact ha
    | exit =>
        cases hstep
        rw [exit, exitListener_iterate]
        exact ha
    | _ =>
        cases hstep
        exact ha

end AgentModule

/-- Over every run, each step changes the properties as told: of several
options the last one counts, and a start gives the application its name and
the headless mode every `appmetrics.file` property that is set, before the
core reads them.  The name is the last one that was configured, else the main
file, and only a positive number of files to keep is ever handed on. -/
theorem agent_properties {S : PropertyStore} (positive : String → Bool)
    (main : String) (properties : S.Properties) {steps : List AgentStep}
    {a : AgentModule S}
    (hrun : (lifecycleMachine positive main properties).run
      (AgentModule.loaded main properties) steps = some a) :
    (lifecycleMachine positive main properties).Each AgentModule.Configures
      (AgentModule.loaded main properties) steps ∧
    a.mainFilename = steps.foldl AgentModule.renamed main ∧
    ∀ text, a.filesToKeep = some text → text ≠ "" ∧ positive text = true := by
  have hpositive := AgentModule.positive_inductive positive main properties
  exact ⟨hpositive.each (fun _ _ hstep => AgentModule.step_configures hstep)
      (guarded_true _ _),
    AgentModule.run_mainFilename hrun,
    hpositive.run (guarded_true _ _) hrun⟩

namespace AgentPropertiesWitness

open LifecycleWitness (bag)

/-- An application that names itself, twice, and limits its files. -/
def named : List AgentStep :=
  [.configure [("applicationID", ⟨"shop", true⟩), ("mqtt", ⟨"on", true⟩)],
    .setOption "appmetrics.file.files.to.keep" "4",
    .configure [("applicationID", ⟨"store", true⟩)],
    .start ⟨true, true, true⟩]

theorem named_runs :
    ((lifecycleMachine (S := bag) (· == "4") "app.js" fun _ => "").run
      (AgentModule.loaded "app.js" fun _ => "") named).isSome := by
  decide +kernel

theorem agent_properties_named :
    ∃ a, (lifecycleMachine (S := bag) (· == "4") "app.js" fun _ => "").run
        (AgentModule.loaded "app.js" fun _ => "") named = some a ∧
      (lifecycleMachine (S := bag) (· == "4") "app.js" fun _ => "").Each
        AgentModule.Configures (AgentModule.loaded "app.js" fun _ => "")
        named ∧
      a.mainFilename = "store" := by
  obtain ⟨a, hrun⟩ := Option.isSome_iff_exists.mp named_runs
  obtain ⟨heach, hname, _⟩ := agent_properties _ _ _ hrun
  exact ⟨a, hrun, heach, hname⟩

end AgentPropertiesWitness

end Appmetrics
