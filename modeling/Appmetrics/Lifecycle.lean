/-
src/appmetrics.cpp and index.js: the agent core is started and stopped, its
properties are set and its plugin API is looked up, and index.js keeps the
module's own state beside it.  Not on z/OS.
-/
import Appmetrics.Machine
import Appmetrics.Text
import Mathlib.Logic.Function.Iterate

namespace Appmetrics

open StepMachine

/-- The properties that the agent core keeps for `setProperty` and
`getProperty`; one that was never set reads as the empty text. -/
structure PropertyStore where
  Properties : Type
  getProperty : Properties → String → String
  setProperty : Properties → String → String → Properties
  getProperty_setProperty : ∀ p key value key',
    getProperty (setProperty p key value) key' =
      if key' = key then value else getProperty p key'

attribute [simp] PropertyStore.getProperty_setProperty

/-- The calls of `loaderApi`; `init` finds the properties as they are. -/
inductive CoreCall (P : Type)
  | init (properties : P)
  | start
  | stop
  | shutdown

/-- The functions of the plugin API that were found. -/
structure MonitorApi where
  pushData : Bool
  sendControl : Bool
  registerListener : Bool
deriving Repr, DecidableEq

def MonitorApi.isMonitorApiValid (m : MonitorApi) : Bool :=
  m.pushData && m.sendControl && m.registerListener

/-- A `uv_async_t`, which stays with the loop until its turn has ended. -/
inductive LoopHandle
  | closed
  | active
  | closing
deriving Repr, DecidableEq

/-- Who is called for the messages of the plugins: the API object, or a
function passed to `localConnect` by the application. -/
inductive MessageListener
  | api
  | callback (f : Nat)
deriving Repr, DecidableEq

/-- How a call from JavaScript ends; `crashed` is a call through a null
pointer. -/
inductive CallResult
  | returned
  | threw
  | crashed
deriving Repr, DecidableEq

/-! ## appmetrics.cpp -/

/-- The statics of appmetrics.cpp and headlessutils.cpp.  `calls`, `reused`
and `pushed` are history: the calls of the agent core, how often
`uv_async_init` met a handle that was not closed, and the texts passed to
`pushData`. -/
structure AgentCore (S : PropertyStore) where
  properties : S.Properties
  running : Bool
  monitorApi : MonitorApi
  asyncZip : LoopHandle
  listener : Option MessageListener
  calls : List (CoreCall S.Properties)
  reused : Nat
  pushed : List (List Char)

namespace AgentCore

variable {S : PropertyStore}

/-- Once the addon is loaded. -/
def loaded (properties : S.Properties) : AgentCore S where
  properties := properties
  running := false
  monitorApi := ⟨false, false, false⟩
  asyncZip := .closed
  listener := none
  calls := []
  reused := 0
  pushed := []

/-- Of ASCII texts without NUL; `toStdString` overruns on others or cuts them
off. -/
def setOption (key value : String) (c : AgentCore S) : AgentCore S :=
  { c with properties := S.setProperty c.properties key value }

def getOption (key : String) (c : AgentCore S) : String :=
  S.getProperty c.properties key

def spath (path : String) (c : AgentCore S) : AgentCore S :=
  c.setOption "com.ibm.diagnostics.healthcenter.plugin.path" path

/-- `headless::start`. -/
def headlessStart (c : AgentCore S) : AgentCore S :=
  { c with
    asyncZip := .active
    reused := c.reused + if c.asyncZip = .closed then 0 else 1 }

/-- `headless::stop`. -/
def headlessStop (c : AgentCore S) : AgentCore S :=
  { c with asyncZip := .closing }

/-- `initMonitorApi` assigns what it finds in the plugin path. -/
def initMonitorApi (found : MonitorApi) (c : AgentCore S) : AgentCore S :=
  { c with monitorApi := found }

def start (found : MonitorApi) (c : AgentCore S) : AgentCore S :=
  let c :=
    if c.running then c
    else
      headlessStart { c with
        running := true
        calls := c.calls ++ [.init c.properties, .start] }
  c.initMonitorApi found

def stop (c : AgentCore S) : AgentCore S :=
  if c.running then
    headlessStop { c with
      running := false
      calls := c.calls ++ [.stop, .shutdown] }
  else c

/-- `topic:data` and a newline, of two strings that are read as C strings. -/
def content (topic data : List Char) : List Char :=
  cText topic ++ ':' :: (cText data ++ ['\n'])

/-- `nativeEmit` of two strings.  The error for an API that is not valid is
thrown when the call returns; the data is pushed before. -/
def nativeEmit (topic data : List Char) (c : AgentCore S) :
    AgentCore S × CallResult :=
  if c.monitorApi.pushData then
    ({ c with pushed := c.pushed ++ [content topic data] },
      if c.monitorApi.isMonitorApiValid then .returned else .threw)
  else (c, .crashed)

def localConnect (callback : MessageListener) (c : AgentCore S) :
    AgentCore S × CallResult :=
  if c.monitorApi.isMonitorApiValid then
    ({ c with listener := some callback }, .returned)
  else (c, .threw)

/-- The loop drops the handles that were closed in its turn. -/
def loopTurn (c : AgentCore S) : AgentCore S :=
  { c with
    asyncZip := if c.asyncZip = .closing then .closed else c.asyncZip }

end AgentCore

/-! ## index.js -/

/-- The value of an option: its text, and whether it is truthy. -/
structure OptionValue where
  text : String
  truthy : Bool
deriving Repr, DecidableEq

def applicationID : String :=
  "com.ibm.diagnostics.healthcenter.mqtt.application.id"

def headlessMode : String := "com.ibm.diagnostics.healthcenter.headless"

def headlessOutputDirectory : String :=
  "com.ibm.diagnostics.healthcenter.headless.output.directory"

def headlessFilesToKeep : String :=
  "com.ibm.diagnostics.healthcenter.headless.files.to.keep"

/-- `propertyMappings`, and behind it what every object inherits, as text. -/
def propertyMappings : List (String × String) :=
  [("mqttPort", "com.ibm.diagnostics.healthcenter.mqtt.broker.port"),
    ("mqttHost", "com.ibm.diagnostics.healthcenter.mqtt.broker.host"),
    ("applicationID", applicationID),
    ("mqtt", "com.ibm.diagnostics.healthcenter.mqtt"),
    ("profiling", "com.ibm.diagnostics.healthcenter.data.profiling"),
    ("constructor", "function Object() { [native code] }"),
    ("__defineGetter__", "function __defineGetter__() { [native code] }"),
    ("__defineSetter__", "function __defineSetter__() { [native code] }"),
    ("hasOwnProperty", "function hasOwnProperty() { [native code] }"),
    ("__lookupGetter__", "function __lookupGetter__() { [native code] }"),
    ("__lookupSetter__", "function __lookupSetter__() { [native code] }"),
    ("isPrototypeOf", "function isPrototypeOf() { [native code] }"),
    ("propertyIsEnumerable",
      "function propertyIsEnumerable() { [native code] }"),
    ("toString", "function toString() { [native code] }"),
    ("valueOf", "function valueOf() { [native code] }"),
    ("__proto__", "[object Object]"),
    ("toLocaleString", "function toLocaleString() { [native code] }")]

def headlessPropertyMappings : List (String × String) :=
  [("appmetrics.file.collection", headlessMode),
    ("appmetrics.file.max.size",
      "com.ibm.diagnostics.healthcenter.headless.files.max.size"),
    ("appmetrics.file.run.duration",
      "com.ibm.diagnostics.healthcenter.headless.run.duration"),
    ("appmetrics.file.delay.start",
      "com.ibm.diagnostics.healthcenter.headless.delay.start"),
    ("appmetrics.file.run.pause.duration",
      "com.ibm.diagnostics.healthcenter.headless.run.pause.duration"),
    ("appmetrics.file.run.number.of.runs",
      "com.ibm.diagnostics.healthcenter.headless.run.number.of.runs"),
    ("appmetrics.file.files.to.keep", headlessFilesToKeep),
    ("appmetrics.file.output.directory", headlessOutputDirectory)]

/-- The module object, with what index.js set in headless_zip.js.  `apis`,
`raised` and `zips` are history: how often an API was made, the events raised
on it, and the calls of `tryZipOnExit`. -/
structure AgentModule (S : PropertyStore) where
  core : AgentCore S
  mainFilename : String
  api : Bool
  exitListeners : Nat
  dirToWriteTo : Option String
  filesToKeep : Option String
  exited : Bool
  crashed : Bool
  apis : Nat
  raised : List (List Char × List Char)
  zips : Nat

/-- What an application and the process do; `found` are the functions that
`dlsym` finds, and `emit` has the text of its data. -/
inductive AgentStep
  | configure (options : List (String × OptionValue))
  | setOption (key value : String)
  | spath (path : String)
  | start (found : MonitorApi)
  | monitor (found : MonitorApi)
  | stop
  | emit (topic data : List Char)
  | localConnect (f : Nat)
  | loopTurn
  | exit
deriving Repr, DecidableEq

/-- The topics that `emit` publishes. -/
def publishedTopics : List (List Char) :=
  ["http".toList, "mqlight".toList, "mongo".toList, "mysql".toList]

/-- The topic and the data of an event that is published. -/
def AgentStep.published : AgentStep → Option (List Char × List Char)
  | .emit topic data =>
      if topic ∈ publishedTopics then some (topic, data) else none
  | _ => none

namespace AgentModule

variable {S : PropertyStore}

/-- Once index.js has run; `main` is the file of the main module. -/
def loaded (main : String) (properties : S.Properties) : AgentModule S where
  core := AgentCore.loaded properties
  mainFilename := main
  api := false
  exitListeners := 0
  dirToWriteTo := none
  filesToKeep := none
  exited := false
  crashed := false
  apis := 0
  raised := []
  zips := 0

/-- The property that an option sets. -/
def optionProperty (key : String) : String :=
  (propertyMappings.lookup key).getD key

/-- The step of the loop over `options`. -/
def setOptionProperty (p : S.Properties) (option : String × OptionValue) :
    S.Properties :=
  S.setProperty p (optionProperty option.1) option.2.text

/-- `options.applicationID`, if it is truthy. -/
def applicationIDOption (options : List (String × OptionValue)) :
    Option String :=
  (options.lookup "applicationID").bind fun value =>
    if value.truthy then some value.text else none

def configure (options : List (String × OptionValue)) (a : AgentModule S) :
    AgentModule S :=
  { a with
    core := { a.core with
      properties := options.foldl setOptionProperty a.core.properties }
    mainFilename := (applicationIDOption options).getD a.mainFilename }

/-- The step of the loop over `headlessPropertyMappings`. -/
def setHeadlessProperty (p : S.Properties) (mapping : String × String) :
    S.Properties :=
  let prop := S.getProperty p mapping.1
  if prop ≠ "" then S.setProperty p mapping.2 prop else p

/-- The properties that `start` leaves to the core. -/
def startProperties (mainFilename : String) (p : S.Properties) :
    S.Properties :=
  headlessPropertyMappings.foldl setHeadlessProperty
    (S.setProperty p applicationID mainFilename)

/-- `setHeadlessOutputDir` and `setFilesToKeep`; `positive` is whether a text
is that of a positive number. -/
def setHeadlessZip (positive : String → Bool) (a : AgentModule S) :
    AgentModule S :=
  let headlessOutputDir := a.core.getOption headlessOutputDirectory
  let filesToKeep := a.core.getOption headlessFilesToKeep
  { a with
    dirToWriteTo :=
      if headlessOutputDir ≠ "" then some headlessOutputDir
      else a.dirToWriteTo
    filesToKeep :=
      if filesToKeep ≠ "" ∧ positive filesToKeep then some filesToKeep
      else a.filesToKeep }

def start (positive : String → Bool) (found : MonitorApi)
    (a : AgentModule S) : AgentModule S :=
  let a := setHeadlessZip positive
    { a with core := { a.core with
        properties := startProperties a.mainFilename a.core.properties } }
  { a with
    core := a.core.start found
    exitListeners := a.exitListeners + 1 }

/-- `getAPI` throws if `localConnect` does, and then there is no API. -/
def monitor (positive : String → Bool) (found : MonitorApi)
    (a : AgentModule S) : AgentModule S :=
  if a.api then a
  else
    let a := a.start positive found
    match a.core.localConnect .api with
    | (core, .returned) =>
        { a with core := core, api := true, apis := a.apis + 1 }
    | (core, _) => { a with core := core }

def emit (topic data : List Char) (a : AgentModule S) : AgentModule S :=
  let a :=
    if a.api then { a with raised := a.raised ++ [(topic, data)] } else a
  if topic ∈ publishedTopics then
    match a.core.nativeEmit topic data with
    | (core, .crashed) => { a with core := core, crashed := true }
    | (core, _) => { a with core := core }
  else a

/-- The listener of the process that `start` adds; `tryZipOnExit` is taken to
return. -/
def exitListener (a : AgentModule S) : AgentModule S :=
  let mode := a.core.getOption headlessMode
  let a := { a with core := a.core.stop }
  if mode = "on" then { a with zips := a.zips + 1 } else a

def exit (a : AgentModule S) : AgentModule S :=
  { exitListener^[a.exitListeners] a with exited := true }

def step (positive : String → Bool) (a : AgentModule S) (e : AgentStep) :
    Option (AgentModule S) :=
  if a.exited ∨ a.crashed then none
  else
    match e with
    | .configure options => some (a.configure options)
    | .setOption key value =>
        some { a with core := a.core.setOption key value }
    | .spath path => some { a with core := a.core.spath path }
    | .start found => some (a.start positive found)
    | .monitor found => some (a.monitor positive found)
    | .stop => some { a with core := a.core.stop }
    | .emit topic data => some (a.emit topic data)
    | .localConnect f =>
        some { a with core := (a.core.localConnect (.callback f)).1 }
    | .loopTurn => some { a with core := a.core.loopTurn }
    | .exit => some a.exit

end AgentModule

def lifecycleMachine {S : PropertyStore} (positive : String → Bool)
    (main : String) (properties : S.Properties) :
    Machine (AgentModule S) AgentStep where
  init := AgentModule.loaded main properties
  step := AgentModule.step positive

/-! ## Starting and stopping -/

/-- The core is initialised and started, and then stopped and shut down, in
turn; the flag is whether it is started now. -/
inductive Cycles {P : Type} : Bool → List (CoreCall P) → Prop
  | none : Cycles false []
  | start {calls : List (CoreCall P)} {properties : P}
      (hcalls : Cycles false calls) :
      Cycles true (calls ++ [.init properties, .start])
  | stop {calls : List (CoreCall P)} (hcalls : Cycles true calls) :
      Cycles false (calls ++ [.stop, .shutdown])

namespace AgentCore

variable {S : PropertyStore}

/-- What `running` stands for. -/
structure Sound (c : AgentCore S) : Prop where
  cycles : Cycles c.running c.calls
  handle : c.asyncZip = .active ↔ c.running = true

theorem loaded_sound (properties : S.Properties) :
    (loaded properties).Sound where
  cycles := .none
  handle := by simp [loaded]

theorem Sound.start {c : AgentCore S} (hc : c.Sound) (found : MonitorApi) :
    (c.start found).Sound := by
  cases hrunning : c.running with
  | true =>
      simp only [AgentCore.start, hrunning, if_true]
      exact ⟨hc.cycles, hc.handle⟩
  | false =>
      simp only [AgentCore.start, hrunning, Bool.false_eq_true, if_false]
      exact ⟨.start (hrunning ▸ hc.cycles), iff_of_true rfl rfl⟩

theorem Sound.stop {c : AgentCore S} (hc : c.Sound) : c.stop.Sound := by
  cases hrunning : c.running with
  | true =>
      simp only [AgentCore.stop, hrunning, if_true]
      exact ⟨.stop (hrunning ▸ hc.cycles), by simp [headlessStop]⟩
  | false =>
      simp only [AgentCore.stop, hrunning, Bool.false_eq_true, if_false]
      exact hc

theorem Sound.loopTurn {c : AgentCore S} (hc : c.Sound) :
    c.loopTurn.Sound where
  cycles := hc.cycles
  handle := by
    have hhandle := hc.handle
    simp only [AgentCore.loopTurn]
    split
    · next hclosing =>
        rw [hclosing] at hhandle
        simpa using hhandle
    · exact hhandle

/-- `localConnect` touches the listener alone. -/
theorem localConnect_frame (c : AgentCore S) (callback : MessageListener) :
    ∃ listener, (c.localConnect callback).1 =
      { c with listener := listener } := by
  unfold localConnect
  split
  · exact ⟨_, rfl⟩
  · exact ⟨c.listener, rfl⟩

/-- `nativeEmit` touches the texts pushed alone. -/
theorem nativeEmit_frame (c : AgentCore S) (topic data : List Char) :
    ∃ pushed, (c.nativeEmit topic data).1 = { c with pushed := pushed } := by
  unfold nativeEmit
  split
  · exact ⟨_, rfl⟩
  · exact ⟨c.pushed, rfl⟩

theorem Sound.localConnect {c : AgentCore S} (hc : c.Sound)
    (callback : MessageListener) : (c.localConnect callback).1.Sound := by
  obtain ⟨listener, heq⟩ := c.localConnect_frame callback
  rw [heq]
  exact ⟨hc.cycles, hc.handle⟩

theorem running_stop (c : AgentCore S) : c.stop.running = false := by
  cases hrunning : c.running with
  | true => simp [stop, hrunning, headlessStop]
  | false => simp [stop, hrunning]

/-- Stopping twice is stopping once. -/
theorem iterate_stop (c : AgentCore S) {n : Nat} (hn : 0 < n) :
    stop^[n] c = c.stop := by
  induction n with
  | zero => exact absurd hn (Nat.lt_irrefl 0)
  | succ n ih =>
      cases n with
      | zero => rfl
      | succ n =>
          rw [Function.iterate_succ_apply', ih n.succ_pos]
          exact if_neg (by simp [running_stop])

/-- What `start` leaves alone. -/
theorem start_frame (c : AgentCore S) (found : MonitorApi) :
    ∃ running calls asyncZip reused, c.start found = { c with
      running := running
      calls := calls
      asyncZip := asyncZip
      reused := reused
      monitorApi := found } := by
  unfold start
  split
  · exact ⟨c.running, c.calls, c.asyncZip, c.reused, rfl⟩
  · exact ⟨true, _, .active, _, rfl⟩

theorem stop_frame (c : AgentCore S) :
    ∃ running calls asyncZip, c.stop = { c with
      running := running
      calls := calls
      asyncZip := asyncZip } := by
  unfold stop
  split
  · exact ⟨false, _, .closing, rfl⟩
  · exact ⟨c.running, c.calls, c.asyncZip, rfl⟩

theorem iterate_stop_frame (c : AgentCore S) (n : Nat) :
    ∃ running calls asyncZip, stop^[n] c = { c with
      running := running
      calls := calls
      asyncZip := asyncZip } := by
  rcases Nat.eq_zero_or_pos n with rfl | hn
  · exact ⟨c.running, c.calls, c.asyncZip, rfl⟩
  · rw [c.iterate_stop hn]
    exact c.stop_frame

theorem getOption_stop (c : AgentCore S) (key : String) :
    c.stop.getOption key = c.getOption key := by
  obtain ⟨running, calls, asyncZip, heq⟩ := c.stop_frame
  rw [heq]
  rfl

/-- A handle is used again too early when the core is started while the
handle of the last stop is closing. -/
theorem Sound.start_reused {c : AgentCore S} (hc : c.Sound)
    (found : MonitorApi) :
    c.reused ≤ (c.start found).reused ∧
      ((c.start found).reused = c.reused ↔
        (c.running = false → c.asyncZip ≠ .closing)) := by
  have hhandle := hc.handle
  cases hrunning : c.running with
  | true => simp [AgentCore.start, hrunning, initMonitorApi]
  | false =>
      rw [hrunning] at hhandle
      cases hzip : c.asyncZip with
      | active => simp [hzip] at hhandle
      | closed =>
          simp [AgentCore.start, hrunning, initMonitorApi, headlessStart, hzip]
      | closing =>
          simp [AgentCore.start, hrunning, initMonitorApi, headlessStart, hzip]

end AgentCore

namespace AgentModule

variable {S : PropertyStore} {positive : String → Bool} {a : AgentModule S}

/-- Whether the step runs `start`: the first call of `monitor` that gets an
API does, and those before it. -/
def starts (a : AgentModule S) : AgentStep → Bool
  | .start _ => true
  | .monitor _ => !a.api
  | _ => false

/-- The core is not started in the turn of the loop in which it was
stopped. -/
def Turned (a : AgentModule S) (e : AgentStep) : Prop :=
  a.starts e = true → a.core.running = false → a.core.asyncZip ≠ .closing

instance (a : AgentModule S) (e : AgentStep) : Decidable (a.Turned e) := by
  unfold Turned
  infer_instance

/-- `monitor` before there is an API. -/
theorem monitor_eq (hapi : a.api = false) (found : MonitorApi) :
    a.monitor positive found = { a.start positive found with
      core := ((a.start positive found).core.localConnect .api).1
      api := found.isMonitorApiValid
      apis := a.apis + if found.isMonitorApiValid then 1 else 0 } := by
  rw [monitor, hapi, if_neg Bool.false_ne_true]
  dsimp only
  cases hvalid : found.isMonitorApiValid with
  | true =>
      have hconnect : (a.start positive found).core.localConnect .api =
          (_, .returned) := if_pos hvalid
      rw [hconnect]
      rfl
  | false =>
      have hconnect : (a.start positive found).core.localConnect .api =
          (_, .threw) := if_neg (hvalid ▸ Bool.false_ne_true)
      rw [hconnect]
      dsimp only
      congr 1

theorem emit_eq (a : AgentModule S) (topic data : List Char) :
    a.emit topic data = { a with
      core :=
        if topic ∈ publishedTopics then (a.core.nativeEmit topic data).1
        else a.core
      raised := a.raised ++ if a.api then [(topic, data)] else []
      crashed := a.crashed ||
        decide (topic ∈ publishedTopics) && !a.core.monitorApi.pushData } := by
  obtain ⟨core, mainFilename, api, exitListeners⟩ := a
  unfold emit AgentCore.nativeEmit
  by_cases htopic : topic ∈ publishedTopics
  · cases api <;> cases hpush : core.monitorApi.pushData <;>
      cases hvalid : core.monitorApi.isMonitorApiValid <;>
      simp [htopic, hpush, hvalid]
  · cases api <;> simp [htopic]

theorem emit_frame (a : AgentModule S) (topic data : List Char) :
    ∃ pushed raised crashed, a.emit topic data = { a with
      core := { a.core with pushed := pushed }
      raised := raised
      crashed := crashed } := by
  rw [emit_eq]
  split
  · obtain ⟨pushed, heq⟩ := a.core.nativeEmit_frame topic data
    exact ⟨pushed, _, _, by rw [heq]⟩
  · exact ⟨a.core.pushed, _, _, rfl⟩

/-- All listeners together: the core is stopped by the first of them, and
each zips if the headless mode is on. -/
theorem exitListener_iterate (a : AgentModule S) (n : Nat) :
    exitListener^[n] a = { a with
      core := AgentCore.stop^[n] a.core
      zips := a.zips +
        if a.core.getOption headlessMode = "on" then n else 0 } := by
  induction n generalizing a with
  | zero => simp
  | succ n ih =>
      rw [Function.iterate_succ_apply, ih]
      by_cases hmode : a.core.getOption headlessMode = "on"
      · simp [exitListener, hmode, AgentCore.getOption_stop,
          Function.iterate_succ_apply]
        omega
      · simp [exitListener, hmode, AgentCore.getOption_stop,
          Function.iterate_succ_apply]

/-- What holds between the steps of a run. -/
structure Sound (a : AgentModule S) : Prop where
  core : a.core.Sound
  watched : a.core.running = true → 0 < a.exitListeners
  connected : a.apis = if a.api then 1 else 0
  unzipped : a.exited = false → a.zips = 0
  ended : a.exited = true → a.core.running = false ∧
    a.zips = if a.core.getOption headlessMode = "on" then a.exitListeners else 0

theorem loaded_sound (main : String) (properties : S.Properties) :
    (loaded main properties).Sound where
  core := AgentCore.loaded_sound properties
  watched h := nomatch h
  connected := rfl
  unzipped _ := rfl
  ended h := nomatch h

theorem Sound.start (ha : a.Sound) (hopen : a.exited = false)
    (found : MonitorApi) : (a.start positive found).Sound where
  core := AgentCore.Sound.start (c := { a.core with
    properties := startProperties a.mainFilename a.core.properties })
    ⟨ha.core.cycles, ha.core.handle⟩ found
  watched _ := Nat.succ_pos _
  connected := ha.connected
  unzipped := ha.unzipped
  ended h := absurd (hopen.symm.trans h) Bool.false_ne_true

theorem Sound.monitor (ha : a.Sound) (hopen : a.exited = false)
    (found : MonitorApi) : (a.monitor positive found).Sound := by
  cases hapi : a.api with
  | true =>
      rw [AgentModule.monitor, hapi, if_pos rfl]
      exact ha
  | false =>
      have hstart : (a.start positive found).Sound := ha.start hopen found
      have hconnected := ha.connected
      rw [hapi] at hconnected
      rw [monitor_eq hapi]
      exact {
        core := hstart.core.localConnect .api
        watched := fun _ => Nat.succ_pos _
        connected := by simp [hconnected]
        unzipped := hstart.unzipped
        ended := fun h => absurd (hopen.symm.trans h) Bool.false_ne_true }

theorem Sound.emit (ha : a.Sound) (hopen : a.exited = false)
    (topic data : List Char) : (a.emit topic data).Sound := by
  obtain ⟨pushed, raised, crashed, heq⟩ := a.emit_frame topic data
  rw [heq]
  exact {
    core := ⟨ha.core.cycles, ha.core.handle⟩
    watched := ha.watched
    connected := ha.connected
    unzipped := ha.unzipped
    ended := fun h => absurd (hopen.symm.trans h) Bool.false_ne_true }

theorem Sound.exit (ha : a.Sound) (hopen : a.exited = false) :
    a.exit.Sound := by
  rw [AgentModule.exit, exitListener_iterate, ha.unzipped hopen, Nat.zero_add]
  rcases Nat.eq_zero_or_pos a.exitListeners with hnone | hsome
  · have hstopped : a.core.running = false := by
      by_contra h
      have := ha.watched (by simpa using h)
      omega
    rw [hnone]
    exact {
      core := ha.core
      watched := fun h => absurd (hstopped.symm.trans h) Bool.false_ne_true
      connected := ha.connected
      unzipped := fun h => nomatch h
      ended := fun _ => ⟨hstopped, rfl⟩ }
  · rw [AgentCore.iterate_stop _ hsome]
    exact {
      core := ha.core.stop
      watched := fun _ => hsome
      connected := ha.connected
      unzipped := fun h => nomatch h
      ended := fun _ => ⟨a.core.running_stop, by rw [AgentCore.getOption_stop]⟩ }

theorem Sound.step {a' : AgentModule S} {e : AgentStep} (ha : a.Sound)
    (hstep : a.step positive e = some a') : a'.Sound := by
  have hkeep {core : AgentCore S} {mainFilename : String} (hcore : core.Sound)
      (hrunning : core.running = true → a.core.running = true)
      (hopen : a.exited = false) :
      Sound { a with core := core, mainFilename := mainFilename } :=
    ⟨hcore, fun h => ha.watched (hrunning h), ha.connected, ha.unzipped,
      fun h => absurd (hopen.symm.trans h) Bool.false_ne_true⟩
  unfold AgentModule.step at hstep
  split at hstep
  · cases hstep
  next hlive =>
    have hopen : a.exited = false := by simp_all
    cases e with
    | configure options =>
        cases hstep
        exact hkeep ⟨ha.core.cycles, ha.core.handle⟩ id hopen
    | setOption key value =>
        cases hstep
        exact hkeep ⟨ha.core.cycles, ha.core.handle⟩ id hopen
    | spath path =>
        cases hstep
        exact hkeep ⟨ha.core.cycles, ha.core.handle⟩ id hopen
    | start found =>
        cases hstep
        exact ha.start hopen found
    | monitor found =>
        cases hstep
        exact ha.monitor hopen found
    | stop =>
        cases hstep
        refine hkeep ha.core.stop (fun h => ?_) hopen
        exact absurd (a.core.running_stop.symm.trans h) Bool.false_ne_true
    | emit topic data =>
        cases hstep
        exact ha.emit hopen topic data
    | localConnect f =>
        cases hstep
        obtain ⟨listener, heq⟩ := a.core.localConnect_frame (.callback f)
        rw [heq]
        exact hkeep ⟨ha.core.cycles, ha.core.handle⟩ id hopen
    | loopTurn =>
        cases hstep
        exact hkeep ha.core.loopTurn id hopen
    | exit =>
        cases hstep
        exact ha.exit hopen

/-- The counter of the handles that are used too early. -/
theorem Sound.step_reused {a' : AgentModule S} {e : AgentStep} (ha : a.Sound)
    (hstep : a.step positive e = some a') :
    a.core.reused ≤ a'.core.reused ∧
      (a'.core.reused = a.core.reused ↔ a.Turned e) := by
  have hsame {core : AgentCore S} (hcore : core.reused = a.core.reused)
      (hstarts : a.starts e = false) :
      a.core.reused ≤ core.reused ∧
        (core.reused = a.core.reused ↔ a.Turned e) :=
    ⟨hcore.ge, iff_of_true hcore fun h => by rw [hstarts] at h; cases h⟩
  have hstart (found : MonitorApi) := AgentCore.Sound.start_reused
    (c := { a.core with
      properties := startProperties a.mainFilename a.core.properties })
    ⟨ha.core.cycles, ha.core.handle⟩ found
  unfold AgentModule.step at hstep
  split at hstep
  · cases hstep
  cases e with
  | start found =>
      cases hstep
      exact ⟨(hstart found).1, (hstart found).2.trans (by simp [Turned, starts])⟩
  | monitor found =>
      cases hstep
      cases hapi : a.api with
      | true =>
          rw [AgentModule.monitor, hapi, if_pos rfl]
          exact hsame rfl (by simp [starts, hapi])
      | false =>
          obtain ⟨listener, heq⟩ :=
            (a.start positive found).core.localConnect_frame .api
          rw [monitor_eq hapi, heq]
          exact ⟨(hstart found).1,
            (hstart found).2.trans (by simp [Turned, starts, hapi])⟩
  | stop =>
      cases hstep
      obtain ⟨running, calls, asyncZip, heq⟩ := a.core.stop_frame
      rw [heq]
      exact hsame rfl rfl
  | emit topic data =>
      cases hstep
      obtain ⟨pushed, raised, crashed, heq⟩ := a.emit_frame topic data
      rw [heq]
      exact hsame rfl rfl
  | localConnect f =>
      cases hstep
      obtain ⟨listener, heq⟩ := a.core.localConnect_frame (.callback f)
      rw [heq]
      exact hsame rfl rfl
  | exit =>
      cases hstep
      obtain ⟨running, calls, asyncZip, heq⟩ :=
        a.core.iterate_stop_frame a.exitListeners
      rw [AgentModule.exit, exitListener_iterate, heq]
      exact hsame rfl rfl
  | _ =>
      cases hstep
      exact hsame rfl rfl

theorem sound (positive : String → Bool) (main : String)
    (properties : S.Properties) :
    (lifecycleMachine positive main properties).Inductive (fun _ _ => True)
      Sound where
  init := loaded_sound main properties
  step ha _ hstep := ha.step hstep

end AgentModule

/-- Over every run of calls and turns of the loop: the core is initialised and
started, stopped and shut down in turn, whatever is called twice; the handle
of the headless mode is open exactly while the core runs, and it is never used
again too early exactly if the core is never started in the turn in which it
was stopped; there is at most one API; and at the exit the core is shut down,
and each listener that a start has added tries to zip. -/
theorem agent_lifecycle {S : PropertyStore} (positive : String → Bool)
    (main : String) (properties : S.Properties) {steps : List AgentStep}
    {a : AgentModule S}
    (hrun : (lifecycleMachine positive main properties).run
      (AgentModule.loaded main properties) steps = some a) :
    Cycles a.core.running a.core.calls ∧
    (a.core.asyncZip = .active ↔ a.core.running = true) ∧
    (a.core.reused = 0 ↔
      (lifecycleMachine positive main properties).Guarded AgentModule.Turned
        (AgentModule.loaded main properties) steps) ∧
    a.apis = (if a.api then 1 else 0) ∧
    (a.exited = true → a.core.running = false ∧
      a.zips = if a.core.getOption headlessMode = "on" then a.exitListeners
        else 0) := by
  have hsound := AgentModule.sound positive main properties
  have ha := hsound.run (guarded_true _ _) hrun
  refine ⟨ha.core.cycles, ha.core.handle, ?_, ha.connected, ha.ended⟩
  exact (hsound.count_eq_iff_guarded (fun a => a.core.reused)
    (fun hs hstep => hs.step_reused hstep) hsound.init hrun).2

namespace LifecycleWitness

/-- The properties as a function. -/
def bag : PropertyStore where
  Properties := String → String
  getProperty p := p
  setProperty := Function.update
  getProperty_setProperty p key value key' := by
    rw [Function.update_apply]

/-- The application stops the core and starts it again in the next turn. -/
def restarted : List AgentStep :=
  [.configure [("appmetrics.file.collection", ⟨"on", true⟩)],
    .monitor ⟨true, true, true⟩, .stop, .stop, .loopTurn,
    .start ⟨true, true, true⟩, .exit]

theorem restarted_runs :
    ((lifecycleMachine (S := bag) (fun _ => true) "app.js" fun _ => "").run
      (AgentModule.loaded "app.js" fun _ => "") restarted).isSome := by
  decide +kernel

theorem agent_lifecycle_restarted :
    ∃ a, (lifecycleMachine (S := bag) (fun _ => true) "app.js" fun _ => "").run
        (AgentModule.loaded "app.js" fun _ => "") restarted = some a ∧
      Cycles a.core.running a.core.calls ∧ a.core.reused = 0 := by
  obtain ⟨a, hrun⟩ := Option.isSome_iff_exists.mp restarted_runs
  obtain ⟨hcycles, _, hreused, _⟩ := agent_lifecycle _ _ _ hrun
  exact ⟨a, hrun, hcycles, hreused.mpr (by decide +kernel)⟩

end LifecycleWitness

end Appmetrics
