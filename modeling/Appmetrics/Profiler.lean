/-
nodeprofplugin.cpp: control messages arrive on any thread and send to four
asynchronous handles, whose callbacks switch the V8 profiler and the gather
timer on the event loop.
-/
import Appmetrics.Machine
import Appmetrics.Text

namespace Appmetrics

open StepMachine

/-- The asynchronous handles, in the order `plugin_start` initialises
them. -/
inductive AsyncHandle
  | startProfiler
  | enable
  | stopProfiler
  | disable
deriving Repr, DecidableEq

/-- The handles of `setEnabled(true)`. -/
def AsyncHandle.enables : AsyncHandle → Bool
  | .startProfiler | .enable => true
  | .stopProfiler | .disable => false

/-- The statics of the plugin, whether V8's profiler runs, and the interval
of the gather timer while it is active.  `watchdog` is set on the platforms
that `watchdog.h` supports, `pending` for the handles with a send that no
callback has served. -/
structure Profiler where
  watchdog : Bool
  enabled : Bool
  jsonEnabled : Bool
  profilingInterval : Nat
  watchdogThreshold : Int
  running : Bool
  timer : Option Nat
  pending : AsyncHandle → Bool

namespace Profiler

/-- After `registerPushSource`, which reads the property
`com.ibm.diagnostics.healthcenter.data.profiling`. -/
def registered (watchdog : Bool) (enabledProp : List Char) : Profiler where
  watchdog := watchdog
  enabled := enabledProp = "on".toList
  jsonEnabled := false
  profilingInterval := 5000
  watchdogThreshold := 0
  running := false
  timer := none
  pending _ := false

/-- `watchdog::StartCpuProfiling`: starting a running profiler again changes
nothing, and without a watchdog only the threshold 0 is accepted. -/
def startTheProfiler (s : Profiler) : Profiler :=
  if s.watchdog ∨ s.watchdogThreshold = 0 then { s with running := true }
  else s

def stopTheProfiler (s : Profiler) : Profiler := { s with running := false }

def startTimer (s : Profiler) : Profiler :=
  { s with timer := some s.profilingInterval }

def stopTimer (s : Profiler) : Profiler := { s with timer := none }

/-- The profile that is taken here is sent to the agent. -/
def collectData (s : Profiler) : Profiler :=
  if s.enabled then s.stopTheProfiler else s

def onGatherDataOnV8Thread (s : Profiler) : Profiler :=
  s.collectData.startTheProfiler

def startProfilerWithoutTiming (s : Profiler) : Profiler :=
  if s.enabled then s else { s with enabled := true }.startTheProfiler

def stopProfilerWithoutTiming (s : Profiler) : Profiler :=
  let s := s.collectData
  if s.enabled then { s with enabled := false } else s

def enableOnV8Thread (s : Profiler) : Profiler :=
  if s.enabled then s
  else { s with enabled := true }.startTheProfiler.startTimer

def disableOnV8Thread (s : Profiler) : Profiler :=
  if s.enabled then { s with enabled := false }.stopTimer.stopTheProfiler
  else s

/-- `uv_async_send`: sends coalesce until the callback runs. -/
def asyncSend (s : Profiler) (h : AsyncHandle) : Profiler :=
  { s with pending := Function.update s.pending h true }

def setEnabled (s : Profiler) (value : Bool) : Profiler :=
  if value then
    s.asyncSend (if s.jsonEnabled then .startProfiler else .enable)
  else
    { s.asyncSend (if s.jsonEnabled then .stopProfiler else .disable) with
      watchdogThreshold := 0 }

def setJsonEnabled (s : Profiler) (value : Bool) : Profiler :=
  { s with
    jsonEnabled := value
    profilingInterval := if value then 60000 else 5000 }

def pluginStart (s : Profiler) : Profiler :=
  if s.enabled then s.startTheProfiler.startTimer else s

/-- `ibmras_monitoring_receiveMessage`; a message without a comma is its own
`rest`. -/
def receiveMessage (s : Profiler) (id : String) (message : List Char) :
    Profiler :=
  if id = "profiling_node" then
    let command := upTo ',' message
    let rest :=
      if ',' ∈ message then message.drop (command.length + 1) else message
    if rest = "profiling_node_subsystem".toList then
      s.setEnabled (command = "on".toList)
    else if rest = "profiling_node_v8json".toList then
      s.setJsonEnabled (command = "on".toList)
    else if rest = "profiling_node_threshold".toList then
      { s with watchdogThreshold := (streamInt command).getD 0 }
    else s
  else s

def callback (s : Profiler) : AsyncHandle → Profiler
  | .startProfiler => s.startProfilerWithoutTiming
  | .enable => s.enableOnV8Thread
  | .stopProfiler => s.stopProfilerWithoutTiming
  | .disable => s.disableOnV8Thread

def clearPending (s : Profiler) (h : AsyncHandle) : Profiler :=
  { s with pending := Function.update s.pending h false }

/-- The callback of one handle, if a send to it is pending. -/
def serve (s : Profiler) (h : AsyncHandle) : Profiler :=
  if s.pending h then (s.clearPending h).callback h else s

/-- The gather timer fires while it is active. -/
def tick (s : Profiler) : Option Profiler :=
  s.timer.map fun _ => s.onGatherDataOnV8Thread

/-- An event-loop turn serves the handles in the order of their
initialisation. -/
def turn (s : Profiler) : Profiler :=
  [.startProfiler, .enable, .stopProfiler, .disable].foldl serve s

end Profiler

/-- The two control messages for a property that is switched on or off. -/
def controlMessage (property : String) (on : Bool) : List Char :=
  (if on then "on" else "off").toList ++ ',' :: property.toList

namespace Profiler

@[simp] theorem receiveMessage_subsystem (s : Profiler) (on : Bool) :
    s.receiveMessage "profiling_node"
      (controlMessage "profiling_node_subsystem" on) = s.setEnabled on := by
  cases on <;> rfl

@[simp] theorem receiveMessage_v8json (s : Profiler) (on : Bool) :
    s.receiveMessage "profiling_node"
      (controlMessage "profiling_node_v8json" on) = s.setJsonEnabled on := by
  cases on <;> rfl

end Profiler

/-- What may happen to a profiler in no particular order. -/
inductive ProfilerStep
  | subsystem (on : Bool)
  | v8json (on : Bool)
  | callback (h : AsyncHandle)
  | tick
deriving Repr, DecidableEq

namespace Profiler

def step (s : Profiler) : ProfilerStep → Option Profiler
  | .subsystem on => some (s.receiveMessage "profiling_node"
      (controlMessage "profiling_node_subsystem" on))
  | .v8json on => some (s.receiveMessage "profiling_node"
      (controlMessage "profiling_node_v8json" on))
  | .callback h => if s.pending h then some (s.serve h) else none
  | .tick => s.tick

/-- The plugin once it is started. -/
def machine (watchdog : Bool) (enabledProp : List Char) :
    Machine Profiler ProfilerStep where
  init := (registered watchdog enabledProp).pluginStart
  step := step

/-- A disabled profiler is off, an enabled one runs. -/
structure Consistent (s : Profiler) : Prop where
  off : s.enabled = false → s.running = false ∧ s.timer = none
  on : s.enabled = true → s.running = true

/-- `StopProfilerWithoutTiming` does not run while the timer is active. -/
def KeepsTimer (s : Profiler) (e : ProfilerStep) : Prop :=
  e = .callback .stopProfiler → s.timer = none

instance (s : Profiler) (e : ProfilerStep) : Decidable (s.KeepsTimer e) :=
  inferInstanceAs (Decidable (_ → _))

end Profiler

/-- An event loop and the thread that the control messages come from. -/
inductive LoopStep
  | message (on : Bool)
  | turn
  | tick
deriving Repr, DecidableEq

/-- The profiler with the last subsystem command it was sent. -/
structure Commanded where
  profiler : Profiler
  last : Option Bool

namespace Commanded

def step (s : Commanded) : LoopStep → Option Commanded
  | .message on => some
      { profiler := s.profiler.receiveMessage "profiling_node"
          (controlMessage "profiling_node_subsystem" on)
        last := some on }
  | .turn => some { s with profiler := s.profiler.turn }
  | .tick => s.profiler.tick.map fun p => { s with profiler := p }

def machine (watchdog : Bool) (enabledProp : List Char) :
    Machine Commanded LoopStep where
  init := ⟨(Profiler.registered watchdog enabledProp).pluginStart, none⟩
  step := step

/-- With no send pending, the profiler is as the last command says. -/
def Obeys (s : Commanded) : Prop :=
  (∀ h, s.profiler.pending h = false) → ∀ on, s.last = some on →
    s.profiler.enabled = on ∧ s.profiler.running = on ∧
      s.profiler.timer.isSome = on

/-- No turn serves both handles after the last command switched on. -/
def KeepsOrder (s : Commanded) (e : LoopStep) : Prop :=
  e = .turn → s.last = some true → s.profiler.pending .enable = true →
    s.profiler.pending .disable = false

instance (s : Commanded) (e : LoopStep) : Decidable (s.KeepsOrder e) :=
  inferInstanceAs (Decidable (_ → _ → _ → _))

end Commanded

namespace Profiler

/-! ## Callbacks -/

theorem startTheProfiler_eq {s : Profiler} (hs : s.watchdogThreshold = 0) :
    s.startTheProfiler = { s with running := true } := by
  rw [startTheProfiler, if_pos (Or.inr hs)]

@[simp] theorem startTheProfiler_enabled (s : Profiler) :
    s.startTheProfiler.enabled = s.enabled := by
  unfold startTheProfiler
  split <;> rfl

@[simp] theorem startTheProfiler_threshold (s : Profiler) :
    s.startTheProfiler.watchdogThreshold = s.watchdogThreshold := by
  unfold startTheProfiler
  split <;> rfl

@[simp] theorem callback_enabled (s : Profiler) (h : AsyncHandle) :
    (s.callback h).enabled = h.enables := by
  cases henabled : s.enabled <;> cases h <;>
    simp [callback, startProfilerWithoutTiming, enableOnV8Thread,
      stopProfilerWithoutTiming, disableOnV8Thread, collectData, stopTimer,
      stopTheProfiler, startTimer, AsyncHandle.enables, henabled]

@[simp] theorem callback_threshold (s : Profiler) (h : AsyncHandle) :
    (s.callback h).watchdogThreshold = s.watchdogThreshold := by
  cases henabled : s.enabled <;> cases h <;>
    simp [callback, startProfilerWithoutTiming, enableOnV8Thread,
      stopProfilerWithoutTiming, disableOnV8Thread, collectData, stopTimer,
      stopTheProfiler, startTimer, henabled]

/-- A callback for what is already the case leaves V8's profiler alone. -/
theorem callback_running {s : Profiler} (hs : s.watchdogThreshold = 0)
    (h : AsyncHandle) : (s.callback h).running =
      if s.enabled = h.enables then s.running else h.enables := by
  cases henabled : s.enabled <;> cases h <;>
    simp [callback, startProfilerWithoutTiming, enableOnV8Thread,
      stopProfilerWithoutTiming, disableOnV8Thread, collectData, stopTimer,
      stopTheProfiler, startTimer, startTheProfiler, AsyncHandle.enables,
      henabled, hs]

theorem startTheProfiler_timer (s : Profiler) :
    s.startTheProfiler.timer = s.timer := by
  unfold startTheProfiler
  split <;> rfl

/-- The callbacks without timing leave the timer alone. -/
theorem callback_timer (s : Profiler) (h : AsyncHandle) :
    (s.callback h).timer.isSome =
      if h = .enable ∧ s.enabled = false then true
      else if h = .disable ∧ s.enabled = true then false
      else s.timer.isSome := by
  cases henabled : s.enabled <;> cases h <;>
    simp [callback, startProfilerWithoutTiming, enableOnV8Thread,
      stopProfilerWithoutTiming, disableOnV8Thread, collectData, stopTimer,
      stopTheProfiler, startTimer, startTheProfiler_timer, henabled]

theorem consistent_iff {s : Profiler} : s.Consistent ↔
    s.running = s.enabled ∧ (s.timer.isSome = true → s.enabled = true) := by
  constructor
  · intro hs
    cases henabled : s.enabled with
    | true => exact ⟨hs.on henabled, fun _ => rfl⟩
    | false =>
        obtain ⟨hrunning, htimer⟩ := hs.off henabled
        exact ⟨hrunning, fun h => by rw [htimer] at h; cases h⟩
  · rintro ⟨hrunning, htimer⟩
    refine ⟨fun hoff => ⟨by rw [hrunning, hoff], ?_⟩, fun hon => by
      rw [hrunning, hon]⟩
    cases h : s.timer with
    | none => rfl
    | some interval =>
        rw [h, hoff] at htimer
        cases htimer rfl

/-- Of the four callbacks only `StopProfilerWithoutTiming` can leave a timer
behind. -/
theorem Consistent.callback_iff {s : Profiler} (hs : s.Consistent)
    (hthreshold : s.watchdogThreshold = 0) (h : AsyncHandle) :
    (s.callback h).Consistent ↔ (h = .stopProfiler → s.timer = none) := by
  rw [consistent_iff] at hs ⊢
  obtain ⟨hrunning, htimer⟩ := hs
  rw [callback_running hthreshold, callback_timer, callback_enabled,
    hrunning]
  have hnone : s.timer = none ↔ s.timer.isSome = false := by simp
  rw [hnone]
  -- what is left is about two booleans
  revert htimer
  generalize s.enabled = enabled
  generalize s.timer.isSome = active
  cases h <;> cases enabled <;> cases active <;> decide

/-- A tick takes a profile and starts the profiler again. -/
theorem Consistent.tick {s s' : Profiler} (hs : s.Consistent)
    (hthreshold : s.watchdogThreshold = 0) (htick : s.tick = some s') :
    s' = s := by
  rw [Profiler.tick, Option.map_eq_some_iff] at htick
  obtain ⟨interval, htimer, rfl⟩ := htick
  have hon : s.enabled = true :=
    (consistent_iff.mp hs).2 (by rw [htimer]; rfl)
  have hrunning : s.running = true := hs.on hon
  rw [onGatherDataOnV8Thread, collectData, if_pos hon,
    startTheProfiler_eq (s := s.stopTheProfiler) hthreshold,
    stopTheProfiler, ← hrunning]

theorem serve_of_pending {s : Profiler} {h : AsyncHandle}
    (hpending : s.pending h = true) :
    s.serve h = (s.clearPending h).callback h := by
  rw [serve, if_pos hpending]

theorem consistent_congr {s t : Profiler} (henabled : t.enabled = s.enabled)
    (hrunning : t.running = s.running) (htimer : t.timer = s.timer) :
    t.Consistent ↔ s.Consistent := by
  rw [consistent_iff, consistent_iff, henabled, hrunning, htimer]

theorem setEnabled_spec (s : Profiler) (on : Bool) :
    (s.setEnabled on).enabled = s.enabled ∧
      (s.setEnabled on).running = s.running ∧
      (s.setEnabled on).timer = s.timer ∧
      (s.setEnabled on).jsonEnabled = s.jsonEnabled ∧
      (s.watchdogThreshold = 0 → (s.setEnabled on).watchdogThreshold = 0) := by
  cases on <;> simp [setEnabled, asyncSend]

theorem pluginStart_eq (watchdog : Bool) (enabledProp : List Char) :
    (registered watchdog enabledProp).pluginStart =
      { registered watchdog enabledProp with
        running := enabledProp = "on".toList
        timer := if enabledProp = "on".toList then some 5000 else none } := by
  by_cases h : enabledProp = ['o', 'n'] <;>
    simp [pluginStart, registered, startTheProfiler, startTimer, h]

theorem pluginStart_consistent (watchdog : Bool) (enabledProp : List Char) :
    (registered watchdog enabledProp).pluginStart.Consistent ∧
      (registered watchdog enabledProp).pluginStart.watchdogThreshold = 0 := by
  rw [pluginStart_eq, consistent_iff]
  refine ⟨⟨rfl, fun h => ?_⟩, rfl⟩
  by_contra hoff
  have hne : enabledProp ≠ "on".toList := by simpa [registered] using hoff
  simp only [if_neg hne, Option.isSome_none, Bool.false_eq_true] at h

/-- Every step but the callback that forgets the timer keeps the profiler
consistent. -/
theorem Consistent.step_iff {s s' : Profiler} {e : ProfilerStep}
    (hs : s.Consistent) (hthreshold : s.watchdogThreshold = 0)
    (hstep : s.step e = some s') :
    (s.KeepsTimer e ↔ s'.Consistent) ∧ s'.watchdogThreshold = 0 := by
  cases e with
  | subsystem on =>
      rw [step, receiveMessage_subsystem] at hstep
      cases hstep
      obtain ⟨henabled, hrunning, htimer, -, hkept⟩ := s.setEnabled_spec on
      exact ⟨iff_of_true nofun
        ((consistent_congr henabled hrunning htimer).mpr hs),
        hkept hthreshold⟩
  | v8json on =>
      rw [step, receiveMessage_v8json] at hstep
      cases hstep
      have hset : (s.setJsonEnabled on).Consistent ↔ s.Consistent :=
        consistent_congr rfl rfl rfl
      exact ⟨iff_of_true nofun (hset.mpr hs), hthreshold⟩
  | callback h =>
      rw [step, Option.ite_none_right_eq_some, Option.some.injEq] at hstep
      obtain ⟨hpending, rfl⟩ := hstep
      rw [serve_of_pending hpending]
      have hcleared : (s.clearPending h).Consistent ↔ s.Consistent :=
        consistent_congr rfl rfl rfl
      rw [(hcleared.mpr hs).callback_iff hthreshold, callback_threshold]
      exact ⟨by simp [KeepsTimer, clearPending], hthreshold⟩
  | tick =>
      rw [step] at hstep
      rw [hs.tick hthreshold hstep]
      exact ⟨iff_of_true nofun hs, hthreshold⟩

/-- The started plugin is consistent, and stays so in a run exactly while
`StopProfilerWithoutTiming` is called with the timer stopped only. -/
theorem disabled_is_off {watchdog : Bool} {enabledProp : List Char}
    {es : List ProfilerStep} {t : Profiler}
    (hrun : (machine watchdog enabledProp).run
      (machine watchdog enabledProp).init es = some t) :
    (machine watchdog enabledProp).init.Consistent ∧
      ((machine watchdog enabledProp).Guarded KeepsTimer
          (machine watchdog enabledProp).init es ↔
        (machine watchdog enabledProp).Each (fun _ _ s' => s'.Consistent)
          (machine watchdog enabledProp).init es) := by
  have hinductive : (machine watchdog enabledProp).Inductive
      (fun s e => True ∧ s.KeepsTimer e)
      (fun s => s.Consistent ∧ s.watchdogThreshold = 0) := {
    init := pluginStart_consistent watchdog enabledProp
    step := fun hs hC hstep =>
      have h := hs.1.step_iff hs.2 hstep
      ⟨h.1.mp hC.2, h.2⟩ }
  refine ⟨hinductive.init.1, ?_⟩
  exact hinductive.guarded_iff_each
    (fun hs _ hstep => (hs.1.step_iff hs.2 hstep).1)
    hinductive.init (guarded_true _ es) hrun

/-! ## Turns without JSON mode -/

/-- A profiler that only the timed callbacks have touched. -/
structure Timed (s : Profiler) : Prop where
  json : s.jsonEnabled = false
  threshold : s.watchdogThreshold = 0
  running : s.running = s.enabled
  timer : s.timer.isSome = s.enabled
  idle : s.pending .startProfiler = false ∧ s.pending .stopProfiler = false

theorem callback_pending (s : Profiler) (h : AsyncHandle) :
    (s.callback h).pending = s.pending ∧
      (s.callback h).jsonEnabled = s.jsonEnabled := by
  have hstart (s : Profiler) : s.startTheProfiler.pending = s.pending ∧
      s.startTheProfiler.jsonEnabled = s.jsonEnabled := by
    unfold startTheProfiler
    split <;> exact ⟨rfl, rfl⟩
  cases henabled : s.enabled <;> cases h <;>
    simp [callback, startProfilerWithoutTiming, enableOnV8Thread,
      stopProfilerWithoutTiming, disableOnV8Thread, collectData, stopTimer,
      stopTheProfiler, startTimer, hstart, henabled]

theorem Timed.serve {s : Profiler} (hs : s.Timed) (h : AsyncHandle) :
    (s.serve h).Timed ∧
      (s.serve h).pending = Function.update s.pending h false ∧
      (s.serve h).enabled = if s.pending h then h.enables else s.enabled := by
  cases hpending : s.pending h with
  | false =>
      have hserve : s.serve h = s := by
        rw [Profiler.serve, hpending]
        rfl
      have hupdate : Function.update s.pending h false = s.pending := by
        rw [← hpending, Function.update_eq_self]
      rw [hserve, hupdate]
      exact ⟨hs, rfl, rfl⟩
  | true =>
      rw [serve_of_pending hpending]
      have hthreshold : (s.clearPending h).watchdogThreshold = 0 :=
        hs.threshold
      obtain ⟨hkept, hjson⟩ := (s.clearPending h).callback_pending h
      have htimed : h = .enable ∨ h = .disable := by
        cases h with
        | enable => exact Or.inl rfl
        | disable => exact Or.inr rfl
        | startProfiler => rw [hs.idle.1] at hpending; cases hpending
        | stopProfiler => rw [hs.idle.2] at hpending; cases hpending
      refine ⟨⟨hjson.trans hs.json, ?_, ?_, ?_, ?_⟩, hkept,
        callback_enabled _ h⟩
      · rw [callback_threshold, hthreshold]
      · have hrunning : (s.clearPending h).running =
            (s.clearPending h).enabled := hs.running
        rw [callback_running hthreshold, callback_enabled, hrunning]
        split
        · next heq => exact heq
        · rfl
      · have htimer : (s.clearPending h).timer.isSome =
            (s.clearPending h).enabled := hs.timer
        rw [callback_timer, callback_enabled, htimer]
        rcases htimed with rfl | rfl <;>
          cases (s.clearPending _).enabled <;> decide
      · rw [hkept]
        rcases htimed with rfl | rfl <;> exact hs.idle

/-- A turn serves every send, the one that switches off last. -/
theorem Timed.turn {s : Profiler} (hs : s.Timed) :
    s.turn.Timed ∧ (∀ h, s.turn.pending h = false) ∧
      s.turn.enabled =
        if s.pending .disable then false
        else if s.pending .enable then true else s.enabled := by
  obtain ⟨hs₁, hpending₁, henabled₁⟩ := hs.serve .startProfiler
  obtain ⟨hs₂, hpending₂, henabled₂⟩ := hs₁.serve .enable
  obtain ⟨hs₃, hpending₃, henabled₃⟩ := hs₂.serve .stopProfiler
  obtain ⟨hs₄, hpending₄, henabled₄⟩ := hs₃.serve .disable
  refine ⟨hs₄, fun h => ?_, ?_⟩
  · change (Profiler.serve _ .disable).pending h = false
    rw [hpending₄, hpending₃, hpending₂, hpending₁]
    cases h <;> simp [Function.update]
  · change (Profiler.serve _ .disable).enabled = _
    rw [henabled₄, henabled₃, henabled₂, henabled₁, hpending₃, hpending₂,
      hpending₁]
    simp [Function.update, hs.idle, AsyncHandle.enables]

end Profiler

namespace Commanded

/-- A command that no turn has served yet is still pending; one that is no
longer pending has been served last. -/
structure Ordered (s : Commanded) : Prop where
  timed : s.profiler.Timed
  on : s.last = some true → s.profiler.pending .enable = true ∨
    (s.profiler.pending .disable = false ∧ s.profiler.enabled = true)
  off : s.last = some false → s.profiler.pending .disable = true ∨
    (s.profiler.pending .enable = false ∧ s.profiler.enabled = false)

theorem init_ordered (watchdog : Bool) (enabledProp : List Char) :
    (machine watchdog enabledProp).init.Ordered := by
  have hstart : (machine watchdog enabledProp).init.profiler =
      (Profiler.registered watchdog enabledProp).pluginStart := rfl
  rw [Profiler.pluginStart_eq] at hstart
  refine ⟨?_, nofun, nofun⟩
  rw [hstart]
  refine ⟨rfl, rfl, rfl, ?_, rfl, rfl⟩
  by_cases h : enabledProp = ['o', 'n'] <;> simp [Profiler.registered, h]

/-- A subsystem command goes to the handle of its own value. -/
theorem Ordered.message {s : Commanded} (hs : s.Ordered) (on : Bool) :
    Ordered ⟨s.profiler.setEnabled on, some on⟩ := by
  have htimed := hs.timed
  cases on with
  | true =>
      have hset : s.profiler.setEnabled true =
          s.profiler.asyncSend .enable := by
        simp [Profiler.setEnabled, htimed.json]
      rw [hset]
      refine ⟨⟨htimed.json, htimed.threshold, htimed.running, htimed.timer,
        htimed.idle⟩, fun _ => Or.inl rfl, nofun⟩
  | false =>
      have hset : s.profiler.setEnabled false =
          { s.profiler.asyncSend .disable with watchdogThreshold := 0 } := by
        simp [Profiler.setEnabled, htimed.json]
      rw [hset]
      refine ⟨⟨htimed.json, rfl, htimed.running, htimed.timer,
        htimed.idle⟩, nofun, fun _ => Or.inl rfl⟩

theorem Ordered.cases {s : Commanded} (hs : s.Ordered) :
    s.last = none ∨
      (s.last = some true ∧ (s.profiler.pending .enable = true ∨
        (s.profiler.pending .disable = false ∧ s.profiler.enabled = true))) ∨
      (s.last = some false ∧ (s.profiler.pending .disable = true ∨
        (s.profiler.pending .enable = false ∧
          s.profiler.enabled = false))) := by
  match hlast : s.last with
  | none => exact Or.inl rfl
  | some true => exact Or.inr (Or.inl ⟨rfl, hs.on hlast⟩)
  | some false => exact Or.inr (Or.inr ⟨rfl, hs.off hlast⟩)

/-- Where a step keeps the order of the commands, and only there, a served
profiler obeys the last of them. -/
theorem Ordered.step_iff {s s' : Commanded} {e : LoopStep} (hs : s.Ordered)
    (hstep : s.step e = some s') :
    (s.KeepsOrder e ↔ s'.Obeys) ∧ (s.KeepsOrder e → s'.Ordered) := by
  have hobeys {t : Commanded} (ht : t.Ordered) : t.Obeys := by
    intro hserved on hlast
    have henabled : t.profiler.enabled = on := by
      cases on with
      | true =>
          refine ((ht.on hlast).resolve_left ?_).2
          rw [hserved]
          exact Bool.false_ne_true
      | false =>
          refine ((ht.off hlast).resolve_left ?_).2
          rw [hserved]
          exact Bool.false_ne_true
    rw [ht.timed.running, ht.timed.timer, henabled]
    exact ⟨rfl, rfl, rfl⟩
  cases e with
  | message on =>
      rw [step, Profiler.receiveMessage_subsystem] at hstep
      cases hstep
      have hmessage := hs.message on
      exact ⟨iff_of_true nofun (hobeys hmessage), fun _ => hmessage⟩
  | tick =>
      rw [step, Option.map_eq_some_iff] at hstep
      obtain ⟨p, htick, rfl⟩ := hstep
      have hconsistent : s.profiler.Consistent :=
        Profiler.consistent_iff.mpr ⟨hs.timed.running, fun h =>
          hs.timed.timer ▸ h⟩
      rw [hconsistent.tick hs.timed.threshold htick]
      exact ⟨iff_of_true nofun (hobeys hs), fun _ => hs⟩
  | turn =>
      cases hstep
      obtain ⟨htimed, hserved, henabled⟩ := hs.timed.turn
      have hlast : s.KeepsOrder .turn ↔ ∀ on, s.last = some on →
          s.profiler.turn.enabled = on := by
        rw [henabled, KeepsOrder]
        rcases hs.cases with h | ⟨h, hon⟩ | ⟨h, hoff⟩
        · simp [h]
        · rcases hon with hon | ⟨hoff, hon⟩ <;> simp [h, hon]
          simp [hoff]
        · rcases hoff with hoff | ⟨hon, hoff⟩ <;> simp [h, hoff]
          simp [hon]
      have hafter (h : s.KeepsOrder .turn) :
          Ordered { s with profiler := s.profiler.turn } :=
        ⟨htimed,
          fun hon => Or.inr ⟨hserved _, hlast.mp h true hon⟩,
          fun hoff => Or.inr ⟨hserved _, hlast.mp h false hoff⟩⟩
      refine ⟨⟨fun h => hobeys (hafter h), fun h => hlast.mpr ?_⟩, hafter⟩
      exact fun on hon => (h hserved on hon).1

/-- With commands and turns in any order, the profiler obeys the last command
whenever no send is pending, exactly if no turn finds both handles with a
send after a command to switch on. -/
theorem last_command_wins {watchdog : Bool} {enabledProp : List Char}
    {es : List LoopStep} {t : Commanded}
    (hrun : (machine watchdog enabledProp).run
      (machine watchdog enabledProp).init es = some t) :
    (machine watchdog enabledProp).Guarded KeepsOrder
        (machine watchdog enabledProp).init es ↔
      (machine watchdog enabledProp).Each (fun _ _ s' => s'.Obeys)
        (machine watchdog enabledProp).init es := by
  have hinductive : (machine watchdog enabledProp).Inductive
      (fun s e => True ∧ s.KeepsOrder e) Ordered := {
    init := init_ordered watchdog enabledProp
    step := fun hs hC hstep => (hs.step_iff hstep).2 hC.2 }
  exact hinductive.guarded_iff_each
    (fun hs _ hstep => (hs.step_iff hstep).1) hinductive.init
    (guarded_true _ es) hrun

end Commanded

namespace ProfilerWitness

/-- The JSON mode is switched off again before the profiler is. -/
theorem disabled_is_off_json_between :
    (Profiler.machine true "on".toList).Each (fun _ _ s' => s'.Consistent)
      (Profiler.machine true "on".toList).init
      [.v8json true, .tick, .v8json false, .subsystem false,
        .callback .disable] :=
  (Profiler.disabled_is_off (t := _) rfl).2.mp (by decide)

/-- A profiler that was started with the timer and is stopped in JSON mode
runs again at the next tick. -/
theorem stopped_profiler_restarts :
    ¬ (∀ es t, (Profiler.machine true "on".toList).run
        (Profiler.machine true "on".toList).init es = some t →
          t.Consistent) ∧
      ∃ t, (Profiler.machine true "on".toList).run
        (Profiler.machine true "on".toList).init
          [.v8json true, .subsystem false, .callback .stopProfiler, .tick] =
            some t ∧
        t.enabled = false ∧ t.running = true ∧ t.timer = some 5000 := by
  refine ⟨fun h => ?_, _, rfl, rfl, rfl, rfl⟩
  have hconsistent := h [.v8json true, .subsystem false,
    .callback .stopProfiler, .tick] _ rfl
  exact absurd (hconsistent.off rfl).1 Bool.noConfusion

/-- Each command is served before the next one comes. -/
theorem last_command_wins_one_by_one :
    (Commanded.machine true "off".toList).Each (fun _ _ s' => s'.Obeys)
      (Commanded.machine true "off".toList).init
      [.message true, .turn, .tick, .message false, .turn, .message true,
        .message false, .turn] :=
  (Commanded.last_command_wins (t := _) rfl).mp (by decide)

/-- Off and on in one turn leave the profiler off. -/
theorem off_on_disables :
    ¬ (Commanded.machine true "on".toList).Each (fun _ _ s' => s'.Obeys)
        (Commanded.machine true "on".toList).init
        [.message false, .message true, .turn] := by
  intro h
  have hobeys := ((((h _ rfl).2 _ rfl).2) _ rfl).1
  have hon := (hobeys (fun h => by cases h <;> rfl) true rfl).1
  exact absurd hon Bool.noConfusion

end ProfilerWitness

end Appmetrics
