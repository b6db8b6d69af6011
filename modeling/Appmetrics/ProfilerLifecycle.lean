/-
nodeprofplugin.cpp from registration to stop: the core starts and stops the
plugin in turn, and the plugin publishes on its bus whether it is enabled.
-/
import Appmetrics.ProfilerMessages

namespace Appmetrics

open StepMachine

/-- The four asynchronous handles: not yet made, open, or closed by the last
stop.  A send to a handle that is not yet made ends the process, as libuv has
it on POSIX systems; one that is closed never calls back. -/
inductive PluginHandles
  | unset
  | opened
  | closed
deriving Repr, DecidableEq

/-- The plugin beside its profiler.  `registered` says that `plugin::api` has
been set, `openTimers` counts the timers that were
made and not closed, `strays` are the intervals of those that are active and
that `plugin::timer` no longer points to, `published` what was sent with
`agentSendMessage`. -/
structure ProfilerPlugin where
  registered : Bool
  profiler : Profiler
  handles : PluginHandles
  openTimers : Nat
  strays : List Nat
  published : List (String × String)
  crashed : Bool

namespace ProfilerPlugin

/-- Before the core registers the plugin. -/
def loaded (watchdog : Bool) : ProfilerPlugin where
  registered := false
  profiler := .registered watchdog []
  handles := .unset
  openTimers := 0
  strays := []
  published := []
  crashed := false

/-- The topic and the text of the message on whether the plugin is
enabled. -/
def configMessage (enabled : Bool) : String × String :=
  ("configuration/profiling_node",
    "profiling_node_subsystem=" ++ if enabled then "on" else "off")

def publishEnabled (s : ProfilerPlugin) : ProfilerPlugin :=
  { s with published := s.published ++ [configMessage s.profiler.enabled] }

/-- What is done to the profiler alone. -/
def onProfiler (f : Profiler → Profiler) (s : ProfilerPlugin) :
    ProfilerPlugin :=
  { s with profiler := f s.profiler }

/-- An assignment to `plugin::enabled`. -/
def assign (value : Bool) (s : ProfilerPlugin) : ProfilerPlugin :=
  s.onProfiler fun p => { p with enabled := value }

def startProfilerWithoutTiming (s : ProfilerPlugin) : ProfilerPlugin :=
  if s.profiler.enabled then s
  else (s.assign true).publishEnabled.onProfiler .startTheProfiler

def stopProfilerWithoutTiming (s : ProfilerPlugin) : ProfilerPlugin :=
  let s := s.onProfiler .collectData
  if s.profiler.enabled then (s.assign false).publishEnabled else s

def enableOnV8Thread (s : ProfilerPlugin) : ProfilerPlugin :=
  if s.profiler.enabled then s
  else (s.assign true).publishEnabled.onProfiler fun p =>
    p.startTheProfiler.startTimer

def disableOnV8Thread (s : ProfilerPlugin) : ProfilerPlugin :=
  if s.profiler.enabled then
    (s.assign false).publishEnabled.onProfiler fun p =>
      p.stopTimer.stopTheProfiler
  else s

def callback (s : ProfilerPlugin) : AsyncHandle → ProfilerPlugin
  | .startProfiler => s.startProfilerWithoutTiming
  | .enable => s.enableOnV8Thread
  | .stopProfiler => s.stopProfilerWithoutTiming
  | .disable => s.disableOnV8Thread

/-- `ibmras_monitoring_registerPushSource`. -/
def registerPushSource (enabledProp : List Char) (s : ProfilerPlugin) :
    ProfilerPlugin :=
  { s.assign (enabledProp = "on".toList) with registered := true }

/-- `ibmras_monitoring_plugin_start`. -/
def pluginStart (s : ProfilerPlugin) : ProfilerPlugin :=
  { s.publishEnabled with
    handles := .opened
    openTimers := s.openTimers + 1
    strays := s.strays ++ s.profiler.timer.toList
    profiler := Profiler.pluginStart
      { s.profiler with timer := none, pending := fun _ => false } }

/-- `ibmras_monitoring_plugin_stop` closes the timer of an enabled plugin
only. -/
def pluginStop (s : ProfilerPlugin) : ProfilerPlugin :=
  let s :=
    if s.profiler.enabled then
      { (s.assign false).onProfiler fun p => p.stopTimer.stopTheProfiler with
        openTimers := s.openTimers - 1 }
    else s
  { s.onProfiler fun p => { p with pending := fun _ => false } with
    handles := .closed }

/-- Whether a send is pending. -/
def sent (p : Profiler) : Bool :=
  p.pending .startProfiler || p.pending .enable || p.pending .stopProfiler ||
    p.pending .disable

def receiveMessage (id : String) (message : List Char)
    (s : ProfilerPlugin) : ProfilerPlugin :=
  let p := s.profiler.receiveMessage id message
  match s.handles with
  | .opened => { s with profiler := p }
  | .closed =>
      { s with profiler := { p with pending := s.profiler.pending } }
  | .unset => { s with profiler := p, crashed := sent p }

end ProfilerPlugin

/-- What the core, the loop and the threads that send messages do. -/
inductive PluginStep
  | registerPushSource (enabledProp : List Char)
  | start
  | stop
  | message (id : String) (message : List Char)
  | callback (h : AsyncHandle)
  | tick
  | strayTick (i : Nat)
deriving Repr, DecidableEq

namespace ProfilerPlugin

/-- The steps of a process that has not crashed.  The core registers a plugin
before it starts it or hands messages to it. -/
def liveStep (s : ProfilerPlugin) : PluginStep → Option ProfilerPlugin
  | .registerPushSource enabledProp =>
      if s.handles = .opened then none
      else some (s.registerPushSource enabledProp)
  | .start =>
      if s.registered = false ∨ s.handles = .opened then none
      else some s.pluginStart
  | .stop => if s.handles = .opened then some s.pluginStop else none
  | .message id message =>
      if s.registered then some (s.receiveMessage id message) else none
  | .callback h =>
      if s.handles = .opened ∧ s.profiler.pending h then
        some ((s.onProfiler fun p => p.clearPending h).callback h)
      else none
  | .tick => s.profiler.tick.map fun p => { s with profiler := p }
  | .strayTick i =>
      if i < s.strays.length then some (s.onProfiler .onGatherDataOnV8Thread)
      else none

def step (s : ProfilerPlugin) (e : PluginStep) : Option ProfilerPlugin :=
  if s.crashed then none else s.liveStep e

def machine (watchdog : Bool) : Machine ProfilerPlugin PluginStep where
  init := loaded watchdog
  step := step

end ProfilerPlugin

/-! ## What each step does -/

/-- A tick of the timer stops and starts V8's profiler at most. -/
theorem Profiler.onGatherDataOnV8Thread_frame (p : Profiler) :
    ∃ running, p.onGatherDataOnV8Thread = { p with running := running } := by
  unfold onGatherDataOnV8Thread collectData startTheProfiler stopTheProfiler
  split_ifs <;> exact ⟨_, rfl⟩

namespace ProfilerPlugin

/-- The second part of a control message. -/
def messageRest (message : List Char) : List Char :=
  if ',' ∈ message then message.drop ((upTo ',' message).length + 1)
  else message

variable {s s' : ProfilerPlugin} {e : PluginStep}

theorem callback_eq (s : ProfilerPlugin) (h : AsyncHandle) :
    s.callback h = { s with
      profiler := s.profiler.callback h
      published := s.published ++
        if s.profiler.enabled = h.enables then []
        else [configMessage h.enables] } := by
  cases henabled : s.profiler.enabled <;> cases h <;>
    simp [callback, startProfilerWithoutTiming, enableOnV8Thread,
      stopProfilerWithoutTiming, disableOnV8Thread, onProfiler, assign,
      publishEnabled, Profiler.callback, Profiler.startProfilerWithoutTiming,
      Profiler.enableOnV8Thread, Profiler.stopProfilerWithoutTiming,
      Profiler.disableOnV8Thread, Profiler.collectData,
      Profiler.stopTheProfiler, AsyncHandle.enables, henabled]

/-- A message changes neither what is enabled nor what runs. -/
theorem receiveMessage_frame (p : Profiler) (id : String)
    (message : List Char) :
    (p.receiveMessage id message).enabled = p.enabled ∧
      (p.receiveMessage id message).running = p.running ∧
      (p.receiveMessage id message).timer = p.timer := by
  by_cases hid : id = "profiling_node"
  · rw [hid, Profiler.receiveMessage_eq]
    generalize (if ',' ∈ message then _ else message) = rest
    unfold Profiler.dispatch
    split_ifs
    · obtain ⟨henabled, hrunning, htimer, _⟩ := p.setEnabled_spec _
      exact ⟨henabled, hrunning, htimer⟩
    · exact ⟨rfl, rfl, rfl⟩
    · exact ⟨rfl, rfl, rfl⟩
    · exact ⟨rfl, rfl, rfl⟩
  · rw [Profiler.receiveMessage, if_neg hid]
    exact ⟨rfl, rfl, rfl⟩

theorem receiveMessage_eq (s : ProfilerPlugin) (id : String)
    (message : List Char) : ∃ p : Profiler,
      s.receiveMessage id message = { s with
        profiler := p
        crashed := if s.handles = .unset then
          sent (s.profiler.receiveMessage id message) else s.crashed } ∧
      p.enabled = s.profiler.enabled ∧ p.running = s.profiler.running ∧
      p.timer = s.profiler.timer := by
  have hframe := receiveMessage_frame s.profiler id message
  cases hhandles : s.handles with
  | opened => exact ⟨_, by rw [receiveMessage, hhandles]; rfl, hframe⟩
  | closed =>
      exact ⟨{ s.profiler.receiveMessage id message with
          pending := s.profiler.pending },
        by rw [receiveMessage, hhandles]; rfl, hframe⟩
  | unset => exact ⟨_, by rw [receiveMessage, hhandles]; rfl, hframe⟩

theorem step_eq_some : s.step e = some s' ↔
    s.crashed = false ∧ s.liveStep e = some s' := by
  rw [step, Option.ite_none_left_eq_some, Bool.not_eq_true]

/-- A start publishes the state, and so does every change of it in a started
plugin, except by the stop. -/
def Publishes (s : ProfilerPlugin) (e : PluginStep) (s' : ProfilerPlugin) :
    Prop :=
  s'.published = s.published ++
    if e = .start ∨ (s.handles = .opened ∧ e ≠ .stop ∧
        s'.profiler.enabled ≠ s.profiler.enabled)
    then [configMessage s'.profiler.enabled] else []

/-- The stop closes the timer. -/
def ClosesTimer (s : ProfilerPlugin) (e : PluginStep) : Prop :=
  e = .stop → s.profiler.enabled = true

/-- `StopProfilerWithoutTiming` does not run while the timer is active. -/
def KeepsTimer (s : ProfilerPlugin) (e : PluginStep) : Prop :=
  e = .callback .stopProfiler → s.profiler.timer = none

/-- The message does not send to a handle that is not yet made. -/
def Prepared (s : ProfilerPlugin) : PluginStep → Prop
  | .message id message => s.handles = .unset → id = "profiling_node" →
      messageRest message ≠ ControlKey.subsystem.text
  | _ => True

instance (s : ProfilerPlugin) (e : PluginStep) :
    Decidable (s.ClosesTimer e) :=
  inferInstanceAs (Decidable (_ → _))

instance (s : ProfilerPlugin) (e : PluginStep) : Decidable (s.KeepsTimer e) :=
  inferInstanceAs (Decidable (_ → _))

structure Effect (s : ProfilerPlugin) (e : PluginStep)
    (s' : ProfilerPlugin) : Prop where
  handles : s'.handles =
    if e = .start then .opened else if e = .stop then .closed else s.handles
  published : s.Publishes e s'
  openTimers : s'.openTimers =
    if e = .start then s.openTimers + 1
    else if e = .stop ∧ s.profiler.enabled = true then s.openTimers - 1
    else s.openTimers

theorem step_effect (hstep : s.step e = some s') : s.Effect e s' := by
  obtain ⟨-, hstep⟩ := step_eq_some.mp hstep
  cases e with
  | registerPushSource enabledProp =>
      obtain ⟨hclosed, hs⟩ := Option.ite_none_left_eq_some.mp hstep
      cases hs
      exact {
        handles := rfl
        published := by
          simp [Publishes, hclosed, registerPushSource, assign, onProfiler]
        openTimers := rfl }
  | start =>
      obtain ⟨-, hs⟩ := Option.ite_none_left_eq_some.mp hstep
      cases hs
      have henabled : s.pluginStart.profiler.enabled = s.profiler.enabled := by
        simp only [pluginStart, Profiler.pluginStart]
        split <;> simp [Profiler.startTimer]
      exact {
        handles := rfl
        published := by
          rw [Publishes, if_pos (Or.inl rfl), henabled]
          rfl
        openTimers := rfl }
  | stop =>
      obtain ⟨hopened, hs⟩ := Option.ite_none_right_eq_some.mp hstep
      cases hs
      cases henabled : s.profiler.enabled with
      | true =>
          exact {
            handles := rfl
            published := by
              simp [Publishes, pluginStop, henabled, assign, onProfiler]
            openTimers := by simp [pluginStop, henabled, onProfiler] }
      | false =>
          exact {
            handles := rfl
            published := by
              simp [Publishes, pluginStop, henabled, onProfiler]
            openTimers := by simp [pluginStop, henabled, onProfiler] }
  | message id message =>
      obtain ⟨-, hs'⟩ := Option.ite_none_right_eq_some.mp hstep
      cases hs'
      obtain ⟨p, heq, henabled, -, -⟩ := s.receiveMessage_eq id message
      rw [heq]
      exact {
        handles := rfl
        published := by simp [Publishes, henabled]
        openTimers := rfl }
  | callback h =>
      obtain ⟨⟨hopened, hpending⟩, hs⟩ :=
        Option.ite_none_right_eq_some.mp hstep
      cases hs
      rw [callback_eq]
      exact {
        handles := rfl
        published := by
          by_cases heq : s.profiler.enabled = h.enables
          · simp [Publishes, onProfiler, Profiler.clearPending, heq]
          · simp [Publishes, onProfiler, Profiler.clearPending, heq, hopened,
              Ne.symm heq]
        openTimers := rfl }
  | tick =>
      obtain ⟨p, htick, rfl⟩ := Option.map_eq_some_iff.mp hstep
      obtain ⟨interval, htimer, rfl⟩ := Option.map_eq_some_iff.mp htick
      obtain ⟨running, hgather⟩ := s.profiler.onGatherDataOnV8Thread_frame
      rw [hgather]
      exact {
        handles := rfl
        published := by simp [Publishes]
        openTimers := rfl }
  | strayTick i =>
      obtain ⟨hi, hs⟩ := Option.ite_none_right_eq_some.mp hstep
      cases hs
      obtain ⟨running, hgather⟩ := s.profiler.onGatherDataOnV8Thread_frame
      rw [onProfiler, hgather]
      exact {
        handles := rfl
        published := by simp [Publishes]
        openTimers := rfl }

theorem opened_of_stop (hstep : s.step .stop = some s') :
    s.handles = .opened :=
  (Option.ite_none_right_eq_some.mp (step_eq_some.mp hstep).2).1

theorem closed_of_start (hstep : s.step .start = some s') :
    s.handles ≠ .opened := fun h =>
  (Option.ite_none_left_eq_some.mp (step_eq_some.mp hstep).2).1 (Or.inr h)

/-! ## Configuration messages and timers -/

/-- The last message tells what is the case, and the timer of a started plugin
is open. -/
structure Told (s : ProfilerPlugin) : Prop where
  last : s.handles = .opened →
    s.published.getLast? = some (configMessage s.profiler.enabled)
  timer : s.handles = .opened → 0 < s.openTimers

theorem loaded_told (watchdog : Bool) : (loaded watchdog).Told where
  last h := PluginHandles.noConfusion h
  timer h := PluginHandles.noConfusion h

theorem Told.step (hs : s.Told) (hstep : s.step e = some s') : s'.Told := by
  have heffect := step_effect hstep
  have hopened : s'.handles = .opened →
      e = .start ∨ (s.handles = .opened ∧ e ≠ .stop) := by
    intro h
    rw [heffect.handles] at h
    by_cases hstart : e = .start
    · exact Or.inl hstart
    · rw [if_neg hstart] at h
      split_ifs at h with hstop
      exact Or.inr ⟨h, hstop⟩
  constructor
  case last =>
    intro h
    rw [heffect.published]
    rcases hopened h with hstart | ⟨hbefore, hstop⟩
    · rw [if_pos (Or.inl hstart), List.getLast?_append]
      rfl
    · by_cases hsame : s'.profiler.enabled = s.profiler.enabled
      · have hstart : e ≠ .start := by
          rintro rfl
          rw [step_eq_some, liveStep, if_pos (Or.inr hbefore)] at hstep
          cases hstep.2
        have hnot : ¬(e = .start ∨ (s.handles = .opened ∧ e ≠ .stop ∧
            s'.profiler.enabled ≠ s.profiler.enabled)) := by
          rintro (h | ⟨_, _, h⟩)
          · exact hstart h
          · exact h hsame
        rw [if_neg hnot, List.append_nil, hs.last hbefore, hsame]
      · rw [if_pos (Or.inr ⟨hbefore, hstop, hsame⟩), List.getLast?_append]
        rfl
  case timer =>
    intro h
    rw [heffect.openTimers]
    rcases hopened h with hstart | ⟨hbefore, hstop⟩
    · rw [if_pos hstart]
      exact Nat.succ_pos _
    · have htimer := hs.timer hbefore
      split_ifs with hstart hclosed
      · exact Nat.succ_pos _
      · exact absurd hclosed.1 hstop
      · exact htimer

theorem told (watchdog : Bool) :
    (machine watchdog).Inductive (fun _ _ => True) Told where
  init := loaded_told watchdog
  step hs _ hstep := hs.step hstep

/-- How many timers no stop will close any more. -/
def leaked (s : ProfilerPlugin) : Nat :=
  s.openTimers - if s.handles = .opened then 1 else 0

theorem Told.step_leaked (hs : s.Told) (hstep : s.step e = some s') :
    s.leaked ≤ s'.leaked ∧ (s'.leaked = s.leaked ↔ s.ClosesTimer e) := by
  have heffect := step_effect hstep
  unfold leaked ClosesTimer
  rw [heffect.handles, heffect.openTimers]
  by_cases hstart : e = .start
  · subst hstart
    have hclosed := closed_of_start hstep
    simp [hclosed]
  · by_cases hstop : e = .stop
    · subst hstop
      have hopened := opened_of_stop hstep
      have htimer := hs.timer hopened
      cases henabled : s.profiler.enabled
      · simp [hopened]
        omega
      · simp [hopened]
    · simp [hstart, hstop]

theorem sent_setEnabled (p : Profiler) (value : Bool) :
    sent (p.setEnabled value) = true := by
  cases value <;> cases hjson : p.jsonEnabled <;>
    simp [sent, Profiler.setEnabled, Profiler.asyncSend, hjson]

/-- Only a subsystem command sends to a handle. -/
theorem sent_receiveMessage {p : Profiler} (hp : sent p = false)
    (id : String) (message : List Char) :
    sent (p.receiveMessage id message) = false ↔
      (id = "profiling_node" →
        messageRest message ≠ ControlKey.subsystem.text) := by
  by_cases hid : id = "profiling_node"
  · rw [hid, Profiler.receiveMessage_eq, forall_prop_of_true rfl]
    change sent (p.dispatch _ (messageRest message)) = false ↔ _
    by_cases hrest : messageRest message = ControlKey.subsystem.text
    · refine iff_of_false ?_ (fun h => h hrest)
      rw [Profiler.dispatch, if_pos hrest, sent_setEnabled]
      exact Bool.noConfusion
    · refine iff_of_true ?_ hrest
      rw [Profiler.dispatch, if_neg hrest]
      split_ifs
      · exact hp
      · exact hp
      · exact hp
  · rw [Profiler.receiveMessage, if_neg hid]
    exact iff_of_true hp fun h => absurd h hid

/-- Nothing is pending before there are handles. -/
def Idle (s : ProfilerPlugin) : Prop :=
  s.crashed = false → s.handles = .unset → sent s.profiler = false

theorem Idle.step (hs : s.Idle) (hstep : s.step e = some s') :
    s'.Idle ∧ (s'.crashed = false ↔ s.Prepared e) := by
  have hhandles := (step_effect hstep).handles
  obtain ⟨hlive, hstep⟩ := step_eq_some.mp hstep
  cases e with
  | registerPushSource enabledProp =>
      obtain ⟨-, hs'⟩ := Option.ite_none_left_eq_some.mp hstep
      cases hs'
      exact ⟨hs, iff_of_true hlive trivial⟩
  | start =>
      obtain ⟨-, hs'⟩ := Option.ite_none_left_eq_some.mp hstep
      cases hs'
      exact ⟨fun _ h => PluginHandles.noConfusion h, iff_of_true hlive trivial⟩
  | stop =>
      obtain ⟨-, hs'⟩ := Option.ite_none_right_eq_some.mp hstep
      cases hs'
      have hcrashed : s.pluginStop.crashed = s.crashed := by
        unfold pluginStop
        dsimp only
        split <;> rfl
      refine ⟨fun _ h => ?_, iff_of_true (hcrashed.trans hlive) trivial⟩
      exact absurd (h.symm.trans hhandles) PluginHandles.noConfusion
  | message id message =>
      obtain ⟨-, hs'⟩ := Option.ite_none_right_eq_some.mp hstep
      cases hs'
      by_cases hunset : s.handles = .unset
      · have heq : s.receiveMessage id message = { s with
            profiler := s.profiler.receiveMessage id message
            crashed := sent (s.profiler.receiveMessage id message) } := by
          rw [receiveMessage, hunset]
        rw [heq]
        refine ⟨fun h _ => h, ?_⟩
        rw [sent_receiveMessage (hs hlive hunset), Prepared,
          forall_prop_of_true hunset]
      · obtain ⟨p, heq, -⟩ := s.receiveMessage_eq id message
        rw [heq, if_neg hunset]
        exact ⟨fun _ h => absurd h hunset,
          iff_of_true hlive fun h => absurd h hunset⟩
  | callback h =>
      obtain ⟨⟨hopened, -⟩, hs'⟩ := Option.ite_none_right_eq_some.mp hstep
      cases hs'
      rw [callback_eq]
      refine ⟨fun _ h => ?_, iff_of_true hlive trivial⟩
      exact absurd (h.symm.trans hopened) PluginHandles.noConfusion
  | tick =>
      obtain ⟨p, htick, rfl⟩ := Option.map_eq_some_iff.mp hstep
      obtain ⟨interval, htimer, rfl⟩ := Option.map_eq_some_iff.mp htick
      obtain ⟨running, hgather⟩ := s.profiler.onGatherDataOnV8Thread_frame
      rw [hgather]
      exact ⟨hs, iff_of_true hlive trivial⟩
  | strayTick i =>
      obtain ⟨-, hs'⟩ := Option.ite_none_right_eq_some.mp hstep
      cases hs'
      obtain ⟨running, hgather⟩ := s.profiler.onGatherDataOnV8Thread_frame
      rw [onProfiler, hgather]
      exact ⟨hs, iff_of_true hlive trivial⟩

/-! ## What still runs after a stop -/

/-- Neither V8's profiler nor a timer is active while the plugin is disabled
or stopped, and no timer is forgotten. -/
structure Quiet (s : ProfilerPlugin) : Prop where
  off : s.profiler.enabled = false ∨ s.handles ≠ .opened →
    s.profiler.running = false ∧ s.profiler.timer = none
  strays : s.strays = []

theorem loaded_quiet (watchdog : Bool) : (loaded watchdog).Quiet :=
  ⟨fun _ => ⟨rfl, rfl⟩, rfl⟩

/-- Of the callbacks only `StopProfilerWithoutTiming` can leave a timer to a
disabled plugin. -/
theorem callback_off_iff {p : Profiler}
    (hp : p.enabled = false → p.running = false ∧ p.timer = none)
    (h : AsyncHandle) :
    ((p.callback h).enabled = false →
      (p.callback h).running = false ∧ (p.callback h).timer = none) ↔
      (h = .stopProfiler → p.timer = none) := by
  rw [Profiler.callback_enabled]
  cases henabled : p.enabled with
  | false =>
      obtain ⟨hrunning, htimer⟩ := hp henabled
      cases h <;>
        simp [AsyncHandle.enables, Profiler.callback,
          Profiler.stopProfilerWithoutTiming, Profiler.collectData,
          Profiler.disableOnV8Thread, henabled, hrunning, htimer]
  | true =>
      cases h <;>
        simp [AsyncHandle.enables, Profiler.callback,
          Profiler.stopProfilerWithoutTiming, Profiler.collectData,
          Profiler.disableOnV8Thread, Profiler.stopTheProfiler,
          Profiler.stopTimer, henabled]

theorem Quiet.step_iff (hs : s.Quiet) (hstep : s.step e = some s') :
    s.KeepsTimer e ↔ s'.Quiet := by
  have hstarts : e = .start → s.handles ≠ .opened := by
    rintro rfl
    exact closed_of_start hstep
  obtain ⟨-, hstep⟩ := step_eq_some.mp hstep
  cases e with
  | registerPushSource enabledProp =>
      obtain ⟨hclosed, hs'⟩ := Option.ite_none_left_eq_some.mp hstep
      cases hs'
      exact iff_of_true (fun h => by cases h)
        ⟨fun _ => hs.off (Or.inr hclosed), hs.strays⟩
  | start =>
      obtain ⟨-, hs'⟩ := Option.ite_none_left_eq_some.mp hstep
      cases hs'
      obtain ⟨hrunning, htimer⟩ := hs.off (Or.inr (hstarts rfl))
      refine iff_of_true (fun h => by cases h) ⟨fun hoff => ?_, ?_⟩
      · have hdisabled := hoff.resolve_right (absurd rfl)
        cases henabled : s.profiler.enabled with
        | true =>
            simp [pluginStart, Profiler.pluginStart, henabled,
              Profiler.startTimer] at hdisabled
        | false =>
            simp [pluginStart, Profiler.pluginStart, henabled, hrunning]
      · simp [pluginStart, htimer, hs.strays]
  | stop =>
      obtain ⟨-, hs'⟩ := Option.ite_none_right_eq_some.mp hstep
      cases hs'
      refine iff_of_true (fun h => by cases h) ?_
      cases henabled : s.profiler.enabled with
      | true =>
          constructor
          · intro _
            simp [pluginStop, henabled, onProfiler, Profiler.stopTheProfiler,
              Profiler.stopTimer]
          · simp [pluginStop, henabled, onProfiler, assign, hs.strays]
      | false =>
          obtain ⟨hrunning, htimer⟩ := hs.off (Or.inl henabled)
          constructor
          · intro _
            simp [pluginStop, henabled, onProfiler, hrunning, htimer]
          · simp [pluginStop, henabled, onProfiler, hs.strays]
  | message id message =>
      obtain ⟨-, hs'⟩ := Option.ite_none_right_eq_some.mp hstep
      cases hs'
      obtain ⟨p, heq, henabled, hrunning, htimer⟩ :=
        s.receiveMessage_eq id message
      rw [heq]
      refine iff_of_true (fun h => by cases h) ⟨fun hoff => ?_, hs.strays⟩
      dsimp only at hoff ⊢
      rw [henabled] at hoff
      rw [hrunning, htimer]
      exact hs.off hoff
  | callback h =>
      obtain ⟨⟨hopened, -⟩, hs'⟩ := Option.ite_none_right_eq_some.mp hstep
      cases hs'
      rw [callback_eq]
      have hiff := callback_off_iff (p := s.profiler.clearPending h)
        (fun hoff => hs.off (Or.inl hoff)) h
      have hkeeps : s.KeepsTimer (.callback h) ↔
          (h = .stopProfiler → (s.profiler.clearPending h).timer = none) := by
        simp [KeepsTimer, Profiler.clearPending]
      rw [hkeeps, ← hiff]
      constructor
      · intro hoff
        exact ⟨fun h => hoff (h.resolve_right (absurd hopened)), hs.strays⟩
      · exact fun hquiet hoff => hquiet.off (Or.inl hoff)
  | tick =>
      obtain ⟨p, htick, rfl⟩ := Option.map_eq_some_iff.mp hstep
      obtain ⟨interval, htimer, rfl⟩ := Option.map_eq_some_iff.mp htick
      obtain ⟨running, hgather⟩ := s.profiler.onGatherDataOnV8Thread_frame
      have hon : ¬(s.profiler.enabled = false ∨ s.handles ≠ .opened) := by
        intro hoff
        rw [(hs.off hoff).2] at htimer
        cases htimer
      rw [hgather]
      exact iff_of_true (fun h => by cases h)
        ⟨fun hoff => absurd hoff hon, hs.strays⟩
  | strayTick i =>
      obtain ⟨hi, -⟩ := Option.ite_none_right_eq_some.mp hstep
      rw [hs.strays] at hi
      exact absurd hi (Nat.not_lt_zero i)

end ProfilerPlugin

/-- Over every run of the plugin, also over several starts: the process ends
exactly if a subsystem command comes before the first start; while the plugin
is started, its last configuration message tells whether it is enabled, and
one is sent at each start and at each change of this, and no other. -/
theorem config_messages {watchdog : Bool} {es : List PluginStep}
    {s : ProfilerPlugin}
    (hrun : (ProfilerPlugin.machine watchdog).run
      (ProfilerPlugin.loaded watchdog) es = some s) :
    (s.handles = .opened → s.published.getLast? =
      some (ProfilerPlugin.configMessage s.profiler.enabled)) ∧
    (ProfilerPlugin.machine watchdog).Each ProfilerPlugin.Publishes
      (ProfilerPlugin.loaded watchdog) es ∧
    (s.crashed = false ↔ (ProfilerPlugin.machine watchdog).Guarded
      ProfilerPlugin.Prepared (ProfilerPlugin.loaded watchdog) es) := by
  have htold := ProfilerPlugin.told watchdog
  have hidle : (ProfilerPlugin.machine watchdog).Inductive
      (fun _ _ => True) ProfilerPlugin.Idle := {
    init := fun _ _ => rfl
    step := fun hs _ hstep => (hs.step hstep).1 }
  refine ⟨(htold.run (guarded_true _ es) hrun).last, ?_, ?_⟩
  · exact htold.each (fun _ _ hstep =>
      (ProfilerPlugin.step_effect hstep).published) (guarded_true _ es)
  · have hcount := hidle.count_eq_iff_guarded (fun s => s.crashed.toNat)
      (C := ProfilerPlugin.Prepared) (fun {s e s'} hs hstep => by
        have hlive := (ProfilerPlugin.step_eq_some.mp hstep).1
        rw [hlive, ← (hs.step hstep).2]
        exact ⟨Nat.zero_le _, Bool.toNat_eq_zero⟩) hidle.init hrun
    refine Iff.trans ?_ hcount.2
    exact Bool.toNat_eq_zero.symm

/-- Over every such run: every timer that was made is closed again, but for
that of a started plugin, exactly if each stop finds the plugin enabled; and
while it is disabled or stopped, V8's profiler and all timers, also those of
earlier starts, are off in each state exactly if `StopProfilerWithoutTiming`
is never called with the timer active. -/
theorem plugin_timers {watchdog : Bool} {es : List PluginStep}
    {s : ProfilerPlugin}
    (hrun : (ProfilerPlugin.machine watchdog).run
      (ProfilerPlugin.loaded watchdog) es = some s) :
    (s.openTimers = (if s.handles = .opened then 1 else 0) ↔
      (ProfilerPlugin.machine watchdog).Guarded ProfilerPlugin.ClosesTimer
        (ProfilerPlugin.loaded watchdog) es) ∧
    ((ProfilerPlugin.machine watchdog).Guarded ProfilerPlugin.KeepsTimer
        (ProfilerPlugin.loaded watchdog) es ↔
      (ProfilerPlugin.machine watchdog).Each (fun _ _ s' => s'.Quiet)
        (ProfilerPlugin.loaded watchdog) es) := by
  have htold := ProfilerPlugin.told watchdog
  have hquiet : (ProfilerPlugin.machine watchdog).Inductive
      (fun s e => True ∧ s.KeepsTimer e) ProfilerPlugin.Quiet := {
    init := ProfilerPlugin.loaded_quiet watchdog
    step := fun hs hC hstep => (hs.step_iff hstep).mp hC.2 }
  constructor
  · have hcount := htold.count_eq_iff_guarded ProfilerPlugin.leaked
      (C := ProfilerPlugin.ClosesTimer)
      (fun hs hstep => hs.step_leaked hstep) htold.init hrun
    have htimer := (htold.run (guarded_true _ es) hrun).timer
    refine Iff.trans ?_ hcount.2
    change _ ↔ s.openTimers - _ = 0
    split_ifs with hopened
    · have hpos := htimer hopened
      omega
    · omega
  · exact hquiet.guarded_iff_each (fun hs _ hstep => hs.step_iff hstep)
      hquiet.init (guarded_true _ es) hrun

namespace ProfilerLifecycleWitness

/-- The plugin is started, switched off and stopped, and started again. -/
def restarted : List PluginStep :=
  [.registerPushSource "on".toList, .start, .tick,
    .message "profiling_node" (controlMessage "profiling_node_subsystem" false),
    .callback .disable, .stop, .start,
    .message "profiling_node" (controlMessage "profiling_node_subsystem" true),
    .callback .enable, .tick]

theorem restarted_runs : ((ProfilerPlugin.machine true).run
    (ProfilerPlugin.loaded true) restarted).isSome := by
  decide +kernel

theorem config_messages_restarted :
    ∃ s, (ProfilerPlugin.machine true).run (ProfilerPlugin.loaded true)
        restarted = some s ∧
      (s.handles = .opened → s.published.getLast? =
        some (ProfilerPlugin.configMessage s.profiler.enabled)) := by
  obtain ⟨s, hrun⟩ := Option.isSome_iff_exists.mp restarted_runs
  exact ⟨s, hrun, (config_messages hrun).1⟩

/-- The first stop leaves a timer open, but nothing runs. -/
theorem plugin_timers_restarted :
    ∃ s, (ProfilerPlugin.machine true).run (ProfilerPlugin.loaded true)
        restarted = some s ∧
      s.openTimers ≠ (if s.handles = .opened then 1 else 0) ∧
      (ProfilerPlugin.machine true).Each (fun _ _ s' => s'.Quiet)
        (ProfilerPlugin.loaded true) restarted := by
  obtain ⟨s, hrun⟩ := Option.isSome_iff_exists.mp restarted_runs
  obtain ⟨htimers, hquiet⟩ := plugin_timers hrun
  exact ⟨s, hrun, fun h => absurd (htimers.mp h) (by decide +kernel),
    hquiet.mp (by decide +kernel)⟩

end ProfilerLifecycleWitness

end Appmetrics
