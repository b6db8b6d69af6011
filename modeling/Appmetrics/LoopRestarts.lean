/-
The event loop plugin of src/plugins/node/loop/nodeloopplugin.cpp when it is
started and stopped again and again: libuv runs its prepare and its check
handles in turn, and calls the plugin only between a start and a stop.  What
is kept beside the statics says when the plugin ran, and how much of the
measured ticks lies before its last start.
-/
import Appmetrics.LoopStatistics
import Appmetrics.Machine

namespace Appmetrics

open StepMachine

/-- `uv_hrtime()`, and the CPU times of the thread in milliseconds. -/
structure Clocks where
  hrtime : Nat
  cpuUser : Nat
  cpuSys : Nat
deriving Repr, DecidableEq

/-- None of the clocks goes back, and each fits its `uint64_t`. -/
structure Clocks.Advance (c c' : Clocks) : Prop where
  hrtime : c.hrtime ≤ c'.hrtime
  cpuUser : c.cpuUser ≤ c'.cpuUser
  cpuSys : c.cpuSys ≤ c'.cpuSys
  fits : c'.hrtime < 2 ^ 64 ∧ c'.cpuUser < 2 ^ 64 ∧ c'.cpuSys < 2 ^ 64

instance (c c' : Clocks) : Decidable (c.Advance c') :=
  decidable_of_iff
    ((c.hrtime ≤ c'.hrtime ∧ c.cpuUser ≤ c'.cpuUser ∧ c.cpuSys ≤ c'.cpuSys) ∧
      c'.hrtime < 2 ^ 64 ∧ c'.cpuUser < 2 ^ 64 ∧ c'.cpuSys < 2 ^ 64)
    ⟨fun h => ⟨h.1.1, h.1.2.1, h.1.2.2, h.2⟩,
      fun h => ⟨⟨h.hrtime, h.cpuUser, h.cpuSys⟩, h.fits⟩⟩

/-- What `last_cpu_user`, `last_cpu_sys` and `last_cpu_ts` are set to. -/
def Clocks.reading (c : Clocks) : CpuReading :=
  ⟨c.cpuUser, c.cpuSys, c.hrtime / (1000 * 1000)⟩

inductive LoopAction
  | start
  | stop
  | prepare
  | check
  | timer
deriving Repr, DecidableEq

structure LoopCall where
  clocks : Clocks
  action : LoopAction
deriving Repr, DecidableEq

/-- The plugin in its process.  `earlier` are the reports before the last
start, `preparing` says that the loop comes to its prepare handles before it
comes to its check handles, and `paused` is what of the measured ticks lies
before the last start, from where they began. -/
structure LoopProcess where
  plugin : LoopPlugin
  started : Bool
  preparing : Bool
  clocks : Clocks
  startedAt : Nat
  startCpu : CpuReading
  earlier : List LoopReport
  uptime : Nat
  paused : Nat
deriving Repr, DecidableEq

/-- `OnPrepare` adds a tick. -/
def LoopPlugin.Measures (s : LoopPlugin) (hrtime : Nat) : Prop :=
  s.tickStart ≠ 0 ∧ s.tickStart ≤ hrtime

instance (s : LoopPlugin) (hrtime : Nat) : Decidable (s.Measures hrtime) :=
  inferInstanceAs (Decidable (_ ∧ _))

/-- `ibmras_monitoring_plugin_start` sets nothing but what the CPU times are
counted from. -/
def LoopPlugin.start (s : LoopPlugin) (cpu : CpuReading) : LoopPlugin :=
  { s with lastCpu := cpu }

namespace LoopProcess

def initial (clocks : Clocks) : LoopProcess :=
  { plugin := .initial
    started := false
    preparing := true
    clocks := clocks
    startedAt := 0
    startCpu := ⟨0, 0, 0⟩
    earlier := []
    uptime := 0
    paused := 0 }

/-- Time passes. -/
def wait (s : LoopProcess) (clocks : Clocks) : LoopProcess :=
  { s with
    clocks := clocks
    uptime := if s.started then s.uptime + (clocks.hrtime - s.clocks.hrtime)
      else s.uptime }

/-- Starting the handles again while they are active does nothing. -/
def start (s : LoopProcess) : LoopProcess :=
  { s with
    plugin := s.plugin.start s.clocks.reading
    started := true
    startedAt := if s.started then s.startedAt else s.clocks.hrtime
    startCpu := s.clocks.reading
    earlier := s.plugin.reports }

def stop (s : LoopProcess) : LoopProcess := { s with started := false }

def prepare (s : LoopProcess) : LoopProcess :=
  if s.started then
    { s with
      plugin := s.plugin.onPrepare s.clocks.hrtime
      preparing := false
      paused := if s.plugin.Measures s.clocks.hrtime then
        s.paused + (s.startedAt - s.plugin.tickStart) else s.paused }
  else { s with preparing := false }

def check (s : LoopProcess) : LoopProcess :=
  if s.started then
    { s with
      plugin := s.plugin.onCheck s.clocks.hrtime
      preparing := true }
  else { s with preparing := true }

def timer (s : LoopProcess) : LoopProcess :=
  { s with plugin := s.plugin.getLoopInformation s.clocks.reading }

/-- The loop runs its two kinds of handles in turn, and the timer only while
it is started. -/
def Enabled (s : LoopProcess) : LoopAction → Prop
  | .start => True
  | .stop => True
  | .prepare => s.preparing = true
  | .check => s.preparing = false
  | .timer => s.started = true

instance (s : LoopProcess) (a : LoopAction) : Decidable (s.Enabled a) :=
  match a with
  | .start => isTrue trivial
  | .stop => isTrue trivial
  | .prepare => inferInstanceAs (Decidable (_ = _))
  | .check => inferInstanceAs (Decidable (_ = _))
  | .timer => inferInstanceAs (Decidable (_ = _))

def act (s : LoopProcess) : LoopAction → LoopProcess
  | .start => s.start
  | .stop => s.stop
  | .prepare => s.prepare
  | .check => s.check
  | .timer => s.timer

def step (s : LoopProcess) (e : LoopCall) : Option LoopProcess :=
  if s.clocks.Advance e.clocks ∧ s.Enabled e.action then
    some ((s.wait e.clocks).act e.action)
  else none

end LoopProcess

def loopMachine (clocks : Clocks) : Machine LoopProcess LoopCall where
  init := .initial clocks
  step := LoopProcess.step

/-- The CPU times at the end of a report's interval, from those at its
start. -/
def CpuReading.after (cpu : CpuReading) (r : LoopReport) : CpuReading :=
  ⟨cpu.cpuUser + r.cpuUser, cpu.cpuSys + r.cpuSys, cpu.cpuTs + r.cpuDuration⟩

structure CpuReading.Le (a b : CpuReading) : Prop where
  cpuUser : a.cpuUser ≤ b.cpuUser
  cpuSys : a.cpuSys ≤ b.cpuSys
  cpuTs : a.cpuTs ≤ b.cpuTs

/-- The ticks in the reports and in the statics, in nanoseconds. -/
def LoopPlugin.ticked (s : LoopPlugin) : Nat :=
  (s.reports.map fun r => r.ticks.sum).sum + s.ticks.sum

/-- A measured tick began after the plugin was started. -/
def LoopProcess.Within (s : LoopProcess) (e : LoopCall) : Prop :=
  e.action = .prepare → s.started = true →
    s.plugin.Measures e.clocks.hrtime → s.startedAt ≤ s.plugin.tickStart

/-- Doubles count the nanoseconds of the ticks since the last report exactly;
a sum of 2^53 takes 104 days without one. -/
def LoopProcess.Counts (s : LoopProcess) (e : LoopCall) : Prop :=
  e.action = .prepare → s.started = true →
    s.plugin.Measures e.clocks.hrtime →
      s.plugin.ticks.sum + (e.clocks.hrtime - s.plugin.tickStart) < 2 ^ 53

instance (s : LoopProcess) (e : LoopCall) : Decidable (s.Counts e) :=
  inferInstanceAs (Decidable (_ → _ → _ → _))

/-- The plugin is started while the loop is between its prepare and its check
handles, or before its first tick. -/
def LoopProcess.StartsInPoll (s : LoopProcess) (e : LoopCall) : Prop :=
  e.action = .start →
    s.started = true ∨ s.preparing = false ∨ s.plugin.tickStart = 0

instance (s : LoopProcess) (e : LoopCall) : Decidable (s.StartsInPoll e) :=
  inferInstanceAs (Decidable (_ → _))

/-! ## CPU times -/

theorem LoopPlugin.since_of_le {now last : Nat} (hle : last ≤ now)
    (hnow : now < 2 ^ 64) : LoopPlugin.since now last = now - last := by
  unfold LoopPlugin.since
  omega

theorem Clocks.Advance.reading {c c' : Clocks} (hadvance : c.Advance c') :
    c.reading.Le c'.reading :=
  ⟨hadvance.cpuUser, hadvance.cpuSys,
    Nat.div_le_div_right hadvance.hrtime⟩

theorem CpuReading.Le.trans {a b c : CpuReading} (hab : a.Le b)
    (hbc : b.Le c) : a.Le c :=
  ⟨hab.cpuUser.trans hbc.cpuUser, hab.cpuSys.trans hbc.cpuSys,
    hab.cpuTs.trans hbc.cpuTs⟩

theorem LoopPlugin.getLoopInformation_of_num {s : LoopPlugin}
    {cpu : CpuReading} (hnum : s.ticks.num = 0) :
    s.getLoopInformation cpu = s := by
  rw [LoopPlugin.getLoopInformation, if_neg (not_not.mpr hnum)]

/-- A report continues where the reading before ended. -/
theorem LoopPlugin.getLoopInformation_after {s : LoopPlugin} {c : Clocks}
    (hnum : s.ticks.num ≠ 0) (hle : s.lastCpu.Le c.reading)
    (hfits : c.hrtime < 2 ^ 64 ∧ c.cpuUser < 2 ^ 64 ∧ c.cpuSys < 2 ^ 64) :
    ∃ r, (s.getLoopInformation c.reading).reports = s.reports ++ [r] ∧
      s.lastCpu.after r = c.reading ∧
      (s.getLoopInformation c.reading).lastCpu = c.reading := by
  have hts : c.reading.cpuTs < 2 ^ 64 :=
    (Nat.div_le_self _ _).trans_lt hfits.1
  rw [LoopPlugin.getLoopInformation, if_pos hnum]
  refine ⟨_, rfl, ?_, rfl⟩
  have huser := since_of_le hle.cpuUser hfits.2.1
  have hsys := since_of_le hle.cpuSys hfits.2.2
  have hduration := since_of_le hle.cpuTs hts
  rw [CpuReading.after]
  dsimp only
  rw [huser, hsys, hduration, Nat.add_sub_cancel' hle.cpuUser,
    Nat.add_sub_cancel' hle.cpuSys, Nat.add_sub_cancel' hle.cpuTs]

theorem LoopPlugin.onPrepare_frame (s : LoopPlugin) (hrtime : Nat) :
    (s.onPrepare hrtime).reports = s.reports ∧
      (s.onPrepare hrtime).lastCpu = s.lastCpu ∧
      (s.onPrepare hrtime).tickStart = s.tickStart := by
  unfold LoopPlugin.onPrepare
  split_ifs <;> exact ⟨rfl, rfl, rfl⟩

namespace LoopProcess

/-- The reports since the start lead from the reading at the start to the
last one. -/
structure Continues (s : LoopProcess) : Prop where
  reports : ∃ session, s.plugin.reports = s.earlier ++ session ∧
    session.foldl CpuReading.after s.startCpu = s.plugin.lastCpu
  last : s.plugin.lastCpu.Le s.clocks.reading

theorem initial_continues (clocks : Clocks) : (initial clocks).Continues where
  reports := ⟨[], rfl, rfl⟩
  last := ⟨Nat.zero_le _, Nat.zero_le _, Nat.zero_le _⟩

theorem step_eq_some {s s' : LoopProcess} {e : LoopCall}
    (hstep : s.step e = some s') :
    s.clocks.Advance e.clocks ∧ s.Enabled e.action ∧
      s' = (s.wait e.clocks).act e.action := by
  obtain ⟨⟨hadvance, henabled⟩, hs'⟩ := Option.ite_none_right_eq_some.mp hstep
  exact ⟨hadvance, henabled, (Option.some.inj hs').symm⟩

theorem Continues.wait {s : LoopProcess} (hs : s.Continues) {c : Clocks}
    (hadvance : s.clocks.Advance c) : (s.wait c).Continues where
  reports := hs.reports
  last := hs.last.trans hadvance.reading

/-- Callbacks that leave the reports and the last reading alone. -/
theorem Continues.of_eq {s s' : LoopProcess} (hs : s.Continues)
    (hreports : s'.plugin.reports = s.plugin.reports)
    (hlast : s'.plugin.lastCpu = s.plugin.lastCpu)
    (hearlier : s'.earlier = s.earlier) (hstart : s'.startCpu = s.startCpu)
    (hclocks : s'.clocks = s.clocks) : s'.Continues where
  reports := by
    rw [hreports, hlast, hearlier, hstart]
    exact hs.reports
  last := by
    rw [hlast, hclocks]
    exact hs.last

theorem Continues.act {s : LoopProcess} (hs : s.Continues)
    (hfits : s.clocks.hrtime < 2 ^ 64 ∧ s.clocks.cpuUser < 2 ^ 64 ∧
      s.clocks.cpuSys < 2 ^ 64) (a : LoopAction) : (s.act a).Continues := by
  cases a with
  | start =>
      exact ⟨⟨[], (List.append_nil _).symm, rfl⟩,
        ⟨le_rfl, le_rfl, le_rfl⟩⟩
  | stop => exact hs.of_eq rfl rfl rfl rfl rfl
  | prepare =>
      have hframe := s.plugin.onPrepare_frame s.clocks.hrtime
      change s.prepare.Continues
      unfold LoopProcess.prepare
      split
      · exact hs.of_eq hframe.1 hframe.2.1 rfl rfl rfl
      · exact hs.of_eq rfl rfl rfl rfl rfl
  | check =>
      change s.check.Continues
      unfold LoopProcess.check
      split
      · exact hs.of_eq rfl rfl rfl rfl rfl
      · exact hs.of_eq rfl rfl rfl rfl rfl
  | timer =>
      change s.timer.Continues
      by_cases hnum : s.plugin.ticks.num = 0
      · rw [LoopProcess.timer, LoopPlugin.getLoopInformation_of_num hnum]
        exact hs
      · obtain ⟨session, hreports, hsession⟩ := hs.reports
        obtain ⟨r, hr, hafter, hlast⟩ :=
          LoopPlugin.getLoopInformation_after hnum hs.last hfits
        refine ⟨⟨session ++ [r], ?_, ?_⟩, ?_⟩
        · change (s.plugin.getLoopInformation _).reports = s.earlier ++ _
          rw [hr, hreports, List.append_assoc]
        · change (session ++ [r]).foldl CpuReading.after s.startCpu =
            (s.plugin.getLoopInformation _).lastCpu
          rw [List.foldl_append, hsession, List.foldl_cons, List.foldl_nil]
          exact hafter.trans hlast.symm
        · change (s.plugin.getLoopInformation _).lastCpu.Le _
          rw [hlast]
          exact ⟨le_rfl, le_rfl, le_rfl⟩

theorem continues (clocks : Clocks) :
    (loopMachine clocks).Inductive (fun _ _ => True) Continues where
  init := initial_continues clocks
  step hs _ hstep := by
    obtain ⟨hadvance, -, rfl⟩ := step_eq_some hstep
    exact (hs.wait hadvance).act hadvance.fits _

end LoopProcess

/-! ## Ticks -/

theorem Ticks.Exact.add {t : Ticks} (ht : t.Exact) {ticked : Nat}
    (hsum : t.sum + ticked < 2 ^ 53) :
    (t.add ticked).Exact ∧ (t.add ticked).sum = t.sum + ticked := by
  rw [Ticks.add_eq ht hsum]
  have hmin := ht.min
  have hmax := ht.max
  refine ⟨⟨?_, ?_, hsum⟩, rfl⟩
  · dsimp only
    omega
  · dsimp only
    omega

namespace LoopPlugin

theorem onPrepare_ticked {s : LoopPlugin} (hs : s.ticks.Exact) {hrtime : Nat}
    (hmeasures : s.Measures hrtime)
    (hsum : s.ticks.sum + (hrtime - s.tickStart) < 2 ^ 53) :
    (s.onPrepare hrtime).ticks.Exact ∧
      (s.onPrepare hrtime).ticked = s.ticked + (hrtime - s.tickStart) := by
  unfold ticked
  obtain ⟨hexact, hadd⟩ := hs.add hsum
  rw [onPrepare_of_tick hmeasures]
  refine ⟨hexact, ?_⟩
  dsimp only
  rw [hadd, Nat.add_assoc]

/-- A report takes the ticks out of the statics. -/
theorem getLoopInformation_ticked (s : LoopPlugin) (cpu : CpuReading) :
    (s.getLoopInformation cpu).ticked = s.ticked := by
  by_cases hnum : s.ticks.num = 0
  · rw [getLoopInformation_of_num hnum]
  · rw [getLoopInformation, if_pos hnum]
    simp [ticked, Ticks.zero]

theorem getLoopInformation_exact {s : LoopPlugin} (hs : s.ticks.Exact)
    (cpu : CpuReading) : (s.getLoopInformation cpu).ticks.Exact := by
  unfold getLoopInformation
  split
  · exact Ticks.zero_exact
  · exact hs

theorem getLoopInformation_tickStart (s : LoopPlugin) (cpu : CpuReading) :
    (s.getLoopInformation cpu).tickStart = s.tickStart := by
  unfold getLoopInformation
  split <;> rfl

end LoopPlugin

namespace LoopProcess

/-- The last tick and the last start are not ahead of the clock. -/
structure Timely (s : LoopProcess) : Prop where
  tickStart : s.plugin.tickStart ≤ s.clocks.hrtime
  startedAt : s.startedAt ≤ s.clocks.hrtime

/-- What has been measured fits into the time the plugin ran and the parts of
ticks that lie before the last start; while a tick is going on, there is room
for it. -/
structure Fits (s : LoopProcess) : Prop where
  exact : s.plugin.ticks.Exact
  ticked : s.plugin.ticked ≤ s.uptime + s.paused
  room : s.started = true → s.preparing = true →
    s.plugin.ticked +
        (s.clocks.hrtime - max s.plugin.tickStart s.startedAt) ≤
      s.uptime + s.paused

theorem Timely.wait {s : LoopProcess} (hs : s.Timely) {c : Clocks}
    (hadvance : s.clocks.Advance c) : (s.wait c).Timely where
  tickStart := hs.tickStart.trans hadvance.hrtime
  startedAt := hs.startedAt.trans hadvance.hrtime

theorem Timely.act {s : LoopProcess} (hs : s.Timely) (a : LoopAction) :
    (s.act a).Timely := by
  cases a with
  | start =>
      refine ⟨hs.tickStart, ?_⟩
      change (if s.started then s.startedAt else s.clocks.hrtime) ≤ _
      split
      · exact hs.startedAt
      · exact le_rfl
  | stop => exact ⟨hs.tickStart, hs.startedAt⟩
  | prepare =>
      change s.prepare.Timely
      unfold LoopProcess.prepare
      split
      · refine ⟨?_, hs.startedAt⟩
        dsimp only
        rw [(s.plugin.onPrepare_frame s.clocks.hrtime).2.2]
        exact hs.tickStart
      · exact ⟨hs.tickStart, hs.startedAt⟩
  | check =>
      change s.check.Timely
      unfold LoopProcess.check
      split
      · exact ⟨le_rfl, hs.startedAt⟩
      · exact ⟨hs.tickStart, hs.startedAt⟩
  | timer =>
      refine ⟨?_, hs.startedAt⟩
      change (s.plugin.getLoopInformation _).tickStart ≤ _
      rw [LoopPlugin.getLoopInformation_tickStart]
      exact hs.tickStart

theorem timely (clocks : Clocks) :
    (loopMachine clocks).Inductive (fun _ _ => True) Timely where
  init := ⟨Nat.zero_le _, Nat.zero_le _⟩
  step hs _ hstep := by
    obtain ⟨hadvance, -, rfl⟩ := step_eq_some hstep
    exact (hs.wait hadvance).act _

theorem wait_uptime (s : LoopProcess) (c : Clocks) :
    s.uptime ≤ (s.wait c).uptime := by
  change _ ≤ if s.started then _ else _
  split
  · exact Nat.le_add_right _ _
  · exact le_rfl

theorem Fits.wait {s : LoopProcess} (hs : s.Fits) {c : Clocks}
    (hadvance : s.clocks.Advance c) : (s.wait c).Fits := by
  have hle := hadvance.hrtime
  refine ⟨hs.exact,
    hs.ticked.trans (Nat.add_le_add_right (s.wait_uptime c) _),
    fun hstarted hpreparing => ?_⟩
  have hroom := hs.room hstarted hpreparing
  have hstarted' : s.started = true := hstarted
  have hwait : (s.wait c).uptime =
      s.uptime + (c.hrtime - s.clocks.hrtime) := if_pos hstarted'
  rw [hwait]
  change s.plugin.ticked + (c.hrtime - max s.plugin.tickStart s.startedAt) ≤
    _ + s.paused
  omega

theorem Fits.prepare {s : LoopProcess} (hs : s.Fits) (ht : s.Timely)
    (hpreparing : s.preparing = true)
    (hcounts : s.started = true → s.plugin.Measures s.clocks.hrtime →
      s.plugin.ticks.sum + (s.clocks.hrtime - s.plugin.tickStart) < 2 ^ 53) :
    s.prepare.Fits := by
  unfold LoopProcess.prepare
  by_cases hstarted : s.started = true
  · rw [if_pos hstarted]
    by_cases hmeasures : s.plugin.Measures s.clocks.hrtime
    · -- the tick is the room for it and its part before the last start
      have hroom := hs.room hstarted hpreparing
      have hstart := ht.startedAt
      have hbefore := hmeasures.2
      obtain ⟨hexact, hticked⟩ := LoopPlugin.onPrepare_ticked hs.exact
        hmeasures (hcounts hstarted hmeasures)
      refine ⟨hexact, ?_, fun _ h => by cases h⟩
      dsimp only
      rw [if_pos hmeasures, hticked]
      omega
    · refine ⟨?_, ?_, fun _ h => by cases h⟩
      · rw [LoopPlugin.onPrepare_of_not_tick hmeasures]
        exact hs.exact
      · dsimp only
        rw [LoopPlugin.onPrepare_of_not_tick hmeasures, if_neg hmeasures]
        exact hs.ticked
  · rw [if_neg hstarted]
    exact ⟨hs.exact, hs.ticked, fun h => absurd h hstarted⟩

theorem Fits.act {s : LoopProcess} (hs : s.Fits) (ht : s.Timely)
    {a : LoopAction} (henabled : s.Enabled a)
    (hcounts : a = .prepare → s.started = true →
      s.plugin.Measures s.clocks.hrtime →
        s.plugin.ticks.sum + (s.clocks.hrtime - s.plugin.tickStart) <
          2 ^ 53) : (s.act a).Fits := by
  cases a with
  | start =>
      refine ⟨hs.exact, hs.ticked, fun _ hpreparing => ?_⟩
      have hticked := hs.ticked
      change s.plugin.ticked + (s.clocks.hrtime - max s.plugin.tickStart
        (if s.started then s.startedAt else s.clocks.hrtime)) ≤
          s.uptime + s.paused
      by_cases hstarted : s.started = true
      · rw [if_pos hstarted]
        exact hs.room hstarted hpreparing
      · rw [if_neg hstarted]
        omega
  | stop => exact ⟨hs.exact, hs.ticked, fun h => by cases h⟩
  | prepare => exact hs.prepare ht henabled (hcounts rfl)
  | check =>
      change s.check.Fits
      unfold LoopProcess.check
      split
      · refine ⟨hs.exact, hs.ticked, fun _ _ => ?_⟩
        have hticked := hs.ticked
        change s.plugin.ticked + (s.clocks.hrtime - max s.clocks.hrtime
          s.startedAt) ≤ s.uptime + s.paused
        omega
      · next hstarted =>
          exact ⟨hs.exact, hs.ticked, fun h => absurd h hstarted⟩
  | timer =>
      have hticked := s.plugin.getLoopInformation_ticked s.clocks.reading
      refine ⟨LoopPlugin.getLoopInformation_exact hs.exact _, ?_,
        fun hstarted hpreparing => ?_⟩
      · change (s.plugin.getLoopInformation _).ticked ≤ s.uptime + s.paused
        rw [hticked]
        exact hs.ticked
      · change (s.plugin.getLoopInformation _).ticked + (s.clocks.hrtime -
          max (s.plugin.getLoopInformation _).tickStart s.startedAt) ≤
            s.uptime + s.paused
        rw [hticked, LoopPlugin.getLoopInformation_tickStart]
        exact hs.room hstarted hpreparing

theorem act_paused (s : LoopProcess) (a : LoopAction) :
    s.paused ≤ (s.act a).paused := by
  cases a with
  | start => exact le_rfl
  | stop => exact le_rfl
  | prepare =>
      change s.paused ≤ s.prepare.paused
      unfold LoopProcess.prepare
      split_ifs
      · exact Nat.le_add_right _ _
      · exact le_rfl
      · exact le_rfl
  | check =>
      change s.paused ≤ s.check.paused
      unfold LoopProcess.check
      split <;> exact le_rfl
  | timer => exact le_rfl

theorem fits (clocks : Clocks) :
    (loopMachine clocks).Inductive Counts fun s => s.Timely ∧ s.Fits where
  init := ⟨(timely clocks).init, Ticks.zero_exact, le_rfl,
    fun h => by cases h⟩
  step := by
    rintro s e s' ⟨ht, hs⟩ hcounts hstep
    have ht' := (timely clocks).step ht trivial hstep
    obtain ⟨hadvance, henabled, rfl⟩ := step_eq_some hstep
    exact ⟨ht', (hs.wait hadvance).act (ht.wait hadvance) henabled hcounts⟩

/-! ## Pauses -/

theorem step_paused {s s' : LoopProcess} {e : LoopCall}
    (hstep : s.step e = some s') :
    s.paused ≤ s'.paused ∧ (s'.paused = s.paused ↔ s.Within e) := by
  obtain ⟨-, -, rfl⟩ := step_eq_some hstep
  refine ⟨(s.wait e.clocks).act_paused e.action, ?_⟩
  cases haction : e.action with
  | prepare =>
      change (s.wait e.clocks).prepare.paused = _ ↔ _
      unfold LoopProcess.prepare Within
      by_cases hstarted : s.started = true
      · have hwait : (s.wait e.clocks).started = true := hstarted
        rw [if_pos hwait]
        change (if s.plugin.Measures e.clocks.hrtime then
          s.paused + (s.startedAt - s.plugin.tickStart) else s.paused) =
            s.paused ↔ _
        by_cases hmeasures : s.plugin.Measures e.clocks.hrtime
        · rw [if_pos hmeasures, Nat.add_eq_left, Nat.sub_eq_zero_iff_le]
          exact ⟨fun h _ _ _ => h, fun h => h haction hstarted hmeasures⟩
        · rw [if_neg hmeasures]
          exact iff_of_true rfl fun _ _ h => absurd h hmeasures
      · have hwait : ¬ (s.wait e.clocks).started = true := hstarted
        rw [if_neg hwait]
        exact iff_of_true rfl fun _ h => absurd h hstarted
  | start => exact iff_of_true rfl fun h => by simp [haction] at h
  | stop => exact iff_of_true rfl fun h => by simp [haction] at h
  | timer => exact iff_of_true rfl fun h => by simp [haction] at h
  | check =>
      refine iff_of_true ?_ fun h => by simp [haction] at h
      change (s.wait e.clocks).check.paused = _
      unfold LoopProcess.check
      split <;> rfl

/-- While the plugin is started and a tick is going on, the tick began after
the start. -/
structure Current (s : LoopProcess) : Prop where
  timely : s.Timely
  within : s.started = true → s.preparing = true →
    s.plugin.tickStart ≠ 0 → s.startedAt ≤ s.plugin.tickStart

theorem Current.step {s s' : LoopProcess} {e : LoopCall} (hs : s.Current)
    (hguard : s.StartsInPoll e) (hstep : s.step e = some s') :
    s'.Current := by
  refine ⟨(LoopProcess.timely s.clocks).step hs.timely trivial hstep, ?_⟩
  obtain ⟨hadvance, henabled, rfl⟩ := step_eq_some hstep
  have hwait := hs.timely.wait hadvance
  cases haction : e.action with
  | start =>
      rintro - hpreparing hstart
      change (if s.started then s.startedAt else _) ≤ s.plugin.tickStart
      rcases hguard haction with hstarted | hpoll | hzero
      · rw [if_pos hstarted]
        exact hs.within hstarted hpreparing hstart
      · exact absurd (hpreparing.symm.trans hpoll) (by decide)
      · exact absurd hzero hstart
  | stop => exact fun hstarted => by cases hstarted
  | prepare =>
      intro _ hpreparing
      have hdone : (s.wait e.clocks).prepare.preparing = false := by
        unfold LoopProcess.prepare
        split <;> rfl
      exact absurd (hdone.symm.trans hpreparing) (by decide)
  | check =>
      intro hstarted _ _
      have hsame : (s.wait e.clocks).check.started =
          (s.wait e.clocks).started := by
        unfold LoopProcess.check
        split <;> rfl
      change (s.wait e.clocks).check.startedAt ≤
        (s.wait e.clocks).check.plugin.tickStart
      rw [LoopProcess.check, if_pos (hsame.symm.trans hstarted)]
      exact hwait.startedAt
  | timer =>
      intro hstarted hpreparing hstart
      change s.startedAt ≤ (s.plugin.getLoopInformation _).tickStart
      change (s.plugin.getLoopInformation _).tickStart ≠ 0 at hstart
      rw [LoopPlugin.getLoopInformation_tickStart] at hstart ⊢
      exact hs.within hstarted hpreparing hstart

theorem Current.within_next {s : LoopProcess} (hs : s.Current)
    {e : LoopCall} (henabled : s.Enabled e.action) : s.Within e := by
  intro haction hstarted hmeasures
  rw [haction] at henabled
  exact hs.within hstarted henabled hmeasures.1

theorem current (clocks : Clocks) :
    (loopMachine clocks).Inductive StartsInPoll fun s =>
      s.Current ∧ s.paused = 0 where
  init := ⟨⟨(timely clocks).init, fun h => by cases h⟩, rfl⟩
  step := by
    rintro s e s' ⟨hs, hpaused⟩ hguard hstep
    have hwithin := hs.within_next (step_eq_some hstep).2.1
    exact ⟨hs.step hguard hstep,
      ((step_paused hstep).2.mpr hwithin).trans hpaused⟩

end LoopProcess

/-- Over every run of starts, stops and turns of the loop with clocks that do
not go back: the CPU times of the reports since the last start add up to the
time from its reading to the last one; if the ticks since a report never add
up to 2^53 nanoseconds, the ticks in the reports and in the statics take no
longer than the plugin ran and the parts of them that lie before the last
start, which go back to where they began and not only to the stop; there are
no such parts exactly if every tick began after the last start before its
end, and that is so if the plugin is only started between the loop's prepare
and its check handles, or before its first tick. -/
theorem loop_restarts {clocks : Clocks} {steps : List LoopCall}
    {s : LoopProcess}
    (hrun : (loopMachine clocks).run (.initial clocks) steps = some s) :
    (∃ session, s.plugin.reports = s.earlier ++ session ∧
      session.foldl CpuReading.after s.startCpu = s.plugin.lastCpu) ∧
    ((loopMachine clocks).Guarded LoopProcess.Counts (.initial clocks) steps →
      s.plugin.ticked ≤ s.uptime + s.paused) ∧
    (s.paused = 0 ↔
      (loopMachine clocks).Guarded LoopProcess.Within (.initial clocks)
        steps) ∧
    ((loopMachine clocks).Guarded LoopProcess.StartsInPoll (.initial clocks)
      steps → s.paused = 0) := by
  have hcontinues := (LoopProcess.continues clocks).run (guarded_true _ _) hrun
  have hpaused : s.paused = 0 ↔ (loopMachine clocks).Guarded
      LoopProcess.Within (.initial clocks) steps :=
    ((LoopProcess.continues clocks).count_eq_iff_guarded
      LoopProcess.paused (fun _ hstep => LoopProcess.step_paused hstep)
      (LoopProcess.continues clocks).init hrun).2
  exact ⟨hcontinues.reports,
    fun hcounts => ((LoopProcess.fits clocks).run hcounts hrun).2.ticked,
    hpaused,
    fun hguarded => ((LoopProcess.current clocks).run hguarded hrun).2⟩

namespace LoopRestartsWitness

/-- The plugin is started while the loop polls, and measures a tick from 20
to 26; it is stopped and started again in the next poll. -/
def turns : List LoopCall :=
  [⟨⟨10, 1, 1⟩, .prepare⟩, ⟨⟨12, 1, 1⟩, .start⟩, ⟨⟨20, 1, 1⟩, .check⟩,
    ⟨⟨26, 2, 1⟩, .prepare⟩, ⟨⟨30, 2, 1⟩, .timer⟩, ⟨⟨31, 2, 1⟩, .stop⟩,
    ⟨⟨60, 5, 2⟩, .start⟩, ⟨⟨62, 5, 2⟩, .check⟩, ⟨⟨66, 6, 2⟩, .prepare⟩,
    ⟨⟨70, 7, 3⟩, .timer⟩]

def start : Clocks := ⟨5, 0, 0⟩

theorem loop_restarts_turns : ∃ s : LoopProcess,
    s.plugin.reports.length = 2 ∧
    s.uptime = 29 ∧ s.paused = 0 ∧ s.plugin.ticked ≤ 29 ∧
    ∃ session, s.plugin.reports = s.earlier ++ session ∧
      session.foldl CpuReading.after s.startCpu = s.plugin.lastCpu := by
  have hrun : (loopMachine start).run (.initial start) turns =
      some (((loopMachine start).run (.initial start) turns).getD
        (.initial start)) := by decide
  obtain ⟨hsession, hticked, -, hpoll⟩ := loop_restarts hrun
  have hpaused := hpoll (by decide)
  refine ⟨_, by decide, by decide, hpaused, ?_, hsession⟩
  have hlimit := hticked (by decide)
  rw [hpaused] at hlimit
  exact hlimit

/-- A start after the check handles: the first tick after it began before the
stop, and is longer than the plugin has run. -/
example : ((loopMachine start).run (.initial start)
    [⟨⟨6, 1, 1⟩, .start⟩, ⟨⟨7, 1, 1⟩, .prepare⟩, ⟨⟨8, 1, 1⟩, .check⟩,
      ⟨⟨9, 1, 1⟩, .stop⟩, ⟨⟨50, 1, 1⟩, .start⟩,
      ⟨⟨51, 1, 1⟩, .prepare⟩]).map
      (fun s => (s.plugin.ticked, s.uptime, s.paused)) =
    some (43, 4, 42) := by decide

end LoopRestartsWitness

end Appmetrics
