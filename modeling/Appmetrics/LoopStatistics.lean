/-
src/plugins/node/loop/nodeloopplugin.cpp: the callbacks of the event loop
measure its ticks, and a timer reports them.  The clock and the CPU times are
read by the callbacks; the text of a report is not modelled, only the numbers
that go into it.
-/
import Appmetrics.Batching
import Appmetrics.Doubles
import Mathlib.Algebra.Order.Field.Rat
import Mathlib.Algebra.Order.Ring.Nat
import Mathlib.Data.List.Induction

namespace Appmetrics

open Batching

/-- The statics `min`, `max`, `num` and `sum`, in nanoseconds; the count is
taken not to reach `2 ^ 64`. -/
structure Ticks where
  min : Nat
  max : Nat
  num : Nat
  sum : Nat
deriving Repr, DecidableEq

namespace Ticks

def zero : Ticks := ⟨2 ^ 64 - 1, 0, 0, 0⟩

/-- The end of a tick; comparisons and the sum are those of `double`. -/
def add (t : Ticks) (ticked : Nat) : Ticks :=
  let delta := toDouble ticked
  { min := if delta < toDouble t.min then delta else t.min
    max := if toDouble t.max < delta then delta else t.max
    num := t.num + 1
    sum := toDouble (toDouble t.sum + delta) }

end Ticks

/-- The thread's CPU times and the clock, in milliseconds. -/
structure CpuReading where
  cpuUser : Nat
  cpuSys : Nat
  cpuTs : Nat
deriving Repr, DecidableEq

/-- What a report is made of; the times are in nanoseconds, and the mean is
the double `sum / num`. -/
structure LoopReport where
  ticks : Ticks
  cpuUser : Nat
  cpuSys : Nat
  cpuDuration : Nat
deriving Repr, DecidableEq

structure LoopPlugin where
  tickStart : Nat
  ticks : Ticks
  lastCpu : CpuReading
  reports : List LoopReport
deriving Repr, DecidableEq

/-- The callbacks, with what they read. -/
inductive LoopEvent
  | onCheck (hrtime : Nat)
  | onPrepare (hrtime : Nat)
  | getLoopInformation (cpu : CpuReading)
deriving Repr, DecidableEq

namespace LoopPlugin

def initial : LoopPlugin := ⟨0, .zero, ⟨0, 0, 0⟩, []⟩

/-- `uint64_t` subtraction. -/
def since (now last : Nat) : Nat := (now + 2 ^ 64 - last) % 2 ^ 64

def onCheck (s : LoopPlugin) (hrtime : Nat) : LoopPlugin :=
  { s with tickStart := hrtime }

def onPrepare (s : LoopPlugin) (tickEnd : Nat) : LoopPlugin :=
  if s.tickStart = 0 then s
  else if tickEnd < s.tickStart then s
  else { s with ticks := s.ticks.add (tickEnd - s.tickStart) }

def getLoopInformation (s : LoopPlugin) (cpu : CpuReading) : LoopPlugin :=
  if s.ticks.num ≠ 0 then
    let report : LoopReport :=
      { ticks := s.ticks
        cpuUser := since cpu.cpuUser s.lastCpu.cpuUser
        cpuSys := since cpu.cpuSys s.lastCpu.cpuSys
        cpuDuration := since cpu.cpuTs s.lastCpu.cpuTs }
    { s with
      ticks := .zero
      lastCpu := cpu
      reports := s.reports ++ [report] }
  else s

def step (s : LoopPlugin) : LoopEvent → LoopPlugin
  | .onCheck hrtime => s.onCheck hrtime
  | .onPrepare hrtime => s.onPrepare hrtime
  | .getLoopInformation cpu => s.getLoopInformation cpu

def run (es : List LoopEvent) : LoopPlugin := es.foldl step initial

end LoopPlugin

/-! ## Ticks -/

/-- The ticks and the reports of these callbacks: a tick ends in an
`OnPrepare` with a start that is not zero and not after it. -/
def tickEvents : Nat → List LoopEvent → List (Event Nat)
  | _, [] => []
  | _, .onCheck hrtime :: es => tickEvents hrtime es
  | start, .onPrepare hrtime :: es =>
      if start ≠ 0 ∧ start ≤ hrtime then
        .sample (hrtime - start) :: tickEvents start es
      else tickEvents start es
  | start, .getLoopInformation _ :: es => .report :: tickEvents start es

def Ticks.summary (t : Ticks) : Summary Nat := ⟨t.min, t.max, t.num, t.sum⟩

/-- The mean before it is rounded to a double and written with six significant
digits. -/
def Ticks.mean (t : Ticks) : Rat := t.sum / t.num

/-! ## Doubles -/

/-- A tick shorter than that comes before the initial minimum. -/
theorem lt_toDouble_min {n m : Nat} (hn : n < 2 ^ 53)
    (hm : m < 2 ^ 53 ∨ m = 2 ^ 64 - 1) : n < toDouble m ↔ n < m := by
  rcases hm with hm | rfl
  · rw [toDouble_of_lt hm]
  · have htop : toDouble (2 ^ 64 - 1) = 2 ^ 64 := by decide
    rw [htop]
    omega

namespace Ticks

/-- The statics stay in the range where conversions are exact. -/
structure Exact (t : Ticks) : Prop where
  min : t.min < 2 ^ 53 ∨ t.min = 2 ^ 64 - 1
  max : t.max < 2 ^ 53
  sum : t.sum < 2 ^ 53

theorem zero_exact : zero.Exact := ⟨Or.inr rfl, by decide, by decide⟩

theorem add_eq {t : Ticks} (ht : t.Exact) {ticked : Nat}
    (hsum : t.sum + ticked < 2 ^ 53) :
    t.add ticked = ⟨Min.min t.min ticked, Max.max t.max ticked, t.num + 1,
      t.sum + ticked⟩ := by
  have hticked : ticked < 2 ^ 53 := by omega
  simp only [add, toDouble_of_lt hticked, toDouble_of_lt ht.max,
    toDouble_of_lt ht.sum, toDouble_of_lt hsum,
    lt_toDouble_min hticked ht.min]
  congr 1
  · split <;> omega
  · split <;> omega

/-- The statics as an accumulator. -/
def accumulator : Accumulator Nat Ticks Ticks where
  zero := zero
  add := add
  empty t := t.num = 0
  summary := id

theorem of_num (ticked : List Nat) :
    (accumulator.of ticked).num = ticked.length := by
  induction ticked using List.reverseRecOn with
  | nil => rfl
  | append_singleton ticked t ih =>
      rw [Accumulator.of_append_singleton, List.length_append, ← ih]
      rfl

theorem accumulator_counts : accumulator.Counts := by
  intro ticked
  change decide ((accumulator.of ticked).num = 0) = _
  rw [of_num]
  cases ticked <;> simp

/-- Nothing is lost while the sum is exact. -/
theorem of_exact {ticked : List Nat} (hsum : ticked.sum < 2 ^ 53) :
    (accumulator.of ticked).Exact ∧ (accumulator.of ticked).summary =
      ticked.foldl Summary.add (.start (2 ^ 64 - 1) 0) := by
  induction ticked using List.reverseRecOn with
  | nil => exact ⟨zero_exact, rfl⟩
  | append_singleton ticked t ih =>
      rw [List.sum_append, List.sum_singleton] at hsum
      obtain ⟨hexact, hsummary⟩ := ih (by omega)
      have htotal : (accumulator.of ticked).sum = ticked.sum := by
        rw [Summary.foldl_add] at hsummary
        simpa [Summary.start, summary] using congrArg Summary.total hsummary
      have hadd := add_eq hexact (by rw [htotal]; exact hsum)
      rw [Accumulator.of_append_singleton, List.foldl_append, ← hsummary]
      change (add _ t).Exact ∧ (add _ t).summary = _
      rw [hadd]
      have hmin := hexact.min
      have hmax := hexact.max
      refine ⟨⟨?_, ?_, ?_⟩, rfl⟩
      · dsimp only
        omega
      · dsimp only
        omega
      · dsimp only
        omega

/-- A report of ticks with an exact sum tells their number, extremes and
sum. -/
theorem of_summary {ticked : List Nat} (hne : ticked ≠ [])
    (hsum : ticked.sum < 2 ^ 53) :
    (accumulator.of ticked).summary.Of ticked := by
  rw [(of_exact hsum).2, Summary.foldl_start_of]
  obtain ⟨t, hmem⟩ := List.exists_mem_of_ne_nil ticked hne
  have hle : t ≤ ticked.sum := List.le_sum_of_mem hmem
  exact ⟨⟨t, hmem, by omega⟩, t, hmem, Nat.zero_le t⟩

theorem mean_bounds {t : Ticks} {ticked : List Nat} (hne : ticked ≠ [])
    (hof : t.summary.Of ticked) : t.min ≤ t.mean ∧ t.mean ≤ t.max := by
  have hnum : 0 < t.num := by
    rw [show t.num = ticked.length from hof.count]
    exact List.length_pos_iff.mpr hne
  have hlow : t.num * t.min ≤ t.sum := hof.nsmul_least_le
  have hhigh : t.sum ≤ t.num * t.max := hof.le_nsmul_greatest
  have hpos : (0 : Rat) < t.num := by exact_mod_cast hnum
  rw [mean, le_div_iff₀ hpos, div_le_iff₀ hpos]
  constructor
  · rw [mul_comm]
    exact_mod_cast hlow
  · rw [mul_comm]
    exact_mod_cast hhigh

end Ticks

namespace LoopPlugin

theorem onPrepare_of_tick {s : LoopPlugin} {hrtime : Nat}
    (htick : s.tickStart ≠ 0 ∧ s.tickStart ≤ hrtime) :
    s.onPrepare hrtime =
      { s with ticks := s.ticks.add (hrtime - s.tickStart) } := by
  rw [onPrepare, if_neg htick.1, if_neg (Nat.not_lt.mpr htick.2)]

theorem onPrepare_of_not_tick {s : LoopPlugin} {hrtime : Nat}
    (htick : ¬(s.tickStart ≠ 0 ∧ s.tickStart ≤ hrtime)) :
    s.onPrepare hrtime = s := by
  unfold onPrepare
  split
  · rfl
  · rw [if_pos (by omega)]

/-- The statics and those that have been reported. -/
def tallies (s : LoopPlugin) : Ticks × List Ticks :=
  (s.ticks, s.reports.map LoopReport.ticks)

theorem getLoopInformation_tallies (s : LoopPlugin) (cpu : CpuReading) :
    (s.getLoopInformation cpu).tallies =
      Ticks.accumulator.step s.tallies .report := by
  unfold getLoopInformation
  by_cases hnum : s.ticks.num = 0
  · simp [tallies, Accumulator.step, Ticks.accumulator, hnum]
  · simp [tallies, Accumulator.step, Ticks.accumulator, hnum]

/-- The plugin accumulates its ticks. -/
theorem foldl_step (es : List LoopEvent) (s : LoopPlugin) :
    (es.foldl step s).tallies = (tickEvents s.tickStart es).foldl
      Ticks.accumulator.step s.tallies := by
  induction es generalizing s with
  | nil => rfl
  | cons e es ih =>
      rw [List.foldl_cons, ih]
      cases e with
      | onCheck hrtime => rfl
      | onPrepare hrtime =>
          rw [step, tickEvents]
          by_cases htick : s.tickStart ≠ 0 ∧ s.tickStart ≤ hrtime
          · rw [onPrepare_of_tick htick, if_pos htick]
            rfl
          · rw [onPrepare_of_not_tick htick, if_neg htick]
      | getLoopInformation cpu =>
          have hstart : (s.getLoopInformation cpu).tickStart = s.tickStart := by
            unfold getLoopInformation
            split <;> rfl
          rw [step, tickEvents, List.foldl_cons, hstart,
            getLoopInformation_tallies]

theorem run_reports (es : List LoopEvent) :
    (run es).reports.map LoopReport.ticks =
      (batches (tickEvents 0 es)).map Ticks.accumulator.of := by
  have hrun := (foldl_step es initial).trans
    (Accumulator.run_eq Ticks.accumulator_counts (tickEvents 0 es))
  exact congrArg Prod.snd hrun

/-- Over every run of the callbacks, with any clock: the reports are about
the ticks since the report before, each tick before the last report is in one
of them, and the mean is between the extremes. -/
theorem loop_statistics (es : List LoopEvent)
    (hexact : ∀ ticked ∈ batches (tickEvents 0 es), ticked.sum < 2 ^ 53) :
    List.Forall₂ (fun r ticked => r.ticks.summary.Of ticked)
        (run es).reports (batches (tickEvents 0 es)) ∧
      (batches (tickEvents 0 es)).flatten ++ waiting [] (tickEvents 0 es) =
        samples (tickEvents 0 es) ∧
      (∀ ticked ∈ batches (tickEvents 0 es), ticked ≠ []) ∧
      ∀ r ∈ (run es).reports,
        r.ticks.min ≤ r.ticks.mean ∧ r.ticks.mean ≤ r.ticks.max := by
  have hsummary : ∀ ticked ∈ batches (tickEvents 0 es),
      (Ticks.accumulator.of ticked).summary.Of ticked := fun ticked hmem =>
    Ticks.of_summary (ne_nil_of_mem_batches hmem) (hexact ticked hmem)
  refine ⟨?_, flatten_batches _, fun _ => ne_nil_of_mem_batches, ?_⟩
  · have htallies : List.Forall₂ (fun (t : Ticks) ticked => t.summary.Of ticked)
        ((run es).reports.map LoopReport.ticks)
        (batches (tickEvents 0 es)) := by
      rw [run_reports, List.forall₂_map_left_iff, List.forall₂_same]
      exact hsummary
    rwa [List.forall₂_map_left_iff] at htallies
  · intro r hr
    have hmem : r.ticks ∈ (batches (tickEvents 0 es)).map
        Ticks.accumulator.of := by
      rw [← run_reports]
      exact List.mem_map_of_mem hr
    obtain ⟨ticked, hticked, heq⟩ := List.mem_map.mp hmem
    rw [← heq]
    exact Ticks.mean_bounds (ne_nil_of_mem_batches hticked)
      (hsummary ticked hticked)

end LoopPlugin

namespace LoopStatisticsWitness

/-- Two ticks, and a clock that goes back. -/
def callbacks : List LoopEvent :=
  [.onPrepare 3, .onCheck 10, .onPrepare 15, .onPrepare 7, .onCheck 20,
    .onPrepare 29, .getLoopInformation ⟨1, 2, 3⟩]

theorem loop_statistics_callbacks :
    (LoopPlugin.run callbacks).reports.map LoopReport.ticks = [⟨5, 9, 2, 14⟩] ∧
    List.Forall₂ (fun r ticked => r.ticks.summary.Of ticked)
        (LoopPlugin.run callbacks).reports
        (batches (tickEvents 0 callbacks)) := by
  have hbatches : batches (tickEvents 0 callbacks) = [[5, 9]] := by decide
  refine ⟨by decide, (LoopPlugin.loop_statistics callbacks ?_).1⟩
  rw [hbatches]
  decide

end LoopStatisticsWitness

end Appmetrics
