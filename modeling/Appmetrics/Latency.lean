/-
index.js: `latencyCheck` samples the latency of the event loop, and
`latencyReport` emits a summary of the samples as an `eventloop` event.
-/
import Appmetrics.Batching
import Mathlib.Algebra.Order.Field.Rat
import Mathlib.Data.List.Induction
import Mathlib.Tactic.NormNum
import Mathlib.Tactic.Positivity

namespace Appmetrics

open Batching

/-- In milliseconds. -/
structure LatencyData where
  count : Nat
  min : Rat
  max : Rat
  total : Rat
deriving Repr, DecidableEq

structure LatencyReport where
  min : Rat
  max : Rat
  avg : Rat
deriving Repr, DecidableEq

/-- The data of an `eventloop` event. -/
structure LoopLatency where
  time : Nat
  latency : LatencyReport
deriving Repr, DecidableEq

namespace LatencyData

def initial : LatencyData := ⟨0, 1 * 60 * 1000, 0, 0⟩

/-- The callback of `latencyCheck`. -/
def check (d : LatencyData) (latency : Rat) : LatencyData where
  count := d.count + 1
  min := Min.min d.min latency
  max := Max.max d.max latency
  total := d.total + latency

def report (d : LatencyData) : LatencyReport := ⟨d.min, d.max, d.total / d.count⟩

end LatencyData

/-- The callbacks of the two timers; a latency is not negative. -/
inductive LatencyStep
  | check (latency : {x : Rat // 0 ≤ x})
  | report (now : Nat)

/-- The latency from `process.hrtime(start)`, in seconds and nanoseconds. -/
def latencyCheck (delta : Nat × Nat) : LatencyStep :=
  .check ⟨delta.1 * 1000 + delta.2 / 1000000, by positivity⟩

/-- The data with the events that have been emitted. -/
structure LatencyLoop where
  latencyData : LatencyData
  emitted : List LoopLatency

namespace LatencyLoop

def initial : LatencyLoop := ⟨.initial, []⟩

/-- `emit` comes before the reset; its listeners are taken to return. -/
def latencyReport (s : LatencyLoop) (now : Nat) : LatencyLoop :=
  if s.latencyData.count = 0 then s
  else
    { latencyData := .initial
      emitted := s.emitted ++ [⟨now, s.latencyData.report⟩] }

def step (s : LatencyLoop) : LatencyStep → LatencyLoop
  | .check latency =>
      { s with latencyData := s.latencyData.check latency.1 }
  | .report now => s.latencyReport now

def run (steps : List LatencyStep) : LatencyLoop := steps.foldl step initial

end LatencyLoop

def LatencyStep.event : LatencyStep → Event Rat
  | .check latency => .sample latency.1
  | .report _ => .report

/-- The samples of each report that has any. -/
def latencyBatches (steps : List LatencyStep) : List (List Rat) :=
  batches (steps.map LatencyStep.event)

/-- The report has the extremes and the mean of these samples, and the mean is
between the extremes. -/
structure LatencyReport.Of (r : LatencyReport) (xs : List Rat) : Prop where
  min : IsLeast {x | x ∈ xs} r.min
  max : IsGreatest {x | x ∈ xs} r.max
  avg : r.avg = xs.sum / xs.length
  min_le : r.min ≤ r.avg
  le_max : r.avg ≤ r.max

namespace LatencyData

def summary (d : LatencyData) : Summary Rat := ⟨d.min, d.max, d.count, d.total⟩

def accumulator : Accumulator Rat LatencyData LatencyReport where
  zero := initial
  add := check
  empty d := d.count = 0
  summary := report

theorem of_summary (xs : List Rat) :
    (accumulator.of xs).summary = xs.foldl Summary.add (.start 60000 0) := by
  induction xs using List.reverseRecOn with
  | nil =>
      have hminute : (1 * 60 * 1000 : Rat) = 60000 := by norm_num
      change Summary.mk (1 * 60 * 1000 : Rat) 0 0 0 = _
      rw [hminute]
      rfl
  | append_singleton xs x ih =>
      rw [Accumulator.of_append_singleton, List.foldl_append, ← ih]
      rfl

theorem of_count (xs : List Rat) :
    (accumulator.of xs).count = xs.length := by
  have hcount := congrArg Summary.count (of_summary xs)
  rw [Summary.foldl_add] at hcount
  exact hcount.trans (Nat.zero_add _)

theorem accumulator_counts : accumulator.Counts := by
  intro xs
  change decide ((accumulator.of xs).count = 0) = _
  rw [of_count]
  cases xs <;> simp

/-- The mean of some samples lies between their extremes. -/
theorem report_of {d : LatencyData} {xs : List Rat} (hne : xs ≠ [])
    (hd : d.summary.Of xs) : d.report.Of xs := by
  have hcount : d.count = xs.length := hd.count
  have hpos : (0 : Rat) < d.count := by
    rw [hcount]
    exact_mod_cast List.length_pos_iff.mpr hne
  have hlow : d.count • d.min ≤ d.total := hd.nsmul_least_le
  have hhigh : d.total ≤ d.count • d.max := hd.le_nsmul_greatest
  rw [nsmul_eq_mul, mul_comm] at hlow hhigh
  refine ⟨hd.least, hd.greatest, ?_, ?_, ?_⟩
  · rw [report, hcount, show d.total = xs.sum from hd.total]
  · exact (le_div_iff₀ hpos).mpr hlow
  · exact (div_le_iff₀ hpos).mpr hhigh

/-- The initial minimum has to be as long as the shortest sample. -/
theorem report_of_iff {xs : List Rat} (hne : xs ≠ [])
    (hxs : ∀ x ∈ xs, 0 ≤ x) :
    (accumulator.of xs).report.Of xs ↔ ∃ x ∈ xs, x ≤ 60000 := by
  have hleast := congrArg Summary.least (of_summary xs)
  rw [Summary.foldl_add] at hleast
  constructor
  · intro hof
    have hmin : (accumulator.of xs).report.min = xs.foldl Min.min 60000 :=
      hleast
    exact foldl_min_isLeast.mp (hmin ▸ hof.min)
  · intro hshort
    apply report_of hne
    rw [of_summary, Summary.foldl_start_of]
    obtain ⟨x, hx⟩ := List.exists_mem_of_ne_nil xs hne
    exact ⟨hshort, x, hx, hxs x hx⟩

end LatencyData

namespace LatencyLoop

/-- The data with the reports that have been emitted. -/
def reports (s : LatencyLoop) : LatencyData × List LatencyReport :=
  (s.latencyData, s.emitted.map LoopLatency.latency)

theorem step_reports (s : LatencyLoop) (e : LatencyStep) :
    (s.step e).reports = LatencyData.accumulator.step s.reports e.event := by
  cases e with
  | check latency => rfl
  | report now =>
      change (s.latencyReport now).reports = _
      unfold latencyReport
      by_cases hcount : s.latencyData.count = 0 <;>
        simp [reports, LatencyStep.event, Accumulator.step,
          LatencyData.accumulator, hcount]

theorem foldl_step (steps : List LatencyStep) (s : LatencyLoop) :
    (steps.foldl step s).reports = (steps.map LatencyStep.event).foldl
      LatencyData.accumulator.step s.reports := by
  induction steps generalizing s with
  | nil => rfl
  | cons e steps ih => rw [List.foldl_cons, ih, step_reports]; rfl

theorem run_emitted (steps : List LatencyStep) :
    (run steps).emitted.map LoopLatency.latency =
      (latencyBatches steps).map fun xs =>
        (LatencyData.accumulator.of xs).report := by
  have hrun := (foldl_step steps initial).trans
    (Accumulator.run_eq LatencyData.accumulator_counts
      (steps.map LatencyStep.event))
  exact congrArg Prod.snd hrun

theorem nonneg_of_mem_batches {steps : List LatencyStep} {xs : List Rat}
    (hxs : xs ∈ latencyBatches steps) : ∀ x ∈ xs, 0 ≤ x := by
  intro x hx
  have hsample : x ∈ samples (steps.map LatencyStep.event) := by
    rw [← flatten_batches]
    exact List.mem_append_left _ (List.mem_flatten_of_mem hxs hx)
  obtain ⟨e, he, hevent⟩ := List.mem_filterMap.mp hsample
  obtain ⟨st, _, rfl⟩ := List.mem_map.mp he
  cases st with
  | check latency =>
      cases hevent
      exact latency.2
  | report now => cases hevent

/-- Over every run of the two timers: the emitted events are about the samples
since the report before and tell their extremes and mean, and there is none
without samples, if and only if no report comes after stalls of more than a
minute only. -/
theorem latency_reports_iff (steps : List LatencyStep) :
    List.Forall₂ (fun e xs => e.latency.Of xs) (run steps).emitted
        (latencyBatches steps) ↔
      ∀ xs ∈ latencyBatches steps, ∃ x ∈ xs, x ≤ 60000 := by
  have hreports : List.Forall₂ (fun (r : LatencyReport) xs => r.Of xs)
      ((run steps).emitted.map LoopLatency.latency) (latencyBatches steps) ↔
      ∀ xs ∈ latencyBatches steps,
        (LatencyData.accumulator.of xs).report.Of xs := by
    rw [run_emitted, List.forall₂_map_left_iff, List.forall₂_same]
  rw [List.forall₂_map_left_iff] at hreports
  rw [hreports]
  exact forall₂_congr fun xs hxs => LatencyData.report_of_iff
    (ne_nil_of_mem_batches hxs) (nonneg_of_mem_batches hxs)

end LatencyLoop

namespace LatencyWitness

/-- The event loop was blocked for 70 seconds. -/
def stalled : List LatencyStep := [latencyCheck (70, 0), .report 1]

theorem stall_hidden :
    ¬∀ steps, List.Forall₂ (fun (e : LoopLatency) xs => e.latency.Of xs)
      (LatencyLoop.run steps).emitted (latencyBatches steps) := by
  intro h
  let latency : Rat := (70 : Nat) * 1000 + (0 : Nat) / 1000000
  have hbatches : latencyBatches stalled = [[latency]] := rfl
  have hstalled := h stalled
  rw [hbatches] at hstalled
  cases hstalled with
  | cons hof _ =>
      have hmem : min (1 * 60 * 1000) latency ∈ [latency] := hof.min.1
      norm_num [latency] at hmem

end LatencyWitness

end Appmetrics
