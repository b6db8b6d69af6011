/-
src/headlessutils.cpp: how a directory gets from the agent to the JavaScript
`zip` function.  It travels in one global variable; `uv_async_send` only says
that there is something to read, and says it once for all sends made before
the event loop comes round.
-/
import Appmetrics.Machine

namespace Appmetrics

open StepMachine

/-- The program points of `headless::zip`. -/
inductive ZipCaller
  | idle
  /-- `outputDir` is assigned, `uv_async_send` not yet called -/
  | assigned
deriving Repr, DecidableEq

/-- The program points of the event loop around `asyncfunc`. -/
inductive ZipLoop
  | idle
  /-- the notification is taken, `outputDir` not yet read -/
  | woken
deriving Repr, DecidableEq

/-- The shared state, and the history: the directories passed to `zip` and
those with which the JavaScript function was called. -/
structure HeadlessAsync where
  outputDir : String
  pending : Bool
  caller : ZipCaller
  loop : ZipLoop
  passed : List String
  zipped : List String
deriving Repr, DecidableEq

inductive HeadlessStep
  /-- `zip(dir)` is called and assigns `outputDir` -/
  | zip (dir : String)
  | asyncSend
  | wake
  | asyncfunc
deriving Repr, DecidableEq

namespace HeadlessAsync

def initial : HeadlessAsync where
  outputDir := ""
  pending := false
  caller := .idle
  loop := .idle
  passed := []
  zipped := []

def step (s : HeadlessAsync) : HeadlessStep → Option HeadlessAsync
  | .zip dir =>
      match s.caller with
      | .idle =>
          some { s with
            outputDir := dir
            caller := .assigned
            passed := s.passed ++ [dir] }
      | .assigned => none
  | .asyncSend =>
      match s.caller with
      | .assigned => some { s with pending := true, caller := .idle }
      | .idle => none
  | .wake =>
      match s.loop, s.pending with
      | .idle, true => some { s with pending := false, loop := .woken }
      | _, _ => none
  | .asyncfunc =>
      match s.loop with
      | .woken =>
          some { s with loop := .idle, zipped := s.zipped ++ [s.outputDir] }
      | .idle => none

/-- No send is outstanding: none is still to be made, none is pending and
none is being handled. -/
def Quiet (s : HeadlessAsync) : Prop :=
  s.caller = .idle ∧ s.pending = false ∧ s.loop = .idle

instance (s : HeadlessAsync) : Decidable s.Quiet := instDecidableAnd

/-- A directory is only passed when the one before has been handed on. -/
def InTurn (s : HeadlessAsync) : HeadlessStep → Prop
  | .zip _ => s.Quiet
  | _ => True

instance (s : HeadlessAsync) (e : HeadlessStep) : Decidable (s.InTurn e) := by
  cases e <;> unfold InTurn <;> infer_instance

/-- Either everything has been handed on, or exactly the directory in
`outputDir` is on its way. -/
inductive Handing : HeadlessAsync → Prop
  | quiet {s : HeadlessAsync} (hquiet : s.Quiet) (hall : s.zipped = s.passed) :
      Handing s
  | underWay {s : HeadlessAsync}
      (hpoint : (s.caller, s.pending, s.loop) ∈
        [(ZipCaller.assigned, false, ZipLoop.idle), (.idle, true, .idle),
          (.idle, false, .woken)])
      (hlast : s.passed = s.zipped ++ [s.outputDir]) : Handing s

end HeadlessAsync

def headlessMachine : Machine HeadlessAsync HeadlessStep where
  init := HeadlessAsync.initial
  step := HeadlessAsync.step

namespace HeadlessAsync

/-- Where the one directory on its way is, from one step to the next. -/
theorem Handing.step {s s' : HeadlessAsync} {e : HeadlessStep}
    (hs : s.Handing) (hturn : s.InTurn e) (hstep : s.step e = some s') :
    s'.Handing := by
  cases e with
  | zip dir =>
      obtain ⟨hcaller, hpending, hloop⟩ : s.Quiet := hturn
      have hall : s.zipped = s.passed := by
        cases hs with
        | quiet _ hall => exact hall
        | underWay hpoint _ => simp [hcaller, hpending, hloop] at hpoint
      simp only [HeadlessAsync.step, hcaller] at hstep
      cases hstep
      exact .underWay (by simp [hpending, hloop]) (by rw [hall])
  | asyncSend =>
      cases hcaller : s.caller with
      | idle => simp [HeadlessAsync.step, hcaller] at hstep
      | assigned =>
          simp only [HeadlessAsync.step, hcaller, Option.some.injEq] at hstep
          subst hstep
          cases hs with
          | quiet hquiet _ => simp [Quiet, hcaller] at hquiet
          | underWay hpoint hlast =>
              simp only [hcaller, List.mem_cons, Prod.mk.injEq, true_and,
                reduceCtorEq, false_and, List.not_mem_nil, or_false] at hpoint
              exact .underWay (by simp [hpoint.2]) hlast
  | wake =>
      cases hloop : s.loop with
      | woken => simp [HeadlessAsync.step, hloop] at hstep
      | idle =>
          cases hpending : s.pending with
          | false => simp [HeadlessAsync.step, hloop, hpending] at hstep
          | true =>
              simp only [HeadlessAsync.step, hloop, hpending,
                Option.some.injEq] at hstep
              subst hstep
              cases hs with
              | quiet hquiet _ => simp [Quiet, hpending] at hquiet
              | underWay hpoint hlast =>
                  simp only [hpending, hloop, List.mem_cons, Prod.mk.injEq,
                    reduceCtorEq, and_false, and_true, List.not_mem_nil, or_false,
                    false_or] at hpoint
                  exact .underWay (by simp [hpoint]) hlast
  | asyncfunc =>
      cases hloop : s.loop with
      | idle => simp [HeadlessAsync.step, hloop] at hstep
      | woken =>
          simp only [HeadlessAsync.step, hloop, Option.some.injEq] at hstep
          subst hstep
          cases hs with
          | quiet hquiet _ => simp [Quiet, hloop] at hquiet
          | underWay hpoint hlast =>
              simp only [hloop, List.mem_cons, Prod.mk.injEq, reduceCtorEq,
                and_false, and_true, List.not_mem_nil, or_false,
                false_or] at hpoint
              exact .quiet ⟨hpoint.1, hpoint.2, rfl⟩ hlast.symm

theorem handing_inductive : headlessMachine.Inductive InTurn Handing where
  init := .quiet ⟨rfl, rfl, rfl⟩ rfl
  step hs hturn hstep := hs.step hturn hstep

/-- When no send is outstanding, the JavaScript function has been called with
every directory once and in order. -/
def HandedOn (s : HeadlessAsync) : Prop := s.Quiet → s.zipped = s.passed

/-- No directory is forgotten in a run that passes each one after the one
before has been handed on. -/
theorem directories_handed_on {s : HeadlessAsync} {es : List HeadlessStep}
    (hguarded : headlessMachine.Guarded InTurn initial es)
    (hrun : headlessMachine.run initial es = some s) : s.HandedOn := by
  intro hquiet
  cases handing_inductive.run hguarded hrun with
  | quiet _ hall => exact hall
  | underWay hpoint _ =>
      obtain ⟨hcaller, hpending, hloop⟩ := hquiet
      simp [hcaller, hpending, hloop] at hpoint

end HeadlessAsync

namespace HeadlessAsyncWitness

open HeadlessAsync

/-- A call of `zip` and the turn of the loop that serves it. -/
def served (dir : String) : List HeadlessStep :=
  [.zip dir, .asyncSend, .wake, .asyncfunc]

theorem one_by_one :
    ∃ s, headlessMachine.run initial (served "tmp_1" ++ served "tmp_2") =
      some s ∧ s.HandedOn :=
  ⟨_, rfl, @directories_handed_on _ (served "tmp_1" ++ served "tmp_2")
    (by decide) rfl⟩

/-- Two calls before the loop comes round: the second directory takes the
place of the first. -/
theorem first_directory_lost :
    ¬ ∀ (s : HeadlessAsync) (es : List HeadlessStep),
      headlessMachine.run initial es = some s → s.HandedOn := by
  intro hall
  have hrun : headlessMachine.run initial
      [.zip "tmp_1", .asyncSend, .zip "tmp_2", .asyncSend, .wake,
        .asyncfunc] =
      some ⟨"tmp_2", false, .idle, .idle, ["tmp_1", "tmp_2"], ["tmp_2"]⟩ := by
    rfl
  have hlost := hall _ _ hrun ⟨rfl, rfl, rfl⟩
  exact absurd hlost (by decide)

end HeadlessAsyncWitness

end Appmetrics
