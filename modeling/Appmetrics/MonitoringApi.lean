/-
appmetrics-api.js: the messages of the native agent become events.  The API
counts environment messages down from two and raises `initialized` at zero,
without noting which kind of message it has counted.
-/
import Appmetrics.Environment
import Appmetrics.Machine

namespace Appmetrics

open StepMachine

/-- A message of the native agent, after `data.toString()`. -/
structure ApiMessage where
  topic : String
  data : List Char
deriving Repr, DecidableEq

/-- The API object; `emitted` lists the events it has raised by name. -/
structure Api where
  environment : Env
  initialized : Int
  emitted : List String

namespace Api

def create : Api := ⟨Env.empty, 2, []⟩

def emit (a : Api) (event : String) : Api :=
  { a with emitted := a.emitted ++ [event] }

def setEnv (a : Api) (env : Env) : Api :=
  { a with environment := Appmetrics.setEnv a.environment env }

def countDown (a : Api) : Api := { a with initialized := a.initialized - 1 }

/-- `if (that.initialized == 0) that.emit('initialized')`. -/
def announce (a : Api) : Api :=
  if a.initialized = 0 then a.emit "initialized" else a

def formatOSEnv (a : Api) (message : List Char) : Api :=
  (((a.setEnv (osEnv message)).countDown).emit "environment").announce

def formatRuntimeEnv (a : Api) (message : List Char) : Api :=
  (((a.setEnv (runtimeEnv message)).emit "environment").countDown).announce

/-- One event for each line of a trimmed message. -/
def emitLines (a : Api) (event : String) (message : List Char) : Api :=
  ((jsTrim message).splitOn '\n').foldl (fun a _ => a.emit event) a

/-- The callback of `localConnect`: api events are passed by copy and are
dropped here, all others go to `raiseEvent`. -/
def receive (a : Api) (m : ApiMessage) : Api :=
  match m.topic with
  | "api" => a
  | "common_cpu" | "cpu" => a.emit "cpu"
  | "common_env" => a.formatOSEnv m.data
  | "environment_node" => a.formatRuntimeEnv m.data
  | "common_memory" | "memory" | "memory_node" => a.emit "memory"
  | "gc_node" => a.emitLines "gc" m.data
  | "profiling_node" => a.emit "profiling"
  | "loop_node" => a.emitLines "loop" m.data
  -- unknown messages are raised as they are
  | topic => a.emit topic

end Api

/-- The two kinds of environment message, and what one of them says. -/
def ApiMessage.environment? (m : ApiMessage) : Option (Bool × Env) :=
  if m.topic = "common_env" then some (true, osEnv m.data)
  else if m.topic = "environment_node" then some (false, runtimeEnv m.data)
  else none

/-- The API with what has arrived: the last environment message of either
kind, `true` standing for the one of the operating system. -/
structure Listening where
  api : Api
  arrived : Bool → Option Env

namespace Listening

def initial : Listening := ⟨Api.create, fun _ => none⟩

def step (s : Listening) (m : ApiMessage) : Option Listening :=
  some
    { api := s.api.receive m
      arrived :=
        match m.environment? with
        | some (kind, env) => Function.update s.arrived kind (some env)
        | none => s.arrived }

/-- Both kinds of environment message have arrived. -/
def Complete (s : Listening) : Prop := ∀ kind, s.arrived kind ≠ none

/-- How often `initialized` has been raised. -/
def announced (s : Listening) : Nat := s.api.emitted.count "initialized"

/-- `getEnvironment` holds data from the last message of either kind. -/
def HoldsBoth (s : Listening) : Prop :=
  ∀ kind, ∃ env ∈ s.arrived kind, ∀ p, env p ≠ none →
    s.api.environment p ≠ none

/-- `initialized` is raised in this step just when it completes the pair; it
is raised at most once in all, and only with the data of both kinds there. -/
structure AnnouncesPair (s : Listening) (_ : ApiMessage) (s' : Listening) :
    Prop where
  exact : s.announced < s'.announced ↔ ¬ s.Complete ∧ s'.Complete
  once : s'.announced ≤ 1
  data : s.announced < s'.announced → s'.HoldsBoth

/-- The message is not called `initialized` itself, and does not repeat the
one kind that has arrived while the other is missing. -/
def NoRepeat (s : Listening) (m : ApiMessage) : Prop :=
  m.topic ≠ "initialized" ∧
    ∀ kind, m.environment?.map Prod.fst = some kind →
      s.arrived kind ≠ none → s.arrived (!kind) ≠ none

end Listening

namespace Api

theorem emitLines_spec (a : Api) (event : String) (message : List Char) :
    ∃ n, a.emitLines event message =
      { a with emitted := a.emitted ++ List.replicate n event } := by
  unfold emitLines
  induction (jsTrim message).splitOn '\n' generalizing a with
  | nil => exact ⟨0, by simp⟩
  | cons line lines ih =>
      obtain ⟨n, hn⟩ := ih (a.emit event)
      refine ⟨n + 1, ?_⟩
      rw [List.foldl_cons, hn, List.replicate_succ]
      simp [emit]

/-- A message that is not an environment message raises events only, and
`initialized` only under that name. -/
theorem receive_other {a : Api} {m : ApiMessage}
    (hm : m.environment? = none) :
    ∃ extra, a.receive m = { a with emitted := a.emitted ++ extra } ∧
      extra.count "initialized" =
        if m.topic = "initialized" then 1 else 0 := by
  have hos : m.topic ≠ "common_env" := by
    intro h
    simp [ApiMessage.environment?, h] at hm
  have hnode : m.topic ≠ "environment_node" := by
    intro h
    simp [ApiMessage.environment?, h] at hm
  have hlines {event : String} (hevent : event ≠ "initialized")
      (htopic : m.topic ≠ "initialized") :
      ∃ extra, a.emitLines event m.data =
          { a with emitted := a.emitted ++ extra } ∧
        extra.count "initialized" =
          if m.topic = "initialized" then 1 else 0 := by
    obtain ⟨n, hn⟩ := a.emitLines_spec event m.data
    refine ⟨_, hn, ?_⟩
    rw [if_neg htopic, List.count_replicate, if_neg (by simpa using hevent)]
  unfold receive
  split
  · next h => exact ⟨[], by simp, by simp [h]⟩
  · next h => exact ⟨_, rfl, by simp [h]⟩
  · next h => exact ⟨_, rfl, by simp [h]⟩
  · next h => exact absurd h hos
  · next h => exact absurd h hnode
  · next h => exact ⟨_, rfl, by simp [h]⟩
  · next h => exact ⟨_, rfl, by simp [h]⟩
  · next h => exact ⟨_, rfl, by simp [h]⟩
  · next h => exact hlines (by decide) (by rw [h]; decide)
  · next h => exact ⟨_, rfl, by simp [h]⟩
  · next h => exact hlines (by decide) (by rw [h]; decide)
  · exact ⟨_, rfl, by simp [List.count_singleton]⟩

/-- An environment message of either kind is copied and counted. -/
theorem receive_environment {a : Api} {m : ApiMessage} {kind : Bool}
    {env : Env} (hm : m.environment? = some (kind, env)) :
    (a.receive m).environment = Appmetrics.setEnv a.environment env ∧
      (a.receive m).initialized = a.initialized - 1 ∧
      (a.receive m).emitted.count "initialized" =
        a.emitted.count "initialized" +
          if a.initialized = 1 then 1 else 0 := by
  have hzero : a.initialized - 1 = 0 ↔ a.initialized = 1 := by omega
  have hannounce (b : Api) :
      b.announce.environment = b.environment ∧
        b.announce.initialized = b.initialized ∧
        b.announce.emitted.count "initialized" =
          b.emitted.count "initialized" +
            if b.initialized = 0 then 1 else 0 := by
    unfold announce
    split <;> simp [emit]
  unfold ApiMessage.environment? at hm
  split at hm
  · next h =>
      cases hm
      have hreceive : a.receive m = a.formatOSEnv m.data := by
        simp [receive, h]
      rw [hreceive, formatOSEnv]
      obtain ⟨henv, hcount, hemitted⟩ := hannounce
        (((a.setEnv (osEnv m.data)).countDown).emit "environment")
      rw [henv, hcount, hemitted]
      simp [emit, countDown, setEnv, hzero]
  · split at hm
    · next h =>
        cases hm
        have hreceive : a.receive m = a.formatRuntimeEnv m.data := by
          simp [receive, h]
        rw [hreceive, formatRuntimeEnv]
        obtain ⟨henv, hcount, hemitted⟩ := hannounce
          (((a.setEnv (runtimeEnv m.data)).emit "environment").countDown)
        rw [henv, hcount, hemitted]
        simp [emit, countDown, setEnv, hzero]
    · cases hm

end Api

/-- What is copied into the environment stays there. -/
theorem setEnv_ne_none {environment env : Env} {p : List Char}
    (h : env p ≠ none ∨ environment p ≠ none) :
    setEnv environment env p ≠ none := by
  unfold setEnv
  cases hp : env p with
  | some value => exact Option.some_ne_none value
  | none => exact h.resolve_left fun hne => hne hp

namespace Listening

/-- The countdown while no kind has repeated itself before the other came. -/
structure Counted (s : Listening) : Prop where
  none_arrived : (∀ kind, s.arrived kind = none) → s.api.initialized = 2
  one_arrived : ∀ kind, s.arrived kind ≠ none → s.arrived (!kind) = none →
    s.api.initialized = 1
  both_arrived : s.Complete → s.api.initialized ≤ 0
  announced : s.Complete → s.announced = 1
  silent : ¬ s.Complete → s.announced = 0
  kept : ∀ kind, ∀ env ∈ s.arrived kind, ∀ p, env p ≠ none →
    s.api.environment p ≠ none

/-- Once both kinds have arrived. -/
theorem Counted.of_complete {s : Listening} (h : s.Complete)
    (hinit : s.api.initialized ≤ 0) (hannounced : s.announced = 1)
    (hkept : ∀ kind, ∀ env ∈ s.arrived kind, ∀ p, env p ≠ none →
      s.api.environment p ≠ none) : s.Counted where
  none_arrived hnone := absurd (hnone true) (h true)
  one_arrived kind _ hnone := absurd hnone (h (!kind))
  both_arrived _ := hinit
  announced _ := hannounced
  silent hnot := absurd h hnot
  kept := hkept

theorem initial_counted : initial.Counted where
  none_arrived _ := rfl
  one_arrived _ h := absurd rfl h
  both_arrived h := absurd rfl (h true)
  announced h := absurd rfl (h true)
  silent _ := rfl
  kept _ _ h := by cases h

theorem complete_iff (s : Listening) (kind : Bool) :
    s.Complete ↔ s.arrived kind ≠ none ∧ s.arrived (!kind) ≠ none := by
  rw [Complete, Bool.forall_bool]
  cases kind
  · exact Iff.rfl
  · exact and_comm

/-- A message of another kind than the environment messages. -/
theorem Counted.other {s s' : Listening} {m : ApiMessage} (hs : s.Counted)
    (hstep : s.step m = some s') (hm : m.environment? = none) :
    (s.NoRepeat m ↔ s.AnnouncesPair m s') ∧ (s.NoRepeat m → s'.Counted) := by
  obtain ⟨extra, hreceive, hextra⟩ := Api.receive_other (a := s.api) hm
  have harrived : s'.arrived = s.arrived := by
    cases hstep
    simp [hm]
  have hapi : s'.api = { s.api with emitted := s.api.emitted ++ extra } := by
    cases hstep
    exact hreceive
  have hcomplete : s'.Complete ↔ s.Complete := by
    rw [Complete, Complete, harrived]
  have hannounced : s'.announced = s.announced +
      if m.topic = "initialized" then 1 else 0 := by
    rw [Listening.announced, Listening.announced, hapi, List.count_append,
      hextra]
  have honce : s.announced ≤ 1 := by
    by_cases h : s.Complete
    · exact (hs.announced h).le
    · rw [hs.silent h]
      exact Nat.zero_le 1
  by_cases htopic : m.topic = "initialized"
  · rw [if_pos htopic] at hannounced
    have hno : ¬ s.NoRepeat m := fun h => h.1 htopic
    refine ⟨iff_of_false hno fun h => ?_, fun h => absurd h hno⟩
    have hpair := h.exact.mp (by omega)
    exact hpair.1 (hcomplete.mp hpair.2)
  · rw [if_neg htopic, Nat.add_zero] at hannounced
    have hyes : s.NoRepeat m :=
      ⟨htopic, fun kind hkind => by rw [hm] at hkind; cases hkind⟩
    refine ⟨iff_of_true hyes ⟨?_, by omega, fun h => ?_⟩, fun _ => ?_⟩
    · rw [hannounced, hcomplete]
      exact iff_of_false (Nat.lt_irrefl _) fun h => h.1 h.2
    · omega
    · constructor
      case none_arrived => rw [harrived, hapi]; exact hs.none_arrived
      case one_arrived => rw [harrived, hapi]; exact hs.one_arrived
      case both_arrived => rw [hcomplete, hapi]; exact hs.both_arrived
      case announced => rw [hcomplete, hannounced]; exact hs.announced
      case silent => rw [hcomplete, hannounced]; exact hs.silent
      case kept => rw [harrived, hapi]; exact hs.kept

/-- The countdown when an environment message comes in: it announces when
one kind had arrived, be it the other one or the same. -/
theorem Counted.initialized_eq_one {s : Listening} (hs : s.Counted)
    (kind : Bool) :
    s.api.initialized = 1 ↔
      (s.arrived kind ≠ none ∨ s.arrived (!kind) ≠ none) ∧ ¬ s.Complete := by
  rw [s.complete_iff kind]
  by_cases hsame : s.arrived kind = none
  · by_cases hother : s.arrived (!kind) = none
    · have htwo := hs.none_arrived fun k => by
        cases k <;> cases kind <;> assumption
      simp [hsame, hother, htwo]
    · have hone := hs.one_arrived (!kind) hother (by simpa using hsame)
      simp [hsame, hother, hone]
  · by_cases hother : s.arrived (!kind) = none
    · have hone := hs.one_arrived kind hsame hother
      simp [hsame, hother, hone]
    · have hzero := hs.both_arrived ((s.complete_iff kind).mpr
        ⟨hsame, hother⟩)
      simp [hsame, hother]
      omega

section Environment

variable {s s' : Listening} {m : ApiMessage} (hs : s.Counted)
  (hstep : s.step m = some s') {kind : Bool} {env : Env}
  (hm : m.environment? = some (kind, env))

include hstep hm

theorem step_arrived :
    s'.arrived = Function.update s.arrived kind (some env) := by
  cases hstep
  simp [hm]

theorem step_complete : s'.Complete ↔ s.arrived (!kind) ≠ none := by
  rw [s'.complete_iff kind, step_arrived hstep hm]
  simp

theorem step_announced : s'.announced =
    s.announced + if s.api.initialized = 1 then 1 else 0 := by
  cases hstep
  exact (Api.receive_environment hm).2.2

theorem step_initialized :
    s'.api.initialized = s.api.initialized - 1 := by
  cases hstep
  exact (Api.receive_environment hm).2.1

include hs

theorem step_kept : ∀ k, ∀ e ∈ s'.arrived k, ∀ p, e p ≠ none →
    s'.api.environment p ≠ none := by
  have henvironment : s'.api.environment =
      setEnv s.api.environment env := by
    cases hstep
    exact (Api.receive_environment hm).1
  intro k e he p hp
  rw [step_arrived hstep hm] at he
  rw [henvironment]
  by_cases hk : k = kind
  · rw [hk, Function.update_self] at he
    cases he
    exact setEnv_ne_none (Or.inl hp)
  · rw [Function.update_of_ne hk] at he
    exact setEnv_ne_none (Or.inr (hs.kept k e he p hp))

/-- An environment message announces rightly unless it repeats the one kind
that has arrived. -/
theorem Counted.environment :
    (s.NoRepeat m ↔ s.AnnouncesPair m s') ∧ (s.NoRepeat m → s'.Counted) := by
  have hone := hs.initialized_eq_one kind
  have hannounced := step_announced hstep hm
  have hcomplete := step_complete hstep hm
  have hcount := step_initialized hstep hm
  have hkept := step_kept hs hstep hm
  have hnorepeat : s.NoRepeat m ↔
      (s.arrived kind ≠ none → s.arrived (!kind) ≠ none) := by
    have htopic : m.topic ≠ "initialized" := by
      intro h
      simp [ApiMessage.environment?, h] at hm
    rw [NoRepeat, hm]
    simp [htopic]
  have hself : s'.arrived kind ≠ none := by
    rw [step_arrived hstep hm, Function.update_self]
    exact Option.some_ne_none env
  have hother : s'.arrived (!kind) = s.arrived (!kind) := by
    rw [step_arrived hstep hm, Function.update_of_ne (by simp)]
  by_cases hbefore : s.Complete
  · -- nothing is announced any more
    obtain ⟨hsame, hrest⟩ := (s.complete_iff kind).mp hbefore
    have hnot : s.api.initialized ≠ 1 := fun h => (hone.mp h).2 hbefore
    rw [if_neg hnot, Nat.add_zero, hs.announced hbefore] at hannounced
    have hafter := hcomplete.mpr hrest
    have hyes := hnorepeat.mpr fun _ => hrest
    refine ⟨iff_of_true hyes ⟨?_, by omega, fun h => ?_⟩, fun _ => ?_⟩
    · rw [hannounced, hs.announced hbefore]
      exact iff_of_false (Nat.lt_irrefl 1) fun h => h.1 hbefore
    · rw [hannounced, hs.announced hbefore] at h
      exact absurd h (Nat.lt_irrefl 1)
    · have hle := hs.both_arrived hbefore
      exact .of_complete hafter (by omega) hannounced hkept
  · have hzero := hs.silent hbefore
    by_cases hrest : s.arrived (!kind) = none
    · by_cases hsame : s.arrived kind = none
      · -- the first environment message
        have hnot : s.api.initialized ≠ 1 := fun h =>
          (hone.mp h).1.elim (fun h => h hsame) fun h => h hrest
        rw [if_neg hnot, Nat.add_zero, hzero] at hannounced
        have hafter : ¬ s'.Complete := fun h => hcomplete.mp h hrest
        have hyes := hnorepeat.mpr fun h => absurd hsame h
        refine ⟨iff_of_true hyes ⟨?_, by omega, fun h => by omega⟩,
          fun _ => ?_⟩
        · rw [hannounced, hzero]
          exact iff_of_false (Nat.lt_irrefl 0) fun h => hafter h.2
        · have htwo := hs.none_arrived fun k => by
            cases k <;> cases kind <;> assumption
          exact
            { none_arrived := fun h => absurd (h kind) hself
              one_arrived := fun _ _ _ => by omega
              both_arrived := fun h => absurd h hafter
              announced := fun h => absurd h hafter
              silent := fun _ => hannounced
              kept := hkept }
      · -- the kind that has arrived comes again
        rw [if_pos (hone.mpr ⟨Or.inl hsame, hbefore⟩), hzero] at hannounced
        have hno : ¬ s.NoRepeat m := fun h => hnorepeat.mp h hsame hrest
        refine ⟨iff_of_false hno fun h => ?_, fun h => absurd h hno⟩
        have hpair := h.exact.mp (by omega)
        exact hcomplete.mp hpair.2 hrest
    · -- the other kind has arrived: this message completes the pair
      have hinit := hone.mpr ⟨Or.inr hrest, hbefore⟩
      rw [if_pos hinit, hzero] at hannounced
      have hafter := hcomplete.mpr hrest
      have hyes := hnorepeat.mpr fun _ => hrest
      refine ⟨iff_of_true hyes ⟨?_, by omega, fun _ k => ?_⟩, fun _ => ?_⟩
      · exact iff_of_true (by omega) ⟨hbefore, hafter⟩
      · obtain ⟨e, he⟩ := Option.ne_none_iff_exists'.mp (hafter k)
        exact ⟨e, he, hkept k e he⟩
      · exact .of_complete hafter (by omega) (by omega) hkept

end Environment

theorem Counted.step {s s' : Listening} {m : ApiMessage} (hs : s.Counted)
    (hstep : s.step m = some s') :
    (s.NoRepeat m ↔ s.AnnouncesPair m s') ∧ (s.NoRepeat m → s'.Counted) := by
  cases hm : m.environment? with
  | none => exact hs.other hstep hm
  | some pair => exact hs.environment hstep hm

end Listening

/-- The API as a machine whose labels are messages. -/
def apiMachine : StepMachine.Machine Listening ApiMessage where
  init := Listening.initial
  step := Listening.step

theorem apiMachine_run (s : Listening) (messages : List ApiMessage) :
    ∃ s', apiMachine.run s messages = some s' := by
  induction messages generalizing s with
  | nil => exact ⟨s, rfl⟩
  | cons m messages ih => exact ih _

namespace MonitoringApiWitness

/-- A resent OS environment completes nothing. -/
def resent : List ApiMessage :=
  [⟨"common_env", "#EnvironmentSource\nos.arch=x86_64\n".toList⟩,
    ⟨"common_env", "#EnvironmentSource\nos.arch=x86_64\n".toList⟩]

end MonitoringApiWitness

end Appmetrics
