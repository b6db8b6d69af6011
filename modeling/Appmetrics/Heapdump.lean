/-
src/heapdump: snapshots written by a forked child or in the process itself.
One child at a time is watched; when it is gone the completion callback is
invoked with the name of its file.  Both the callback and the name are kept
in globals that calls and signals arriving in the meantime write as well.
-/
import Appmetrics.Machine
import Appmetrics.Text

namespace Appmetrics

open StepMachine

/-- An argument of `writeSnapshot`; functions are references. -/
inductive SnapshotArg
  | string (utf8 : List UInt8)
  | function (f : Nat)
  | other
deriving Repr, DecidableEq

def SnapshotArg.function? : SnapshotArg → Option Nat
  | function f => some f
  | _ => none

def kMaxPath : Nat := 4096

/-- `snprintf(buffer, size, "%s", s)`, up to the zero that ends it. -/
def snprintfString (size : Nat) (s : List UInt8) : List UInt8 :=
  (s.takeWhile (· != 0)).take (size - 1)

/-- `RandomSnapshotFilename`, from the reading of `uv_hrtime`. -/
def randomSnapshotFilename (now : Nat) : List UInt8 :=
  let sec := now / 1000000
  let usec := now % 1000000
  snprintfString kMaxPath
    (String.ofList ("heapdump-".toList ++ showNat sec ++ '.' :: showNat usec ++
      ".heapsnapshot".toList)).toUTF8.toList

/-- A snapshot that is going to be written: the function its own call passed
and the name of its file. -/
structure SnapshotRequest where
  function : Option Nat
  filename : List UInt8
deriving Repr, DecidableEq

/-- The forked process, as `waitpid` sees it; libuv's handler of the same
signal may take the exit status first. -/
inductive ChildState
  | running
  | exited
  | reaped
deriving Repr, DecidableEq

structure SnapshotChild where
  request : SnapshotRequest
  state : ChildState
deriving Repr, DecidableEq

/-- `InvokeCallback` for a request: what it found in the two globals. -/
structure SnapshotCompletion where
  request : SnapshotRequest
  callback : Option Nat
  filename : List UInt8
deriving Repr, DecidableEq

/-- A snapshot that was to be written to the file of this name, and whether
the file could be opened. -/
structure SnapshotDump where
  filename : List UInt8
  opened : Bool
deriving Repr, DecidableEq

/-- The statics of heapdump.cc and heapdump-posix.h.  `handler` is set while
the callback that `OnSIGCHLD` invoked is running, to whether its `waitpid`
failed; `started`, `dumped` and `completions` are history. -/
structure Heapdump where
  nofork : Bool
  nosignal : Bool
  onCompleteCallback : Option Nat
  snapshotFilename : List UInt8
  sigchldActive : Bool
  child : Option SnapshotChild
  handler : Option Bool
  started : List SnapshotRequest
  dumped : List SnapshotDump
  completions : List SnapshotCompletion
deriving Repr, DecidableEq

inductive HeapdumpStep
  /-- a call from JavaScript; `forks` is whether `fork` succeeds and `opens`
  whether `fopen` does, if this process writes the file -/
  | writeSnapshot (args : List SnapshotArg) (now : Nat) (forks opens : Bool)
  | sigusr2 (now : Nat) (forks opens : Bool)
  /-- `opens` is whether the child lived to open its file -/
  | childExits (opens : Bool)
  | childReaped
  /-- a child of the process has ended, this one or another -/
  | sigchld (waitpidFails : Bool)
  | callbackReturns
deriving Repr, DecidableEq

def kForkFlag : Nat := 1

def kSignalFlag : Nat := 2

namespace Heapdump

/-- `Configure`, when heapdump.js is loaded. -/
def configure (flags : Nat) : Heapdump where
  nofork := flags &&& kForkFlag == 0
  nosignal := flags &&& kSignalFlag == 0
  onCompleteCallback := none
  snapshotFilename := []
  sigchldActive := false
  child := none
  handler := none
  started := []
  dumped := []
  completions := []

/-- `WriteSnapshotHelper`, as far as the name of its file goes; nobody looks
at its result. -/
def writeSnapshotHelper (filename : List UInt8) (opens : Bool)
    (s : Heapdump) : Heapdump × Bool :=
  ({ s with dumped := s.dumped ++ [⟨filename, opens⟩] }, opens)

/-- `InvokeCallback` on behalf of `request`. -/
def invokeCallback (request : SnapshotRequest) (filename : List UInt8)
    (s : Heapdump) : Heapdump :=
  { s with completions :=
      s.completions ++ [⟨request, s.onCompleteCallback, filename⟩] }

/-- `WriteSnapshot(isolate, filename)` of heapdump-posix.h with its result. -/
def writeSnapshotFile (request : SnapshotRequest) (forks opens : Bool)
    (s : Heapdump) : Heapdump × Bool :=
  let filename := request.filename
  if s.nofork then
    let s := { s with started := s.started ++ [request] }
    let (s, _) := s.writeSnapshotHelper filename opens
    (s.invokeCallback request filename, true)
  else if s.sigchldActive then (s, false)
  else
    let s := { s with snapshotFilename := snprintfString kMaxPath filename }
    if forks then
      ({ s with
          sigchldActive := true
          child := some ⟨request, .running⟩
          started := s.started ++ [request] }, true)
    else (s, false)

/-- The function a call passes: the second argument if there is one. -/
def maybeFunction (args : List SnapshotArg) : Option Nat :=
  let maybe := if 1 < args.length then args.getD 1 .other
    else args.getD 0 .other
  maybe.function?

def callFilename (args : List SnapshotArg) (now : Nat) : List UInt8 :=
  match args.getD 0 .other with
  | .string utf8 => snprintfString kMaxPath utf8
  | _ => randomSnapshotFilename now

/-- `WriteSnapshot(args)`, which JavaScript calls. -/
def writeSnapshot (args : List SnapshotArg) (now : Nat) (forks opens : Bool)
    (s : Heapdump) : Heapdump × Bool :=
  let s :=
    match maybeFunction args with
    | some f => { s with onCompleteCallback := some f }
    | none => s
  s.writeSnapshotFile ⟨maybeFunction args, callFilename args now⟩ forks opens

def onSIGUSR2 (now : Nat) (forks opens : Bool) (s : Heapdump) : Heapdump :=
  let filename := randomSnapshotFilename now
  let s := { s with onCompleteCallback := none, snapshotFilename := filename }
  (s.writeSnapshotFile ⟨none, filename⟩ forks opens).1

/-- What `OnSIGCHLD` does once the callback has returned. -/
def afterCallback (waitpidFails : Bool) (s : Heapdump) : Heapdump :=
  if waitpidFails then { s with handler := none }
  else { s with handler := none, sigchldActive := false, child := none }

def onSIGCHLD (waitpidFails : Bool) (s : Heapdump) : Heapdump :=
  match s.child with
  | none => s
  | some child =>
      if !waitpidFails && child.state == .running then s
      else
        let s := s.invokeCallback child.request s.snapshotFilename
        match s.onCompleteCallback with
        | none => s.afterCallback waitpidFails
        | some _ => { s with handler := some waitpidFails }

/-- The child ends, and its status is taken. -/
def moveChild (before after : ChildState) (s : Heapdump) : Option Heapdump :=
  match s.child with
  | none => none
  | some child =>
      if child.state = before then
        some { s with child := some { child with state := after } }
      else none

def step (s : Heapdump) : HeapdumpStep → Option Heapdump
  | .writeSnapshot args now forks opens =>
      some (s.writeSnapshot args now forks opens).1
  | .sigusr2 now forks opens =>
      if s.nosignal = false ∧ s.handler = none then
        some (s.onSIGUSR2 now forks opens)
      else none
  | .childExits opens =>
      (s.moveChild .running .exited).map fun s' =>
        match s.child with
        | some child =>
            (s'.writeSnapshotHelper child.request.filename opens).1
        | none => s'
  | .childReaped => s.moveChild .exited .reaped
  | .sigchld waitpidFails =>
      if s.sigchldActive = true ∧ s.handler = none then
        some (s.onSIGCHLD waitpidFails)
      else none
  | .callbackReturns => s.handler.map fun fails => s.afterCallback fails

end Heapdump

def heapdumpMachine (flags : Nat) :
    Machine Heapdump HeapdumpStep where
  init := Heapdump.configure flags
  step := Heapdump.step

namespace Heapdump

/-- The request whose callback has not been invoked yet. -/
def pending (s : Heapdump) : List SnapshotRequest :=
  match s.handler with
  | none => (s.child.map (·.request)).toList
  | some _ => []

/-- The file that a running child is still writing. -/
def writing (s : Heapdump) : List (List UInt8) :=
  match s.child with
  | some child =>
      if child.state = .running then [child.request.filename] else []
  | none => []

/-- Requests are written and answered in the order in which they were
accepted, and at most the last one is outstanding. -/
structure Consistent (s : Heapdump) : Prop where
  watching : s.sigchldActive = s.child.isSome
  inProcess : s.nofork = true → s.child = none
  handling : ∀ fails, s.handler = some fails → fails = false ∧
    ∃ child, s.child = some child ∧ child.state ≠ .running
  answered : s.started = s.completions.map (·.request) ++ s.pending
  written : s.started.map (·.filename) =
    s.dumped.map (·.filename) ++ s.writing

theorem configure_consistent (flags : Nat) : (configure flags).Consistent where
  watching := rfl
  inProcess _ := rfl
  handling _ h := nomatch h
  answered := rfl
  written := rfl

/-- `waitpid` fails only for want of a child. -/
def Waits : HeapdumpStep → Prop
  | .sigchld waitpidFails => waitpidFails = false
  | _ => True

instance (e : HeapdumpStep) : Decidable (Waits e) := by
  unfold Waits
  cases e <;> infer_instance

/-- What `WriteSnapshot(isolate, filename)` can do. -/
theorem writeSnapshotFile_cases (s : Heapdump) (request : SnapshotRequest)
    (forks opens : Bool) :
    (s.nofork = true ∧ s.writeSnapshotFile request forks opens =
      ({ s with
          started := s.started ++ [request]
          dumped := s.dumped ++ [⟨request.filename, opens⟩]
          completions := s.completions ++
            [⟨request, s.onCompleteCallback, request.filename⟩] }, true)) ∨
    (s.nofork = false ∧ s.sigchldActive = true ∧
      s.writeSnapshotFile request forks opens = (s, false)) ∨
    (s.nofork = false ∧ s.sigchldActive = false ∧
      s.writeSnapshotFile request forks opens =
        ({ s with
            snapshotFilename := snprintfString kMaxPath request.filename },
          false)) ∨
    (s.nofork = false ∧ s.sigchldActive = false ∧
      s.writeSnapshotFile request forks opens =
        ({ s with
            snapshotFilename := snprintfString kMaxPath request.filename
            sigchldActive := true
            child := some ⟨request, .running⟩
            started := s.started ++ [request] }, true)) := by
  unfold writeSnapshotFile
  cases hnofork : s.nofork with
  | true => exact .inl ⟨rfl, rfl⟩
  | false =>
      refine .inr ?_
      cases hactive : s.sigchldActive with
      | true => exact .inl ⟨rfl, rfl, rfl⟩
      | false =>
          refine .inr ?_
          cases forks with
          | true => exact .inr ⟨rfl, rfl, rfl⟩
          | false => exact .inl ⟨rfl, rfl, rfl⟩

/-- What `OnSIGCHLD` can do while a child is watched and `waitpid` works. -/
theorem onSIGCHLD_cases {s : Heapdump} {child : SnapshotChild}
    (hchild : s.child = some child) :
    (child.state = .running ∧ s.onSIGCHLD false = s) ∨
    (child.state ≠ .running ∧ s.onCompleteCallback = none ∧
      s.onSIGCHLD false =
        { s with
          completions := s.completions ++
            [⟨child.request, none, s.snapshotFilename⟩]
          handler := none
          sigchldActive := false
          child := none }) ∨
    (child.state ≠ .running ∧ ∃ f, s.onCompleteCallback = some f ∧
      s.onSIGCHLD false =
        { s with
          completions := s.completions ++
            [⟨child.request, some f, s.snapshotFilename⟩]
          handler := some false }) := by
  unfold onSIGCHLD
  rw [hchild]
  by_cases hrunning : child.state = .running
  · exact .inl ⟨hrunning, by simp [hrunning]⟩
  · refine .inr ?_
    simp only [Bool.not_false, Bool.true_and, beq_iff_eq, hrunning,
      if_false, invokeCallback]
    cases hcallback : s.onCompleteCallback with
    | none => exact .inl ⟨hrunning, rfl, rfl⟩
    | some f => exact .inr ⟨hrunning, f, rfl, by rw [hchild]⟩

theorem moveChild_cases {s s' : Heapdump} {before after : ChildState}
    (hmove : s.moveChild before after = some s') :
    ∃ child, s.child = some child ∧ child.state = before ∧
      s' = { s with child := some { child with state := after } } := by
  unfold moveChild at hmove
  cases hchild : s.child with
  | none =>
      rw [hchild] at hmove
      cases hmove
  | some child =>
      rw [hchild] at hmove
      dsimp only at hmove
      split at hmove
      · next hbefore => exact ⟨child, rfl, hbefore, (Option.some.inj hmove).symm⟩
      · cases hmove

section Request

variable {s : Heapdump} (hs : s.Consistent)

include hs

theorem Consistent.handler_none (hchild : s.child = none) :
    s.handler = none := by
  cases hhandler : s.handler with
  | none => rfl
  | some fails =>
      obtain ⟨_, child, hsome, _⟩ := hs.handling fails hhandler
      cases hchild.symm.trans hsome

theorem Consistent.child_none (hidle : s.sigchldActive = false) :
    s.child = none := by
  have hwatching := hs.watching
  cases hchild : s.child with
  | none => rfl
  | some child =>
      rw [hidle, hchild] at hwatching
      cases hwatching

/-- Without a child every request has been written and answered. -/
theorem Consistent.idle (hchild : s.child = none) :
    s.started = s.completions.map (·.request) ∧
      s.started.map (·.filename) = s.dumped.map (·.filename) := by
  have hstarted := hs.answered
  have hwritten := hs.written
  simp only [pending, writing, hchild, hs.handler_none hchild,
    Option.map_none, Option.toList_none, List.append_nil]
    at hstarted hwritten
  exact ⟨hstarted, hwritten⟩

/-- Neither the callback nor the name matters to the bookkeeping. -/
theorem Consistent.globals (callback : Option Nat) (name : List UInt8) :
    Consistent { s with
      onCompleteCallback := callback, snapshotFilename := name } where
  watching := hs.watching
  inProcess := hs.inProcess
  handling := hs.handling
  answered := hs.answered
  written := hs.written

theorem Consistent.writeSnapshotFile (request : SnapshotRequest)
    (forks opens : Bool) :
    (s.writeSnapshotFile request forks opens).1.Consistent := by
  rcases s.writeSnapshotFile_cases request forks opens with
    ⟨hnofork, heq⟩ | ⟨_, _, heq⟩ | ⟨_, _, heq⟩ | ⟨hforks, hidle, heq⟩ <;>
    rw [heq]
  · have hchild := hs.inProcess hnofork
    have hhandler := hs.handler_none hchild
    obtain ⟨hstarted, hwritten⟩ := hs.idle hchild
    exact
      { watching := hs.watching
        inProcess := hs.inProcess
        handling := hs.handling
        answered := by simp [pending, hchild, hhandler, ← hstarted]
        written := by simp [writing, hchild, hwritten] }
  · exact hs
  · exact hs.globals _ _
  · have hchild := hs.child_none hidle
    have hhandler := hs.handler_none hchild
    obtain ⟨hstarted, hwritten⟩ := hs.idle hchild
    exact
      { watching := rfl
        inProcess := fun hnofork => absurd (hforks.symm.trans hnofork)
          Bool.false_ne_true
        handling := fun fails h => by cases hhandler.symm.trans h
        answered := by simp [pending, hhandler, ← hstarted]
        written := by simp [writing, hwritten] }

/-- The callback is invoked once for the child that is gone. -/
theorem Consistent.onSIGCHLD (hactive : s.sigchldActive = true)
    (hhandler : s.handler = none) : (s.onSIGCHLD false).Consistent := by
  cases hchild : s.child with
  | none =>
      have hwatching := hs.watching
      rw [hactive, hchild] at hwatching
      cases hwatching
  | some child =>
      have hstarted := hs.answered
      have hwritten := hs.written
      simp only [pending, writing, hchild, hhandler, Option.map_some,
        Option.toList_some] at hstarted hwritten
      rcases onSIGCHLD_cases hchild with
        ⟨_, heq⟩ | ⟨hstate, _, heq⟩ | ⟨hstate, f, _, heq⟩ <;> rw [heq]
      · exact hs
      · rw [if_neg hstate, List.append_nil] at hwritten
        exact
          { watching := rfl
            inProcess := fun _ => rfl
            handling := fun _ h => nomatch h
            answered := by simp [pending, hstarted]
            written := by simp [writing, hwritten] }
      · rw [if_neg hstate, List.append_nil] at hwritten
        exact
          { watching := hs.watching
            inProcess := hs.inProcess
            handling := fun fails h =>
              ⟨(Option.some.inj h).symm, child, hchild, hstate⟩
            answered := by simp [pending, hstarted]
            written := by simp [writing, hchild, hstate, hwritten] }

theorem Consistent.afterCallback {fails : Bool}
    (hhandler : s.handler = some fails) :
    (s.afterCallback fails).Consistent := by
  obtain ⟨hfails, child, hchild, hstate⟩ := hs.handling fails hhandler
  have hstarted := hs.answered
  have hwritten := hs.written
  simp only [pending, writing, hchild, hhandler, if_neg hstate,
    List.append_nil] at hstarted hwritten
  subst hfails
  constructor
  case watching => rfl
  case inProcess => exact fun _ => rfl
  case handling => exact fun _ h => nomatch h
  case answered => simp [Heapdump.afterCallback, pending, hstarted]
  case written => simp [Heapdump.afterCallback, writing, hwritten]

/-- A child that has ended has tried to write its file, which is the last
one. -/
theorem Consistent.moved {child : SnapshotChild}
    (hchild : s.child = some child) (after : ChildState)
    (hafter : after ≠ .running) {dumped : List SnapshotDump}
    (hdumped : s.started.map (·.filename) = dumped.map (·.filename)) :
    Consistent
      { s with
        child := some { child with state := after }
        dumped := dumped } := by
  have hstarted := hs.answered
  constructor
  case watching =>
    have hwatching := hs.watching
    rw [hchild] at hwatching
    exact hwatching
  case inProcess =>
    intro hnofork
    exact absurd (hchild.symm.trans (hs.inProcess hnofork)) (by simp)
  case handling =>
    intro fails h
    exact ⟨(hs.handling fails h).1, _, rfl, hafter⟩
  case answered =>
    rw [pending, hchild] at hstarted
    exact hstarted
  case written => simpa [writing, hafter] using hdumped

end Request

theorem step_consistent {s s' : Heapdump} {e : HeapdumpStep}
    (hs : s.Consistent) (hwaits : Waits e) (hstep : s.step e = some s') :
    s'.Consistent := by
  cases e with
  | writeSnapshot args now forks opens =>
      cases hstep
      unfold writeSnapshot
      cases maybeFunction args with
      | none => exact hs.writeSnapshotFile _ _ _
      | some f =>
          exact (hs.globals (some f) s.snapshotFilename).writeSnapshotFile _ _ _
  | sigusr2 now forks opens =>
      obtain ⟨_, heq⟩ := Option.ite_none_right_eq_some.mp hstep
      rw [← Option.some.inj heq]
      exact (hs.globals none _).writeSnapshotFile _ _ _
  | childExits opens =>
      obtain ⟨t, hmove, rfl⟩ := Option.map_eq_some_iff.mp hstep
      obtain ⟨child, hchild, hrunning, rfl⟩ := moveChild_cases hmove
      have hwritten := hs.written
      rw [writing, hchild] at hwritten
      rw [hchild]
      exact hs.moved hchild .exited nofun (by simpa [hrunning] using hwritten)
  | childReaped =>
      obtain ⟨child, hchild, hexited, rfl⟩ := moveChild_cases hstep
      have hwritten := hs.written
      rw [writing, hchild] at hwritten
      exact hs.moved hchild .reaped nofun (by simpa [hexited] using hwritten)
  | sigchld waitpidFails =>
      obtain ⟨⟨hactive, hhandler⟩, heq⟩ :=
        Option.ite_none_right_eq_some.mp hstep
      have hfails : waitpidFails = false := hwaits
      rw [hfails, Option.some.injEq] at heq
      rw [← heq]
      exact hs.onSIGCHLD hactive hhandler
  | callbackReturns =>
      obtain ⟨fails, hhandler, rfl⟩ := Option.map_eq_some_iff.mp hstep
      exact hs.afterCallback hhandler

theorem consistent (flags : Nat) : (heapdumpMachine flags).Inductive
    (fun _ e => Waits e) Consistent where
  init := configure_consistent flags
  step hs hwaits hstep := step_consistent hs hwaits hstep

/-! ## Whose callback is invoked -/

theorem snprintfString_idem (size : Nat) (s : List UInt8) :
    snprintfString size (snprintfString size s) = snprintfString size s := by
  have hzero : ∀ b ∈ snprintfString size s, (b != 0) = true := by
    intro b hb
    unfold snprintfString at hb
    have hmem := List.mem_of_mem_take hb
    exact List.mem_takeWhile_imp (p := (· != 0)) hmem
  have hall := List.takeWhile_eq_self_iff.mpr hzero
  have hlength : (snprintfString size s).length ≤ size - 1 :=
    List.length_take_le _ _
  rw [snprintfString.eq_def size (snprintfString size s), hall,
    List.take_of_length_le hlength]

theorem callFilename_idem (args : List SnapshotArg) (now : Nat) :
    snprintfString kMaxPath (callFilename args now) =
      callFilename args now := by
  unfold callFilename
  split
  · exact snprintfString_idem _ _
  · exact snprintfString_idem _ _

/-- While a child is at work nobody passes a function and no signal asks for
a snapshot; a call that is accepted passes a function unless there is none
yet. -/
def Unmixed (s : Heapdump) (e : HeapdumpStep) : Prop :=
  match e with
  | .writeSnapshot args _ _ _ =>
      if s.pending = [] then
        s.sigchldActive = false →
          maybeFunction args ≠ none ∨ s.onCompleteCallback = none
      else maybeFunction args = none
  | .sigusr2 _ _ _ => s.pending = []
  | e => Waits e

instance (s : Heapdump) (e : HeapdumpStep) : Decidable (s.Unmixed e) := by
  unfold Unmixed
  cases e <;> infer_instance

theorem Unmixed.waits {s : Heapdump} {e : HeapdumpStep} (h : s.Unmixed e) :
    Waits e := by
  cases e with
  | sigchld waitpidFails => exact h
  | _ => trivial

/-- Every request was answered, and the one at work will be, with its own
function and the name of its own file. -/
structure Own (s : Heapdump) : Prop where
  answered : ∀ c ∈ s.completions,
    c.callback = c.request.function ∧ c.filename = c.request.filename
  globals : ∀ r ∈ s.pending,
    s.onCompleteCallback = r.function ∧ s.snapshotFilename = r.filename

section Own

variable {s : Heapdump} (hs : s.Consistent) (hown : s.Own)

include hs

theorem Consistent.pending_nil (hidle : s.sigchldActive = false) :
    s.pending = [] := by
  have hchild := hs.child_none hidle
  simp [pending, hs.handler_none hchild, hchild]

include hown

theorem Own.writeSnapshotFile {request : SnapshotRequest}
    (forks opens : Bool)
    (hcallback : s.sigchldActive = false →
      s.onCompleteCallback = request.function)
    (hname : snprintfString kMaxPath request.filename = request.filename) :
    (s.writeSnapshotFile request forks opens).1.Own := by
  rcases s.writeSnapshotFile_cases request forks opens with
    ⟨hnofork, heq⟩ | ⟨_, _, heq⟩ | ⟨_, hidle, heq⟩ | ⟨_, hidle, heq⟩ <;>
    rw [heq]
  · have hidle : s.sigchldActive = false := by
      rw [hs.watching, hs.inProcess hnofork]
      rfl
    constructor
    case answered =>
      intro c hc
      rcases List.mem_append.mp hc with hc | hc
      · exact hown.answered c hc
      · rw [List.mem_singleton.mp hc]
        exact ⟨hcallback hidle, rfl⟩
    case globals => exact hown.globals
  · exact hown
  · constructor
    case answered => exact hown.answered
    case globals =>
      intro r hr
      have hnil := hs.pending_nil hidle
      have hmem : r ∈ s.pending := hr
      rw [hnil] at hmem
      cases hmem
  · constructor
    case answered => exact hown.answered
    case globals =>
      intro r hr
      have hhandler := hs.handler_none (hs.child_none hidle)
      have hr : r = request := by simpa [pending, hhandler] using hr
      rw [hr]
      exact ⟨hcallback hidle, hname⟩

theorem Own.onSIGCHLD (hhandler : s.handler = none)
    (hactive : s.sigchldActive = true) : (s.onSIGCHLD false).Own := by
  cases hchild : s.child with
  | none =>
      have hwatching := hs.watching
      rw [hactive, hchild] at hwatching
      cases hwatching
  | some child =>
      have hglobals := hown.globals child.request (by
        simp [pending, hhandler, hchild])
      have hcompletions {callback : Option Nat}
          (hcallback : s.onCompleteCallback = callback) :
          ∀ c ∈ s.completions ++
            [⟨child.request, callback, s.snapshotFilename⟩],
          c.callback = c.request.function ∧
            c.filename = c.request.filename := by
        intro c hc
        rcases List.mem_append.mp hc with hc | hc
        · exact hown.answered c hc
        · rw [List.mem_singleton.mp hc]
          exact ⟨hcallback ▸ hglobals.1, hglobals.2⟩
      rcases onSIGCHLD_cases hchild with
        ⟨_, heq⟩ | ⟨_, hcallback, heq⟩ | ⟨_, f, hcallback, heq⟩ <;> rw [heq]
      · exact hown
      · exact ⟨hcompletions hcallback, fun _ h => nomatch h⟩
      · exact ⟨hcompletions hcallback, fun _ h => nomatch h⟩

end Own

theorem Own.step {s s' : Heapdump} {e : HeapdumpStep} (hs : s.Consistent)
    (hown : s.Own) (hunmixed : s.Unmixed e) (hstep : s.step e = some s') :
    s'.Own := by
  cases e with
  | writeSnapshot args now forks opens =>
      cases hstep
      have hname := callFilename_idem args now
      unfold Heapdump.writeSnapshot
      cases hfunction : maybeFunction args with
      | none =>
          refine hown.writeSnapshotFile hs forks opens (fun hidle => ?_)
            hname
          simp only [Unmixed] at hunmixed
          rw [if_pos (hs.pending_nil hidle)] at hunmixed
          exact (hunmixed hidle).resolve_left (· hfunction)
      | some f =>
          have hnil : s.pending = [] := by
            by_contra hbusy
            simp only [Unmixed] at hunmixed
            rw [if_neg hbusy] at hunmixed
            cases hfunction.symm.trans hunmixed
          have hown' : Own { s with onCompleteCallback := some f } := by
            refine ⟨hown.answered, fun r hr => ?_⟩
            have hmem : r ∈ s.pending := hr
            rw [hnil] at hmem
            cases hmem
          exact hown'.writeSnapshotFile
            (hs.globals (some f) s.snapshotFilename) forks opens (fun _ => rfl)
            hname
  | sigusr2 now forks opens =>
      obtain ⟨_, heq⟩ := Option.ite_none_right_eq_some.mp hstep
      rw [← Option.some.inj heq]
      have hnil : s.pending = [] := hunmixed
      have hown' : Own { s with
          onCompleteCallback := none
          snapshotFilename := randomSnapshotFilename now } := by
        refine ⟨hown.answered, fun r hr => ?_⟩
        have hmem : r ∈ s.pending := hr
        rw [hnil] at hmem
        cases hmem
      exact hown'.writeSnapshotFile (hs.globals none _) forks opens
        (fun _ => rfl) (snprintfString_idem _ _)
  | childExits opens =>
      obtain ⟨t, hmove, rfl⟩ := Option.map_eq_some_iff.mp hstep
      obtain ⟨child, hchild, _, rfl⟩ := moveChild_cases hmove
      rw [hchild]
      refine ⟨hown.answered, fun r hr => hown.globals r ?_⟩
      rw [pending, hchild]
      exact hr
  | childReaped =>
      obtain ⟨child, hchild, _, rfl⟩ := moveChild_cases hstep
      refine ⟨hown.answered, fun r hr => hown.globals r ?_⟩
      rw [pending, hchild]
      exact hr
  | sigchld waitpidFails =>
      obtain ⟨⟨hactive, hhandler⟩, heq⟩ :=
        Option.ite_none_right_eq_some.mp hstep
      have hfails : waitpidFails = false := hunmixed
      rw [hfails, Option.some.injEq] at heq
      rw [← heq]
      exact hown.onSIGCHLD hs hhandler hactive
  | callbackReturns =>
      obtain ⟨fails, hhandler, rfl⟩ := Option.map_eq_some_iff.mp hstep
      obtain ⟨hfails, _⟩ := hs.handling fails hhandler
      rw [hfails]
      exact ⟨hown.answered, fun _ h => nomatch h⟩

theorem own (flags : Nat) : (heapdumpMachine flags).Inductive Unmixed
    (fun s => s.Consistent ∧ s.Own) where
  init := ⟨configure_consistent flags, nofun, nofun⟩
  step := fun ⟨hs, hown⟩ hunmixed hstep =>
    ⟨step_consistent hs hunmixed.waits hstep, hown.step hs hunmixed hstep⟩

end Heapdump

/-- A call is accepted and recorded with its own function and file name, or
leaves nothing but its function and, if only the `fork` failed, its file name
in the two globals. -/
theorem Heapdump.writeSnapshot_spec (s : Heapdump) (args : List SnapshotArg)
    (now : Nat) (forks opens : Bool) :
    ((s.writeSnapshot args now forks opens).2 = true ∧
      (s.writeSnapshot args now forks opens).1.started = s.started ++
        [⟨Heapdump.maybeFunction args, Heapdump.callFilename args now⟩]) ∨
    (s.writeSnapshot args now forks opens).2 = false ∧
      (s.writeSnapshot args now forks opens).1 =
        { s with
          onCompleteCallback :=
            (Heapdump.maybeFunction args).or s.onCompleteCallback
          snapshotFilename :=
            if s.sigchldActive then s.snapshotFilename
            else Heapdump.callFilename args now } := by
  have hname := Heapdump.callFilename_idem args now
  let t : Heapdump :=
    { s with
      onCompleteCallback :=
        (Heapdump.maybeFunction args).or s.onCompleteCallback }
  have hglobal : s.writeSnapshot args now forks opens = t.writeSnapshotFile
      ⟨Heapdump.maybeFunction args, Heapdump.callFilename args now⟩
        forks opens := by
    unfold Heapdump.writeSnapshot
    cases hfunction : Heapdump.maybeFunction args <;> simp [t, hfunction]
  rw [hglobal]
  rcases t.writeSnapshotFile_cases
      ⟨Heapdump.maybeFunction args, Heapdump.callFilename args now⟩
        forks opens with
    ⟨_, heq⟩ | ⟨_, hbusy, heq⟩ | ⟨_, hidle, heq⟩ | ⟨_, _, heq⟩ <;> rw [heq]
  · exact .inl ⟨rfl, rfl⟩
  · have hbusy : s.sigchldActive = true := hbusy
    exact .inr ⟨rfl, by simp [t, hbusy]⟩
  · have hidle : s.sigchldActive = false := hidle
    exact .inr ⟨rfl, by simp [t, hidle, hname]⟩
  · exact .inl ⟨rfl, rfl⟩

/-- Requests for snapshots are accepted only while no child is watched; the
files are attempted in the order in which they were accepted, one at a time,
and each request is answered once, after this; without a child none is open.
A refused call leaves only what it put into the two globals. -/
theorem snapshot_requests (flags : Nat) {steps : List HeapdumpStep}
    {s : Heapdump} (hwaits : ∀ e ∈ steps, Heapdump.Waits e)
    (hrun : (heapdumpMachine flags).run (heapdumpMachine flags).init steps =
      some s) :
    s.started = s.completions.map (·.request) ++ s.pending ∧
    s.started.map (·.filename) = s.dumped.map (·.filename) ++ s.writing ∧
    s.completions.map (·.request.filename) <+: s.dumped.map (·.filename) ∧
    (s.sigchldActive = false → s.pending = [] ∧ s.writing = []) ∧
    ∀ args now forks opens,
      ((s.writeSnapshot args now forks opens).2 = true ∧
        (s.writeSnapshot args now forks opens).1.started = s.started ++
          [⟨Heapdump.maybeFunction args, Heapdump.callFilename args now⟩]) ∨
      (s.writeSnapshot args now forks opens).2 = false ∧
        (s.writeSnapshot args now forks opens).1 =
          { s with
            onCompleteCallback :=
              (Heapdump.maybeFunction args).or s.onCompleteCallback
            snapshotFilename :=
              if s.sigchldActive then s.snapshotFilename
              else Heapdump.callFilename args now } := by
  have hs := (Heapdump.consistent flags).run
    (guarded_of_forall fun _ e he => hwaits e he) hrun
  refine ⟨hs.answered, hs.written, ?_, ?_, s.writeSnapshot_spec⟩
  · have hboth := (congrArg (List.map (·.filename)) hs.answered).symm.trans
      hs.written
    rw [List.map_append, List.map_map] at hboth
    cases hchild : s.child with
    | none =>
        rw [Heapdump.writing, hchild, List.append_nil] at hboth
        exact ⟨_, hboth⟩
    | some child =>
        cases hhandler : s.handler with
        | none =>
            simp only [Heapdump.pending, Heapdump.writing, hchild, hhandler,
              Option.map_some, Option.toList_some, List.map_cons,
              List.map_nil] at hboth
            split at hboth
            · have hsame := List.append_cancel_right hboth
              exact ⟨[], (List.append_nil _).trans hsame⟩
            · rw [List.append_nil] at hboth
              exact ⟨_, hboth⟩
        | some fails =>
            obtain ⟨_, c, hc, hstate⟩ := hs.handling fails hhandler
            simp only [Heapdump.writing, hc, if_neg hstate, List.append_nil]
              at hboth
            exact ⟨_, hboth⟩
  · intro hidle
    have hchild := hs.child_none hidle
    exact ⟨hs.pending_nil hidle, by rw [Heapdump.writing, hchild]⟩

/-- Along a run in which no function is passed and no signal comes while a
child is at work, every answer is made to the function that its own call
passed, with the name of its own file. -/
theorem snapshot_callbacks (flags : Nat) {steps : List HeapdumpStep}
    {s : Heapdump}
    (hunmixed : (heapdumpMachine flags).Guarded Heapdump.Unmixed
      (heapdumpMachine flags).init steps)
    (hrun : (heapdumpMachine flags).run (heapdumpMachine flags).init steps =
      some s) :
    (∀ c ∈ s.completions, c.callback = c.request.function ∧
      c.filename = c.request.filename) ∧
    ∀ r ∈ s.pending, s.onCompleteCallback = r.function ∧
      s.snapshotFilename = r.filename :=
  have hown := ((Heapdump.own flags).run hunmixed hrun).2
  ⟨hown.answered, hown.globals⟩

namespace HeapdumpWitness

/-- A snapshot by a child whose end another process's signal precedes, a
refused call without a function, and a second snapshot on the signal, whose
file cannot be opened. -/
def twoSnapshots : List HeapdumpStep :=
  [.writeSnapshot [.string [97], .function 7] 5 true true,
    .writeSnapshot [.string [98]] 6 true true,
    .sigchld false, .childExits true, .childReaped, .sigchld false,
    .callbackReturns, .sigusr2 8000002 true true, .childExits false,
    .sigchld false]

theorem twoSnapshots_unmixed :
    (heapdumpMachine 3).Guarded Heapdump.Unmixed (heapdumpMachine 3).init
      twoSnapshots := by
  decide +kernel

theorem twoSnapshots_runs :
    ((heapdumpMachine 3).run (heapdumpMachine 3).init
      twoSnapshots).isSome := by
  decide +kernel

theorem snapshot_callbacks_twoSnapshots :
    ∃ s, (heapdumpMachine 3).run (heapdumpMachine 3).init twoSnapshots =
        some s ∧
      (∀ c ∈ s.completions, c.callback = c.request.function ∧
        c.filename = c.request.filename) ∧
      ∀ r ∈ s.pending, s.onCompleteCallback = r.function ∧
        s.snapshotFilename = r.filename := by
  obtain ⟨s, hrun⟩ := Option.isSome_iff_exists.mp twoSnapshots_runs
  exact ⟨s, hrun, snapshot_callbacks 3 twoSnapshots_unmixed hrun⟩

theorem snapshot_requests_twoSnapshots :
    ∃ s, (heapdumpMachine 3).run (heapdumpMachine 3).init twoSnapshots =
        some s ∧
      s.started = s.completions.map (·.request) ++ s.pending ∧
      s.started.map (·.filename) =
        s.dumped.map (·.filename) ++ s.writing := by
  obtain ⟨s, hrun⟩ := Option.isSome_iff_exists.mp twoSnapshots_runs
  obtain ⟨hstarted, hwritten, _⟩ :=
    snapshot_requests 3 (by decide) hrun
  exact ⟨s, hrun, hstarted, hwritten⟩

end HeapdumpWitness

end Appmetrics
