/-
headless_zip.js: the archives of headless mode.  `headlessZip` packs a
directory of the agent into an archive named after the clock and drops the
oldest name from its list when there are too many; the file of a dropped name
is unlinked some time after the call, or the call throws, which depends on the
version of Node.
-/
import Appmetrics.Effect
import Appmetrics.Machine
import Mathlib.Data.List.Basic
import Mathlib.Data.List.Nodup
import Mathlib.Logic.Function.Basic

namespace Appmetrics

open StepMachine

/-- The fields of a `Date` in local time; months count from zero. -/
structure ZipDate where
  date : Nat
  month : Nat
  fullYear : Nat
  hours : Nat
  minutes : Nat
  seconds : Nat
deriving Repr, DecidableEq

/-- The names of the files of a directory, with their contents. -/
abbrev ZipFiles := List (String × List UInt8)

/-- An archive as it was written. -/
structure Archive where
  outputFileName : String
  files : ZipFiles
deriving Repr, DecidableEq

/-- What does not change during a run.  `join` is `path.join`; from Node 10 on
`fs.unlink` throws when it gets no callback. -/
structure ZipSetup where
  dirToWriteTo : Option String
  join : String → String → String
  pid : Nat
  unlinkThrows : Bool

/-- `pad`: a single digit gets a leading zero. -/
def zipPad (numberString : List Char) : List Char :=
  if numberString.length = 1 then '0' :: numberString else numberString

/-- `timestamp()`. -/
def zipTimestamp (pid : Nat) (d : ZipDate) : List Char :=
  zipPad (Nat.toDigits 10 d.date) ++ zipPad (Nat.toDigits 10 (d.month + 1)) ++
    ((Nat.toDigits 10 d.fullYear).drop 2).take 3 ++ '_' ::
    zipPad (Nat.toDigits 10 d.hours) ++ zipPad (Nat.toDigits 10 d.minutes) ++
    zipPad (Nat.toDigits 10 d.seconds) ++ '_' :: Nat.toDigits 10 pid

def ZipSetup.outputFileName (z : ZipSetup) (d : ZipDate) : String :=
  let name := "nodeappmetrics" ++ String.ofList (zipTimestamp z.pid d) ++ ".hcd"
  match z.dirToWriteTo with
  | some dir => z.join dir name
  | none => name

inductive ZipEvent
  | wrote (outputFileName : String) (files : ZipFiles)
  | removed (dir : String)
deriving Repr, DecidableEq

/-- The variables of the module, the directories of the agent and the
archives on disk, each by its place in `written`; `unlinking` holds the
deletions that have not completed.  `written` and `log` are history. -/
structure HeadlessZip where
  filesToKeep : Nat
  filesWritten : List String
  dirs : String → Option ZipFiles
  disk : String → Option Nat
  unlinking : List String
  written : List Archive
  log : List ZipEvent

/-- What `fs.unlink` throws: the callback must be a function. -/
inductive ZipError
  | typeError
deriving Repr, DecidableEq

abbrev Zipping := Effect.Comp ZipError HeadlessZip Unit

inductive ZipStep
  /-- the agent makes a directory -/
  | create (dir : String) (files : ZipFiles)
  | headlessZip (dirToZip : String) (now : ZipDate)
  | setFilesToKeep (numFiles : Nat)
  | unlinked (filename : String)
deriving Repr, DecidableEq

namespace HeadlessZip

def initial : HeadlessZip where
  filesToKeep := 10
  filesWritten := []
  dirs := fun _ => none
  disk := fun _ => none
  unlinking := []
  written := []
  log := []

def queueUnlink (filename : String) (s : HeadlessZip) : HeadlessZip :=
  { s with unlinking := s.unlinking ++ [filename] }

/-- `fs.unlink(filename)`, without a callback. -/
def deleteFile (z : ZipSetup) (filename : String) : Zipping :=
  if z.unlinkThrows then .throw .typeError else .modify (queueUnlink filename)

def writeFileSync (outputFileName : String) (files : ZipFiles)
    (s : HeadlessZip) : HeadlessZip :=
  { s with
    disk := Function.update s.disk outputFileName (some s.written.length)
    written := s.written ++ [⟨outputFileName, files⟩]
    log := s.log ++ [.wrote outputFileName files] }

def deleteDir (directory : String) (s : HeadlessZip) : HeadlessZip :=
  match s.dirs directory with
  | none => s
  | some _ =>
      { s with
        dirs := Function.update s.dirs directory none
        log := s.log ++ [.removed directory] }

/-- `filesWritten.push`, and `filesWritten.shift` if there are too many. -/
def pushName (z : ZipSetup) (outputFileName : String) : Zipping := fun s =>
  let filesWritten := s.filesWritten ++ [outputFileName]
  if s.filesToKeep < filesWritten.length then
    match filesWritten with
    | [] => (.ok (), s)
    | earliest :: rest => deleteFile z earliest { s with filesWritten := rest }
  else (.ok (), { s with filesWritten := filesWritten })

/-- Pack the directory if it exists, and remove it. -/
def packDir (outputFileName dirToZip : String) (s : HeadlessZip) :
    HeadlessZip :=
  match s.dirs dirToZip with
  | some files => (s.writeFileSync outputFileName files).deleteDir dirToZip
  | none => s

def headlessZip (z : ZipSetup) (dirToZip : String) (now : ZipDate) :
    Zipping := do
  let outputFileName := z.outputFileName now
  pushName z outputFileName
  .modify (packDir outputFileName dirToZip)

/-- The limit is positive, as index.js sees to.  A call that throws has done
what it did before. -/
def step (z : ZipSetup) (s : HeadlessZip) : ZipStep → Option HeadlessZip
  | .create dir files =>
      some { s with dirs := Function.update s.dirs dir (some files) }
  | .headlessZip dirToZip now => some (headlessZip z dirToZip now s).2
  | .setFilesToKeep numFiles =>
      if 1 ≤ numFiles then some { s with filesToKeep := numFiles } else none
  | .unlinked filename =>
      if filename ∈ s.unlinking then
        some { s with
          disk := Function.update s.disk filename none
          unlinking := s.unlinking.erase filename }
      else none

/-- A call on a directory writes one archive of its files and then removes
the directory; nothing else is written or removed. -/
def ZipsOnce (z : ZipSetup) (s : HeadlessZip) (e : ZipStep)
    (s' : HeadlessZip) : Prop :=
  match e with
  | .headlessZip dirToZip now =>
      match s.dirs dirToZip with
      | some files =>
          s'.log = s.log ++
            [.wrote (z.outputFileName now) files, .removed dirToZip] ∧
          s'.written = s.written ++ [⟨z.outputFileName now, files⟩] ∧
          s'.dirs = Function.update s.dirs dirToZip none
      | none =>
          s'.log = s.log ∧ s'.written = s.written ∧ s'.dirs = s.dirs
  | _ => s'.log = s.log ∧ s'.written = s.written

/-- The archives on disk are the most recent ones, as many as are to be
kept. -/
def Retains (s : HeadlessZip) : Prop :=
  ∀ k, (∃ filename, s.disk filename = some k) ↔
    s.written.length - min s.filesToKeep s.written.length ≤ k ∧
      k < s.written.length

/-- What keeps the list and the disk in step.  The name of a call is not in
use; a call that drops a name does not throw and finds its directory, and no
call before it has left a name without an archive in the list; and the limit
is neither set below the length of the list nor, once an archive has been
dropped, above it. -/
def InStep (z : ZipSetup) (s : HeadlessZip) : ZipStep → Prop
  | .headlessZip dirToZip now =>
      z.outputFileName now ∉ s.filesWritten ++ s.unlinking ∧
      (s.filesToKeep < s.filesWritten.length + 1 →
        z.unlinkThrows = false ∧ (s.dirs dirToZip).isSome ∧
          ∀ filename ∈ s.filesWritten, (s.disk filename).isSome)
  | .setFilesToKeep numFiles =>
      s.filesWritten.length ≤ numFiles ∧
        (s.written.length ≤ s.filesWritten.length ∨
          numFiles = s.filesWritten.length)
  | _ => True

instance (z : ZipSetup) (s : HeadlessZip) (e : ZipStep) :
    Decidable (s.InStep z e) := by
  cases e <;> unfold InStep <;> infer_instance

end HeadlessZip

def zipMachine (z : ZipSetup) : Machine HeadlessZip ZipStep where
  init := HeadlessZip.initial
  step := HeadlessZip.step z

namespace HeadlessZip

/-! ## The list and the disk -/

def onDisk (s : HeadlessZip) (filename : String) : Bool :=
  (s.disk filename).isSome

/-- The names in `names` that are on disk are those of the archives `recent`,
which were written after the archives `old`. -/
structure Listed (names : List String) (old recent : List Archive)
    (s : HeadlessZip) : Prop where
  written : s.written = old ++ recent
  kept : names.filter s.onDisk = recent.map Archive.outputFileName
  place : ∀ {i a}, recent[i]? = some a →
    s.disk a.outputFileName = some (old.length + i)
  nodup : names.Nodup
  apart : ∀ filename ∈ names, filename ∉ s.unlinking
  known : ∀ {filename}, s.onDisk filename = true →
    filename ∈ names ∨ filename ∈ s.unlinking
  /-- a name without an archive is only there while none has been dropped -/
  complete : recent.length = names.length ∨ old = []

namespace Listed

variable {names : List String} {old recent : List Archive} {s : HeadlessZip}
  {outputFileName : String}

theorem mem_names (h : Listed names old recent s) {a : Archive}
    (ha : a ∈ recent) : a.outputFileName ∈ names := by
  have hmem : a.outputFileName ∈ names.filter s.onDisk := by
    rw [h.kept]
    exact List.mem_map_of_mem ha
  exact (List.mem_filter.mp hmem).1

theorem length_le (h : Listed names old recent s) :
    recent.length ≤ names.length := by
  have hlength := congrArg List.length h.kept
  rw [List.length_map] at hlength
  exact hlength ▸ List.length_filter_le _ _

theorem not_onDisk (h : Listed names old recent s)
    (hnew : outputFileName ∉ names ++ s.unlinking) :
    s.onDisk outputFileName = false := by
  rw [List.mem_append] at hnew
  by_contra hdisk
  exact hnew (h.known (by simpa using hdisk))

/-- The oldest name is dropped; all names had archives. -/
theorem drop {earliest : String} (h : Listed (earliest :: names) old recent s)
    (hall : ∀ filename ∈ earliest :: names, s.onDisk filename = true)
    (filesWritten : List String) :
    ∃ a rest, recent = a :: rest ∧ Listed names (old ++ [a]) rest
      ({ s with filesWritten := filesWritten }.queueUnlink earliest) := by
  have hkept := h.kept
  rw [List.filter_eq_self.mpr hall] at hkept
  obtain ⟨hfresh, hnodup⟩ := List.nodup_cons.mp h.nodup
  cases recent with
  | nil => cases hkept
  | cons a rest =>
      obtain ⟨hname, hnames⟩ := List.cons.inj hkept
      refine ⟨a, rest, rfl, ?_⟩
      constructor
      case written =>
        rw [List.append_assoc]
        exact h.written
      case kept =>
        exact (List.filter_eq_self.mpr fun f hf =>
          hall f (List.mem_cons_of_mem _ hf)).trans hnames
      case place =>
        intro i b hb
        rw [List.length_append, List.length_singleton, Nat.add_assoc,
          Nat.add_comm 1 i]
        exact h.place (i := i + 1) hb
      case nodup => exact hnodup
      case apart =>
        intro f hf
        rw [queueUnlink, List.mem_append, List.mem_singleton, not_or]
        refine ⟨h.apart f (List.mem_cons_of_mem _ hf), ?_⟩
        rintro rfl
        exact hfresh hf
      case known =>
        intro f hf
        rw [queueUnlink, List.mem_append, List.mem_singleton]
        rcases h.known hf with hmem | hmem
        · rcases List.mem_cons.mp hmem with rfl | hmem
          · exact Or.inr (Or.inr rfl)
          · exact Or.inl hmem
        · exact Or.inr (Or.inl hmem)
      case complete =>
        left
        rw [hnames, List.length_map]

/-- A name without an archive. -/
theorem push (h : Listed names [] recent s)
    (hnew : outputFileName ∉ names ++ s.unlinking) :
    Listed (names ++ [outputFileName]) [] recent s := by
  have hdisk := h.not_onDisk hnew
  rw [List.mem_append, not_or] at hnew
  constructor
  case written => exact h.written
  case kept =>
    rw [List.filter_append, h.kept, List.filter_cons_of_neg (by simp [hdisk]),
      List.filter_nil, List.append_nil]
  case place => exact h.place
  case nodup =>
    rw [List.nodup_append_comm, List.singleton_append, List.nodup_cons]
    exact ⟨hnew.1, h.nodup⟩
  case apart =>
    intro f hf
    rcases List.mem_append.mp hf with hf | hf
    · exact h.apart f hf
    · rw [List.mem_singleton.mp hf]
      exact hnew.2
  case known =>
    intro f hf
    rw [List.mem_append]
    exact (h.known hf).imp Or.inl id
  case complete => exact Or.inr rfl

/-- An archive is written under a new name. -/
theorem write (h : Listed names old recent s)
    (hnew : outputFileName ∉ names ++ s.unlinking) (files : ZipFiles) :
    Listed (names ++ [outputFileName]) old
      (recent ++ [⟨outputFileName, files⟩])
      (s.writeFileSync outputFileName files) := by
  have hdisk (f : String) : (s.writeFileSync outputFileName files).disk f =
      if f = outputFileName then some s.written.length else s.disk f :=
    Function.update_apply s.disk outputFileName (some s.written.length) f
  have honDisk (f : String) :
      (s.writeFileSync outputFileName files).onDisk f =
        (f == outputFileName || s.onDisk f) := by
    rw [onDisk, hdisk, onDisk]
    by_cases hf : f = outputFileName <;> simp [hf]
  have hold {f : String} (hf : f ∈ names ++ s.unlinking) :
      f ≠ outputFileName := by
    rintro rfl
    exact hnew hf
  constructor
  case written =>
    rw [writeFileSync, h.written, List.append_assoc]
  case kept =>
    have hsame : names.filter (s.writeFileSync outputFileName files).onDisk =
        names.filter s.onDisk := by
      refine List.filter_congr fun f hf => ?_
      rw [honDisk, beq_false_of_ne (hold (List.mem_append_left _ hf)),
        Bool.false_or]
    rw [List.filter_append, hsame, h.kept, List.map_append,
      List.filter_cons_of_pos (by rw [honDisk, BEq.rfl, Bool.true_or])]
    rfl
  case place =>
    intro i a ha
    rw [hdisk]
    rcases Nat.lt_or_ge i recent.length with hlt | hge
    · rw [List.getElem?_append_left hlt] at ha
      rw [if_neg (hold (List.mem_append_left _
        (h.mem_names (List.mem_of_getElem? ha)))), h.place ha]
    · rw [List.getElem?_append_right hge, List.getElem?_singleton] at ha
      split at ha
      · cases ha
        rw [if_pos rfl, h.written, List.length_append]
        congr 2
        omega
      · cases ha
  case nodup =>
    rw [List.nodup_append_comm, List.singleton_append, List.nodup_cons]
    exact ⟨fun hmem => hold (List.mem_append_left _ hmem) rfl, h.nodup⟩
  case apart =>
    intro f hf
    rcases List.mem_append.mp hf with hf | hf
    · exact h.apart f hf
    · rw [List.mem_singleton.mp hf]
      exact fun hmem => hnew (List.mem_append_right _ hmem)
  case known =>
    intro f hf
    rw [honDisk, Bool.or_eq_true, beq_iff_eq] at hf
    rw [List.mem_append, List.mem_singleton]
    rcases hf with rfl | hf
    · exact Or.inl (Or.inr rfl)
    · exact (h.known hf).imp Or.inl id
  case complete =>
    rw [List.length_append, List.length_append]
    exact h.complete.imp (congrArg (· + 1)) id

/-- The deletion of a dropped file completes. -/
theorem unlinked {filename : String} (h : Listed names old recent s)
    (hfile : filename ∈ s.unlinking) :
    Listed names old recent { s with
      disk := Function.update s.disk filename none
      unlinking := s.unlinking.erase filename } := by
  have hne {f : String} (hf : f ∈ names) : f ≠ filename := by
    rintro rfl
    exact h.apart f hf hfile
  have honDisk (f : String) : onDisk { s with
      disk := Function.update s.disk filename none
      unlinking := s.unlinking.erase filename } f =
        (f != filename && s.onDisk f) := by
    by_cases hf : f = filename <;> simp [onDisk, hf]
  constructor
  case written => exact h.written
  case kept =>
    rw [← h.kept]
    refine List.filter_congr fun f hf => ?_
    rw [honDisk, bne_iff_ne.mpr (hne hf), Bool.true_and]
  case place =>
    intro i a ha
    dsimp only
    rw [Function.update_of_ne (hne (h.mem_names (List.mem_of_getElem? ha)))]
    exact h.place ha
  case nodup => exact h.nodup
  case apart =>
    intro f hf hmem
    exact h.apart f hf (List.mem_of_mem_erase hmem)
  case known =>
    intro f hf
    rw [honDisk, Bool.and_eq_true, bne_iff_ne] at hf
    exact (h.known hf.2).imp id fun hmem =>
      (List.mem_erase_of_ne hf.1).mpr hmem
  case complete => exact h.complete

/-- Other changes of the state. -/
theorem congr {t : HeadlessZip} (h : Listed names old recent s)
    (hdisk : t.disk = s.disk) (hwritten : t.written = s.written)
    (hunlinking : t.unlinking = s.unlinking) : Listed names old recent t := by
  have honDisk : t.onDisk = s.onDisk := by
    funext f
    rw [onDisk, hdisk, onDisk]
  constructor
  case written => rw [hwritten]; exact h.written
  case kept => rw [honDisk]; exact h.kept
  case place => rw [hdisk]; exact h.place
  case nodup => exact h.nodup
  case apart => rw [hunlinking]; exact h.apart
  case known => rw [honDisk, hunlinking]; exact h.known
  case complete => exact h.complete

end Listed

/-! ## The invariant -/

/-- The list is not longer than the limit, and the archives that it names are
as many as are to be kept. -/
structure Inv (s : HeadlessZip) : Prop where
  positive : 1 ≤ s.filesToKeep
  limit : s.filesWritten.length ≤ s.filesToKeep
  listed : ∃ old recent, Listed s.filesWritten old recent s ∧
    recent.length = min s.filesToKeep s.written.length

theorem initial_inv : initial.Inv where
  positive := by decide
  limit := by decide
  listed := ⟨[], [], ⟨rfl, rfl, nofun, List.nodup_nil, nofun, nofun,
    Or.inr rfl⟩, rfl⟩

theorem Inv.setFilesToKeep {s : HeadlessZip} {numFiles : Nat} (hs : s.Inv)
    (hpositive : 1 ≤ numFiles) (hlength : s.filesWritten.length ≤ numFiles)
    (hdropped : s.written.length ≤ s.filesWritten.length ∨
      numFiles = s.filesWritten.length) :
    Inv { s with filesToKeep := numFiles } := by
  obtain ⟨old, recent, hlisted, hrecent⟩ := hs.listed
  refine ⟨hpositive, hlength, old, recent,
    hlisted.congr rfl rfl rfl, ?_⟩
  have hlimit := hs.limit
  have hle := hlisted.length_le
  have hwritten := congrArg List.length hlisted.written
  rw [List.length_append] at hwritten
  dsimp only
  rcases hlisted.complete with hcomplete | rfl
  · omega
  · rw [List.length_nil] at hwritten
    omega

theorem Inv.deleteDir {s : HeadlessZip} (hs : s.Inv) (directory : String) :
    (s.deleteDir directory).Inv := by
  obtain ⟨old, recent, hlisted, hrecent⟩ := hs.listed
  unfold HeadlessZip.deleteDir
  split
  · exact hs
  · exact ⟨hs.positive, hs.limit, old, recent, hlisted.congr rfl rfl rfl,
      hrecent⟩

/-! ## A call -/

section Call

variable (z : ZipSetup) {s : HeadlessZip} (dirToZip : String) (now : ZipDate)

/-- There is room for one more name. -/
theorem headlessZip_of_lt (hroom : s.filesWritten.length < s.filesToKeep) :
    headlessZip z dirToZip now s = (.ok (),
      { s with filesWritten := s.filesWritten ++ [z.outputFileName now]
        }.packDir (z.outputFileName now) dirToZip) := by
  have hlength : ¬ s.filesToKeep <
      (s.filesWritten ++ [z.outputFileName now]).length := by
    rw [List.length_append, List.length_singleton]
    omega
  have hpush : pushName z (z.outputFileName now) s = (.ok (),
      { s with filesWritten := s.filesWritten ++ [z.outputFileName now] }) :=
    if_neg hlength
  exact Effect.Comp.bind_ok hpush _

/-- The oldest name goes out of the full list. -/
theorem pushName_of_full (hfull : s.filesToKeep ≤ s.filesWritten.length)
    {outputFileName earliest : String} {rest : List String}
    (hcons : s.filesWritten ++ [outputFileName] = earliest :: rest) :
    pushName z outputFileName s =
      deleteFile z earliest { s with filesWritten := rest } := by
  have hlength : s.filesToKeep <
      (s.filesWritten ++ [outputFileName]).length := by
    rw [List.length_append, List.length_singleton]
    omega
  rw [pushName, if_pos hlength, hcons]

theorem headlessZip_of_full (hfull : s.filesToKeep ≤ s.filesWritten.length)
    {earliest : String} {rest : List String}
    (hcons : s.filesWritten ++ [z.outputFileName now] = earliest :: rest) :
    headlessZip z dirToZip now s =
      if z.unlinkThrows then
        (.error .typeError, { s with filesWritten := rest })
      else (.ok (), ({ s with filesWritten := rest }.queueUnlink
        earliest).packDir (z.outputFileName now) dirToZip) := by
  have hpush := pushName_of_full z hfull hcons
  rw [deleteFile] at hpush
  cases hthrows : z.unlinkThrows with
  | true =>
      rw [hthrows] at hpush
      exact Effect.Comp.bind_error hpush _
  | false =>
      rw [hthrows] at hpush
      exact Effect.Comp.bind_ok hpush _

/-- Only the list and the pending deletions have changed, and by the one name
at most. -/
structure Pushed (s : HeadlessZip) (outputFileName : String)
    (t : HeadlessZip) : Prop where
  filesToKeep : t.filesToKeep = s.filesToKeep
  dirs : t.dirs = s.dirs
  disk : t.disk = s.disk
  written : t.written = s.written
  log : t.log = s.log
  names : ∀ filename ∈ t.filesWritten ++ t.unlinking,
    filename ∈ s.filesWritten ++ s.unlinking ∨ filename = outputFileName

/-- A call packs after it has changed the list, or throws there. -/
theorem headlessZip_cases (s : HeadlessZip) :
    ∃ t, s.Pushed (z.outputFileName now) t ∧
      (headlessZip z dirToZip now s =
          (.ok (), t.packDir (z.outputFileName now) dirToZip) ∧
        (z.unlinkThrows = true → s.filesWritten.length < s.filesToKeep ∧
          t.filesWritten.length = s.filesWritten.length + 1) ∨
      headlessZip z dirToZip now s = (.error .typeError, t) ∧
        z.unlinkThrows = true ∧ s.filesToKeep ≤ s.filesWritten.length) := by
  have hmoved {filename : String} {names : List String}
      (hmem : filename ∈ names ++ s.unlinking)
      (hnames : ∀ f ∈ names, f ∈ s.filesWritten ++ [z.outputFileName now]) :
      filename ∈ s.filesWritten ++ s.unlinking ∨
        filename = z.outputFileName now := by
    rcases List.mem_append.mp hmem with hmem | hmem
    · have hmem := hnames filename hmem
      rw [List.mem_append, List.mem_singleton] at hmem
      exact hmem.imp_left (List.mem_append_left _)
    · exact Or.inl (List.mem_append_right _ hmem)
  rcases Nat.lt_or_ge s.filesWritten.length s.filesToKeep with hroom | hfull
  · refine ⟨{ s with filesWritten := s.filesWritten ++ [z.outputFileName now] },
      ⟨rfl, rfl, rfl, rfl, rfl, fun f hf => ?_⟩,
      Or.inl ⟨headlessZip_of_lt z dirToZip now hroom, fun _ => ⟨hroom, ?_⟩⟩⟩
    · exact hmoved hf fun _ h => h
    · exact List.length_append
  · obtain ⟨earliest, rest, hcons⟩ := List.exists_cons_of_ne_nil
      (List.append_ne_nil_of_right_ne_nil s.filesWritten
        (List.cons_ne_nil (z.outputFileName now) []))
    have hrest : ∀ f ∈ earliest :: rest,
        f ∈ s.filesWritten ++ [z.outputFileName now] := by
      rw [hcons]
      exact fun _ h => h
    have hcall := headlessZip_of_full z dirToZip now hfull hcons
    cases hthrows : z.unlinkThrows with
    | true =>
        rw [hthrows, if_pos rfl] at hcall
        refine ⟨{ s with filesWritten := rest },
          ⟨rfl, rfl, rfl, rfl, rfl, fun f hf => ?_⟩,
          Or.inr ⟨hcall, rfl, hfull⟩⟩
        exact hmoved hf fun f hf => hrest f (List.mem_cons_of_mem _ hf)
    | false =>
        rw [hthrows, if_neg Bool.false_ne_true] at hcall
        refine ⟨{ s with filesWritten := rest }.queueUnlink earliest,
          ⟨rfl, rfl, rfl, rfl, rfl, fun f hf => ?_⟩,
          Or.inl ⟨hcall, nofun⟩⟩
        -- the name that was dropped waits for its deletion
        have hf' : f ∈ (earliest :: rest) ++ s.unlinking := by
          simp only [queueUnlink, List.mem_append, List.mem_cons,
            List.not_mem_nil, or_false] at hf ⊢
          tauto
        exact hmoved hf' hrest

end Call

/-- A call while the list has room: nothing has been dropped before. -/
theorem Inv.headlessZip_of_lt {z : ZipSetup} {s : HeadlessZip}
    {dirToZip : String} {now : ZipDate} (hs : s.Inv)
    (hnew : z.outputFileName now ∉ s.filesWritten ++ s.unlinking)
    (hroom : s.filesWritten.length < s.filesToKeep) :
    (HeadlessZip.headlessZip z dirToZip now s).2.Inv := by
  obtain ⟨old, recent, hlisted, hrecent⟩ := hs.listed
  have hwritten := congrArg List.length hlisted.written
  rw [List.length_append] at hwritten
  have hold : old = [] := by
    rcases hlisted.complete with hcomplete | hold
    · exact List.eq_nil_of_length_eq_zero (by omega)
    · exact hold
  subst hold
  rw [List.length_nil] at hwritten
  have hle := hlisted.length_le
  rw [HeadlessZip.headlessZip_of_lt z dirToZip now hroom]
  dsimp only
  unfold HeadlessZip.packDir
  dsimp only
  cases hdir : s.dirs dirToZip with
  | none =>
      refine ⟨hs.positive, ?_, [], recent,
        (hlisted.push hnew).congr rfl rfl rfl, hrecent⟩
      dsimp only
      rw [List.length_append, List.length_singleton]
      omega
  | some files =>
      apply Inv.deleteDir
      refine ⟨hs.positive, ?_, [], _,
        (hlisted.write hnew files).congr rfl rfl rfl, ?_⟩
      · change (s.filesWritten ++ [z.outputFileName now]).length ≤ _
        rw [List.length_append, List.length_singleton]
        exact hroom
      · change _ = min s.filesToKeep (s.written ++ [_]).length
        rw [List.length_append, List.length_append, List.length_singleton]
        omega

/-- A call that drops the oldest name writes a new archive for it. -/
theorem Inv.headlessZip_of_full {z : ZipSetup} {s : HeadlessZip}
    {dirToZip : String} {now : ZipDate} {files : ZipFiles} (hs : s.Inv)
    (hnew : z.outputFileName now ∉ s.filesWritten ++ s.unlinking)
    (hfull : s.filesToKeep ≤ s.filesWritten.length)
    (hkeeps : z.unlinkThrows = false) (hdir : s.dirs dirToZip = some files)
    (hall : ∀ filename ∈ s.filesWritten, (s.disk filename).isSome) :
    (HeadlessZip.headlessZip z dirToZip now s).2.Inv := by
  obtain ⟨old, recent, hlisted, hrecent⟩ := hs.listed
  have hlimit := hs.limit
  have hpositive := hs.positive
  have hwritten := congrArg List.length hlisted.written
  rw [List.length_append] at hwritten
  cases hnames : s.filesWritten with
  | nil =>
      rw [hnames, List.length_nil] at hfull
      omega
  | cons earliest rest =>
      rw [HeadlessZip.headlessZip_of_full z dirToZip now hfull
        (by rw [hnames, List.cons_append]), hkeeps,
        if_neg Bool.false_ne_true]
      rw [hnames] at hlisted hall hnew hlimit hfull
      obtain ⟨a, recent, rfl, hdropped⟩ := hlisted.drop hall
        (rest ++ [z.outputFileName now])
      have hfresh : z.outputFileName now ∉ rest ++
          ({ s with filesWritten := rest ++ [z.outputFileName now]
            }.queueUnlink earliest).unlinking := by
        intro hmem
        simp only [List.mem_append, List.mem_cons, not_or] at hnew
        rw [queueUnlink, List.mem_append, List.mem_append,
          List.mem_singleton] at hmem
        tauto
      have hdirs : ({ s with filesWritten := rest ++ [z.outputFileName now]
          }.queueUnlink earliest).dirs dirToZip = some files := hdir
      dsimp only
      unfold HeadlessZip.packDir
      rw [hdirs]
      dsimp only
      apply Inv.deleteDir
      refine ⟨hs.positive, ?_, _, _, hdropped.write hfresh files, ?_⟩
      · change (rest ++ [z.outputFileName now]).length ≤ s.filesToKeep
        rw [List.length_append, List.length_singleton]
        exact hlimit
      · change _ = min s.filesToKeep (s.written ++ [_]).length
        rw [List.length_append, List.length_append, List.length_singleton]
        have hcount : recent.length = rest.length :=
          hdropped.complete.resolve_right (by simp)
        rw [List.length_cons] at hrecent hfull
        omega

theorem Inv.headlessZip {z : ZipSetup} {s : HeadlessZip} {dirToZip : String}
    {now : ZipDate} (hs : s.Inv)
    (hstep : s.InStep z (.headlessZip dirToZip now)) :
    (HeadlessZip.headlessZip z dirToZip now s).2.Inv := by
  obtain ⟨hnew, hdrop⟩ := hstep
  rcases Nat.lt_or_ge s.filesWritten.length s.filesToKeep with hroom | hfull
  · exact hs.headlessZip_of_lt hnew hroom
  · obtain ⟨hkeeps, hfound, hall⟩ := hdrop (Nat.lt_succ_of_le hfull)
    obtain ⟨files, hdir⟩ := Option.isSome_iff_exists.mp hfound
    exact hs.headlessZip_of_full hnew hfull hkeeps hdir hall

theorem Inv.step {z : ZipSetup} {s s' : HeadlessZip} {e : ZipStep}
    (hs : s.Inv) (hin : s.InStep z e) (hstep : s.step z e = some s') :
    s'.Inv := by
  obtain ⟨old, recent, hlisted, hrecent⟩ := hs.listed
  cases e with
  | create dir files =>
      cases hstep
      exact ⟨hs.positive, hs.limit, old, recent, hlisted.congr rfl rfl rfl,
        hrecent⟩
  | headlessZip dirToZip now =>
      cases hstep
      exact hs.headlessZip hin
  | setFilesToKeep numFiles =>
      simp only [HeadlessZip.step, Option.ite_none_right_eq_some] at hstep
      obtain ⟨hpositive, hstep⟩ := hstep
      cases hstep
      exact hs.setFilesToKeep hpositive hin.1 hin.2
  | unlinked filename =>
      simp only [HeadlessZip.step, Option.ite_none_right_eq_some] at hstep
      obtain ⟨hfile, hstep⟩ := hstep
      cases hstep
      exact ⟨hs.positive, hs.limit, old, recent, hlisted.unlinked hfile,
        hrecent⟩

theorem inv_inductive (z : ZipSetup) :
    (zipMachine z).Inductive (InStep z) Inv where
  init := initial_inv
  step hs hin hstep := hs.step hin hstep

/-- With no deletion pending, the disk holds what is to be kept. -/
theorem Inv.retains {s : HeadlessZip} (hs : s.Inv) (hdone : s.unlinking = []) :
    s.Retains := by
  obtain ⟨old, recent, hlisted, hrecent⟩ := hs.listed
  have hwritten := congrArg List.length hlisted.written
  rw [List.length_append] at hwritten
  intro k
  constructor
  · rintro ⟨f, hf⟩
    have hdisk : s.onDisk f = true := by rw [onDisk, hf]; rfl
    have hmem : f ∈ s.filesWritten := by
      rcases hlisted.known hdisk with hmem | hmem
      · exact hmem
      · rw [hdone] at hmem
        cases hmem
    have hkept : f ∈ recent.map Archive.outputFileName := by
      rw [← hlisted.kept]
      exact List.mem_filter.mpr ⟨hmem, hdisk⟩
    obtain ⟨a, ha, rfl⟩ := List.mem_map.mp hkept
    obtain ⟨i, hi, hget⟩ := List.mem_iff_getElem.mp ha
    have hplace := hlisted.place (List.getElem?_eq_some_iff.mpr ⟨hi, hget⟩)
    rw [hf, Option.some.injEq] at hplace
    omega
  · rintro ⟨hlow, hhigh⟩
    have hi : k - old.length < recent.length := by omega
    refine ⟨recent[k - old.length].outputFileName, ?_⟩
    rw [hlisted.place (List.getElem?_eq_getElem hi)]
    congr 1
    omega

theorem packDir_once {s t : HeadlessZip} {z : ZipSetup} {now : ZipDate}
    (hpushed : s.Pushed (z.outputFileName now) t) (dirToZip : String) :
    s.ZipsOnce z (.headlessZip dirToZip now)
      (t.packDir (z.outputFileName now) dirToZip) := by
  unfold packDir ZipsOnce
  dsimp only
  rw [hpushed.dirs]
  cases hdir : s.dirs dirToZip with
  | none => exact ⟨hpushed.log, hpushed.written, hpushed.dirs⟩
  | some files =>
      have hthere : (t.writeFileSync (z.outputFileName now) files).dirs
          dirToZip = some files := by
        rw [writeFileSync, hpushed.dirs]
        exact hdir
      dsimp only
      unfold HeadlessZip.deleteDir
      rw [hthere]
      dsimp only
      rw [writeFileSync, hpushed.log, hpushed.written, hpushed.dirs,
        List.append_assoc]
      exact ⟨rfl, rfl, rfl⟩

theorem step_once {z : ZipSetup} {s s' : HeadlessZip} {e : ZipStep}
    (hin : s.InStep z e) (hstep : s.step z e = some s') :
    s.ZipsOnce z e s' := by
  cases e with
  | create dir files =>
      cases hstep
      exact ⟨rfl, rfl⟩
  | headlessZip dirToZip now =>
      cases hstep
      obtain ⟨t, hpushed, ⟨hcall, -⟩ | ⟨-, hthrows, hfull⟩⟩ :=
        headlessZip_cases z dirToZip now s
      · rw [hcall]
        exact packDir_once hpushed dirToZip
      · have hkeeps := (hin.2 (Nat.lt_succ_of_le hfull)).1
        exact absurd (hkeeps.symm.trans hthrows) Bool.false_ne_true
  | setFilesToKeep numFiles =>
      simp only [HeadlessZip.step, Option.ite_none_right_eq_some] at hstep
      cases hstep.2
      exact ⟨rfl, rfl⟩
  | unlinked filename =>
      simp only [HeadlessZip.step, Option.ite_none_right_eq_some] at hstep
      cases hstep.2
      exact ⟨rfl, rfl⟩

/-- As long as the list and the disk are kept in step, every call on a
directory packs it once and then removes it, and the archives left when the
deletions have completed are the most recent ones, as many as are to be
kept. -/
theorem archives_retained (z : ZipSetup) {s : HeadlessZip}
    {es : List ZipStep}
    (hguarded : (zipMachine z).Guarded (InStep z) initial es)
    (hrun : (zipMachine z).run initial es = some s) :
    (zipMachine z).Each (ZipsOnce z) initial es ∧
      (s.unlinking = [] → s.Retains) :=
  ⟨(inv_inductive z).each (fun _ hin hstep => step_once hin hstep) hguarded,
    ((inv_inductive z).run hguarded hrun).retains⟩

end HeadlessZip

namespace HeadlessZipWitness

open HeadlessZip

def setup (unlinkThrows : Bool) : ZipSetup where
  dirToWriteTo := none
  join dir name := dir ++ "/" ++ name
  pid := 7
  unlinkThrows := unlinkThrows

def date (seconds : Nat) : ZipDate := ⟨1, 0, 2026, 12, 30, seconds⟩

/-- One archive is to be kept, and two are written in different seconds. -/
def rotation : List ZipStep :=
  [.setFilesToKeep 1, .create "tmp_1" [("data.hcd", [1])],
    .headlessZip "tmp_1" (date 1), .create "tmp_2" [("data.hcd", [2])],
    .headlessZip "tmp_2" (date 2),
    .unlinked ((setup false).outputFileName (date 1))]

theorem rotation_retains :
    ∃ s, (zipMachine (setup false)).run initial rotation = some s ∧
      (zipMachine (setup false)).Each (ZipsOnce (setup false)) initial
        rotation ∧
      (s.unlinking = [] → s.Retains) := by
  obtain ⟨s, hrun⟩ :
      ∃ s, (zipMachine (setup false)).run initial rotation = some s :=
    ⟨_, rfl⟩
  exact ⟨s, hrun, archives_retained (setup false) (by decide) hrun⟩

/-- Before Node 10 a call for a directory that is not there drops the only
archive. -/
theorem only_archive_dropped : ∃ s, (zipMachine (setup false)).run initial
      [.setFilesToKeep 1, .create "tmp_1" [("data.hcd", [1])],
        .headlessZip "tmp_1" (date 1), .headlessZip "tmp_2" (date 2),
        .unlinked ((setup false).outputFileName (date 1))] = some s ∧
    s.unlinking = [] ∧ ¬ s.Retains := by
  refine ⟨_, rfl, rfl, fun hretains => ?_⟩
  obtain ⟨f, hf⟩ := (hretains 0).mpr (by decide)
  change Function.update (Function.update (fun _ => none)
    ((setup false).outputFileName (date 1)) (some 0))
    ((setup false).outputFileName (date 1)) none f = some 0 at hf
  rw [Function.update_idem, Function.update_apply] at hf
  split at hf <;> cases hf

/-- From Node 10 on the second archive is not written. -/
theorem second_archive_unwritten :
    ¬ (zipMachine (setup true)).Each (ZipsOnce (setup true)) initial
      [.setFilesToKeep 1, .create "tmp_1" [("data.hcd", [1])],
        .headlessZip "tmp_1" (date 1), .create "tmp_2" [("data.hcd", [2])],
        .headlessZip "tmp_2" (date 2)] := by
  intro heach
  obtain ⟨-, heach⟩ := heach _ rfl
  obtain ⟨-, heach⟩ := heach _ rfl
  obtain ⟨-, heach⟩ := heach _ rfl
  obtain ⟨-, heach⟩ := heach _ rfl
  obtain ⟨⟨hlog, -⟩, -⟩ := heach _ rfl
  exact absurd (congrArg List.length hlog) (by decide)

/-- The archives are not always retained, neither before Node 10 nor from
then on. -/
theorem not_retained :
    (¬ ∀ (s : HeadlessZip) (es : List ZipStep),
      (zipMachine (setup false)).run initial es = some s →
        (zipMachine (setup false)).Each (ZipsOnce (setup false)) initial es ∧
          (s.unlinking = [] → s.Retains)) ∧
    ¬ ∀ (s : HeadlessZip) (es : List ZipStep),
      (zipMachine (setup true)).run initial es = some s →
        (zipMachine (setup true)).Each (ZipsOnce (setup true)) initial es ∧
          (s.unlinking = [] → s.Retains) := by
  constructor
  · intro hall
    obtain ⟨s, hrun, hdone, hlost⟩ := only_archive_dropped
    exact hlost ((hall s _ hrun).2 hdone)
  · exact fun hall => second_archive_unwritten (hall _ _ rfl).1

end HeadlessZipWitness

end Appmetrics
