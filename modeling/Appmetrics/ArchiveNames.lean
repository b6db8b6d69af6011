/-
headless_zip.js: the names of the archives.  A name is made of the clock and
the process id, so calls in different seconds of a century have different
names, and no archive is written over.  At the exit `tryZipOnExit` packs what
the agent has left.
-/
import Appmetrics.HeadlessZip
import Appmetrics.Text

namespace Appmetrics

open StepMachine

/-! ## The text of a date -/

/-- A date as `Date` gives it, with a year of four digits. -/
structure ZipDate.Proper (d : ZipDate) : Prop where
  date : d.date < 32
  month : d.month < 12
  hours : d.hours < 24
  minutes : d.minutes < 60
  seconds : d.seconds < 60
  fullYear : 1000 ≤ d.fullYear ∧ d.fullYear < 10000

instance (d : ZipDate) : Decidable d.Proper :=
  decidable_of_iff (d.date < 32 ∧ d.month < 12 ∧ d.hours < 24 ∧
      d.minutes < 60 ∧ d.seconds < 60 ∧ 1000 ≤ d.fullYear ∧
      d.fullYear < 10000)
    ⟨fun ⟨h₁, h₂, h₃, h₄, h₅, h₆⟩ => ⟨h₁, h₂, h₃, h₄, h₅, h₆⟩,
      fun ⟨h₁, h₂, h₃, h₄, h₅, h₆⟩ => ⟨h₁, h₂, h₃, h₄, h₅, h₆⟩⟩

/-- What a name shows of a date. -/
def ZipDate.shown (d : ZipDate) : ZipDate :=
  { d with fullYear := d.fullYear % 100 }

def twoDigits (n : Nat) : List Char := [(n / 10).digitChar, (n % 10).digitChar]

theorem zipPad_eq {n : Nat} (hn : n < 100) :
    zipPad (Nat.toDigits 10 n) = twoDigits n := by
  revert n
  decide

theorem twoDigits_inj {m n : Nat} (hm : m < 100) (hn : n < 100) :
    twoDigits m = twoDigits n ↔ m = n := by
  have hread : ∀ n < 100, Nat.ofDigitChars 10 (twoDigits n) 0 = n := by decide
  constructor
  · intro heq
    rw [← hread m hm, heq, hread n hn]
  · exact congrArg twoDigits

/-- The two last digits of the year. -/
theorem year_eq {y : Nat} (hy : 1000 ≤ y ∧ y < 10000) :
    ((Nat.toDigits 10 y).drop 2).take 3 = twoDigits (y % 100) := by
  have hhead : ∀ n < 100, 10 ≤ n → (Nat.toDigits 10 n).length = 2 := by
    decide
  have hlength := hhead (y / 10 / 10) (by omega) (by omega)
  rw [Nat.toDigits_of_base_le (by decide) (by omega),
    Nat.toDigits_of_base_le (n := y / 10) (by decide) (by omega),
    List.append_assoc, List.drop_append_of_le_length (by omega),
    List.drop_of_length_le (by omega)]
  have htens : y % 100 / 10 = y / 10 % 10 := by omega
  have hunits : y % 100 % 10 = y % 10 := by omega
  rw [twoDigits, htens, hunits]
  rfl

theorem zipTimestamp_eq {d : ZipDate} (hd : d.Proper) (pid : Nat) :
    zipTimestamp pid d =
      twoDigits d.date ++ (twoDigits (d.month + 1) ++
        (twoDigits (d.fullYear % 100) ++ '_' ::
          (twoDigits d.hours ++ (twoDigits d.minutes ++
            (twoDigits d.seconds ++ '_' :: showNat pid))))) := by
  have hdate := hd.date
  have hmonth := hd.month
  have hhours := hd.hours
  have hminutes := hd.minutes
  have hseconds := hd.seconds
  rw [zipTimestamp, zipPad_eq (n := d.date) (by omega),
    zipPad_eq (n := d.month + 1) (by omega), year_eq hd.fullYear,
    zipPad_eq (n := d.hours) (by omega),
    zipPad_eq (n := d.minutes) (by omega),
    zipPad_eq (n := d.seconds) (by omega)]
  simp [showNat]

/-- Pieces of two digits can be told apart. -/
theorem twoDigits_append_inj {m n : Nat} (hm : m < 100) (hn : n < 100)
    {s t : List Char} :
    twoDigits m ++ s = twoDigits n ++ t ↔ m = n ∧ s = t := by
  constructor
  · intro heq
    obtain ⟨hdigits, hrest⟩ := List.append_inj heq rfl
    exact ⟨(twoDigits_inj hm hn).mp hdigits, hrest⟩
  · rintro ⟨rfl, rfl⟩
    rfl

theorem zipTimestamp_inj {d d' : ZipDate} (hd : d.Proper) (hd' : d'.Proper)
    (pid pid' : Nat) :
    zipTimestamp pid d = zipTimestamp pid' d' ↔
      d.shown = d'.shown ∧ pid = pid' := by
  have hpid : showNat pid = showNat pid' ↔ pid = pid' := by
    refine ⟨fun heq => ?_, congrArg showNat⟩
    rw [← ofDigitChars_showNat pid, heq, ofDigitChars_showNat]
  have hdate := hd.date
  have hmonth := hd.month
  have hhours := hd.hours
  have hminutes := hd.minutes
  have hseconds := hd.seconds
  have hdate' := hd'.date
  have hmonth' := hd'.month
  have hhours' := hd'.hours
  have hminutes' := hd'.minutes
  have hseconds' := hd'.seconds
  rw [zipTimestamp_eq hd, zipTimestamp_eq hd',
    twoDigits_append_inj (by omega) (by omega),
    twoDigits_append_inj (by omega) (by omega),
    twoDigits_append_inj (by omega) (by omega), List.cons_inj_right,
    twoDigits_append_inj (by omega) (by omega),
    twoDigits_append_inj (by omega) (by omega),
    twoDigits_append_inj (by omega) (by omega), List.cons_inj_right, hpid]
  simp only [ZipDate.shown, ZipDate.mk.injEq, Nat.add_right_cancel_iff,
    and_assoc]

/-! ## The names of a run -/

/-- `path.join` keeps apart names without separators. -/
def ZipSetup.JoinsApart (z : ZipSetup) : Prop :=
  ∀ dir ∈ z.dirToWriteTo, Set.InjOn (z.join dir)
    {name | '/' ∉ name.toList ∧ '\\' ∉ name.toList}

/-- The name below the directory. -/
def archiveName (pid : Nat) (d : ZipDate) : String :=
  "nodeappmetrics" ++ String.ofList (zipTimestamp pid d) ++ ".hcd"

theorem archiveName_inj {pid : Nat} {d d' : ZipDate} :
    archiveName pid d = archiveName pid d' ↔
      zipTimestamp pid d = zipTimestamp pid d' := by
  refine ⟨fun heq => ?_, fun heq => by rw [archiveName, heq, archiveName]⟩
  have hlists := congrArg String.toList heq
  simpa [archiveName] using hlists

theorem not_mem_twoDigits {c : Char} (hc : c.isDigit = false) {n : Nat}
    (hn : n < 100) : c ∉ twoDigits n := by
  have hdigit : ∀ n < 100, (twoDigits n).all Char.isDigit = true := by decide
  intro hmem
  have hc' := List.all_eq_true.mp (hdigit n hn) c hmem
  exact Bool.false_ne_true (hc.symm.trans hc')

theorem not_mem_archiveName {c : Char} (hc : c.isDigit = false)
    (hstart : c ∉ "nodeappmetrics".toList) (hunderscore : c ≠ '_')
    (hend : c ∉ ".hcd".toList) {d : ZipDate} (hd : d.Proper) (pid : Nat) :
    c ∉ (archiveName pid d).toList := by
  have hdate := hd.date
  have hmonth := hd.month
  have hhours := hd.hours
  have hminutes := hd.minutes
  have hseconds := hd.seconds
  have htwo {n : Nat} (hn : n < 100) := not_mem_twoDigits hc hn
  have hstamp : c ∉ zipTimestamp pid d := by
    rw [zipTimestamp_eq hd]
    simp only [List.mem_append, List.mem_cons, not_or]
    exact ⟨htwo (by omega), htwo (by omega), htwo (by omega), hunderscore,
      htwo (by omega), htwo (by omega), htwo (by omega), hunderscore,
      not_mem_showNat hc pid⟩
  have hlist : (String.ofList (zipTimestamp pid d)).toList =
      zipTimestamp pid d := String.toList_ofList
  rw [archiveName, String.toList_append, String.toList_append, hlist,
    List.mem_append, List.mem_append, not_or, not_or]
  exact ⟨⟨hstart, hstamp⟩, hend⟩

theorem archiveName_plain {d : ZipDate} (hd : d.Proper) (pid : Nat) :
    '/' ∉ (archiveName pid d).toList ∧ '\\' ∉ (archiveName pid d).toList :=
  ⟨not_mem_archiveName (by decide) (by decide) (by decide) (by decide) hd pid,
    not_mem_archiveName (by decide) (by decide) (by decide) (by decide) hd
      pid⟩

theorem outputFileName_inj {z : ZipSetup} (hjoin : z.JoinsApart)
    {d d' : ZipDate} (hd : d.Proper) (hd' : d'.Proper) :
    z.outputFileName d = z.outputFileName d' ↔ d.shown = d'.shown := by
  have hname : archiveName z.pid d = archiveName z.pid d' ↔
      d.shown = d'.shown := by
    rw [archiveName_inj, zipTimestamp_inj hd hd', and_iff_left rfl]
  rw [← hname]
  have hpath (d : ZipDate) : z.outputFileName d =
      z.dirToWriteTo.elim (archiveName z.pid d)
        fun dir => z.join dir (archiveName z.pid d) := by
    unfold ZipSetup.outputFileName
    cases z.dirToWriteTo <;> rfl
  rw [hpath, hpath]
  cases hdir : z.dirToWriteTo with
  | none => rfl
  | some dir =>
      exact (hjoin dir hdir).eq_iff (archiveName_plain hd z.pid)
        (archiveName_plain hd' z.pid)

/-- The dates of the calls of `headlessZip`. -/
def zipDates (steps : List ZipStep) : List ZipDate :=
  steps.filterMap fun
    | .headlessZip _ now => some now
    | _ => none

/-- The names whose files were removed. -/
def unlinkedNames (steps : List ZipStep) : List String :=
  steps.filterMap fun
    | .unlinked filename => some filename
    | _ => none

namespace HeadlessZip

/-- The name is neither in the list nor on disk. -/
structure Unused (s : HeadlessZip) (filename : String) : Prop where
  listed : filename ∉ s.filesWritten ++ s.unlinking
  disk : s.disk filename = none

/-- A call writes to a name that nothing else has. -/
def Fresh (z : ZipSetup) (s : HeadlessZip) : ZipStep → Prop
  | .headlessZip _ now => s.Unused (z.outputFileName now)
  | _ => True

/-- What packing does to the list and the disk. -/
theorem packDir_cases (s : HeadlessZip) (outputFileName dirToZip : String) :
    ((s.packDir outputFileName dirToZip).filesToKeep = s.filesToKeep ∧
      (s.packDir outputFileName dirToZip).filesWritten = s.filesWritten ∧
      (s.packDir outputFileName dirToZip).unlinking = s.unlinking) ∧
    ((s.packDir outputFileName dirToZip).disk = s.disk ∧
        (s.packDir outputFileName dirToZip).written = s.written ∨
      ∃ files, (s.packDir outputFileName dirToZip).disk =
          Function.update s.disk outputFileName (some s.written.length) ∧
        (s.packDir outputFileName dirToZip).written =
          s.written ++ [⟨outputFileName, files⟩]) := by
  have hdelete (t : HeadlessZip) :
      ((t.deleteDir dirToZip).filesToKeep = t.filesToKeep ∧
        (t.deleteDir dirToZip).filesWritten = t.filesWritten ∧
        (t.deleteDir dirToZip).unlinking = t.unlinking) ∧
      (t.deleteDir dirToZip).disk = t.disk ∧
      (t.deleteDir dirToZip).written = t.written := by
    unfold deleteDir
    split <;> exact ⟨⟨rfl, rfl, rfl⟩, rfl, rfl⟩
  unfold packDir
  split
  · next files hdir =>
      obtain ⟨hlist, hdisk, hwritten⟩ :=
        hdelete (s.writeFileSync outputFileName files)
      exact ⟨hlist, Or.inr ⟨files, hdisk, hwritten⟩⟩
  · exact ⟨⟨rfl, rfl, rfl⟩, Or.inl ⟨rfl, rfl⟩⟩

/-- What a call does to the list and the disk, whether or not it throws. -/
theorem headlessZip_disk (z : ZipSetup) (s : HeadlessZip)
    (dirToZip : String) (now : ZipDate) :
    (∀ filename ∈ (headlessZip z dirToZip now s).2.filesWritten ++
        (headlessZip z dirToZip now s).2.unlinking,
      filename ∈ s.filesWritten ++ s.unlinking ∨
        filename = z.outputFileName now) ∧
    ((headlessZip z dirToZip now s).2.disk = s.disk ∧
        (headlessZip z dirToZip now s).2.written = s.written ∨
      ∃ files, (headlessZip z dirToZip now s).2.disk =
          Function.update s.disk (z.outputFileName now)
            (some s.written.length) ∧
        (headlessZip z dirToZip now s).2.written =
          s.written ++ [⟨z.outputFileName now, files⟩]) := by
  obtain ⟨t, hpushed, ⟨hcall, -⟩ | ⟨hcall, -⟩⟩ :=
    headlessZip_cases z dirToZip now s
  · obtain ⟨⟨-, hlist, hunlinking⟩, hdisk⟩ :=
      t.packDir_cases (z.outputFileName now) dirToZip
    rw [hpushed.disk, hpushed.written] at hdisk
    rw [hcall]
    dsimp only
    rw [hlist, hunlinking]
    exact ⟨hpushed.names, hdisk⟩
  · rw [hcall]
    exact ⟨hpushed.names, Or.inl ⟨hpushed.disk, hpushed.written⟩⟩

theorem Unused.step {z : ZipSetup} {s s' : HeadlessZip} {e : ZipStep}
    {filename : String} (hs : s.Unused filename)
    (hstep : s.step z e = some s')
    (hother : ∀ dir now, e = .headlessZip dir now →
      filename ≠ z.outputFileName now) : s'.Unused filename := by
  cases e with
  | create dir files =>
      cases hstep
      exact ⟨hs.listed, hs.disk⟩
  | headlessZip dirToZip now =>
      cases hstep
      have hne := hother dirToZip now rfl
      obtain ⟨hnames, hdisk⟩ := headlessZip_disk z s dirToZip now
      constructor
      · intro hmem
        exact (hnames filename hmem).elim hs.listed hne
      · rcases hdisk with ⟨hdisk, _⟩ | ⟨files, hdisk, _⟩
        · rw [hdisk, hs.disk]
        · rw [hdisk, Function.update_of_ne hne, hs.disk]
  | setFilesToKeep numFiles =>
      simp only [HeadlessZip.step, Option.ite_none_right_eq_some] at hstep
      cases hstep.2
      exact ⟨hs.listed, hs.disk⟩
  | unlinked name =>
      simp only [HeadlessZip.step, Option.ite_none_right_eq_some] at hstep
      cases hstep.2
      constructor
      · intro hmem
        apply hs.listed
        rcases List.mem_append.mp hmem with hmem | hmem
        · exact List.mem_append_left _ hmem
        · exact List.mem_append_right _ (List.mem_of_mem_erase hmem)
      · dsimp only
        by_cases hname : filename = name
        · rw [hname, Function.update_self]
        · rw [Function.update_of_ne hname, hs.disk]

/-- Dates that are shown differently have names that nothing else has. -/
theorem guarded_fresh {z : ZipSetup} (hjoin : z.JoinsApart)
    {s : HeadlessZip} {steps : List ZipStep}
    (hproper : ∀ d ∈ zipDates steps, d.Proper)
    (hshown : ((zipDates steps).map ZipDate.shown).Nodup)
    (hunused : ∀ d ∈ zipDates steps, s.Unused (z.outputFileName d)) :
    (zipMachine z).Guarded (Fresh z) s steps := by
  induction steps generalizing s with
  | nil => trivial
  | cons e steps ih =>
      have hlater {s' : HeadlessZip} {d : ZipDate}
          (hstep : s.step z e = some s') (hd : d ∈ zipDates steps)
          (hne : ∀ dir now, e = .headlessZip dir now →
            z.outputFileName d ≠ z.outputFileName now) :
          s'.Unused (z.outputFileName d) := by
        refine (hunused d ?_).step hstep hne
        rw [zipDates, List.filterMap_cons]
        split
        · exact hd
        · exact List.mem_cons_of_mem _ hd
      cases e with
      | headlessZip dirToZip now =>
          have hdates : zipDates (.headlessZip dirToZip now :: steps) =
              now :: zipDates steps := rfl
          rw [hdates, List.forall_mem_cons] at hproper hunused
          rw [hdates, List.map_cons, List.nodup_cons] at hshown
          refine ⟨hunused.1, fun s' hstep => ih hproper.2 hshown.2 ?_⟩
          intro d hd
          refine hlater hstep hd ?_
          rintro dir now ⟨⟩ heq
          apply hshown.1
          rw [← (outputFileName_inj hjoin (hproper.2 d hd) hproper.1).mp heq]
          exact List.mem_map_of_mem hd
      | _ =>
          exact ⟨trivial, fun s' hstep => ih hproper hshown fun d hd =>
            hlater hstep hd nofun⟩

/-- Every archive is on disk under its own name, unless its file was removed;
`removed` are the names whose files were. -/
def Kept (s : HeadlessZip) (removed : List String) : Prop :=
  ∀ k a, s.written[k]? = some a →
    s.disk a.outputFileName = some k ∨ a.outputFileName ∈ removed

theorem Kept.step {z : ZipSetup} {s s' : HeadlessZip} {e : ZipStep}
    {removed : List String} (hs : s.Kept removed) (hfresh : Fresh z s e)
    (hstep : s.step z e = some s') :
    s'.Kept (removed ++ unlinkedNames [e]) := by
  have hsame {t : HeadlessZip} (hdisk : t.disk = s.disk)
      (hwritten : t.written = s.written) (names : List String) :
      t.Kept (removed ++ names) := by
    intro k a ha
    rw [hwritten] at ha
    rw [hdisk]
    exact (hs k a ha).imp_right (List.mem_append_left _)
  cases e with
  | create dir files =>
      cases hstep
      exact hsame rfl rfl _
  | headlessZip dirToZip now =>
      cases hstep
      rcases (headlessZip_disk z s dirToZip now).2 with
        ⟨hdisk, hwritten⟩ | ⟨files, hdisk, hwritten⟩
      · exact hsame hdisk hwritten _
      · intro k a ha
        rw [hwritten] at ha
        rw [hdisk]
        rcases Nat.lt_or_ge k s.written.length with hlt | hge
        · rw [List.getElem?_append_left hlt] at ha
          rcases hs k a ha with hkept | hremoved
          · have hne : a.outputFileName ≠ z.outputFileName now := by
              intro heq
              rw [heq, hfresh.disk] at hkept
              cases hkept
            exact Or.inl (by rw [Function.update_of_ne hne, hkept])
          · exact Or.inr (List.mem_append_left _ hremoved)
        · rw [List.getElem?_append_right hge] at ha
          cases hk : k - s.written.length with
          | zero =>
              rw [hk] at ha
              cases ha
              have hlast : k = s.written.length := by omega
              exact Or.inl (by rw [Function.update_self, hlast])
          | succ n =>
              rw [hk] at ha
              cases ha
  | setFilesToKeep numFiles =>
      simp only [HeadlessZip.step, Option.ite_none_right_eq_some] at hstep
      cases hstep.2
      exact hsame rfl rfl _
  | unlinked name =>
      simp only [HeadlessZip.step, Option.ite_none_right_eq_some] at hstep
      cases hstep.2
      intro k a ha
      dsimp only
      by_cases hname : a.outputFileName = name
      · refine Or.inr (List.mem_append_right _ ?_)
        rw [hname]
        simp [unlinkedNames]
      · rw [Function.update_of_ne hname]
        exact (hs k a ha).imp_right (List.mem_append_left _)

theorem Kept.run {z : ZipSetup} {s s' : HeadlessZip} {steps : List ZipStep}
    {removed : List String} (hs : s.Kept removed)
    (hfresh : (zipMachine z).Guarded (Fresh z) s steps)
    (hrun : (zipMachine z).run s steps = some s') :
    s'.Kept (removed ++ unlinkedNames steps) := by
  induction steps generalizing s removed with
  | nil =>
      cases hrun
      simpa [unlinkedNames] using hs
  | cons e steps ih =>
      obtain ⟨t, hstep, hrest⟩ := run_cons_eq_some.mp hrun
      have hkept := ih (hs.step hfresh.1 hstep) (hfresh.2 t hstep) hrest
      rw [List.append_assoc] at hkept
      rwa [unlinkedNames, ← List.singleton_append, List.filterMap_append]

end HeadlessZip

/-- What `\w` matches. -/
def isWordChar (c : Char) : Bool := c.isAlphanum || c = '_'

/-- `/tmp_(\w+)/.test(file)`. -/
def isTemporary : List Char → Bool
  | [] => false
  | c :: u =>
      (match c :: u with
        | 't' :: 'm' :: 'p' :: '_' :: w :: _ => isWordChar w
        | _ => false) || isTemporary u

/-- `dirToWriteTo || process.cwd()`. -/
def ZipSetup.outputDir (z : ZipSetup) (cwd : String) : String :=
  z.dirToWriteTo.getD cwd

namespace HeadlessZip

section Exit

variable (z : ZipSetup) (cwd : String) (files : List String)

/-- The entries of the directory; of the temporary ones those that are left. -/
def readdirSync (s : HeadlessZip) : List String :=
  files.filter fun file => !isTemporary file.toList ||
    (s.dirs (z.join (z.outputDir cwd) file)).isSome

/-- `tryZipOnExit`, as a listener of the exit calls it. -/
def tryZipOnExit (now : ZipDate) : Zipping := fun s =>
  match (s.readdirSync z cwd files).find? fun file =>
      isTemporary file.toList with
  | some file => headlessZip z (z.join (z.outputDir cwd) file) now s
  | none => (.ok (), s)

/-- The listeners of the exit, one after another at the times `nows`; after
one that throws no other is called. -/
def emitExit (nows : List ZipDate) : Zipping :=
  nows.forM (tryZipOnExit z cwd files)

/-- The directories of the agent that are left, in order. -/
def temporaries (s : HeadlessZip) : List String :=
  files.filter fun file => isTemporary file.toList &&
    (s.dirs (z.join (z.outputDir cwd) file)).isSome

/-- How many of `n` listeners that find a directory pack it: from Node 10 on,
as many as the list has room for. -/
def packing (s : HeadlessZip) (n : Nat) : Nat :=
  if z.unlinkThrows then min n (s.filesToKeep - s.filesWritten.length) else n

theorem tryZipOnExit_eq (s : HeadlessZip) (now : ZipDate) :
    tryZipOnExit z cwd files now s =
      match s.temporaries z cwd files with
      | [] => (.ok (), s)
      | file :: _ =>
          headlessZip z (z.join (z.outputDir cwd) file) now s := by
  have hfind : (s.readdirSync z cwd files).find?
      (fun file => isTemporary file.toList) =
        (s.temporaries z cwd files).head? := by
    rw [readdirSync, temporaries, List.find?_filter, List.head?_filter]
    congr 1
    funext file
    cases isTemporary file.toList <;> simp
  rw [tryZipOnExit, hfind]
  cases s.temporaries z cwd files <;> rfl

variable {z cwd files} (hfiles : files.Nodup)
  (hjoin : Set.InjOn (z.join (z.outputDir cwd)) {file | file ∈ files})

include hfiles hjoin

/-- The first directory is none of the others. -/
theorem temporaries_apart {s : HeadlessZip} {file f : String}
    {rest : List String} (htemps : s.temporaries z cwd files = file :: rest)
    (hf : f ∈ rest) :
    z.join (z.outputDir cwd) f ≠ z.join (z.outputDir cwd) file := by
  have hmem {f : String} (h : f ∈ file :: rest) : f ∈ files := by
    rw [← htemps] at h
    exact (List.mem_filter.mp h).1
  have hnodup : (file :: rest).Nodup := by
    rw [← htemps]
    exact hfiles.filter _
  rw [List.nodup_cons] at hnodup
  intro heq
  have hsame := hjoin (hmem (List.mem_cons_of_mem _ hf))
    (hmem List.mem_cons_self) heq
  exact hnodup.1 (hsame ▸ hf)

/-- With the first directory gone, the others are left. -/
theorem temporaries_removed {s s' : HeadlessZip} {file : String}
    {rest : List String} (htemps : s.temporaries z cwd files = file :: rest)
    (hdirs : s'.dirs =
      Function.update s.dirs (z.join (z.outputDir cwd) file) none) :
    s'.temporaries z cwd files = rest := by
  have hfilter : s'.temporaries z cwd files =
      (s.temporaries z cwd files).filter fun f =>
        decide (z.join (z.outputDir cwd) f ≠
          z.join (z.outputDir cwd) file) := by
    rw [temporaries, temporaries, List.filter_filter]
    apply List.filter_congr
    intro f _
    rw [hdirs]
    by_cases heq : z.join (z.outputDir cwd) f = z.join (z.outputDir cwd) file
    · simp [heq]
    · simp [heq]
  rw [hfilter, htemps, List.filter_cons_of_neg (by simp),
    List.filter_eq_self]
  intro f hf
  exact decide_eq_true (temporaries_apart hfiles hjoin htemps hf)

omit hfiles hjoin in
/-- A directory that is left has its files. -/
theorem exists_contents {s : HeadlessZip} {file : String} {rest : List String}
    (htemps : s.temporaries z cwd files = file :: rest) :
    ∃ contents, s.dirs (z.join (z.outputDir cwd) file) = some contents := by
  have hmem : file ∈ s.temporaries z cwd files := by
    rw [htemps]
    exact List.mem_cons_self
  have hpresent := (List.mem_filter.mp hmem).2
  rw [Bool.and_eq_true, Option.isSome_iff_exists] at hpresent
  exact hpresent.2

omit hfiles hjoin in
/-- A call that packs a directory takes one place in the list. -/
theorem packing_succ {s t : HeadlessZip} {outputFileName : String}
    (hpushed : s.Pushed outputFileName t)
    (hthrows : z.unlinkThrows = true →
      s.filesWritten.length < s.filesToKeep ∧
        t.filesWritten.length = s.filesWritten.length + 1)
    (dirToZip : String) (n : Nat) :
    s.packing z (n + 1) =
      packing z (t.packDir outputFileName dirToZip) n + 1 := by
  obtain ⟨hlimit, hnames, -⟩ := (t.packDir_cases outputFileName dirToZip).1
  rw [packing, packing, hlimit, hnames, hpushed.filesToKeep]
  split
  · next h =>
      obtain ⟨hroom, hlength⟩ := hthrows h
      omega
  · rfl

/-- The other directories keep their files when the first one goes. -/
theorem wrote_rest {s s' : HeadlessZip} {file : String} {rest : List String}
    (htemps : s.temporaries z cwd files = file :: rest)
    (hdirs : s'.dirs =
      Function.update s.dirs (z.join (z.outputDir cwd) file) none)
    (nows : List ZipDate) (n : Nat) :
    ((rest.zip nows).take n).flatMap (fun p =>
        [.wrote (z.outputFileName p.2)
            ((s'.dirs (z.join (z.outputDir cwd) p.1)).getD []),
          ZipEvent.removed (z.join (z.outputDir cwd) p.1)]) =
      ((rest.zip nows).take n).flatMap fun p =>
        [.wrote (z.outputFileName p.2)
            ((s.dirs (z.join (z.outputDir cwd) p.1)).getD []),
          ZipEvent.removed (z.join (z.outputDir cwd) p.1)] := by
  apply List.flatMap_congr
  intro p hp
  have hfile : z.join (z.outputDir cwd) p.1 ≠ z.join (z.outputDir cwd) file :=
    temporaries_apart hfiles hjoin htemps
      (List.of_mem_zip (List.mem_of_mem_take hp)).1
  rw [hdirs, Function.update_of_ne hfile]

theorem exit_log (s : HeadlessZip) (nows : List ZipDate) :
    let found := (s.temporaries z cwd files).zip nows
    (emitExit z cwd files nows s).2.log = s.log ++
        (found.take (s.packing z found.length)).flatMap (fun p =>
          [.wrote (z.outputFileName p.2)
              ((s.dirs (z.join (z.outputDir cwd) p.1)).getD []),
            .removed (z.join (z.outputDir cwd) p.1)]) ∧
      (emitExit z cwd files nows s).2.temporaries z cwd files =
        (s.temporaries z cwd files).drop (s.packing z found.length) ∧
      ((emitExit z cwd files nows s).1 = .ok () ↔
        s.packing z found.length = found.length) := by
  dsimp only
  induction nows generalizing s with
  | nil => simp [emitExit, packing]
  | cons now nows ih =>
      have htry := tryZipOnExit_eq z cwd files s now
      have hemit : emitExit z cwd files (now :: nows) =
          (tryZipOnExit z cwd files now >>= fun _ =>
            emitExit z cwd files nows) := rfl
      rw [hemit]
      cases htemps : s.temporaries z cwd files with
      | nil =>
          rw [htemps] at htry
          rw [Effect.Comp.bind_ok htry]
          have hrest := ih s
          rw [htemps] at hrest
          exact hrest
      | cons file rest =>
          obtain ⟨contents, hcontents⟩ := exists_contents htemps
          rw [htemps] at htry
          obtain ⟨t, hpushed, ⟨hcall, hthrows⟩ | ⟨hcall, hthrows, hfull⟩⟩ :=
            headlessZip_cases z (z.join (z.outputDir cwd) file) now s
          · -- the directory is packed, and the others are left to the rest
            rw [Effect.Comp.bind_ok (htry.trans hcall)]
            have honce := packDir_once hpushed (z.join (z.outputDir cwd) file)
            simp only [ZipsOnce, hcontents] at honce
            obtain ⟨hlog, -, hdirs⟩ := honce
            obtain ⟨hrest, hleft, hreturns⟩ := ih (t.packDir
              (z.outputFileName now) (z.join (z.outputDir cwd) file))
            rw [temporaries_removed hfiles hjoin htemps hdirs]
              at hrest hleft hreturns
            rw [List.zip_cons_cons, List.length_cons,
              packing_succ hpushed hthrows, List.take_succ_cons,
              List.flatMap_cons, List.drop_succ_cons,
              Nat.add_right_cancel_iff]
            refine ⟨?_, hleft, hreturns⟩
            rw [hrest, wrote_rest hfiles hjoin htemps hdirs, hlog, hcontents,
              List.append_assoc]
            rfl
          · -- no later listener is called
            rw [Effect.Comp.bind_error (htry.trans hcall)]
            have hnone (n : Nat) : s.packing z n = 0 := by
              rw [packing, if_pos hthrows]
              omega
            have hsame : t.temporaries z cwd files = file :: rest := by
              rw [← htemps, temporaries, temporaries, hpushed.dirs]
            rw [hnone, List.zip_cons_cons]
            refine ⟨?_, hsame, iff_of_false nofun nofun⟩
            simp [hpushed.log]

end Exit

end HeadlessZip

namespace ArchiveNamesWitness

def setup (unlinkThrows : Bool) : ZipSetup where
  dirToWriteTo := some "out"
  join dir name := dir ++ "/" ++ name
  pid := 7
  unlinkThrows := unlinkThrows

theorem setup_join (unlinkThrows : Bool) (dir : String) :
    Function.Injective ((setup unlinkThrows).join dir) := by
  intro a b heq
  have hlists := congrArg String.toList heq
  have hsame : a.toList = b.toList := by simpa [setup] using hlists
  exact String.toList_inj.mp hsame

def date (seconds : Nat) : ZipDate := ⟨1, 0, 2026, 12, 30, seconds⟩

/-- Two archives of different seconds, of which the first is dropped. -/
def twoSeconds : List ZipStep :=
  [.setFilesToKeep 1, .create "tmp_1" [("data.hcd", [1])],
    .headlessZip "tmp_1" (date 1), .create "tmp_2" [("data.hcd", [2])],
    .headlessZip "tmp_2" (date 2),
    .unlinked ((setup false).outputFileName (date 1))]

theorem twoSeconds_runs :
    ((zipMachine (setup false)).run HeadlessZip.initial twoSeconds).isSome := by
  decide +kernel

/-- Two directories are left, and the list has room for one name. -/
def leftOver : HeadlessZip :=
  { HeadlessZip.initial with
    filesToKeep := 1
    dirs := fun dir => if dir ∈ ["out/tmp_1", "out/tmp_2"] then some []
      else none }

end ArchiveNamesWitness

end Appmetrics
