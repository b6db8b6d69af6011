/-
heapdump.cc: the file of a heap snapshot.  V8 hands the serialised snapshot
over in chunks, and `WriteAsciiChunk` passes each on to `fwrite` until all of
it has been taken or the stream is in error.  What has been taken is buffered,
and the last of it only reaches the file when `fclose` flushes the buffer.
-/
import Appmetrics.Loops
import Mathlib.Data.List.TakeDrop

namespace Appmetrics

/-- What one `fwrite` on a stream does: how many bytes it takes at most, how
many of the bytes that have been taken it moves on to the file, and whether it
leaves an indicator set that `ferror` or `feof` reads. -/
structure Fwrite where
  takes : Nat
  flushes : Nat
  fails : Bool
deriving Repr, DecidableEq

/-- The `k`-th `fwrite` on a stream, and how much of the buffer `fclose` can
move on to the file. -/
structure Stdio where
  fwrite : Nat → Fwrite
  fclose : Nat

/-- An `fwrite` that takes nothing reports an error. -/
def Stdio.Reports (libc : Stdio) : Prop :=
  ∀ k, (libc.fwrite k).takes = 0 → (libc.fwrite k).fails = true

structure FileStream where
  contents : List UInt8
  buffer : List UInt8
  failed : Bool
  calls : Nat
deriving Repr, DecidableEq

inductive WriteResult
  | kContinue
  | kAbort
deriving Repr, DecidableEq

namespace FileStream

/-- `fwrite(data, 1, size, stream)`. -/
def fwrite (libc : Stdio) (data : List UInt8) (stream : FileStream) :
    Nat × FileStream :=
  let call := libc.fwrite stream.calls
  let written := min call.takes data.length
  let buffer := stream.buffer ++ data.take written
  (written,
    { contents := stream.contents ++ buffer.take call.flushes
      buffer := buffer.drop call.flushes
      failed := stream.failed || call.fails
      calls := stream.calls + 1 })

/-- `fclose(stream)`: whether it succeeds, and the file it leaves. -/
def fclose (libc : Stdio) (stream : FileStream) : Bool × List UInt8 :=
  (decide (stream.buffer.length ≤ libc.fclose),
    stream.contents ++ stream.buffer.take libc.fclose)

/-- One pass of the loop of `WriteAsciiChunk`; the state is `off` and the
stream. -/
def chunkPass (libc : Stdio) (data : List UInt8) :
    Nat × FileStream → Option (Nat × FileStream)
  | (off, stream) =>
      if off < data.length && !stream.failed then
        let (written, stream) := stream.fwrite libc (data.drop off)
        some (off + written, stream)
      else none

/-- `WriteAsciiChunk`; `none` is a loop that does not end. -/
def writeAsciiChunk (libc : Stdio) (data : List UInt8)
    (stream : FileStream) : Option (WriteResult × FileStream) :=
  (Loops.run (chunkPass libc data) (data.length + 2) (0, stream)).map
    fun (off, stream) =>
      (if off = data.length then .kContinue else .kAbort, stream)

/-- `Serialize` stops at the first chunk that is refused. -/
def serialize (libc : Stdio) :
    List (List UInt8) → FileStream → Option (WriteResult × FileStream)
  | [], stream => some (.kContinue, stream)
  | chunk :: chunks, stream =>
      (stream.writeAsciiChunk libc chunk).bind fun (result, stream) =>
        match result with
        | .kContinue => serialize libc chunks stream
        | .kAbort => some (.kAbort, stream)

end FileStream

/-- `WriteSnapshotHelper` with the file it leaves; `opens` is whether `fopen`
succeeds.  The results of `Serialize` and `fclose` are not looked at. -/
def writeSnapshotHelper (libc : Stdio) (opens : Bool)
    (chunks : List (List UInt8)) : Option (Bool × Option (List UInt8)) :=
  if opens then
    (FileStream.serialize libc chunks ⟨[], [], false, 0⟩).map
      fun (_, stream) =>
        let (_, contents) := stream.fclose libc
        (true, some contents)
  else some (false, none)

/-- What a stream has taken so far. -/
def FileStream.taken (stream : FileStream) : List UInt8 :=
  stream.contents ++ stream.buffer

namespace FileStream

section Chunk

variable {libc : Stdio} (hlibc : libc.Reports) (data : List UInt8)
  (start : FileStream)

/-- What has been taken is the start of the chunk. -/
def Taken (s : Nat × FileStream) : Prop :=
  s.1 ≤ data.length ∧ s.2.taken = start.taken ++ data.take s.1

theorem fwrite_taken (data : List UInt8) (stream : FileStream) :
    (stream.fwrite libc data).2.taken =
      stream.taken ++ data.take (stream.fwrite libc data).1 := by
  simp [fwrite, taken]

theorem chunkPass_some {s s' : Nat × FileStream}
    (hpass : chunkPass libc data s = some s') :
    s.1 < data.length ∧ s.2.failed = false ∧
      s' = (s.1 + (s.2.fwrite libc (data.drop s.1)).1,
        (s.2.fwrite libc (data.drop s.1)).2) := by
  obtain ⟨off, stream⟩ := s
  obtain ⟨hguard, heq⟩ := Option.ite_none_right_eq_some.mp hpass
  simp only [Bool.and_eq_true, decide_eq_true_eq, Bool.not_eq_true']
    at hguard
  exact ⟨hguard.1, hguard.2, (Option.some.inj heq).symm⟩

theorem chunkPass_none {off : Nat} {stream : FileStream}
    (hpass : chunkPass libc data (off, stream) = none) :
    data.length ≤ off ∨ stream.failed = true := by
  by_contra hgo
  obtain ⟨hoff, hfailed⟩ := not_or.mp hgo
  simp only [chunkPass] at hpass
  rw [if_pos (by simp [Nat.lt_of_not_le hoff, hfailed])] at hpass
  cases hpass

include hlibc

/-- A pass takes some bytes or leaves the stream in error. -/
theorem chunk_variant : Loops.Variant (chunkPass libc data)
    (Taken data start)
    fun s => data.length - s.1 + if s.2.failed then 0 else 1 where
  keeps := by
    intro s s' hs hpass
    obtain ⟨hoff, _, rfl⟩ := chunkPass_some data hpass
    obtain ⟨_, hcontents⟩ := hs
    have hlength : (data.drop s.1).length = data.length - s.1 :=
      List.length_drop
    constructor
    · simp only [fwrite, hlength]
      omega
    · rw [fwrite_taken, hcontents, List.append_assoc, List.take_add]
  lowers := by
    intro s s' hs hpass
    obtain ⟨hoff, hfailed, rfl⟩ := chunkPass_some data hpass
    have hlength : (data.drop s.1).length = data.length - s.1 :=
      List.length_drop
    simp only [fwrite, hlength, hfailed, Bool.false_or]
    by_cases hzero : (libc.fwrite s.2.calls).takes = 0
    · rw [hlibc _ hzero]
      simp only [if_true, Bool.false_eq_true, if_false]
      omega
    · simp only [Bool.false_eq_true, if_false]
      split <;> omega

/-- A chunk is taken from its start, and all of it unless the stream is in
error. -/
theorem writeAsciiChunk_spec :
    ∃ result stream off, start.writeAsciiChunk libc data =
        some (result, stream) ∧
      stream.taken = start.taken ++ data.take off ∧
      off ≤ data.length ∧ (result = .kContinue ↔ off = data.length) ∧
      (result = .kAbort → stream.failed = true) := by
  have hstart : Taken data start (0, start) :=
    ⟨Nat.zero_le _, by simp⟩
  obtain ⟨⟨off, stream⟩, ⟨hoff, hcontents⟩, hend, hrun⟩ :=
    (chunk_variant hlibc data start).ends hstart
  have hruns := hrun (data.length + 2) (by
    dsimp only
    split <;> omega)
  refine ⟨if off = data.length then .kContinue else .kAbort, stream, off,
    by rw [writeAsciiChunk, hruns]; rfl, hcontents, hoff, ?_, ?_⟩
  · by_cases hall : off = data.length <;> simp [hall]
  · intro habort
    have hsome : off ≠ data.length := by
      intro hall
      rw [if_pos hall] at habort
      cases habort
    rcases chunkPass_none data hend with hle | hfailed
    · exact absurd (Nat.le_antisymm hoff hle) hsome
    · exact hfailed

end Chunk

/-- The chunks are taken in order, and all of them unless one is refused. -/
theorem serialize_spec {libc : Stdio} (hlibc : libc.Reports)
    (chunks : List (List UInt8)) (start : FileStream) :
    ∃ result stream written, start.serialize libc chunks =
        some (result, stream) ∧
      stream.taken = start.taken ++ written ∧
      written <+: chunks.flatten ∧
      (result = .kContinue ↔ written = chunks.flatten) ∧
      (result = .kAbort → stream.failed = true) := by
  induction chunks generalizing start with
  | nil => exact ⟨.kContinue, start, [], rfl, by simp, by simp, by simp, nofun⟩
  | cons chunk chunks ih =>
      obtain ⟨result, stream, off, hchunk, hcontents, hoff, hall, hfailed⟩ :=
        writeAsciiChunk_spec hlibc chunk start
      cases result with
      | kAbort =>
          have hne : off ≠ chunk.length := fun h => nomatch hall.mpr h
          refine ⟨.kAbort, stream, chunk.take off, ?_, hcontents, ?_, ?_,
            hfailed⟩
          · rw [serialize, hchunk]
            rfl
          · exact (List.take_prefix _ _).trans (List.prefix_append _ _)
          · constructor
            · intro h
              cases h
            · intro heq
              have hlength := congrArg List.length heq
              rw [List.length_take, List.flatten_cons, List.length_append]
                at hlength
              omega
      | kContinue =>
          have hoff := hall.mp rfl
          rw [hoff, List.take_length] at hcontents
          obtain ⟨result, last, written, hrest, hlast, hprefix, hiff, herror⟩ :=
            ih stream
          refine ⟨result, last, chunk ++ written, ?_, ?_, ?_, ?_, herror⟩
          · rw [serialize, hchunk]
            exact hrest
          · rw [hlast, hcontents, List.append_assoc]
          · exact (List.prefix_append_right_inj chunk).mpr hprefix
          · rw [hiff, List.flatten_cons, List.append_cancel_left_eq]

end FileStream

/-- However `fwrite` splits and buffers the writes and wherever it fails,
serialising a snapshot ends, and the file is a prefix of the snapshot: the
whole of it exactly when no chunk was refused, which only an error on the
stream leads to, and `fclose` could flush the rest.  The helper returns true
for any file it could open, truncated or not. -/
theorem snapshot_file {libc : Stdio} (hlibc : libc.Reports)
    (chunks : List (List UInt8)) :
    ∃ result stream, FileStream.serialize libc chunks ⟨[], [], false, 0⟩ =
        some (result, stream) ∧
      writeSnapshotHelper libc true chunks =
        some (true, some (stream.fclose libc).2) ∧
      (stream.fclose libc).2 <+: chunks.flatten ∧
      ((stream.fclose libc).2 = chunks.flatten ↔
        result = .kContinue ∧ (stream.fclose libc).1 = true) ∧
      (stream.failed = false → result = .kContinue) := by
  obtain ⟨result, stream, written, hrun, htaken, hprefix, hiff, herror⟩ :=
    FileStream.serialize_spec hlibc chunks ⟨[], [], false, 0⟩
  have hfile : (stream.fclose libc).2 <+: written := by
    have hwritten : written = stream.contents ++ stream.buffer := htaken.symm
    rw [hwritten]
    exact (List.prefix_append_right_inj _).mpr (List.take_prefix _ _)
  have hflushed : (stream.fclose libc).2 = written ↔
      (stream.fclose libc).1 = true := by
    have hwritten : written = stream.contents ++ stream.buffer := htaken.symm
    rw [hwritten, FileStream.fclose, List.append_cancel_left_eq,
      List.take_eq_self_iff, decide_eq_true_eq]
  refine ⟨result, stream, hrun, ?_, hfile.trans hprefix, ?_, ?_⟩
  · rw [writeSnapshotHelper, if_pos rfl, hrun]
    rfl
  · rw [hiff, ← hflushed]
    constructor
    · intro hwhole
      have hall : written = chunks.flatten :=
        hprefix.eq_of_length_le (hwhole ▸ hfile.length_le)
      exact ⟨hall, hwhole.trans hall.symm⟩
    · rintro ⟨hall, hrest⟩
      exact hrest.trans hall
  · intro hok
    cases result with
    | kContinue => rfl
    | kAbort => cases hok.symm.trans (herror rfl)

namespace SnapshotFileWitness

/-- A disk that is full after two bytes, which shows when the buffer is
flushed. -/
def fullDisk : Stdio where
  fwrite k := if k = 0 then ⟨4, 2, false⟩ else ⟨2, 0, false⟩
  fclose := 0

theorem snapshot_file_fullDisk :
    fullDisk.Reports ∧
      ∃ result stream,
        FileStream.serialize fullDisk [[1, 2, 3], [4, 5]]
            ⟨[], [], false, 0⟩ = some (result, stream) ∧
        writeSnapshotHelper fullDisk true [[1, 2, 3], [4, 5]] =
          some (true, some (stream.fclose fullDisk).2) ∧
        (stream.fclose fullDisk).2 <+: [[1, 2, 3], [4, 5]].flatten ∧
        ((stream.fclose fullDisk).2 = [[1, 2, 3], [4, 5]].flatten ↔
          result = .kContinue ∧ (stream.fclose fullDisk).1 = true) ∧
        (stream.failed = false → result = .kContinue) := by
  have hreports : fullDisk.Reports := by
    intro k hk
    unfold fullDisk at hk
    dsimp only at hk
    split at hk <;> cases hk
  exact ⟨hreports, snapshot_file hreports [[1, 2, 3], [4, 5]]⟩

end SnapshotFileWitness

end Appmetrics
