/-
The bytes of a message (src/appmetrics.cpp).  `sendData` copies the payload by
its length; `emitMessage` reads the copy as a C string and then takes the
length again from the string's buffer.  Memory is the list of the bytes that
exist from a pointer on, and a read past them is `none`.
-/
import Mathlib.Data.List.TakeDrop
import Mathlib.Data.UInt

namespace Appmetrics

/-- `n` bytes starting at the pointer. -/
def readBytes : List UInt8 → Nat → Option (List UInt8)
  | _, 0 => some []
  | [], _ + 1 => none
  | b :: memory, n + 1 => (readBytes memory n).map (b :: ·)

/-- `std::string((char*)data)`: the bytes before the first zero. -/
def cString : List UInt8 → Option (List UInt8)
  | [] => none
  | b :: memory =>
      if b = 0 then some [] else (cString memory).map (b :: ·)

/-- The buffer behind `c_str()`. -/
def cStr (s : List UInt8) : List UInt8 := s ++ [0]

/-- `memcpy(dataCopy, data, size)` into a block of `size` bytes. -/
def copyPayload (data : List UInt8) (size : Nat) : Option (List UInt8) :=
  readBytes data size

/-- `Nan::CopyBuffer(std::string((char*)data).c_str(), size)`. -/
def messageBuffer (data : List UInt8) (size : Nat) : Option (List UInt8) :=
  (cString data).bind fun s => readBytes (cStr s) size

/-- From the pointer handed to `sendData` to the Buffer that the listener is
given. -/
def deliveredBuffer (data : List UInt8) (size : Nat) : Option (List UInt8) :=
  (copyPayload data size).bind fun block => messageBuffer block size

theorem readBytes_eq_some_iff {memory bytes : List UInt8} {n : Nat} :
    readBytes memory n = some bytes ↔
      n ≤ memory.length ∧ bytes = memory.take n := by
  induction n generalizing memory bytes with
  | zero => simp [readBytes, eq_comm]
  | succ n ih =>
      cases memory with
      | nil => simp [readBytes]
      | cons b memory =>
          rw [readBytes, Option.map_eq_some_iff]
          constructor
          · rintro ⟨rest, hrest, rfl⟩
            obtain ⟨hle, heq⟩ := ih.mp hrest
            exact ⟨Nat.succ_le_succ hle, by rw [heq, List.take_succ_cons]⟩
          · rintro ⟨hle, rfl⟩
            exact ⟨memory.take n, ih.mpr ⟨Nat.le_of_succ_le_succ hle, rfl⟩,
              rfl⟩

/-- A C string ends inside the memory, at the first zero byte. -/
theorem cString_eq_some_iff {memory s : List UInt8} :
    cString memory = some s ↔ ∃ rest, memory = s ++ 0 :: rest ∧ 0 ∉ s := by
  induction memory generalizing s with
  | nil => simp [cString]
  | cons b memory ih =>
      rw [cString]
      by_cases hb : b = 0
      · rw [if_pos hb, Option.some.injEq]
        constructor
        · rintro rfl
          exact ⟨memory, by rw [hb]; rfl, List.not_mem_nil⟩
        · rintro ⟨rest, heq, hzero⟩
          cases s with
          | nil => rfl
          | cons c s =>
              obtain ⟨rfl, _⟩ := List.cons.inj heq
              exact absurd (hb ▸ List.mem_cons_self) hzero
      · rw [if_neg hb, Option.map_eq_some_iff]
        constructor
        · rintro ⟨s, hs, rfl⟩
          obtain ⟨rest, heq, hzero⟩ := ih.mp hs
          refine ⟨rest, by rw [heq]; rfl, ?_⟩
          rw [List.mem_cons, not_or]
          exact ⟨Ne.symm hb, hzero⟩
        · rintro ⟨rest, heq, hzero⟩
          cases s with
          | nil => exact absurd (List.cons.inj heq).1 hb
          | cons c s =>
              obtain ⟨rfl, hmemory⟩ := List.cons.inj heq
              have hrest : (0 : UInt8) ∉ s := fun h =>
                hzero (List.mem_cons_of_mem _ h)
              exact ⟨s, ih.mpr ⟨rest, hmemory, hrest⟩, rfl⟩

/-- The copy in the queue always has the bytes that were sent. -/
theorem copyPayload_eq {data : List UInt8} {size : Nat}
    (hsize : size ≤ data.length) :
    copyPayload data size = some (data.take size) :=
  readBytes_eq_some_iff.mpr ⟨hsize, rfl⟩

theorem messageBuffer_eq_some_iff {block : List UInt8} :
    messageBuffer block block.length = some block ↔
      ∃ s, block = s ++ [0] ∧ 0 ∉ s := by
  rw [messageBuffer, Option.bind_eq_some_iff]
  constructor
  · rintro ⟨s, hs, hread⟩
    obtain ⟨rest, hblock, hzero⟩ := cString_eq_some_iff.mp hs
    obtain ⟨hle, _⟩ := readBytes_eq_some_iff.mp hread
    have hnil : rest = [] := by
      have hlength := congrArg List.length hblock
      simp only [List.length_append, List.length_cons] at hlength
      simp only [cStr, List.length_append, List.length_singleton] at hle
      exact List.eq_nil_of_length_eq_zero (by omega)
    exact ⟨s, by rw [hblock, hnil], hzero⟩
  · rintro ⟨s, hblock, hzero⟩
    refine ⟨s, cString_eq_some_iff.mpr ⟨[], hblock, hzero⟩, ?_⟩
    rw [readBytes_eq_some_iff, cStr, ← hblock]
    exact ⟨Nat.le_refl _, (List.take_length).symm⟩

/-- The listener gets exactly the bytes that were sent, without a read past
the end of a block, just when the only zero byte of the payload is its last
byte. -/
theorem deliveredBuffer_eq_iff {data : List UInt8} {size : Nat}
    (hsize : size ≤ data.length) :
    deliveredBuffer data size = some (data.take size) ↔
      ∃ s, data.take size = s ++ [0] ∧ 0 ∉ s := by
  have hlength : (data.take size).length = size := List.length_take_of_le hsize
  rw [deliveredBuffer, copyPayload_eq hsize, Option.bind_some,
    ← messageBuffer_eq_some_iff, hlength]

namespace PayloadWitness

/-- The three bytes of `0.5` without a terminating zero. -/
def unterminated : List UInt8 := [48, 46, 53]

theorem unterminated_not_delivered :
    deliveredBuffer unterminated 3 ≠ some unterminated ∧
      deliveredBuffer [48, 0, 53, 0] 4 ≠ some [48, 0, 53, 0] := by
  decide

theorem deliveredBuffer_eq_iff_terminated :
    deliveredBuffer [48, 46, 53, 0] 4 = some [48, 46, 53, 0] ↔
      ∃ s, [48, 46, 53, 0] = s ++ [(0 : UInt8)] ∧ 0 ∉ s :=
  deliveredBuffer_eq_iff (show 4 ≤ [48, 46, 53, (0 : UInt8)].length by decide)

end PayloadWitness

end Appmetrics
