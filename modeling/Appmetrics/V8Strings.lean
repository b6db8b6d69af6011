/-
The helpers that copy a V8 string into a C++ one: `toStdString`
(src/appmetrics.cpp), `ExtractV8String` (nodeprofplugin.cpp) and `ToStdString`
(nodeenvplugin.cpp).  All three allocate by the number of UTF-16 units and let
V8 write UTF-8.
-/
import Appmetrics.Text
import Appmetrics.Utf16

namespace Appmetrics

open Utf16

namespace V8String

/-- A C string ends at the first zero byte. -/
def cString (bytes : List UInt8) : List UInt8 := bytes.takeWhile (· ≠ 0)

/-- `s->WriteUtf8(isolate, buf)` into an array of `size` bytes: the whole
encoding and a zero byte, from the start of the array on.  `none` stands for
a store past its end, after which C++ promises nothing. -/
def writeUtf8 (replace : Bool) (s : List UInt16) (size : Nat) :
    Option (List UInt8) :=
  let stored := utf8 replace s ++ [0]
  if stored.length ≤ size then some stored else none

/-- `new char[s->Length() + 1]`, filled by `WriteUtf8` and read back as a C
string. -/
def copied (replace : Bool) (s : List UInt16) : Option (List UInt8) :=
  (writeUtf8 replace s (s.length + 1)).map cString

/-- `toStdString` of appmetrics.cpp. -/
def toStdString (replace : Bool) (s : List UInt16) : Option (List UInt8) :=
  copied replace s

/-- What `*cstring` points at after `ExtractV8String`. -/
def extractV8String (replace : Bool) (s : List UInt16) : Option (List UInt8) :=
  copied replace s

end V8String

/-- `ToStdString` of nodeenvplugin.cpp. -/
def EnvPlugin.toStdString (replace : Bool) (s : List UInt16) :
    Option (List UInt8) :=
  V8String.copied replace s

namespace V8String

/-- The three helpers. -/
def helpers : List (Bool → List UInt16 → Option (List UInt8)) :=
  [toStdString, extractV8String, EnvPlugin.toStdString]

/-- Nothing is stored outside the array, and the copy is the encoding up to
its first zero byte. -/
def CopiesExactly (helper : Bool → List UInt16 → Option (List UInt8))
    (replace : Bool) (s : List UInt16) : Prop :=
  helper replace s = some (cString (utf8 replace s))

theorem cString_append_zero (bytes : List UInt8) :
    cString (bytes ++ [0]) = cString bytes := by
  unfold cString
  induction bytes with
  | nil => rfl
  | cons b bytes ih =>
      rw [List.cons_append, List.takeWhile_cons, List.takeWhile_cons, ih]

theorem copied_eq (replace : Bool) (s : List UInt16) :
    copied replace s =
      if (utf8 replace s).length ≤ s.length then
        some (cString (utf8 replace s))
      else none := by
  unfold copied writeUtf8
  simp only [List.length_append, List.length_singleton,
    Nat.add_le_add_iff_right]
  split
  · rw [Option.map_some, cString_append_zero]
  · rfl

theorem eq_copied_of_mem_helpers
    {helper : Bool → List UInt16 → Option (List UInt8)}
    (hhelper : helper ∈ helpers) : helper = copied := by
  simp only [helpers, List.mem_cons, List.not_mem_nil, or_false] at hhelper
  rcases hhelper with rfl | rfl | rfl <;> rfl

/-- The helpers are exact on ASCII and write past their array on every other
string. -/
theorem copiesExactly_iff
    (helper : Bool → List UInt16 → Option (List UInt8))
    (hhelper : helper ∈ helpers) (replace : Bool) (s : List UInt16) :
    CopiesExactly helper replace s ↔ ∀ u ∈ s, u.toNat < 0x80 := by
  rw [CopiesExactly, eq_copied_of_mem_helpers hhelper, copied_eq,
    ← (utf8_length replace s).2]
  split
  · next hfits => exact iff_of_true rfl hfits
  · next hover => exact iff_of_false (by rintro ⟨⟩) hover

/-- Bytes of ASCII text, cut off at the first zero. -/
theorem cString_text {t : List Char} (ht : ∀ c ∈ t, c.toNat < 128) :
    cString (t.map ((fun u : UInt16 => UInt8.ofNat u.toNat) ∘
      fun c : Char => UInt16.ofNat c.toNat)) =
      (cText t).map fun c => .ofNat c.toNat := by
  unfold cString cText
  induction t with
  | nil => rfl
  | cons c t ih =>
      rw [List.forall_mem_cons] at ht
      have hbyte : UInt8.ofNat (UInt16.ofNat c.toNat).toNat =
          UInt8.ofNat c.toNat := by
        rw [UInt16.toNat_ofNat', Nat.mod_eq_of_lt (by omega)]
      have hzero : UInt8.ofNat c.toNat = 0 ↔ c = '\x00' := by
        rw [← UInt8.toNat_inj, UInt8.toNat_ofNat',
          Nat.mod_eq_of_lt (by omega), ← Char.toNat_inj]
        rfl
      simp only [List.map_cons, Function.comp_apply, hbyte,
        List.takeWhile_cons, ne_eq, hzero, ih ht.2]
      split <;> rfl

/-- The copies of texts in the messages of the plugins are these copies. -/
theorem copied_ofText (replace : Bool) (t : List Char)
    [Decidable (∀ c ∈ t, c.toNat < 128)] :
    copied replace (ofText t) =
      (Appmetrics.extractV8String t).map fun copy =>
        copy.map fun c => .ofNat c.toNat := by
  rw [copied_eq, Appmetrics.extractV8String_eq]
  simp only [(utf8_length replace (ofText t)).2, ofText_ascii]
  split
  · next hascii =>
      rw [Option.map_some, utf8_ascii replace ((ofText_ascii t).mpr hascii),
        ofText_eq_map hascii, List.map_map, cString_text hascii]
  · rfl

end V8String

namespace V8StringWitness

/-- A copy of the units of `index.js`. -/
theorem index_js :
    V8String.helpers.length = 3 ∧
      V8String.CopiesExactly EnvPlugin.toStdString false
        [0x69, 0x6E, 0x64, 0x65, 0x78, 0x2E, 0x6A, 0x73] :=
  ⟨rfl, (V8String.copiesExactly_iff EnvPlugin.toStdString
    (List.mem_cons_of_mem _ (List.mem_cons_of_mem _ List.mem_cons_self))
    false _).mpr (by simp)⟩

/-- U+00E9 is one unit and two bytes: with the zero byte it takes three, and
the array has two. -/
theorem acute_overruns :
    ¬ ∀ (helper : Bool → List UInt16 → Option (List UInt8)),
      helper ∈ V8String.helpers → ∀ (replace : Bool) (s : List UInt16),
        V8String.CopiesExactly helper replace s := by
  intro hall
  have hcopied := hall V8String.toStdString List.mem_cons_self false [0xE9]
  have hnone : V8String.toStdString false [0xE9] = none := by decide
  rw [V8String.CopiesExactly, hnone] at hcopied
  cases hcopied

end V8StringWitness

end Appmetrics
