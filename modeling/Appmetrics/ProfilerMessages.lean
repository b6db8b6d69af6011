/-
nodeprofplugin.cpp: which control messages the profiling plugin acts on, and
what it makes of their two parts.
-/
import Appmetrics.Profiler

namespace Appmetrics

/-- The text starts with the digits of `m`. -/
def LeadingDigits (u : List Char) (m : Nat) : Prop :=
  ∃ digits rest, u = digits ++ rest ∧ digits ≠ [] ∧
    (∀ d ∈ digits, d.isDigit = true) ∧ (∀ d ∈ rest.head?, d.isDigit = false) ∧
    m = Nat.ofDigitChars 10 digits 0

/-- After blanks and perhaps a sign, the text starts with the digits of
`n`. -/
def LeadingInt (c : List Char) (n : Int) : Prop :=
  ∃ blanks u, c = blanks ++ u ∧ (∀ x ∈ blanks, isCSpace x = true) ∧
    ∃ m : Nat, LeadingDigits u m ∧ n = m ∨
      (∃ v, u = '+' :: v ∧ LeadingDigits v m ∧ n = m) ∨
      ∃ v, u = '-' :: v ∧ LeadingDigits v m ∧ n = -m

def FitsInt (n : Int) : Prop := -2 ^ 31 ≤ n ∧ n < 2 ^ 31

theorem leadingDigits_iff {u : List Char} {m : Nat} :
    LeadingDigits u m ↔ u.takeWhile Char.isDigit ≠ [] ∧
      m = Nat.ofDigitChars 10 (u.takeWhile Char.isDigit) 0 := by
  constructor
  · rintro ⟨digits, rest, rfl, hne, hdigits, hrest, hm⟩
    rw [Scanning.takeWhile_append hdigits hrest]
    exact ⟨hne, hm⟩
  · rintro ⟨hne, hm⟩
    refine ⟨u.takeWhile Char.isDigit, u.dropWhile Char.isDigit,
      (List.takeWhile_append_dropWhile ..).symm, hne,
      fun d hd => List.mem_takeWhile_imp hd, fun d hd => ?_, hm⟩
    have hstop := List.head?_dropWhile_not Char.isDigit u
    rwa [Option.mem_def.mp hd] at hstop

theorem signed_eq_some_iff {u : List Char} {sign : Int → Int} {n : Int} :
    streamInt.signed u sign = some n ↔
      FitsInt n ∧ ∃ m : Nat, LeadingDigits u m ∧ n = sign m := by
  unfold streamInt.signed
  simp only [leadingDigits_iff, Option.ite_none_left_eq_some, not_or, not_lt,
    not_le, FitsInt]
  constructor
  · rintro ⟨⟨hne, hlow, hhigh⟩, hn⟩
    cases hn
    exact ⟨⟨hlow, hhigh⟩, _, ⟨hne, rfl⟩, rfl⟩
  · rintro ⟨⟨hlow, hhigh⟩, m, ⟨hne, rfl⟩, rfl⟩
    exact ⟨⟨hne, hlow, hhigh⟩, rfl⟩

theorem LeadingDigits.head {u : List Char} {m : Nat} (hu : LeadingDigits u m) :
    ∃ d v, u = d :: v ∧ d.isDigit = true := by
  obtain ⟨digits, rest, rfl, hne, hdigits, _⟩ := hu
  obtain ⟨d, digits, rfl⟩ := List.exists_cons_of_ne_nil hne
  exact ⟨d, digits ++ rest, rfl, hdigits d List.mem_cons_self⟩

theorem isCSpace_of_isDigit {d : Char} (hd : d.isDigit = true) :
    isCSpace d = false := by
  rw [Char.isDigit, Bool.and_eq_true, decide_eq_true_eq,
    decide_eq_true_eq] at hd
  have hlo : 48 ≤ d.toNat := hd.1
  have hne : d ≠ ' ' := by
    rintro rfl
    exact absurd hlo (by decide)
  simp only [isCSpace, hne, decide_false, Bool.false_or]
  simp
  omega

/-- `stream >> n` reads the leading integer, if it is an `int`. -/
theorem streamInt_eq_some_iff {c : List Char} {n : Int} :
    streamInt c = some n ↔ LeadingInt c n ∧ FitsInt n := by
  constructor
  · intro hread
    have hsplit : c = c.takeWhile isCSpace ++ c.dropWhile isCSpace :=
      List.takeWhile_append_dropWhile.symm
    have hblanks : ∀ x ∈ c.takeWhile isCSpace, isCSpace x = true :=
      fun x hx => List.mem_takeWhile_imp hx
    unfold streamInt at hread
    split at hread
    · rename_i v hdrop
      obtain ⟨hfits, m, hv, hn⟩ := signed_eq_some_iff.mp hread
      exact ⟨⟨_, _, hsplit, hblanks, m, Or.inr (Or.inr ⟨v, hdrop, hv, hn⟩)⟩,
        hfits⟩
    · rename_i v hdrop
      obtain ⟨hfits, m, hv, hn⟩ := signed_eq_some_iff.mp hread
      exact ⟨⟨_, _, hsplit, hblanks, m, Or.inr (Or.inl ⟨v, hdrop, hv, hn⟩)⟩,
        hfits⟩
    · obtain ⟨hfits, m, hv, hn⟩ := signed_eq_some_iff.mp hread
      exact ⟨⟨_, _, hsplit, hblanks, m, Or.inl ⟨hv, hn⟩⟩, hfits⟩
  · rintro ⟨⟨blanks, u, rfl, hblanks, m, hread⟩, hfits⟩
    unfold streamInt
    rcases hread with ⟨hu, hn⟩ | ⟨v, rfl, hv, hn⟩ | ⟨v, rfl, hv, hn⟩
    · obtain ⟨d, v, rfl, hd⟩ := hu.head
      rw [Scanning.dropWhile_append hblanks]
      · obtain ⟨_, hminus, hplus⟩ := digit_facts hd
        split
        · next heq => exact absurd (List.cons.inj heq).1 hminus
        · next heq => exact absurd (List.cons.inj heq).1 hplus
        · exact signed_eq_some_iff.mpr ⟨hfits, m, hu, hn⟩
      · rintro x ⟨⟩
        exact isCSpace_of_isDigit hd
    · rw [Scanning.dropWhile_append hblanks (by simp [isCSpace])]
      exact signed_eq_some_iff.mpr ⟨hfits, m, hv, hn⟩
    · rw [Scanning.dropWhile_append hblanks (by simp [isCSpace])]
      exact signed_eq_some_iff.mpr ⟨hfits, m, hv, hn⟩

/-- What the threshold is set to: the leading integer of the text, or 0 if
there is none or it is no `int`. -/
def ThresholdOf (c : List Char) (threshold : Int) : Prop :=
  (∃ n, LeadingInt c n ∧ FitsInt n ∧ threshold = n) ∨
    (∀ n, LeadingInt c n → ¬FitsInt n) ∧ threshold = 0

theorem thresholdOf_streamInt (c : List Char) :
    ThresholdOf c ((streamInt c).getD 0) := by
  cases hread : streamInt c with
  | none =>
      refine Or.inr ⟨fun n hn hfits => ?_, rfl⟩
      rw [streamInt_eq_some_iff.mpr ⟨hn, hfits⟩] at hread
      cases hread
  | some n =>
      obtain ⟨hn, hfits⟩ := streamInt_eq_some_iff.mp hread
      exact Or.inl ⟨n, hn, hfits, rfl⟩

/-! ## Messages -/

inductive ControlKey
  | subsystem
  | v8json
  | threshold
deriving Repr, DecidableEq

namespace ControlKey

def text : ControlKey → List Char
  | subsystem => "profiling_node_subsystem".toList
  | v8json => "profiling_node_v8json".toList
  | threshold => "profiling_node_threshold".toList

/-- What the message `command,key` asks for. -/
def Asks (key : ControlKey) (command : List Char) (s s' : Profiler) : Prop :=
  match key with
  | subsystem => s' = s.setEnabled (command = "on".toList)
  | v8json => s' = s.setJsonEnabled (command = "on".toList)
  | threshold => ∃ n, ThresholdOf command n ∧ s' = { s with watchdogThreshold := n }

theorem comma_not_mem (key : ControlKey) : ',' ∉ key.text := by
  cases key <;> decide

end ControlKey

namespace Profiler

/-- What is done with the two parts of a message. -/
def dispatch (s : Profiler) (command rest : List Char) : Profiler :=
  if rest = ControlKey.subsystem.text then s.setEnabled (command = "on".toList)
  else if rest = ControlKey.v8json.text then
    s.setJsonEnabled (command = "on".toList)
  else if rest = ControlKey.threshold.text then
    { s with watchdogThreshold := (streamInt command).getD 0 }
  else s

variable {s : Profiler} {command rest message : List Char}

theorem receiveMessage_eq (s : Profiler) (message : List Char) :
    s.receiveMessage "profiling_node" message =
      s.dispatch (upTo ',' message)
        (if ',' ∈ message then message.drop ((upTo ',' message).length + 1)
          else message) := if_pos rfl

theorem receiveMessage_comma (hcommand : ',' ∉ command) :
    s.receiveMessage "profiling_node" (command ++ ',' :: rest) =
      s.dispatch command rest := by
  have hupTo : upTo ',' (command ++ ',' :: rest) = command := by
    rw [upTo, List.takeWhile_append_of_pos fun c hc => by
      simpa using ne_of_mem_of_not_mem hc hcommand]
    simp
  have hdrop : (command ++ ',' :: rest).drop (command.length + 1) = rest := by
    rw [← List.drop_drop, List.drop_left]
    rfl
  rw [receiveMessage_eq, if_pos (by simp), hupTo, hdrop]

/-- Without a comma, the whole message is taken for both parts. -/
theorem receiveMessage_no_comma (hmessage : ',' ∉ message) :
    s.receiveMessage "profiling_node" message =
      s.dispatch message message := by
  rw [receiveMessage_eq, if_neg hmessage, upTo_eq_self_iff.mpr hmessage]

theorem dispatch_key (key : ControlKey) (command : List Char) :
    key.Asks command s (s.dispatch command key.text) := by
  cases key with
  | subsystem => rfl
  | v8json => rfl
  | threshold => exact ⟨_, thresholdOf_streamInt command, rfl⟩

theorem dispatch_other (hrest : ∀ key : ControlKey, rest ≠ key.text) :
    s.dispatch command rest = s := by
  unfold dispatch
  rw [if_neg (hrest .subsystem), if_neg (hrest .v8json),
    if_neg (hrest .threshold)]

end Profiler

/-- A command and a key, in one message. -/
def keyedMessage (command : List Char) (key : ControlKey) : List Char :=
  command ++ ',' :: key.text

/-- In every state, the plugin does what a message with a command and a key
asks, and does nothing on any other one. -/
def ParsedExactly (message : List Char) : Prop :=
  ∀ s : Profiler,
    (∀ command key, message = keyedMessage command key → ',' ∉ command →
      key.Asks command s (s.receiveMessage "profiling_node" message)) ∧
    ((∀ command key, message = keyedMessage command key → ',' ∈ command) →
      s.receiveMessage "profiling_node" message = s)

/-- A key acts on its own as if a command stood before it. -/
theorem not_parsedExactly_key (key : ControlKey) :
    ¬ParsedExactly key.text := by
  intro hparsed
  let s : Profiler :=
    { Profiler.registered false [] with
      jsonEnabled := true, watchdogThreshold := 1 }
  have hunchanged := (hparsed s).2 fun command key' hmessage => by
    have hcomma : ',' ∈ key.text := by
      rw [hmessage, keyedMessage]
      simp
    exact absurd hcomma key.comma_not_mem
  rw [Profiler.receiveMessage_no_comma key.comma_not_mem] at hunchanged
  cases key with
  | subsystem =>
      have hthreshold := congrArg Profiler.watchdogThreshold hunchanged
      cases hthreshold
  | v8json =>
      have hjson := congrArg Profiler.jsonEnabled hunchanged
      cases hjson
  | threshold =>
      have hthreshold := congrArg Profiler.watchdogThreshold hunchanged
      cases hthreshold

/-- Messages are parsed exactly if and only if they are none of the keys
themselves. -/
theorem parsedExactly_iff (message : List Char) :
    ParsedExactly message ↔ ∀ key : ControlKey, message ≠ key.text := by
  constructor
  · rintro hparsed key rfl
    exact not_parsedExactly_key key hparsed
  · intro hkey s
    constructor
    · rintro command key rfl hcommand
      rw [keyedMessage, Profiler.receiveMessage_comma hcommand]
      exact Profiler.dispatch_key key command
    · intro hnot
      by_cases hcomma : ',' ∈ message
      · obtain ⟨command, rest, rfl, hcommand⟩ :=
          List.eq_append_cons_of_mem hcomma
        rw [Profiler.receiveMessage_comma hcommand]
        apply Profiler.dispatch_other
        rintro key rfl
        exact hcommand (hnot command key rfl)
      · rw [Profiler.receiveMessage_no_comma hcomma]
        exact Profiler.dispatch_other hkey

namespace ProfilerMessagesWitness

/-- A message without a command switches the profiler off. -/
theorem key_alone_acts :
    ¬ParsedExactly "profiling_node_subsystem".toList :=
  not_parsedExactly_key .subsystem

end ProfilerMessagesWitness

end Appmetrics
