/-
Exactly-once delivery.  The appended messages are at every point those
delivered, those of the detached list and those of `messageList`, in this
order; and a message in `messageList` always has a wake-up on its way.
-/
import Appmetrics.MessageLists

namespace Appmetrics

open LinkedList StepMachine

namespace MessageQueue

variable {T : Type} [DecidableEq T]

/-! ## The history of the messages -/

/-- Every message that was sent is carried by one thread, or has been
appended or dropped once. -/
structure Accounted (q : MessageQueue T) : Prop where
  sent_lt : ∀ m ∈ q.sent, m.id < q.sent.length
  sent_id : (q.sent.map Message.id).Nodup
  carried : ∀ {t m}, (q.producers t).message? = some m →
    m ∈ q.sent ∧ m ∉ q.appended ∧ m ∉ q.dropped
  carried_inj : ∀ {t u m}, (q.producers t).message? = some m →
    (q.producers u).message? = some m → t = u
  appended_nodup : q.appended.Nodup
  appended_sent : ∀ m ∈ q.appended, m ∈ q.sent
  dropped_sent : ∀ m ∈ q.dropped, m ∈ q.sent ∧ m ∉ q.appended
  kept : ∀ m ∈ q.sent, m ∈ q.appended ∨ m ∈ q.dropped ∨
    ∃ t, (q.producers t).message? = some m

omit [DecidableEq T] in
theorem initial_accounted : (initial : MessageQueue T).Accounted := by
  constructor <;> simp [initial, Producer.message?]

theorem goto_message? (q : MessageQueue T) (t u : T) (point : Producer) :
    ((q.goto t point).producers u).message? =
      if u = t then point.message? else (q.producers u).message? := by
  simp only [goto, Function.update_apply]
  split <;> rfl

theorem goto_message?_of_eq {q : MessageQueue T} {t : T} {point : Producer}
    (hsame : point.message? = (q.producers t).message?) (u : T) :
    ((q.goto t point).producers u).message? = (q.producers u).message? := by
  rw [goto_message?]
  split
  · next hu => rw [hsame, hu]
  · rfl

section Accounted

variable {q q' : MessageQueue T} (haccounted : q.Accounted)

include haccounted

omit [DecidableEq T] in
/-- A step that moves no message. -/
theorem Accounted.keep
    (hsame : ∀ u, (q'.producers u).message? = (q.producers u).message?)
    (hsent : q'.sent = q.sent) (happended : q'.appended = q.appended)
    (hdropped : q'.dropped = q.dropped) : q'.Accounted := by
  constructor
  case sent_lt => rw [hsent]; exact haccounted.sent_lt
  case sent_id => rw [hsent]; exact haccounted.sent_id
  case carried =>
    intro t m hm
    rw [hsame] at hm
    rw [hsent, happended, hdropped]
    exact haccounted.carried hm
  case carried_inj =>
    intro t u m ht hu
    rw [hsame] at ht hu
    exact haccounted.carried_inj ht hu
  case appended_nodup => rw [happended]; exact haccounted.appended_nodup
  case appended_sent =>
    rw [happended, hsent]
    exact haccounted.appended_sent
  case dropped_sent =>
    rw [hdropped, hsent, happended]
    exact haccounted.dropped_sent
  case kept =>
    rw [hsent, happended, hdropped]
    simp only [hsame]
    exact haccounted.kept

/-- The call of `sendData` gives a fresh message to its thread. -/
theorem Accounted.call {t : T} {m : Message}
    (hnone : (q.producers t).message? = none)
    (hid : m.id = q.sent.length) :
    Accounted { q.goto t (.called m) with sent := q.sent ++ [m] } := by
  have hfresh : m ∉ q.sent := fun hmem =>
    Nat.ne_of_lt (haccounted.sent_lt m hmem) hid
  have hmessage (u : T) : ((q.goto t (.called m)).producers u).message? =
      if u = t then some m else (q.producers u).message? :=
    goto_message? q t u (.called m)
  constructor
  case sent_lt =>
    intro x hx
    rw [List.length_append, List.length_singleton]
    rcases List.mem_append.mp hx with hold | hnew
    · exact Nat.lt_succ_of_lt (haccounted.sent_lt x hold)
    · rw [List.mem_singleton.mp hnew, hid]
      exact Nat.lt_succ_self _
  case sent_id =>
    rw [List.map_append, List.nodup_append']
    refine ⟨haccounted.sent_id, List.nodup_singleton _, ?_⟩
    rw [List.map_singleton, List.disjoint_singleton]
    intro hmem
    obtain ⟨x, hx, hxid⟩ := List.mem_map.mp hmem
    exact Nat.ne_of_lt (haccounted.sent_lt x hx) (hxid.trans hid)
  case carried =>
    intro u x hx
    rw [hmessage] at hx
    split at hx
    · cases hx
      exact ⟨List.mem_append_right _ (List.mem_singleton_self m),
        fun h => hfresh (haccounted.appended_sent m h),
        fun h => hfresh (haccounted.dropped_sent m h).1⟩
    · obtain ⟨hsent, hrest⟩ := haccounted.carried hx
      exact ⟨List.mem_append_left _ hsent, hrest⟩
  case carried_inj =>
    intro u v x hu hv
    rw [hmessage] at hu hv
    split at hu
    · next hut =>
        cases hu
        split at hv
        · next hvt => exact hut.trans hvt.symm
        · exact absurd (haccounted.carried hv).1 hfresh
    · split at hv
      · cases hv
        exact absurd (haccounted.carried hu).1 hfresh
      · exact haccounted.carried_inj hu hv
  case appended_nodup => exact haccounted.appended_nodup
  case appended_sent =>
    intro x hx
    exact List.mem_append_left _ (haccounted.appended_sent x hx)
  case dropped_sent =>
    intro x hx
    obtain ⟨hsent, hrest⟩ := haccounted.dropped_sent x hx
    exact ⟨List.mem_append_left _ hsent, hrest⟩
  case kept =>
    intro x hx
    rcases List.mem_append.mp hx with hold | hnew
    · rcases haccounted.kept x hold with h | h | ⟨u, hu⟩
      · exact Or.inl h
      · exact Or.inr (Or.inl h)
      · refine Or.inr (Or.inr ⟨u, ?_⟩)
        rw [hmessage, if_neg]
        · exact hu
        · rintro rfl
          cases hnone.symm.trans hu
    · rw [List.mem_singleton.mp hnew]
      exact Or.inr (Or.inr ⟨t, by rw [hmessage, if_pos rfl]⟩)

/-- A thread gives its message up, to the list or to nowhere. -/
theorem Accounted.release {t : T} {m : Message} {appended dropped}
    (hm : (q.producers t).message? = some m)
    (hnone : (q'.producers t).message? = none)
    (hsame : ∀ u, u ≠ t →
      (q'.producers u).message? = (q.producers u).message?)
    (hsent : q'.sent = q.sent)
    (happended : q'.appended = q.appended ++ appended)
    (hdropped : q'.dropped = q.dropped ++ dropped)
    (hgone : appended = [m] ∧ dropped = [] ∨
      appended = [] ∧ dropped = [m]) : q'.Accounted := by
  obtain ⟨hmsent, hmappended, hmdropped⟩ := haccounted.carried hm
  have hmessage {u : T} {x : Message}
      (hx : (q'.producers u).message? = some x) :
      u ≠ t ∧ (q.producers u).message? = some x := by
    have hu : u ≠ t := by
      rintro rfl
      cases hnone.symm.trans hx
    exact ⟨hu, (hsame u hu).symm.trans hx⟩
  have hother {u : T} {x : Message} (hu : u ≠ t)
      (hx : (q.producers u).message? = some x) : x ≠ m := by
    rintro rfl
    exact hu (haccounted.carried_inj hx hm)
  constructor
  case sent_lt => rw [hsent]; exact haccounted.sent_lt
  case sent_id => rw [hsent]; exact haccounted.sent_id
  case carried =>
    intro u x hx
    obtain ⟨hu, hx⟩ := hmessage hx
    obtain ⟨h₁, h₂, h₃⟩ := haccounted.carried hx
    have hne := hother hu hx
    rw [hsent, happended, hdropped]
    rcases hgone with ⟨rfl, rfl⟩ | ⟨rfl, rfl⟩ <;> simp [h₁, h₂, h₃, hne]
  case carried_inj =>
    intro u v x hu hv
    exact haccounted.carried_inj (hmessage hu).2 (hmessage hv).2
  case appended_nodup =>
    rw [happended]
    rcases hgone with ⟨rfl, _⟩ | ⟨rfl, _⟩
    · rw [List.nodup_append']
      exact ⟨haccounted.appended_nodup, List.nodup_singleton m,
        List.disjoint_singleton.mpr hmappended⟩
    · rw [List.append_nil]
      exact haccounted.appended_nodup
  case appended_sent =>
    intro x hx
    rw [happended] at hx
    rw [hsent]
    rcases hgone with ⟨rfl, _⟩ | ⟨rfl, _⟩
    · rcases List.mem_append.mp hx with hold | hnew
      · exact haccounted.appended_sent x hold
      · rw [List.mem_singleton.mp hnew]
        exact hmsent
    · rw [List.append_nil] at hx
      exact haccounted.appended_sent x hx
  case dropped_sent =>
    intro x hx
    rw [hdropped] at hx
    rw [hsent, happended]
    rcases hgone with ⟨rfl, rfl⟩ | ⟨rfl, rfl⟩
    · rw [List.append_nil] at hx
      obtain ⟨h₁, h₂⟩ := haccounted.dropped_sent x hx
      have hne : x ≠ m := fun h => hmdropped (h ▸ hx)
      simp [h₁, h₂, hne]
    · rw [List.append_nil]
      rcases List.mem_append.mp hx with hold | hnew
      · exact haccounted.dropped_sent x hold
      · rw [List.mem_singleton.mp hnew]
        exact ⟨hmsent, hmappended⟩
  case kept =>
    intro x hx
    rw [hsent] at hx
    rw [happended, hdropped]
    rcases haccounted.kept x hx with h | h | ⟨u, hu⟩
    · exact Or.inl (List.mem_append_left _ h)
    · exact Or.inr (Or.inl (List.mem_append_left _ h))
    · by_cases hut : u = t
      · subst hut
        cases hm.symm.trans hu
        rcases hgone with ⟨rfl, _⟩ | ⟨_, rfl⟩ <;> simp
      · exact Or.inr (Or.inr ⟨u, (hsame u hut).trans hu⟩)

end Accounted

theorem StepCase.accounted {q q' : MessageQueue T} (hcase : StepCase q q')
    (haccounted : q.Accounted) : q'.Accounted := by
  have hgone {t u : T} {point : Producer} (hu : u ≠ t) :
      ((q.goto t point).producers u).message? = (q.producers u).message? := by
    rw [goto_message?, if_neg hu]
  have hleft {t : T} {point : Producer} (hpoint : point.message? = none) :
      ((q.goto t point).producers t).message? = none := by
    rw [goto_message?, if_pos rfl, hpoint]
  cases hcase with
  | call t m hpoint hid => exact haccounted.call (by rw [hpoint]; rfl) hid
  | copy t m hpoint =>
      exact haccounted.keep (goto_message?_of_eq (by rw [hpoint]; rfl)) rfl
        rfl rfl
  | lock t m p hpoint hfree =>
      exact haccounted.keep (goto_message?_of_eq (by rw [hpoint]; rfl)) rfl
        rfl rfl
  | walk t m p tail n hpoint hderef =>
      exact haccounted.keep (goto_message?_of_eq (by rw [hpoint]; rfl)) rfl
        rfl rfl
  | unlock t hpoint =>
      exact haccounted.keep (goto_message?_of_eq (by rw [hpoint]; rfl)) rfl
        rfl rfl
  | asyncSend t hpoint =>
      exact haccounted.keep (goto_message?_of_eq (by rw [hpoint]; rfl)) rfl
        rfl rfl
  | drop t m hpoint =>
      exact haccounted.release (by rw [hpoint]; rfl) (hleft rfl)
        (fun _ hu => hgone hu) rfl (List.append_nil _).symm rfl
        (Or.inr ⟨rfl, rfl⟩)
  | linkFirst t m p hpoint hnull =>
      exact haccounted.release (by rw [hpoint]; rfl) (hleft rfl)
        (fun _ hu => hgone hu) rfl rfl (List.append_nil _).symm
        (Or.inl ⟨rfl, rfl⟩)
  | linkNext t m p n d hpoint hnode hnull =>
      exact haccounted.release (by rw [hpoint]; rfl) (hleft rfl)
        (fun _ hu => hgone hu) rfl rfl (List.append_nil _).symm
        (Or.inl ⟨rfl, rfl⟩)
  | empty => exact haccounted
  | wake hpoint hpending =>
      exact haccounted.keep (fun _ => rfl) rfl rfl rfl
  | lockList hpoint hfree =>
      exact haccounted.keep (fun _ => rfl) rfl rfl rfl
  | detach hpoint => exact haccounted.keep (fun _ => rfl) rfl rfl rfl
  | unlockList current hpoint =>
      exact haccounted.keep (fun _ => rfl) rfl rfl rfl
  | deliver n d hpoint hnode =>
      exact haccounted.keep (fun _ => rfl) rfl rfl rfl
  | finish hpoint => exact haccounted.keep (fun _ => rfl) rfl rfl rfl

/-! ## The wake-ups -/

/-- Somebody will see to it that the list is detached: the flag is set, a
thread is between its append and `uv_async_send`, or a callback has started
that has not detached the list yet. -/
def WakeUp (q : MessageQueue T) : Prop :=
  q.pending = true ∨ (∃ t, (q.producers t).signals = true) ∨
    q.consumer.detaches = true

theorem goto_signals {q : MessageQueue T} {t u : T} {point : Producer}
    (hquiet : (q.producers t).signals = false)
    (hu : (q.producers u).signals = true) :
    ((q.goto t point).producers u).signals = true := by
  have hne : u ≠ t := by
    rintro rfl
    rw [hquiet] at hu
    cases hu
  simp only [goto, Function.update_of_ne hne]
  exact hu

/-- A thread that has nothing to signal takes no wake-up away. -/
theorem WakeUp.goto {q : MessageQueue T} {t : T} {point : Producer}
    (hquiet : (q.producers t).signals = false) (hwake : q.WakeUp) :
    (q.goto t point).WakeUp := by
  rcases hwake with h | ⟨u, hu⟩ | h
  · exact Or.inl h
  · exact Or.inr (Or.inl ⟨u, goto_signals hquiet hu⟩)
  · exact Or.inr (Or.inr h)

theorem wakeUp_of_signals (q : MessageQueue T) (t : T) {point : Producer}
    (hsignals : point.signals = true) : (q.goto t point).WakeUp :=
  Or.inr (Or.inl ⟨t, by simpa [MessageQueue.goto] using hsignals⟩)

theorem StepCase.wakeUp {q q' : MessageQueue T} (hcase : StepCase q q')
    (hwake : q.messageList ≠ none → q.WakeUp) :
    q'.messageList ≠ none → q'.WakeUp := by
  intro hlist
  cases hcase with
  | empty => exact hwake hlist
  | call t m hpoint hid => exact (hwake hlist).goto (by rw [hpoint]; rfl)
  | copy t m hpoint => exact (hwake hlist).goto (by rw [hpoint]; rfl)
  | drop t m hpoint => exact (hwake hlist).goto (by rw [hpoint]; rfl)
  | lock t m p hpoint hfree => exact (hwake hlist).goto (by rw [hpoint]; rfl)
  | walk t m p tail n hpoint hderef =>
      exact (hwake hlist).goto (by rw [hpoint]; rfl)
  | linkFirst t m p hpoint hnull => exact wakeUp_of_signals q t rfl
  | linkNext t m p n d hpoint hnode hnull => exact wakeUp_of_signals q t rfl
  | unlock t hpoint => exact wakeUp_of_signals q t rfl
  | asyncSend t hpoint => exact Or.inl rfl
  | wake hpoint hpending => exact Or.inr (Or.inr rfl)
  | lockList hpoint hfree => exact Or.inr (Or.inr rfl)
  | detach hpoint => exact absurd rfl hlist
  | unlockList current hpoint =>
      rcases hwake hlist with h | h | h
      · exact Or.inl h
      · exact Or.inr (Or.inl h)
      · rw [hpoint] at h
        cases h
  | deliver n d hpoint hnode =>
      rcases hwake hlist with h | h | h
      · exact Or.inl h
      · exact Or.inr (Or.inl h)
      · rw [hpoint] at h
        cases h
  | finish hpoint =>
      rcases hwake hlist with h | h | h
      · exact Or.inl h
      · exact Or.inr (Or.inl h)
      · rw [hpoint] at h
        cases h

/-- What every interleaving keeps. -/
structure Consistent (q : MessageQueue T) : Prop where
  exclusive : q.Exclusive
  accounted : q.Accounted
  layout : ∃ current listed, q.Layout current listed
  wakeUp : q.messageList ≠ none → q.WakeUp

theorem consistent : (messageMachine T).Inductive (fun _ _ => True)
    Consistent where
  init := ⟨initial_exclusive, initial_accounted, ⟨[], [], initial_layout⟩,
    fun h => absurd rfl h⟩
  step := by
    intro q e q' hconsistent _ hstep
    have hcase := step_case hstep
    obtain ⟨current, listed, hlayout⟩ := hconsistent.layout
    exact
      { exclusive := hcase.exclusive hconsistent.exclusive
        accounted := hcase.accounted hconsistent.accounted
        layout := hcase.layout hconsistent.exclusive hlayout
        wakeUp := hcase.wakeUp hconsistent.wakeUp }

/-- No thread ever reads a freed node: the walk to the end of the list and
the delivery can always go on. -/
theorem Consistent.no_fault {q : MessageQueue T} (hq : q.Consistent) :
    (∀ t m p tail, q.producers t = .walking m p tail →
      ∃ q', q.step (.walk t) = some q') ∧
    ∀ n, q.consumer = .delivering (some n) →
      ∃ q', q.step .deliver = some q' := by
  obtain ⟨current, listed, hlayout⟩ := hq.layout
  constructor
  · intro t m p tail hpoint
    have hderef : ∃ target, q.deref tail = some target := by
      cases tail with
      | messageList => exact ⟨_, rfl⟩
      | next n =>
          obtain ⟨d, hnode⟩ := hlayout.list.live (hlayout.tail hpoint)
          exact ⟨_, by rw [deref, hnode]; rfl⟩
    obtain ⟨target, hderef⟩ := hderef
    simp only [step, hpoint, advance, hderef, Option.bind_some]
    cases target with
    | some n => exact ⟨_, rfl⟩
    | none =>
        cases tail with
        | messageList => exact ⟨_, rfl⟩
        | next n =>
            obtain ⟨d, hnode⟩ := hlayout.list.live (hlayout.tail hpoint)
            simp only [store, hnode, Option.map_some]
            exact ⟨_, rfl⟩
  · intro n hpoint
    have hdetached := hlayout.detached
    rw [hpoint] at hdetached
    obtain ⟨d, hnode⟩ := hdetached.live (hdetached.mem_of_start rfl)
    simp only [step, hpoint, hnode, Option.map_some]
    exact ⟨_, rfl⟩

omit [DecidableEq T] in
theorem messages_eq_nil {q : MessageQueue T} {start : Option Nat}
    {nodes : List Nat} (hchain : Chain MessageData.next q.heap start nodes) :
    messages q.heap nodes = [] ↔ start = none := by
  rw [hchain.nil_iff]
  cases nodes with
  | nil => simp [messages, contents]
  | cons n ns =>
      obtain ⟨_, d, hnode, _⟩ := hchain
      simp [messages, contents, hnode]

end MessageQueue

/-- Over every interleaving of any threads: the appended messages are those
delivered, those detached and those waiting, in the order of the appends and
each once; every message sent with a size other than zero is on its way to
the list or has been appended, unless its copy could not be allocated; a
message waits in the list only with a wake-up on its way; and when nothing is
on its way, everything appended has been delivered. -/
theorem message_delivery {T : Type} [DecidableEq T]
    {steps : List (QueueStep T)} {q : MessageQueue T}
    (hrun : (messageMachine T).run MessageQueue.initial steps = some q) :
    (∃ detached waiting,
      q.appended = q.delivered ++ detached ++ waiting ∧
      (detached = [] ↔ q.consumer.currentMessage = none) ∧
      (waiting = [] ↔ q.messageList = none)) ∧
    q.appended.Nodup ∧ q.delivered.Nodup ∧
    (∀ m ∈ q.appended, m ∈ q.sent) ∧
    (∀ m ∈ q.sent, m ∈ q.appended ∨ m ∈ q.dropped ∨
      ∃ t, (q.producers t).message? = some m) ∧
    (q.messageList ≠ none → q.WakeUp) ∧
    (¬ q.WakeUp → q.consumer = .idle → q.delivered = q.appended) := by
  have hq := MessageQueue.consistent.run (guarded_true _ _) hrun
  obtain ⟨current, listed, hlayout⟩ := hq.layout
  have hdetached := MessageQueue.messages_eq_nil hlayout.detached
  have hwaiting := MessageQueue.messages_eq_nil hlayout.list
  have hnodup := hq.accounted.appended_nodup
  refine ⟨⟨_, _, hlayout.appended, hdetached, hwaiting⟩, hnodup, ?_,
    hq.accounted.appended_sent, hq.accounted.kept, hq.wakeUp, ?_⟩
  · rw [hlayout.appended, List.append_assoc] at hnodup
    exact hnodup.of_append_left
  · intro hquiet hidle
    have hlist : q.messageList = none := by
      by_contra hne
      exact hquiet (hq.wakeUp hne)
    have hcurrent : q.consumer.currentMessage = none := by
      rw [hidle]
      rfl
    rw [hlayout.appended, hdetached.mpr hcurrent, hwaiting.mpr hlist]
    simp

namespace MessageDeliveryWitness

/-- Two threads whose messages are appended one after the other; the two
signals come to one wake-up, in which both messages are delivered. -/
def coalesced : List (QueueStep Bool) :=
  [.sendData true "common_cpu" [49, 0], .sendData false "gc_node" [50, 0],
    .copy false true, .copy true true, .lock true, .walk true, .unlock true,
    .lock false, .walk false, .walk false, .unlock false, .asyncSend true,
    .asyncSend false, .wake, .lockList, .detach, .unlockList, .deliver,
    .deliver, .finish]

/-- When the callback has just started, the flag is already clear and no
thread has anything left to signal, but the messages are still in the list;
and a message whose copy cannot be allocated is not delivered at all. -/
theorem coalesced_between_wake_and_detach :
    (∃ q ∈ (messageMachine Bool).run MessageQueue.initial
        (coalesced.take 14),
      q.messageList ≠ none ∧ q.pending = false ∧
        ∀ t, (q.producers t).signals = false) ∧
    ∃ q ∈ (messageMachine Bool).run MessageQueue.initial
        [.sendData true "common_cpu" [49, 0], .copy true false],
      q.sent ≠ [] ∧ q.appended = [] ∧ (q.producers true).message? = none := by
  decide +kernel

theorem coalesced_run :
    ((messageMachine Bool).run MessageQueue.initial coalesced).isSome := by
  decide +kernel

theorem message_delivery_coalesced :
    ∃ q, (messageMachine Bool).run MessageQueue.initial coalesced = some q ∧
      q.appended.Nodup ∧ q.delivered.Nodup ∧
      (q.messageList ≠ none → q.WakeUp) := by
  obtain ⟨q, hrun⟩ := Option.isSome_iff_exists.mp coalesced_run
  obtain ⟨_, happended, hdelivered, _, _, hwake, _⟩ := message_delivery hrun
  exact ⟨q, hrun, happended, hdelivered, hwake⟩

end MessageDeliveryWitness

end Appmetrics
