/-
The order of delivery.  Messages are delivered in the order of the appends,
which respects the order of the calls as far as there is one: a call that has
returned before another begins comes first, so in particular the messages of
one thread stay in order.  To its listener the queue is a list that messages
are appended to and taken from one at a time.
-/
import Appmetrics.MessageDelivery
import Mathlib.Data.List.Induction

namespace Appmetrics

open StepMachine

/-- The thread of a call that sends something. -/
def QueueStep.sender? {T : Type} : QueueStep T → Option T
  | sendData t _ data => if data.length = 0 then none else some t
  | _ => none

/-- The threads of the messages, by their ids. -/
def QueueStep.senders {T : Type} (steps : List (QueueStep T)) : List T :=
  steps.filterMap QueueStep.sender?

namespace MessageQueue

variable {T : Type} [DecidableEq T]

/-! ## The calls -/

theorem step_sender {q q' : MessageQueue T} {e : QueueStep T} {t : T}
    (hstep : q.step e = some q') (hsender : e.sender? = some t) :
    q.producers t = .idle ∧ ∃ m : Message, m.id = q.sent.length ∧
      q' = { q.goto t (.called m) with sent := q.sent ++ [m] } := by
  cases e with
  | sendData u source data =>
      obtain ⟨hdata, heq⟩ := Option.ite_none_left_eq_some.mp hsender
      cases heq
      simp only [step] at hstep
      split at hstep
      · next hpoint =>
          rw [if_neg hdata] at hstep
          exact ⟨hpoint, _, rfl, (Option.some.inj hstep).symm⟩
      · cases hstep
  | _ => cases hsender

theorem advance_frame {q q' : MessageQueue T} {t : T} {m : Message}
    {p : Nat} {tail : Slot} (hadvance : q.advance t m p tail = some q') :
    q'.sent = q.sent ∧ q'.delivered = q.delivered := by
  rw [advance, Option.bind_eq_some_iff] at hadvance
  obtain ⟨target, _, hadvance⟩ := hadvance
  cases target with
  | some n =>
      cases hadvance
      exact ⟨rfl, rfl⟩
  | none =>
      obtain ⟨r, hstore, rfl⟩ := Option.map_eq_some_iff.mp hadvance
      cases tail with
      | messageList =>
          cases hstore
          exact ⟨rfl, rfl⟩
      | next n =>
          obtain ⟨d, _, rfl⟩ := Option.map_eq_some_iff.mp hstore
          exact ⟨rfl, rfl⟩

/-- Only a call sends, and only the delivery of a node delivers. -/
theorem step_frame {q q' : MessageQueue T} {e : QueueStep T}
    (hstep : q.step e = some q') :
    (e.sender? = none → q'.sent = q.sent) ∧
      (e ≠ .deliver → q'.delivered = q.delivered) := by
  cases e with
  | sendData u source data =>
      simp only [step] at hstep
      split at hstep
      · by_cases hdata : data.length = 0
        · rw [if_pos hdata] at hstep
          cases hstep
          exact ⟨fun _ => rfl, fun _ => rfl⟩
        · rw [if_neg hdata] at hstep
          cases hstep
          refine ⟨fun hnone => ?_, fun _ => rfl⟩
          rw [QueueStep.sender?, if_neg hdata] at hnone
          cases hnone
      · cases hstep
  | copy t allocated =>
      cases allocated <;> simp only [step] at hstep <;> split at hstep <;>
        cases hstep
      all_goals exact ⟨fun _ => rfl, fun _ => rfl⟩
  | walk t =>
      simp only [step] at hstep
      split at hstep
      · have hframe := advance_frame hstep
        exact ⟨fun _ => hframe.1, fun _ => hframe.2⟩
      · cases hstep
  | deliver =>
      simp only [step] at hstep
      split at hstep
      · obtain ⟨d, _, rfl⟩ := Option.map_eq_some_iff.mp hstep
        exact ⟨fun _ => rfl, fun hne => absurd rfl hne⟩
      · cases hstep
  | _ =>
      simp only [step] at hstep
      split at hstep <;> cases hstep
      exact ⟨fun _ => rfl, fun _ => rfl⟩

/-- Sending and delivering only ever add to the histories. -/
structure Grows (q q' : MessageQueue T) : Prop where
  sent : q.sent <+: q'.sent
  appended : q.appended <+: q'.appended
  delivered : q.delivered <+: q'.delivered

theorem StepCase.grows {q q' : MessageQueue T} (hcase : StepCase q q') :
    q.Grows q' := by
  cases hcase <;> constructor <;>
    first
    | exact List.prefix_refl _
    | exact List.prefix_append _ _

theorem run_grows {q q' : MessageQueue T} {steps : List (QueueStep T)}
    (hrun : (messageMachine T).run q steps = some q') : q.Grows q' := by
  induction steps generalizing q with
  | nil =>
      cases hrun
      exact ⟨List.prefix_refl _, List.prefix_refl _, List.prefix_refl _⟩
  | cons e steps ih =>
      obtain ⟨r, hstep, hrest⟩ := run_cons_eq_some.mp hrun
      have hfirst := (step_case hstep).grows
      have hlater := ih hrest
      exact ⟨hfirst.sent.trans hlater.sent,
        hfirst.appended.trans hlater.appended,
        hfirst.delivered.trans hlater.delivered⟩

/-! ## The messages of one thread -/

/-- Ids count the calls; a thread carries the last message it has sent; and
the messages of one thread have been appended in their order. -/
structure Fifo (senders : List T) (q : MessageQueue T) : Prop where
  count : senders.length = q.sent.length
  ids : q.sent.map Message.id = List.range q.sent.length
  carried : ∀ {t m}, (q.producers t).message? = some m →
    senders[m.id]? = some t ∧ ∀ j, m.id < j → senders[j]? ≠ some t
  order : q.appended.Pairwise fun m₁ m₂ =>
    senders[m₁.id]? = senders[m₂.id]? → m₁.id < m₂.id

omit [DecidableEq T] in
theorem initial_fifo : Fifo [] (initial : MessageQueue T) where
  count := rfl
  ids := rfl
  carried h := nomatch h
  order := List.Pairwise.nil

section Fifo

variable {senders : List T} {q q' : MessageQueue T}
  (hfifo : q.Fifo senders) (haccounted : q.Accounted)

include hfifo

omit [DecidableEq T] in
/-- A step that begins no call and appends nothing. -/
theorem Fifo.keep (hsent : q'.sent = q.sent)
    (happended : q'.appended = q.appended)
    (hless : ∀ {u m}, (q'.producers u).message? = some m →
      (q.producers u).message? = some m) : q'.Fifo senders where
  count := hsent ▸ hfifo.count
  ids := by rw [hsent]; exact hfifo.ids
  carried hm := hfifo.carried (hless hm)
  order := happended ▸ hfifo.order

include haccounted

theorem Fifo.call {t : T} {m : Message}
    (hid : m.id = q.sent.length) :
    Fifo (senders ++ [t])
      { q.goto t (.called m) with sent := q.sent ++ [m] } := by
  have hlength : m.id = senders.length := hid.trans hfifo.count.symm
  have hold {x : Message} (hx : x ∈ q.sent) :
      (senders ++ [t])[x.id]? = senders[x.id]? := by
    apply List.getElem?_append_left
    rw [hfifo.count]
    exact haccounted.sent_lt x hx
  constructor
  case count => simp [hfifo.count]
  case ids => simp [hfifo.ids, hid, List.range_succ]
  case carried =>
    intro u x hx
    have hmessage := goto_message? q t u (.called m)
    rw [hmessage] at hx
    split at hx
    · next hu =>
        cases hx
        rw [hu, hlength]
        refine ⟨by simp, fun j hj => ?_⟩
        rw [List.getElem?_eq_none (by simp; omega)]
        intro h
        cases h
    · next hu =>
        obtain ⟨hsender, hlast⟩ := hfifo.carried hx
        rw [hold (haccounted.carried hx).1]
        refine ⟨hsender, fun j hj => ?_⟩
        rcases Nat.lt_trichotomy j senders.length with hlt | heq | hgt
        · rw [List.getElem?_append_left hlt]
          exact hlast j hj
        · rw [heq]
          simpa using Ne.symm hu
        · rw [List.getElem?_eq_none (by simp; omega)]
          intro h
          cases h
  case order =>
    apply hfifo.order.imp_of_mem
    intro x y hx hy himp
    rw [hold (haccounted.appended_sent x hx),
      hold (haccounted.appended_sent y hy)]
    exact himp

omit [DecidableEq T] in
/-- The message that a thread appends is the last of its own. -/
theorem Fifo.append {t : T} {m : Message}
    (hm : (q.producers t).message? = some m) (hsent : q'.sent = q.sent)
    (happended : q'.appended = q.appended ++ [m])
    (hless : ∀ {u x}, (q'.producers u).message? = some x →
      (q.producers u).message? = some x) : q'.Fifo senders where
  count := hsent ▸ hfifo.count
  ids := by rw [hsent]; exact hfifo.ids
  carried hx := hfifo.carried (hless hx)
  order := by
    rw [happended, List.pairwise_append]
    refine ⟨hfifo.order, List.pairwise_singleton _ _, ?_⟩
    intro x hx y hy hsame
    rw [List.mem_singleton.mp hy] at hsame ⊢
    obtain ⟨hsender, hlast⟩ := hfifo.carried hm
    obtain ⟨hmsent, hnew, _⟩ := haccounted.carried hm
    rcases Nat.lt_trichotomy x.id m.id with hlt | heq | hgt
    · exact hlt
    · have hxm := List.inj_on_of_nodup_map haccounted.sent_id
        (haccounted.appended_sent x hx) hmsent heq
      exact absurd (hxm ▸ hx) hnew
    · exact absurd (hsame.trans hsender) (hlast x.id hgt)

end Fifo

theorem goto_less {q : MessageQueue T} {t : T} {point : Producer}
    (hpoint : ∀ m, point.message? = some m →
      (q.producers t).message? = some m) {u : T} {m : Message}
    (hm : ((q.goto t point).producers u).message? = some m) :
    (q.producers u).message? = some m := by
  rw [goto_message?] at hm
  split at hm
  · next hu => exact hu ▸ hpoint m hm
  · exact hm

theorem Fifo.step {senders : List T} {q q' : MessageQueue T}
    {e : QueueStep T} (hfifo : q.Fifo senders) (haccounted : q.Accounted)
    (hstep : q.step e = some q') :
    q'.Fifo (senders ++ e.sender?.toList) := by
  cases hsender : e.sender? with
  | some t =>
      obtain ⟨_, m, hid, rfl⟩ := step_sender hstep hsender
      exact hfifo.call haccounted hid
  | none =>
      have hsent := (step_frame hstep).1 hsender
      rw [Option.toList_none, List.append_nil]
      have hmove {t : T} {point : Producer}
          (hpoint : point.message? = (q.producers t).message?) {u : T}
          {m : Message}
          (hm : ((q.goto t point).producers u).message? = some m) :
          (q.producers u).message? = some m :=
        goto_less (fun m h => hpoint.symm.trans h) hm
      have hleave {t : T} {point : Producer} (hpoint : point.message? = none)
          {u : T} {m : Message}
          (hm : ((q.goto t point).producers u).message? = some m) :
          (q.producers u).message? = some m :=
        goto_less (fun m h => nomatch hpoint.symm.trans h) hm
      cases step_case hstep with
      | call t m hpoint hid =>
          have hlength := congrArg List.length hsent
          simp at hlength
      | drop t m hpoint => exact hfifo.keep hsent rfl (hleave rfl)
      | linkFirst t m p hpoint hnull =>
          exact hfifo.append haccounted (by rw [hpoint]; rfl) hsent rfl
            (hleave rfl)
      | linkNext t m p n d hpoint hnode hnull =>
          exact hfifo.append haccounted (by rw [hpoint]; rfl) hsent rfl
            (hleave rfl)
      | copy t m hpoint =>
          exact hfifo.keep hsent rfl (hmove (by rw [hpoint]; rfl))
      | lock t m p hpoint hfree =>
          exact hfifo.keep hsent rfl (hmove (by rw [hpoint]; rfl))
      | walk t m p tail n hpoint hderef =>
          exact hfifo.keep hsent rfl (hmove (by rw [hpoint]; rfl))
      | unlock t hpoint =>
          exact hfifo.keep hsent rfl (hmove (by rw [hpoint]; rfl))
      | asyncSend t hpoint =>
          exact hfifo.keep hsent rfl (hmove (by rw [hpoint]; rfl))
      | _ => exact hfifo.keep hsent rfl id

theorem run_fifo {steps : List (QueueStep T)} {q : MessageQueue T}
    (hrun : (messageMachine T).run initial steps = some q) :
    q.Fifo (QueueStep.senders steps) := by
  induction steps using List.reverseRecOn generalizing q with
  | nil =>
      cases hrun
      exact initial_fifo
  | append_singleton steps e ih =>
      obtain ⟨p, hbefore, hstep⟩ := run_concat_eq_some.mp hrun
      have hp := consistent.run (guarded_true _ _) hbefore
      have hfifo := (ih hbefore).step hp.accounted hstep
      have hsenders : QueueStep.senders (steps ++ [e]) =
          QueueStep.senders steps ++ e.sender?.toList := by
        rw [QueueStep.senders, List.filterMap_append, QueueStep.senders]
        cases hsender : e.sender? <;> simp [hsender]
      rw [hsenders]
      exact hfifo

omit [DecidableEq T] in
/-- What has been delivered is the start of what has been appended. -/
theorem Consistent.delivered_prefix {q : MessageQueue T}
    (hq : q.Consistent) : q.delivered <+: q.appended := by
  obtain ⟨current, listed, hlayout⟩ := hq.layout
  rw [hlayout.appended, List.append_assoc]
  exact List.prefix_append _ _

omit [DecidableEq T] in
/-- Without a wake-up on its way nothing is left to deliver. -/
theorem Consistent.all_delivered {q : MessageQueue T} (hq : q.Consistent)
    (hquiet : ¬ q.WakeUp) (hidle : q.consumer = .idle) :
    q.delivered = q.appended := by
  obtain ⟨current, listed, hlayout⟩ := hq.layout
  have hlist : q.messageList = none := by
    by_contra hne
    exact hquiet (hq.wakeUp hne)
  have hcurrent : q.consumer.currentMessage = none := by
    rw [hidle]
    rfl
  rw [hlayout.appended, (messages_eq_nil hlayout.detached).mpr hcurrent,
    (messages_eq_nil hlayout.list).mpr hlist, List.append_nil,
    List.append_nil]

end MessageQueue

/-- Over every interleaving: the messages of one thread are delivered in the
order of its calls; and of two calls, one of which returned before the other
began, the earlier one's message is delivered first. -/
theorem message_order {T : Type} [DecidableEq T]
    {steps : List (QueueStep T)} {q : MessageQueue T}
    (hrun : (messageMachine T).run MessageQueue.initial steps = some q) :
    q.sent.map Message.id = List.range (QueueStep.senders steps).length ∧
    (q.delivered.Pairwise fun m₁ m₂ =>
      (QueueStep.senders steps)[m₁.id]? = (QueueStep.senders steps)[m₂.id]? →
        m₁.id < m₂.id) ∧
    ∀ before after p, steps = before ++ after →
      (messageMachine T).run MessageQueue.initial before = some p →
      ∀ m₁ ∈ p.sent, m₁ ∉ p.dropped →
        (∀ t, (p.producers t).message? ≠ some m₁) →
      ∀ m₂ ∈ q.delivered, m₂ ∉ p.sent →
        m₁ ∈ q.delivered ∧
          q.delivered.idxOf m₁ < q.delivered.idxOf m₂ := by
  have hq := MessageQueue.consistent.run (guarded_true _ _) hrun
  have hfifo := MessageQueue.run_fifo hrun
  refine ⟨hfifo.count ▸ hfifo.ids,
    hfifo.order.sublist hq.delivered_prefix.sublist, ?_⟩
  rintro before after p rfl hbefore m₁ hsent hkept hreturned m₂ hdelivered
    hlater
  have hp := MessageQueue.consistent.run (guarded_true _ _) hbefore
  obtain ⟨p', hp', hafter⟩ := Option.bind_eq_some_iff.mp
    ((run_append _ _ _).symm.trans hrun)
  cases hbefore.symm.trans hp'
  have hgrows := MessageQueue.run_grows hafter
  have hfirst : m₁ ∈ p.appended := by
    rcases hp.accounted.kept m₁ hsent with h | h | ⟨t, ht⟩
    · exact h
    · exact absurd h hkept
    · exact absurd ht (hreturned t)
  have hsecond : m₂ ∉ p.appended := fun h =>
    hlater (hp.accounted.appended_sent m₂ h)
  -- the delivered messages reach beyond those appended in the first part
  have hreach : p.appended <+: q.delivered := by
    rcases List.prefix_or_prefix_of_prefix hgrows.appended
      hq.delivered_prefix with h | h
    · exact h
    · exact absurd (h.subset hdelivered) hsecond
  obtain ⟨rest, hrest⟩ := hreach
  rw [← hrest, List.idxOf_append_of_mem hfirst,
    List.idxOf_append_of_notMem hsecond]
  exact ⟨List.mem_append_left _ hfirst,
    Nat.lt_add_right _ (List.idxOf_lt_length_of_mem hfirst)⟩

/-! ## What the listener sees -/

section Listener

variable {A : Type}

/-- The queue with the state of its JavaScript listener. -/
structure ListenedQueue (T A : Type) where
  queue : MessageQueue T
  listener : A

/-- The message of the node that `emitMessage` is about to deliver. -/
def MessageQueue.currentMessage {T : Type} (q : MessageQueue T) :
    Option Message :=
  match q.consumer with
  | .delivering (some n) => (q.heap n).map MessageData.message
  | _ => none

/-- `listener->callback->Call(..)` is part of the delivery of a node. -/
def ListenedQueue.hear {T : Type} (receive : A → Message → A)
    (s : ListenedQueue T A) : QueueStep T → A
  | .deliver =>
      match s.queue.currentMessage with
      | some m => receive s.listener m
      | none => s.listener
  | _ => s.listener

def ListenedQueue.step {T : Type} [DecidableEq T] (receive : A → Message → A)
    (s : ListenedQueue T A) (e : QueueStep T) :
    Option (ListenedQueue T A) :=
  (s.queue.step e).map fun q => ⟨q, s.hear receive e⟩

def listenedMachine (T : Type) [DecidableEq T] (receive : A → Message → A)
    (listener : A) : Machine (ListenedQueue T A) (QueueStep T) where
  init := ⟨MessageQueue.initial, listener⟩
  step := ListenedQueue.step receive

/-- What the queue is for: one list of messages, without threads; `arrived`
is history. -/
structure Inbox (A : Type) where
  arrived : List Message
  waiting : List Message
  listener : A

inductive InboxStep
  | append (m : Message)
  | deliver
deriving Repr, DecidableEq

def Inbox.step (receive : A → Message → A) (s : Inbox A) :
    InboxStep → Option (Inbox A)
  | .append m =>
      some { s with
        arrived := s.arrived ++ [m], waiting := s.waiting ++ [m] }
  | .deliver =>
      match s.waiting with
      | [] => none
      | m :: waiting =>
          some { s with waiting := waiting, listener := receive s.listener m }

def inboxMachine (receive : A → Message → A) (listener : A) :
    Machine (Inbox A) InboxStep where
  init := ⟨[], [], listener⟩
  step := Inbox.step receive

theorem Inbox.run_append (receive : A → Message → A) (listener : A)
    (t : Inbox A) (messages : List Message) :
    (inboxMachine receive listener).run t (messages.map .append) =
      some { t with
        arrived := t.arrived ++ messages
        waiting := t.waiting ++ messages } := by
  induction messages generalizing t with
  | nil => simp
  | cons m messages ih =>
      rw [List.map_cons, run_cons]
      simp only [inboxMachine, Inbox.step, Option.bind_some]
      exact (ih _).trans (by simp)

variable {T : Type} [DecidableEq T]

theorem MessageQueue.deliver_case {q q' : MessageQueue T}
    (hstep : q.step .deliver = some q') :
    ∃ m, q.currentMessage = some m ∧
      q'.delivered = q.delivered ++ [m] ∧ q'.appended = q.appended := by
  simp only [step] at hstep
  split at hstep
  · next n hpoint =>
      obtain ⟨d, hnode, rfl⟩ := Option.map_eq_some_iff.mp hstep
      exact ⟨d.message, by simp [currentMessage, hpoint, hnode], rfl, rfl⟩
  · cases hstep

/-- The messages of an inbox are those between the last append and the last
delivery. -/
structure Represents (s : ListenedQueue T A) (t : Inbox A) : Prop where
  consistent : s.queue.Consistent
  arrived : t.arrived = s.queue.appended
  waiting : s.queue.appended = s.queue.delivered ++ t.waiting
  listener : t.listener = s.listener

/-- Linking a node is the append, delivering one the delivery; the listener
does not notice any other step. -/
theorem refines (receive : A → Message → A) (listener : A) :
    (listenedMachine T receive listener).Refines
      (inboxMachine receive listener) (fun _ _ => True) Represents where
  step := by
    intro s t e s' hrep _ hstep
    obtain ⟨q', hq', rfl⟩ := Option.map_eq_some_iff.mp hstep
    have hconsistent := MessageQueue.consistent.step hrep.consistent trivial
      hq'
    by_cases he : e = .deliver
    · subst he
      obtain ⟨m, hm, hdelivered, happended⟩ := MessageQueue.deliver_case hq'
      obtain ⟨rest, hrest⟩ := hconsistent.delivered_prefix
      have hwaiting : t.waiting = m :: rest := by
        rw [happended, hrep.waiting, hdelivered, List.append_assoc] at hrest
        exact (List.append_cancel_left hrest).symm
      refine ⟨[.deliver], ⟨t.arrived, rest, receive t.listener m⟩, ?_, ?_⟩
      · simp [run_cons, inboxMachine, Inbox.step, hwaiting]
      · exact
          { consistent := hconsistent
            arrived := hrep.arrived.trans happended.symm
            waiting := hrest.symm
            listener := by simp [ListenedQueue.hear, hm, hrep.listener] }
    · have hdelivered := (MessageQueue.step_frame hq').2 he
      obtain ⟨extra, hextra⟩ := (MessageQueue.step_case hq').grows.appended
      refine ⟨extra.map .append, _, Inbox.run_append receive listener t extra,
        ?_⟩
      exact
        { consistent := hconsistent
          arrived := by rw [hrep.arrived, hextra]
          waiting := by
            rw [← hextra, hrep.waiting, hdelivered, List.append_assoc]
          listener := by
            rw [hrep.listener]
            cases e with
            | deliver => exact absurd rfl he
            | _ => rfl }

theorem listener_eq (receive : A → Message → A) (listener : A) :
    (listenedMachine T receive listener).Inductive (fun _ _ => True)
      fun s => s.listener = s.queue.delivered.foldl receive listener where
  init := rfl
  step := by
    intro s e s' hs _ hstep
    obtain ⟨q', hq', rfl⟩ := Option.map_eq_some_iff.mp hstep
    by_cases he : e = .deliver
    · subst he
      obtain ⟨m, hm, hdelivered, _⟩ := MessageQueue.deliver_case hq'
      simp [ListenedQueue.hear, hm, hdelivered, hs]
    · rw [(MessageQueue.step_frame hq').2 he, ← hs]
      cases e with
      | deliver => exact absurd rfl he
      | _ => rfl

/-- The listener does not hold up the queue. -/
theorem run_queue {receive : A → Message → A} {listener : A}
    {s s' : ListenedQueue T A} {steps : List (QueueStep T)}
    (hrun : (listenedMachine T receive listener).run s steps = some s') :
    (messageMachine T).run s.queue steps = some s'.queue := by
  induction steps generalizing s with
  | nil =>
      cases hrun
      rfl
  | cons e steps ih =>
      obtain ⟨r, hstep, hrest⟩ := run_cons_eq_some.mp hrun
      obtain ⟨q, hq, rfl⟩ := Option.map_eq_some_iff.mp hstep
      exact run_cons_eq_some.mpr ⟨q, hq, ih hrest⟩

/-- Whatever the listener does with a message, every interleaving of the
threads is for it a run of a single list of messages: it is called for the
appended messages one after another, and when nothing is on its way any more
it has been called for all of them. -/
theorem queue_refines_inbox (receive : A → Message → A) (listener : A)
    {steps : List (QueueStep T)} {s : ListenedQueue T A}
    (hrun : (listenedMachine T receive listener).run
      (listenedMachine T receive listener).init steps = some s) :
    (∃ labels t, (inboxMachine receive listener).run
        (inboxMachine receive listener).init labels = some t ∧
      t.arrived = s.queue.appended ∧ t.listener = s.listener ∧
      s.queue.appended = s.queue.delivered ++ t.waiting) ∧
    s.listener = s.queue.delivered.foldl receive listener ∧
    (¬ s.queue.WakeUp → s.queue.consumer = .idle →
      s.listener = s.queue.appended.foldl receive listener) := by
  have hlistener := (listener_eq receive listener).run (guarded_true _ _) hrun
  have hinit : Represents (listenedMachine T receive listener).init
      (inboxMachine receive listener).init :=
    ⟨MessageQueue.consistent.init, rfl, rfl, rfl⟩
  obtain ⟨labels, t, ht, hrep⟩ :=
    (refines receive listener).run hinit (guarded_true _ _) hrun
  refine ⟨⟨labels, t, ht, hrep.arrived, hrep.listener, hrep.waiting⟩,
    hlistener, ?_⟩
  intro hquiet hidle
  have hall := hrep.consistent.all_delivered hquiet hidle
  rw [hlistener, hall]

end Listener

namespace MessageOrderWitness

/-- Two threads; the first sends a second message while the first one is
being delivered, and the other thread's call overlaps with both. -/
def twoThreads : List (QueueStep Bool) :=
  [.sendData true "common_cpu" [49], .sendData false "gc_node" [50],
    .copy true true, .lock true, .walk true, .unlock true, .asyncSend true,
    .wake, .lockList, .detach, .unlockList, .sendData true "common_cpu" [51],
    .copy true true, .copy false true, .lock true, .walk true, .deliver,
    .unlock true, .lock false, .walk false, .walk false, .unlock false,
    .finish, .asyncSend true, .wake, .lockList, .detach, .unlockList,
    .deliver, .deliver, .finish]

theorem twoThreads_runs :
    ((messageMachine Bool).run MessageQueue.initial twoThreads).isSome := by
  decide +kernel

theorem message_order_twoThreads :
    ∃ q, (messageMachine Bool).run MessageQueue.initial twoThreads = some q ∧
      q.delivered.Pairwise fun m₁ m₂ =>
        (QueueStep.senders twoThreads)[m₁.id]? =
            (QueueStep.senders twoThreads)[m₂.id]? → m₁.id < m₂.id := by
  obtain ⟨q, hrun⟩ := Option.isSome_iff_exists.mp twoThreads_runs
  exact ⟨q, hrun, (message_order hrun).2.1⟩

/-- A listener that keeps the payloads. -/
def keepData (seen : List (List UInt8)) (m : Message) : List (List UInt8) :=
  seen ++ [m.data]

theorem twoThreads_heard :
    ((listenedMachine Bool keepData []).run
      (listenedMachine Bool keepData []).init twoThreads).isSome := by
  decide +kernel

theorem queue_refines_inbox_twoThreads :
    ∃ s, (listenedMachine Bool keepData []).run
        (listenedMachine Bool keepData []).init twoThreads = some s ∧
      s.listener = s.queue.delivered.foldl keepData [] ∧
      ∃ labels t, (inboxMachine keepData []).run
          (inboxMachine keepData []).init labels = some t ∧
        t.listener = s.listener := by
  obtain ⟨s, hrun⟩ := Option.isSome_iff_exists.mp twoThreads_heard
  obtain ⟨⟨labels, t, ht, _, hlistener, _⟩, hheard, _⟩ :=
    queue_refines_inbox keepData [] hrun
  exact ⟨s, hrun, hheard, labels, t, ht, hlistener⟩

end MessageOrderWitness

end Appmetrics
