/-
The steps of the message queue one by one, and its mutex: at any time at most
one thread is in a critical section, and it holds the mutex.
-/
import Appmetrics.MessageQueue

namespace Appmetrics

namespace Producer

/-- The message the thread has still to append. -/
def message? : Producer → Option Message
  | called m => some m
  | copied m _ => some m
  | walking m _ _ => some m
  | _ => none

/-- The node the thread has still to link. -/
def payload? : Producer → Option (Message × Nat)
  | copied m p => some (m, p)
  | walking m p _ => some (m, p)
  | _ => none

def inSection : Producer → Bool
  | walking _ _ _ => true
  | linked => true
  | _ => false

/-- Between the append and `uv_async_send`. -/
def signals : Producer → Bool
  | linked => true
  | unlocked => true
  | _ => false

end Producer

namespace Consumer

def currentMessage : Consumer → Option Nat
  | detached current => current
  | delivering current => current
  | _ => none

def inSection : Consumer → Bool
  | locked => true
  | detached _ => true
  | _ => false

/-- The callback has started and has yet to detach the list. -/
def detaches : Consumer → Bool
  | woken => true
  | locked => true
  | _ => false

end Consumer

namespace MessageQueue

variable {T : Type} [DecidableEq T]

/-- What one step can do to the queue. -/
inductive StepCase (q : MessageQueue T) : MessageQueue T → Prop
  | empty : StepCase q q
  | call (t : T) (m : Message) (hpoint : q.producers t = .idle)
      (hid : m.id = q.sent.length) :
      StepCase q { q.goto t (.called m) with sent := q.sent ++ [m] }
  | copy (t : T) (m : Message) (hpoint : q.producers t = .called m) :
      StepCase q
        { q.goto t (.copied m q.allocated) with
          heap := Function.update q.heap q.allocated (some ⟨m, none⟩)
          allocated := q.allocated + 1 }
  | drop (t : T) (m : Message) (hpoint : q.producers t = .called m) :
      StepCase q { q.goto t .idle with dropped := q.dropped ++ [m] }
  | lock (t : T) (m : Message) (p : Nat)
      (hpoint : q.producers t = .copied m p) (hfree : q.mutex = none) :
      StepCase q { q.goto t (.walking m p .messageList) with
        mutex := some (.producer t) }
  | walk (t : T) (m : Message) (p : Nat) (tail : Slot) (n : Nat)
      (hpoint : q.producers t = .walking m p tail)
      (hderef : q.deref tail = some (some n)) :
      StepCase q (q.goto t (.walking m p (.next n)))
  | linkFirst (t : T) (m : Message) (p : Nat)
      (hpoint : q.producers t = .walking m p .messageList)
      (hnull : q.messageList = none) :
      StepCase q
        { q.goto t .linked with
          messageList := some p
          appended := q.appended ++ [m] }
  | linkNext (t : T) (m : Message) (p n : Nat) (d : MessageData)
      (hpoint : q.producers t = .walking m p (.next n))
      (hnode : q.heap n = some d) (hnull : d.next = none) :
      StepCase q
        { q.goto t .linked with
          heap := Function.update q.heap n (some { d with next := some p })
          appended := q.appended ++ [m] }
  | unlock (t : T) (hpoint : q.producers t = .linked) :
      StepCase q { q.goto t .unlocked with mutex := none }
  | asyncSend (t : T) (hpoint : q.producers t = .unlocked) :
      StepCase q { q.goto t .idle with pending := true }
  | wake (hpoint : q.consumer = .idle) (hpending : q.pending = true) :
      StepCase q { q with pending := false, consumer := .woken }
  | lockList (hpoint : q.consumer = .woken) (hfree : q.mutex = none) :
      StepCase q { q with mutex := some .consumer, consumer := .locked }
  | detach (hpoint : q.consumer = .locked) :
      StepCase q { q with
        consumer := .detached q.messageList
        messageList := none }
  | unlockList (current : Option Nat)
      (hpoint : q.consumer = .detached current) :
      StepCase q { q with mutex := none, consumer := .delivering current }
  | deliver (n : Nat) (d : MessageData)
      (hpoint : q.consumer = .delivering (some n))
      (hnode : q.heap n = some d) :
      StepCase q
        { q with
          delivered := q.delivered ++ [d.message]
          heap := Function.update q.heap n none
          consumer := .delivering d.next }
  | finish (hpoint : q.consumer = .delivering none) :
      StepCase q { q with consumer := .idle }

theorem advance_case {q q' : MessageQueue T} {t : T} {m : Message} {p : Nat}
    {tail : Slot} (hpoint : q.producers t = .walking m p tail)
    (hadvance : q.advance t m p tail = some q') : StepCase q q' := by
  rw [advance, Option.bind_eq_some_iff] at hadvance
  obtain ⟨target, hderef, hadvance⟩ := hadvance
  cases target with
  | some n =>
      cases hadvance
      exact .walk t m p tail n hpoint hderef
  | none =>
      cases tail with
      | messageList =>
          cases hadvance
          exact .linkFirst t m p hpoint (Option.some.inj hderef)
      | next n =>
          rw [deref, Option.map_eq_some_iff] at hderef
          obtain ⟨d, hnode, hnull⟩ := hderef
          simp only [store, hnode, Option.map_some] at hadvance
          cases hadvance
          exact .linkNext t m p n d hpoint hnode hnull

theorem step_case {q q' : MessageQueue T} {e : QueueStep T}
    (hstep : q.step e = some q') : StepCase q q' := by
  cases e with
  | copy t allocated =>
      cases allocated <;> simp only [step] at hstep <;> split at hstep <;>
        cases hstep
      · next m hpoint => exact .drop t m hpoint
      · next m hpoint => exact .copy t m hpoint
  | deliver =>
      simp only [step] at hstep
      split at hstep
      · next n hpoint =>
          rw [Option.map_eq_some_iff] at hstep
          obtain ⟨d, hnode, rfl⟩ := hstep
          exact .deliver n d hpoint hnode
      · cases hstep
  | sendData t source data =>
      simp only [step] at hstep
      split at hstep
      · next hpoint =>
          split at hstep <;> cases hstep
          · exact .empty
          · exact .call t _ hpoint rfl
      · cases hstep
  | walk t =>
      simp only [step] at hstep
      split at hstep
      · next m p tail hpoint => exact advance_case hpoint hstep
      · cases hstep
  | lock t =>
      simp only [step] at hstep
      split at hstep <;> cases hstep
      next m p hpoint hfree => exact .lock t m p hpoint hfree
  | unlock t =>
      simp only [step] at hstep
      split at hstep <;> cases hstep
      next hpoint => exact .unlock t hpoint
  | asyncSend t =>
      simp only [step] at hstep
      split at hstep <;> cases hstep
      next hpoint => exact .asyncSend t hpoint
  | wake =>
      simp only [step] at hstep
      split at hstep <;> cases hstep
      next hpoint hpending => exact .wake hpoint hpending
  | lockList =>
      simp only [step] at hstep
      split at hstep <;> cases hstep
      next hpoint hfree => exact .lockList hpoint hfree
  | detach =>
      simp only [step] at hstep
      split at hstep <;> cases hstep
      next hpoint => exact .detach hpoint
  | unlockList =>
      simp only [step] at hstep
      split at hstep <;> cases hstep
      next current hpoint => exact .unlockList current hpoint
  | finish =>
      simp only [step] at hstep
      split at hstep <;> cases hstep
      next hpoint => exact .finish hpoint

/-! ## The mutex -/

/-- The mutex is held by whoever is in a critical section. -/
structure Exclusive (q : MessageQueue T) : Prop where
  producer : ∀ t, (q.producers t).inSection = true ↔
    q.mutex = some (.producer t)
  consumer : q.consumer.inSection = true ↔ q.mutex = some .consumer

omit [DecidableEq T] in
theorem initial_exclusive : (initial : MessageQueue T).Exclusive where
  producer t := by simp [initial, Producer.inSection]
  consumer := by simp [initial, Consumer.inSection]

theorem goto_inSection (q : MessageQueue T) (t u : T) (point : Producer) :
    ((q.goto t point).producers u).inSection =
      if u = t then point.inSection else (q.producers u).inSection := by
  simp only [goto, Function.update_apply]
  split <;> rfl

/-- A step of one thread that neither takes nor gives back the mutex. -/
theorem Exclusive.goto {q : MessageQueue T} (hexclusive : q.Exclusive) {t : T}
    {point : Producer}
    (hsame : point.inSection = (q.producers t).inSection) (u : T) :
    ((q.goto t point).producers u).inSection = true ↔
      q.mutex = some (.producer u) := by
  rw [goto_inSection]
  by_cases hu : u = t
  · rw [if_pos hu, hsame, hu]
    exact hexclusive.producer t
  · rw [if_neg hu]
    exact hexclusive.producer u

theorem StepCase.exclusive {q q' : MessageQueue T} (hcase : StepCase q q')
    (hexclusive : q.Exclusive) : q'.Exclusive := by
  cases hcase with
  | empty => exact hexclusive
  | call t m hpoint hid =>
      exact ⟨hexclusive.goto (by rw [hpoint]; rfl), hexclusive.consumer⟩
  | copy t m hpoint =>
      exact ⟨hexclusive.goto (by rw [hpoint]; rfl), hexclusive.consumer⟩
  | drop t m hpoint =>
      exact ⟨hexclusive.goto (by rw [hpoint]; rfl), hexclusive.consumer⟩
  | walk t m p tail n hpoint hderef =>
      exact ⟨hexclusive.goto (by rw [hpoint]; rfl), hexclusive.consumer⟩
  | linkFirst t m p hpoint hnull =>
      exact ⟨hexclusive.goto (by rw [hpoint]; rfl), hexclusive.consumer⟩
  | linkNext t m p n d hpoint hnode hnull =>
      exact ⟨hexclusive.goto (by rw [hpoint]; rfl), hexclusive.consumer⟩
  | asyncSend t hpoint =>
      exact ⟨hexclusive.goto (by rw [hpoint]; rfl), hexclusive.consumer⟩
  | lock t m p hpoint hfree =>
      constructor
      · intro u
        rw [goto_inSection]
        by_cases hu : u = t
        · simp [hu, Producer.inSection]
        · have hother := hexclusive.producer u
          rw [hfree] at hother
          simp [hu, Ne.symm hu, hother]
      · have hother := hexclusive.consumer
        rw [hfree] at hother
        simp [MessageQueue.goto, hother]
  | unlock t hpoint =>
      have hholds := (hexclusive.producer t).mp (by rw [hpoint]; rfl)
      constructor
      · intro u
        rw [goto_inSection]
        by_cases hu : u = t
        · simp [hu, Producer.inSection]
        · have hother := hexclusive.producer u
          rw [hholds] at hother
          simp [hu, Ne.symm hu, hother]
      · have hother := hexclusive.consumer
        rw [hholds] at hother
        simp [MessageQueue.goto, hother]
  | wake hpoint hpending =>
      refine ⟨hexclusive.producer, ?_⟩
      rw [← hexclusive.consumer, hpoint]
      rfl
  | lockList hpoint hfree =>
      constructor
      · intro u
        have hother := hexclusive.producer u
        rw [hfree] at hother
        simp [hother]
      · simp [Consumer.inSection]
  | detach hpoint =>
      refine ⟨hexclusive.producer, ?_⟩
      rw [← hexclusive.consumer, hpoint]
      rfl
  | unlockList current hpoint =>
      have hholds := hexclusive.consumer.mp (by rw [hpoint]; rfl)
      constructor
      · intro u
        have hother := hexclusive.producer u
        rw [hholds] at hother
        simp [hother]
      · simp [Consumer.inSection]
  | deliver n d hpoint hnode =>
      refine ⟨hexclusive.producer, ?_⟩
      rw [← hexclusive.consumer, hpoint]
      rfl
  | finish hpoint =>
      refine ⟨hexclusive.producer, ?_⟩
      rw [← hexclusive.consumer, hpoint]
      rfl

end MessageQueue

end Appmetrics
