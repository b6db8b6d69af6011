/-
The message queue between the agent's threads and the event loop
(src/appmetrics.cpp).  `sendData` runs on any thread: it copies the payload,
walks to the end of `messageList` under the mutex, links its node there and
calls `uv_async_send`.  `emitMessage` detaches the whole list under the mutex
and then delivers and frees its nodes.  One step of a thread is one step of
the machine.
-/
import Appmetrics.Machine
import Appmetrics.LinkedList

namespace Appmetrics

/-- One call of `sendData` with a size other than zero; `id` tells equal
payloads apart. -/
structure Message where
  id : Nat
  source : String
  data : List UInt8
deriving Repr, DecidableEq

/-- A node of `messageList`; `data` and `size` are those of its message. -/
structure MessageData where
  message : Message
  next : Option Nat
deriving Repr, DecidableEq

/-- What `tail` points at: `messageList` itself or a node's `next`. -/
inductive Slot
  | messageList
  | next (node : Nat)
deriving Repr, DecidableEq

/-- The program points of `sendData` with its arguments and variables. -/
inductive Producer
  | idle
  | called (message : Message)
  | copied (message : Message) (payload : Nat)
  | walking (message : Message) (payload : Nat) (tail : Slot)
  | linked
  | unlocked
deriving Repr, DecidableEq

/-- The program points of `emitMessage`. -/
inductive Consumer
  | idle
  | woken
  | locked
  | detached (currentMessage : Option Nat)
  | delivering (currentMessage : Option Nat)
deriving Repr, DecidableEq

inductive Holder (T : Type)
  | producer (thread : T)
  | consumer
deriving Repr, DecidableEq

/-- The shared state, the program point of every thread, and the history:
the messages in the order of the calls, of the appends and of the
deliveries, and those whose copy could not be allocated. -/
structure MessageQueue (T : Type) where
  heap : Nat → Option MessageData
  allocated : Nat
  messageList : Option Nat
  mutex : Option (Holder T)
  pending : Bool
  producers : T → Producer
  consumer : Consumer
  sent : List Message
  appended : List Message
  delivered : List Message
  dropped : List Message

inductive QueueStep (T : Type)
  | sendData (thread : T) (source : String) (data : List UInt8)
  | copy (thread : T) (allocated : Bool)
  | lock (thread : T)
  | walk (thread : T)
  | unlock (thread : T)
  | asyncSend (thread : T)
  | wake
  | lockList
  | detach
  | unlockList
  | deliver
  | finish
deriving Repr, DecidableEq

namespace MessageQueue

variable {T : Type}

def initial : MessageQueue T where
  heap := fun _ => none
  allocated := 0
  messageList := none
  mutex := none
  pending := false
  producers := fun _ => .idle
  consumer := .idle
  sent := []
  appended := []
  delivered := []
  dropped := []

/-- `*tail`; reading a node that has been freed is not a step. -/
def deref (q : MessageQueue T) : Slot → Option (Option Nat)
  | .messageList => some q.messageList
  | .next n => (q.heap n).map MessageData.next

/-- `(*tail) = payload`. -/
def store (q : MessageQueue T) (tail : Slot) (payload : Nat) :
    Option (MessageQueue T) :=
  match tail with
  | .messageList => some { q with messageList := some payload }
  | .next n =>
      (q.heap n).map fun d =>
        { q with heap :=
            Function.update q.heap n (some { d with next := some payload }) }

variable [DecidableEq T]

def goto (q : MessageQueue T) (t : T) (point : Producer) : MessageQueue T :=
  { q with producers := Function.update q.producers t point }

/-- One iteration of `while (*tail != NULL)`, or the assignment after it. -/
def advance (q : MessageQueue T) (t : T) (m : Message) (payload : Nat)
    (tail : Slot) : Option (MessageQueue T) :=
  (q.deref tail).bind fun target =>
    match target with
    | some n => some (q.goto t (.walking m payload (.next n)))
    | none =>
        (q.store tail payload).map fun q =>
          { q.goto t .linked with appended := q.appended ++ [m] }

def step (q : MessageQueue T) : QueueStep T → Option (MessageQueue T)
  | .sendData t source data =>
      match q.producers t with
      | .idle =>
          if data.length = 0 then some q
          else
            let m : Message := ⟨q.sent.length, source, data⟩
            some { q.goto t (.called m) with sent := q.sent ++ [m] }
      | _ => none
  | .copy t true =>
      match q.producers t with
      | .called m =>
          some
            { q.goto t (.copied m q.allocated) with
              heap := Function.update q.heap q.allocated (some ⟨m, none⟩)
              allocated := q.allocated + 1 }
      | _ => none
  | .copy t false =>
      match q.producers t with
      | .called m =>
          some { q.goto t .idle with dropped := q.dropped ++ [m] }
      | _ => none
  | .lock t =>
      match q.producers t, q.mutex with
      | .copied m payload, none =>
          some { q.goto t (.walking m payload .messageList) with
            mutex := some (.producer t) }
      | _, _ => none
  | .walk t =>
      match q.producers t with
      | .walking m payload tail => q.advance t m payload tail
      | _ => none
  | .unlock t =>
      match q.producers t with
      | .linked => some { q.goto t .unlocked with mutex := none }
      | _ => none
  | .asyncSend t =>
      match q.producers t with
      | .unlocked => some { q.goto t .idle with pending := true }
      | _ => none
  | .wake =>
      match q.consumer, q.pending with
      | .idle, true => some { q with pending := false, consumer := .woken }
      | _, _ => none
  | .lockList =>
      match q.consumer, q.mutex with
      | .woken, none =>
          some { q with mutex := some .consumer, consumer := .locked }
      | _, _ => none
  | .detach =>
      match q.consumer with
      | .locked =>
          some { q with
            consumer := .detached q.messageList
            messageList := none }
      | _ => none
  | .unlockList =>
      match q.consumer with
      | .detached current =>
          some { q with mutex := none, consumer := .delivering current }
      | _ => none
  | .deliver =>
      match q.consumer with
      | .delivering (some n) =>
          (q.heap n).map fun d =>
            { q with
              delivered := q.delivered ++ [d.message]
              heap := Function.update q.heap n none
              consumer := .delivering d.next }
      | _ => none
  | .finish =>
      match q.consumer with
      | .delivering none => some { q with consumer := .idle }
      | _ => none

end MessageQueue

/-- The queue with any set of threads. -/
def messageMachine (T : Type) [DecidableEq T] :
    StepMachine.Machine (MessageQueue T) (QueueStep T) where
  init := MessageQueue.initial
  step := MessageQueue.step

end Appmetrics
