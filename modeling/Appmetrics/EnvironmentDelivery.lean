/-
The API object of appmetrics-api.js behind the message queue of
appmetrics.cpp: the agent's threads send the two environment messages at any
time, and the object that receives them on the event loop raises
`initialized`.
-/
import Appmetrics.MessageOrder
import Appmetrics.MonitoringApi

namespace Appmetrics

open StepMachine

variable {T : Type} [DecidableEq T]

/-- A message as the callback of `localConnect` gets it; `toString` reads the
bytes of the buffer. -/
def Message.toApi (toString : List UInt8 → List Char) (m : Message) :
    ApiMessage :=
  ⟨m.source, toString m.data⟩

/-- Which environment message it is, if it is one. -/
def Message.kind? (m : Message) : Option Bool :=
  if m.source = "common_env" then some true
  else if m.source = "environment_node" then some false
  else none

namespace Listening

/-- A delivered message goes to the API. -/
def hear (toString : List UInt8 → List Char) (s : Listening) (m : Message) :
    Listening :=
  (s.step (m.toApi toString)).getD s

variable {toString : List UInt8 → List Char}

theorem environment?_toApi (m : Message) :
    (m.toApi toString).environment?.map Prod.fst = m.kind? := by
  unfold Message.kind? ApiMessage.environment? Message.toApi
  dsimp only
  split_ifs <;> rfl

theorem step_hear (s : Listening) (m : Message) :
    apiMachine.step s (m.toApi toString) = some (s.hear toString m) := rfl

theorem run_hear (messages : List Message) (s : Listening) :
    apiMachine.run s (messages.map (Message.toApi toString)) =
      some (messages.foldl (hear toString) s) := by
  induction messages generalizing s with
  | nil => rfl
  | cons m messages ih =>
      rw [List.map_cons, run_cons, step_hear, Option.bind_some, ih]
      rfl

theorem hear_arrived (s : Listening) (m : Message) (kind : Bool) :
    (s.hear toString m).arrived kind ≠ none ↔
      m.kind? = some kind ∨ s.arrived kind ≠ none := by
  have hstep : s.step (m.toApi toString) = some (s.hear toString m) :=
    s.step_hear m
  have hkind : (m.toApi toString).environment?.map Prod.fst = m.kind? :=
    environment?_toApi m
  cases hm : (m.toApi toString).environment? with
  | none =>
      rw [hm] at hkind
      have harrived : (s.hear toString m).arrived = s.arrived := by
        simp [hear, Listening.step, hm]
      rw [harrived, ← hkind]
      simp
  | some pair =>
      rw [hm] at hkind
      rw [step_arrived hstep hm, ← hkind]
      by_cases hk : kind = pair.1
      · simp [hk]
      · rw [Function.update_of_ne hk]
        simp [Ne.symm hk]

theorem foldl_arrived (messages : List Message) (kind : Bool) :
    (messages.foldl (hear toString) initial).arrived kind ≠ none ↔
      ∃ m ∈ messages, m.kind? = some kind := by
  induction messages using List.reverseRecOn with
  | nil => simp [initial]
  | append_singleton messages m ih =>
      rw [List.foldl_append, List.foldl_cons, List.foldl_nil, hear_arrived,
        ih]
      simp only [List.mem_append, List.mem_singleton]
      constructor
      · rintro (hm | ⟨m', hm', hkind⟩)
        · exact ⟨m, Or.inr rfl, hm⟩
        · exact ⟨m', Or.inl hm', hkind⟩
      · rintro ⟨m', hm' | rfl, hkind⟩
        · exact Or.inr ⟨m', hm', hkind⟩
        · exact Or.inl hkind

/-- Messages of which none is called `initialized` and at most one is an
environment message of either kind. -/
structure Single (messages : List Message) : Prop where
  named : ∀ m ∈ messages, m.source ≠ "initialized"
  once : ∀ m ∈ messages, ∀ m' ∈ messages, m.kind? = m'.kind? →
    m.kind? ≠ none → m = m'

theorem Single.mono {messages messages' : List Message}
    (hsingle : Single messages) (hsub : ∀ m ∈ messages', m ∈ messages) :
    Single messages' where
  named m hm := hsingle.named m (hsub m hm)
  once m hm m' hm' := hsingle.once m (hsub m hm) m' (hsub m' hm')

theorem Single.guarded {messages : List Message} (hsingle : Single messages)
    (hnodup : messages.Nodup) :
    apiMachine.Guarded NoRepeat initial
      (messages.map (Message.toApi toString)) := by
  induction messages using List.reverseRecOn with
  | nil => trivial
  | append_singleton messages m ih =>
      have hleft : Single messages := hsingle.mono fun m' hm' =>
        List.mem_append_left _ hm'
      rw [List.nodup_append_comm, List.singleton_append,
        List.nodup_cons] at hnodup
      rw [List.map_append]
      refine (guarded_append (run_hear messages initial)).mpr
        ⟨ih hleft hnodup.2, ⟨?_, fun _ _ => trivial⟩⟩
      refine ⟨hsingle.named m (by simp), fun kind hkind harrived => ?_⟩
      -- a second message of the kind would be the first one again
      rw [environment?_toApi] at hkind
      obtain ⟨m', hm', hkind'⟩ := (foldl_arrived messages kind).mp harrived
      have hsame := hsingle.once m' (List.mem_append_left _ hm') m (by simp)
        (hkind'.trans hkind.symm) (by simp [hkind'])
      exact absurd (hsame ▸ hm') hnodup.1

theorem counted : apiMachine.Inductive NoRepeat Counted where
  init := initial_counted
  step hs hguard hstep := (hs.step hstep).2 hguard

end Listening

namespace EnvironmentDeliveryWitness

/-- The two environment messages come from two threads, with a memory message
between them. -/
def twoThreads : List (QueueStep Bool) :=
  [.sendData true "environment_node" [118, 61, 49],
    .sendData false "common_env" [111, 61, 50],
    .copy true true, .copy false true, .lock false, .walk false,
    .unlock false, .asyncSend false, .wake, .lockList, .detach, .unlockList,
    .lock true, .walk true, .unlock true, .deliver, .finish,
    .sendData false "memory" [109], .asyncSend true, .copy false true,
    .wake, .lockList, .detach, .unlockList, .deliver, .finish, .lock false,
    .walk false, .unlock false, .asyncSend false, .wake, .lockList, .detach,
    .unlockList, .deliver, .finish]

/-- A buffer of ASCII characters. -/
def ascii (data : List UInt8) : List Char :=
  data.map fun byte => Char.ofNat byte.toNat

theorem twoThreads_runs :
    ∃ s, (listenedMachine Bool (Listening.hear ascii) .initial).run
        (listenedMachine Bool (Listening.hear ascii) .initial).init
          twoThreads = some s ∧
      s.queue.sent = [⟨0, "environment_node", [118, 61, 49]⟩,
        ⟨1, "common_env", [111, 61, 50]⟩, ⟨2, "memory", [109]⟩] ∧
      s.queue.delivered = [⟨1, "common_env", [111, 61, 50]⟩,
        ⟨0, "environment_node", [118, 61, 49]⟩, ⟨2, "memory", [109]⟩] :=
  ⟨_, rfl, rfl, rfl⟩

end EnvironmentDeliveryWitness

end Appmetrics
