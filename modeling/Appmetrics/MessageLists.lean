/-
The lists of the message queue in the heap.  `messageList` and the list that
the callback has detached are chains of live nodes; they share no node with
each other or with a node that is still to be linked, so that the callback
reads and frees its nodes without the mutex.
-/
import Appmetrics.MessageSteps

namespace Appmetrics

open LinkedList

namespace MessageQueue

variable {T : Type} [DecidableEq T]

/-- The messages of the nodes, in the order of the list. -/
def messages (heap : Nat → Option MessageData) (nodes : List Nat) :
    List Message :=
  (contents heap nodes).map MessageData.message

/-- `messageList` and the detached list are chains of live nodes that share
no node with each other or with a node still to be linked. -/
structure Layout (q : MessageQueue T) (current listed : List Nat) :
    Prop where
  list : Chain MessageData.next q.heap q.messageList listed
  detached : Chain MessageData.next q.heap q.consumer.currentMessage current
  nodup : (current ++ listed).Nodup
  fresh : ∀ {n d}, q.heap n = some d → n < q.allocated
  payload : ∀ {t m p}, (q.producers t).payload? = some (m, p) →
    q.heap p = some ⟨m, none⟩ ∧ p ∉ current ++ listed
  payload_inj : ∀ {t u m m' p}, (q.producers t).payload? = some (m, p) →
    (q.producers u).payload? = some (m', p) → t = u
  tail : ∀ {t m p n}, q.producers t = .walking m p (.next n) → n ∈ listed
  appended : q.appended =
    q.delivered ++ messages q.heap current ++ messages q.heap listed

theorem goto_payload? (q : MessageQueue T) (t u : T) (point : Producer) :
    ((q.goto t point).producers u).payload? =
      if u = t then point.payload? else (q.producers u).payload? := by
  simp only [goto, Function.update_apply]
  split <;> rfl

theorem goto_walking {q : MessageQueue T} {t u : T} {point : Producer}
    {m : Message} {p n : Nat}
    (hwalking : (q.goto t point).producers u = .walking m p (.next n)) :
    u = t ∧ point = .walking m p (.next n) ∨
      u ≠ t ∧ q.producers u = .walking m p (.next n) := by
  simp only [goto, Function.update_apply] at hwalking
  split at hwalking
  · next hu => exact Or.inl ⟨hu, hwalking⟩
  · next hu => exact Or.inr ⟨hu, hwalking⟩

theorem messages_append (heap : Nat → Option MessageData)
    (xs ys : List Nat) :
    messages heap (xs ++ ys) = messages heap xs ++ messages heap ys := by
  rw [messages, contents_append, List.map_append]
  rfl

theorem messages_singleton {heap : Nat → Option MessageData} {n : Nat}
    {d : MessageData} (hnode : heap n = some d) :
    messages heap [n] = [d.message] := by
  rw [messages, contents_singleton hnode]
  rfl

theorem messages_congr {heap heap' : Nat → Option MessageData}
    {nodes : List Nat} (hsame : ∀ n ∈ nodes, heap' n = heap n) :
    messages heap' nodes = messages heap nodes := by
  rw [messages, contents_congr hsame]
  rfl

omit [DecidableEq T] in
theorem initial_layout : (initial : MessageQueue T).Layout [] [] where
  list := rfl
  detached := rfl
  nodup := List.nodup_nil
  fresh h := nomatch h
  payload h := nomatch h
  payload_inj h := nomatch h
  tail h := nomatch h
  appended := rfl

section Layout

variable {q : MessageQueue T} {current listed : List Nat}
  (hlayout : q.Layout current listed)

include hlayout

/-- A step of one thread that moves no node and writes no pointer. -/
theorem Layout.goto {t : T} {point : Producer}
    (hpayload : point.payload? = none ∨
      point.payload? = (q.producers t).payload?)
    (htail : ∀ m p n, point = .walking m p (.next n) → n ∈ listed) :
    (q.goto t point).Layout current listed := by
  have hback {u : T} {m : Message} {p : Nat}
      (hu : ((q.goto t point).producers u).payload? = some (m, p)) :
      (q.producers u).payload? = some (m, p) := by
    rw [goto_payload?] at hu
    split at hu
    · next heq =>
        rcases hpayload with hnone | hsame
        · cases hnone.symm.trans hu
        · rw [heq, ← hsame]
          exact hu
    · exact hu
  exact
    { list := hlayout.list
      detached := hlayout.detached
      nodup := hlayout.nodup
      fresh := hlayout.fresh
      payload := fun hu => hlayout.payload (hback hu)
      payload_inj := fun hu hv =>
        hlayout.payload_inj (hback hu) (hback hv)
      tail := by
        intro u m p n hwalking
        rcases goto_walking hwalking with ⟨_, hpoint⟩ | ⟨_, hold⟩
        · exact htail m p n hpoint
        · exact hlayout.tail hold
      appended := hlayout.appended }

/-- The copy gets a new node. -/
theorem Layout.copy {t : T} {m : Message} :
    Layout
      { q.goto t (.copied m q.allocated) with
        heap := Function.update q.heap q.allocated (some ⟨m, none⟩)
        allocated := q.allocated + 1 } current listed := by
  have hlive {n : Nat} (hn : n ∈ current ++ listed) : n ≠ q.allocated := by
    have hnode : ∃ d, q.heap n = some d := by
      rcases List.mem_append.mp hn with h | h
      · exact hlayout.detached.live h
      · exact hlayout.list.live h
    obtain ⟨d, hd⟩ := hnode
    exact Nat.ne_of_lt (hlayout.fresh hd)
  have hsame {n : Nat} (hn : n ∈ current ++ listed) :
      Function.update q.heap q.allocated (some ⟨m, none⟩) n = q.heap n :=
    Function.update_of_ne (hlive hn) _ _
  have hcases {u : T} {x : Message} {p : Nat}
      (hu : ((q.goto t (.copied m q.allocated)).producers u).payload? =
        some (x, p)) :
      u = t ∧ x = m ∧ p = q.allocated ∨
        (q.producers u).payload? = some (x, p) ∧ p ≠ q.allocated := by
    rw [goto_payload?] at hu
    split at hu
    · next heq =>
        cases hu
        exact Or.inl ⟨heq, rfl, rfl⟩
    · exact Or.inr ⟨hu,
        Nat.ne_of_lt (hlayout.fresh (hlayout.payload hu).1)⟩
  constructor
  case list =>
    exact hlayout.list.congr fun n hn =>
      hsame (List.mem_append_right current hn)
  case detached =>
    exact hlayout.detached.congr fun n hn =>
      hsame (List.mem_append_left listed hn)
  case nodup => exact hlayout.nodup
  case fresh =>
    intro n d hnode
    simp only [Function.update_apply] at hnode
    split at hnode
    · next heq => exact heq ▸ Nat.lt_succ_self _
    · exact Nat.lt_succ_of_lt (hlayout.fresh hnode)
  case payload =>
    intro u x p hu
    rcases hcases hu with ⟨_, rfl, rfl⟩ | ⟨hold, hne⟩
    · exact ⟨Function.update_self _ _ _, fun hmem => hlive hmem rfl⟩
    · obtain ⟨hnode, hnot⟩ := hlayout.payload hold
      exact ⟨(Function.update_of_ne hne _ _).trans hnode, hnot⟩
  case payload_inj =>
    intro u v x y p hu hv
    rcases hcases hu with ⟨hut, _, hp⟩ | ⟨hold, hne⟩
    · rcases hcases hv with ⟨hvt, _, _⟩ | ⟨_, hne⟩
      · exact hut.trans hvt.symm
      · exact absurd hp hne
    · rcases hcases hv with ⟨_, _, hp⟩ | ⟨hold', _⟩
      · exact absurd hp hne
      · exact hlayout.payload_inj hold hold'
  case tail =>
    intro u x p n hwalking
    rcases goto_walking hwalking with ⟨_, hpoint⟩ | ⟨_, hold⟩
    · cases hpoint
    · exact hlayout.tail hold
  case appended =>
    rw [messages_congr fun n hn => hsame (List.mem_append_left listed hn),
      messages_congr fun n hn => hsame (List.mem_append_right current hn)]
    exact hlayout.appended

/-- Linking a node at the end of `messageList`. -/
theorem Layout.link {t : T} {m : Message} {p : Nat}
    (hpayload : (q.producers t).payload? = some (m, p))
    {heap : Nat → Option MessageData} {messageList : Option Nat}
    (hchain : Chain MessageData.next heap messageList (listed ++ [p]))
    (hsame : ∀ n, n ∉ listed → heap n = q.heap n)
    (hmessages : messages heap listed = messages q.heap listed) :
    Layout
      { q.goto t .linked with
        heap := heap
        messageList := messageList
        appended := q.appended ++ [m] } current (listed ++ [p]) := by
  obtain ⟨hnode, hnot⟩ := hlayout.payload hpayload
  rw [List.mem_append, not_or] at hnot
  have hdisjoint {n : Nat} (hn : n ∈ current) : n ∉ listed :=
    (List.nodup_append'.mp hlayout.nodup).2.2 hn
  have hold {u : T} {x : Message} {r : Nat}
      (hu : ((q.goto t .linked).producers u).payload? = some (x, r)) :
      r ≠ p ∧ (q.producers u).payload? = some (x, r) := by
    rw [goto_payload?] at hu
    split at hu
    · cases hu
    · next hut =>
        refine ⟨?_, hu⟩
        rintro rfl
        exact hut (hlayout.payload_inj hu hpayload)
  constructor
  case list => exact hchain
  case detached =>
    exact hlayout.detached.congr fun n hn => hsame n (hdisjoint hn)
  case nodup =>
    rw [← List.append_assoc, List.nodup_append']
    refine ⟨hlayout.nodup, List.nodup_singleton p, ?_⟩
    rw [List.disjoint_singleton, List.mem_append, not_or]
    exact hnot
  case fresh =>
    intro n d hd
    by_cases hn : n ∈ listed
    · obtain ⟨d', hd'⟩ := hlayout.list.live hn
      exact hlayout.fresh hd'
    · exact hlayout.fresh ((hsame n hn).symm.trans hd)
  case payload =>
    intro u x r hu
    obtain ⟨hne, hu⟩ := hold hu
    obtain ⟨hr, hrnot⟩ := hlayout.payload hu
    have hrlisted : r ∉ listed := fun h =>
      hrnot (List.mem_append_right current h)
    refine ⟨(hsame r hrlisted).trans hr, ?_⟩
    rw [← List.append_assoc, List.mem_append, List.mem_singleton, not_or]
    exact ⟨hrnot, hne⟩
  case payload_inj =>
    intro u v x y r hu hv
    exact hlayout.payload_inj (hold hu).2 (hold hv).2
  case tail =>
    intro u x r n hwalking
    rcases goto_walking hwalking with ⟨_, hpoint⟩ | ⟨_, hu⟩
    · cases hpoint
    · exact List.mem_append_left _ (hlayout.tail hu)
  case appended =>
    have hp : heap p = some ⟨m, none⟩ := (hsame p hnot.2).trans hnode
    rw [messages_append, messages_singleton hp, hmessages,
      messages_congr fun n hn => hsame n (hdisjoint hn), ← List.append_assoc]
    exact congrArg (· ++ [m]) hlayout.appended

theorem Layout.linkFirst {t : T} {m : Message} {p : Nat}
    (hpoint : q.producers t = .walking m p .messageList)
    (hnull : q.messageList = none) :
    Layout
      { q.goto t .linked with
        messageList := some p
        appended := q.appended ++ [m] } current (listed ++ [p]) := by
  have hpayload : (q.producers t).payload? = some (m, p) := by
    rw [hpoint]
    rfl
  have hnil : listed = [] := hlayout.list.nil_iff.mp hnull
  refine hlayout.link hpayload ?_ (fun _ _ => rfl) rfl
  rw [hnil]
  exact ⟨rfl, _, (hlayout.payload hpayload).1, rfl⟩

theorem Layout.linkNext {t : T} {m : Message} {p n : Nat} {d : MessageData}
    (hpoint : q.producers t = .walking m p (.next n))
    (hnode : q.heap n = some d) (hnull : d.next = none) :
    Layout
      { q.goto t .linked with
        heap := Function.update q.heap n (some { d with next := some p })
        appended := q.appended ++ [m] } current (listed ++ [p]) := by
  have hpayload : (q.producers t).payload? = some (m, p) := by
    rw [hpoint]
    rfl
  obtain ⟨hp, hnot⟩ := hlayout.payload hpayload
  have hn := hlayout.tail hpoint
  obtain ⟨before, hlisted, hlast⟩ := hlayout.list.eq_concat hn hnode hnull
  have hsame (r : Nat) (hr : r ≠ n) :
      Function.update q.heap n (some { d with next := some p }) r =
        q.heap r := Function.update_of_ne hr _ _
  have hbefore (r : Nat) (hr : r ∈ before) :
      Function.update q.heap n (some { d with next := some p }) r =
        q.heap r := hsame r fun heq => hlast (heq ▸ hr)
  have hpn : p ≠ n := fun heq =>
    hnot (List.mem_append_right current (heq ▸ hn))
  refine hlayout.link hpayload ?_
    (fun r hr => hsame r fun heq => hr (heq ▸ hn)) ?_
  · have hchain := hlayout.list
    rw [hlisted] at hchain
    rw [hlisted, List.append_assoc]
    exact hchain.snoc hbefore (Function.update_self _ _ _) rfl
      ((hsame p hpn).trans hp) rfl
  · rw [hlisted, messages_append, messages_append, messages_congr hbefore,
      messages_singleton hnode,
      messages_singleton (Function.update_self _ _ _)]

theorem Layout.walk {t : T} {m : Message} {p n : Nat} {tail : Slot}
    (hpoint : q.producers t = .walking m p tail)
    (hderef : q.deref tail = some (some n)) :
    (q.goto t (.walking m p (.next n))).Layout current listed := by
  have hn : n ∈ listed := by
    cases tail with
    | messageList =>
        exact hlayout.list.mem_of_start (Option.some.inj hderef)
    | next k =>
        rw [deref, Option.map_eq_some_iff] at hderef
        obtain ⟨d, hnode, hnext⟩ := hderef
        exact hlayout.list.mem_of_next (hlayout.tail hpoint) hnode hnext
  refine hlayout.goto (Or.inr (by rw [hpoint]; rfl)) ?_
  intro x r k heq
  cases heq
  exact hn

omit [DecidableEq T] in
/-- The callback takes the whole list; no thread is walking it. -/
theorem Layout.detach (hexclusive : q.Exclusive)
    (hpoint : q.consumer = .locked) :
    Layout
      { q with consumer := .detached q.messageList, messageList := none }
      listed [] := by
  have hcurrent : current = [] := by
    apply hlayout.detached.nil_iff.mp
    rw [hpoint]
    rfl
  subst hcurrent
  have hholds := hexclusive.consumer.mp (by rw [hpoint]; rfl)
  constructor
  case list => rfl
  case detached => exact hlayout.list
  case nodup =>
    rw [List.append_nil]
    exact hlayout.nodup
  case fresh => exact hlayout.fresh
  case payload =>
    intro u x r hu
    rw [List.append_nil]
    exact hlayout.payload hu
  case payload_inj => exact hlayout.payload_inj
  case tail =>
    intro u x r n hwalking
    have hproducer := (hexclusive.producer u).mp (by rw [hwalking]; rfl)
    cases hholds.symm.trans hproducer
  case appended =>
    have happended := hlayout.appended
    rw [show messages q.heap [] = [] from rfl, List.append_nil] at happended
    rw [show messages q.heap [] = [] from rfl, List.append_nil]
    exact happended

omit [DecidableEq T] in
theorem Layout.deliver {n : Nat} {d : MessageData}
    (hpoint : q.consumer = .delivering (some n))
    (hnode : q.heap n = some d) :
    ∃ rest, current = n :: rest ∧
      Layout
        { q with
          delivered := q.delivered ++ [d.message]
          heap := Function.update q.heap n none
          consumer := .delivering d.next } rest listed := by
  have hdetached := hlayout.detached
  rw [hpoint] at hdetached
  cases hcurrent : current with
  | nil =>
      rw [hcurrent] at hdetached
      cases hdetached
  | cons k rest =>
      rw [hcurrent] at hdetached
      obtain ⟨hk, v, hv, hrest⟩ := hdetached
      cases hk
      cases hnode.symm.trans hv
      have hnodup := hlayout.nodup
      rw [hcurrent, List.cons_append, List.nodup_cons] at hnodup
      have hsame {r : Nat} (hr : r ∈ rest ++ listed) :
          Function.update q.heap n none r = q.heap r :=
        Function.update_of_ne (fun heq : r = n => hnodup.1 (heq ▸ hr)) _ _
      refine ⟨rest, rfl, ?_⟩
      constructor
      case list =>
        exact hlayout.list.congr fun r hr =>
          hsame (List.mem_append_right rest hr)
      case detached =>
        exact hrest.congr fun r hr => hsame (List.mem_append_left listed hr)
      case nodup => exact hnodup.2
      case fresh =>
        intro r e hr
        simp only [Function.update_apply] at hr
        split at hr
        · cases hr
        · exact hlayout.fresh hr
      case payload =>
        intro u x r hu
        obtain ⟨hr, hnot⟩ := hlayout.payload hu
        rw [hcurrent, List.cons_append, List.mem_cons, not_or] at hnot
        exact ⟨(Function.update_of_ne hnot.1 _ _).trans hr, hnot.2⟩
      case payload_inj => exact hlayout.payload_inj
      case tail => exact hlayout.tail
      case appended =>
        have happended := hlayout.appended
        rw [hcurrent, ← List.singleton_append, messages_append,
          messages_singleton hnode] at happended
        rw [messages_congr fun r hr => hsame (List.mem_append_left listed hr),
          messages_congr fun r hr => hsame (List.mem_append_right rest hr)]
        simpa using happended

end Layout

theorem StepCase.layout {q q' : MessageQueue T} (hcase : StepCase q q')
    (hexclusive : q.Exclusive) {current listed : List Nat}
    (hlayout : q.Layout current listed) :
    ∃ current' listed', q'.Layout current' listed' := by
  cases hcase with
  | empty => exact ⟨_, _, hlayout⟩
  | call t m hpoint hid =>
      have hgoto : (q.goto t (.called m)).Layout current listed :=
        hlayout.goto (Or.inl rfl) nofun
      exact ⟨_, _, { hgoto with }⟩
  | drop t m hpoint =>
      have hgoto : (q.goto t .idle).Layout current listed :=
        hlayout.goto (Or.inl rfl) nofun
      exact ⟨_, _, { hgoto with }⟩
  | copy t m hpoint => exact ⟨_, _, hlayout.copy⟩
  | lock t m p hpoint hfree =>
      have hgoto : (q.goto t (.walking m p .messageList)).Layout current
          listed := hlayout.goto (Or.inr (by rw [hpoint]; rfl)) nofun
      exact ⟨_, _, { hgoto with }⟩
  | walk t m p tail n hpoint hderef =>
      exact ⟨_, _, hlayout.walk hpoint hderef⟩
  | linkFirst t m p hpoint hnull =>
      exact ⟨_, _, hlayout.linkFirst hpoint hnull⟩
  | linkNext t m p n d hpoint hnode hnull =>
      exact ⟨_, _, hlayout.linkNext hpoint hnode hnull⟩
  | unlock t hpoint =>
      have hgoto : (q.goto t .unlocked).Layout current listed :=
        hlayout.goto (Or.inl rfl) nofun
      exact ⟨_, _, { hgoto with }⟩
  | asyncSend t hpoint =>
      have hgoto : (q.goto t .idle).Layout current listed :=
        hlayout.goto (Or.inl rfl) nofun
      exact ⟨_, _, { hgoto with }⟩
  | detach hpoint => exact ⟨_, _, hlayout.detach hexclusive hpoint⟩
  | deliver n d hpoint hnode =>
      obtain ⟨rest, _, hlayout'⟩ := hlayout.deliver hpoint hnode
      exact ⟨_, _, hlayout'⟩
  | wake hpoint hpending =>
      have hdetached := hlayout.detached
      rw [hpoint] at hdetached
      exact ⟨_, _, { hlayout with detached := hdetached }⟩
  | lockList hpoint hfree =>
      have hdetached := hlayout.detached
      rw [hpoint] at hdetached
      exact ⟨_, _, { hlayout with detached := hdetached }⟩
  | unlockList c hpoint =>
      have hdetached := hlayout.detached
      rw [hpoint] at hdetached
      exact ⟨_, _, { hlayout with detached := hdetached }⟩
  | finish hpoint =>
      have hdetached := hlayout.detached
      rw [hpoint] at hdetached
      exact ⟨_, _, { hlayout with detached := hdetached }⟩

end MessageQueue

end Appmetrics
