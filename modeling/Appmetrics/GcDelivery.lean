/-
Garbage collections from `afterGC` to the `gc` events: the agent sends the
lines in batches from one of its threads, among the messages of other threads,
through the queue of appmetrics.cpp, and `formatGC` takes the batches apart.
-/
import Appmetrics.GcBatches
import Appmetrics.MessageOrder

namespace Appmetrics

open StepMachine

/-! ## Ordered parts of a list -/

/-- A list that is ordered by a key like another one, and with each element
has all that come before it there, is a start of the other one. -/
theorem prefix_of_ordered {A : Type} {key : A → Nat} {part whole : List A}
    (hpart : part.Pairwise fun a b => key a < key b)
    (hwhole : whole.Pairwise fun a b => key a < key b)
    (hsub : ∀ a ∈ part, a ∈ whole)
    (hbefore : ∀ a ∈ whole, ∀ b ∈ part, key a < key b → a ∈ part) :
    part <+: whole := by
  induction part generalizing whole with
  | nil => exact List.nil_prefix
  | cons a part ih =>
      obtain ⟨hfirst, hrest⟩ := List.pairwise_cons.mp hpart
      cases whole with
      | nil => exact absurd (hsub a List.mem_cons_self) List.not_mem_nil
      | cons b whole =>
          obtain ⟨hleast, hlater⟩ := List.pairwise_cons.mp hwhole
          have heq : a = b := by
            rcases List.mem_cons.mp (hsub a List.mem_cons_self) with h | ha
            · exact h
            · -- else `b` would be in the part, and come before its first
              have hlt := hleast a ha
              rcases List.mem_cons.mp (hbefore b List.mem_cons_self a
                List.mem_cons_self hlt) with h | hb
              · exact h.symm
              · exact absurd (hfirst b hb) (Nat.lt_asymm hlt)
          subst heq
          refine List.cons_prefix_cons.mpr ⟨rfl, ih hrest hlater ?_ ?_⟩
          · intro c hc
            rcases List.mem_cons.mp (hsub c (List.mem_cons_of_mem a hc))
              with rfl | h
            · exact absurd (hfirst c hc) (Nat.lt_irrefl _)
            · exact h
          · intro c hc d hd hlt
            rcases List.mem_cons.mp (hbefore c (List.mem_cons_of_mem a hc) d
              (List.mem_cons_of_mem a hd) hlt) with rfl | h
            · exact absurd (hleast c hc) (Nat.lt_irrefl _)
            · exact h

namespace MessageQueue

variable {T : Type}

/-! ## The messages of one source -/

/-- The messages of this source that were not lost in a failed allocation. -/
def copied (q : MessageQueue T) (source : String) : List Message :=
  q.sent.filter fun m => m.source = source ∧ m ∉ q.dropped

theorem mem_copied {q : MessageQueue T} {source : String} {m : Message} :
    m ∈ q.copied source ↔ m ∈ q.sent ∧ m.source = source ∧ m ∉ q.dropped := by
  rw [copied, List.mem_filter, decide_eq_true_iff]

theorem Fifo.sent_ordered {senders : List T} {q : MessageQueue T}
    (hfifo : q.Fifo senders) :
    q.sent.Pairwise fun m₁ m₂ => m₁.id < m₂.id := by
  rw [← List.pairwise_map, hfifo.ids]
  exact List.pairwise_lt_range

/-- Of a source whose messages one thread sends, a start has been appended;
all of them, when the thread is in no call. -/
theorem Fifo.source_appended {senders : List T} {q : MessageQueue T} {t : T}
    {source : String} (hfifo : q.Fifo senders) (haccounted : q.Accounted)
    (hsender : ∀ m ∈ q.sent, m.source = source → senders[m.id]? = some t) :
    q.appended.filter (·.source = source) <+: q.copied source ∧
      ((q.producers t).message? = none →
        q.appended.filter (·.source = source) = q.copied source) := by
  have hpart : ∀ m ∈ q.appended.filter (·.source = source),
      m ∈ q.appended ∧ m.source = source := fun m hm => by
    rwa [List.mem_filter, decide_eq_true_iff] at hm
  have hcopied : ∀ m ∈ q.appended.filter (·.source = source),
      m ∈ q.copied source := fun m hm =>
    have happended := hpart m hm
    mem_copied.mpr ⟨haccounted.appended_sent m happended.1, happended.2,
      fun h => (haccounted.dropped_sent m h).2 happended.1⟩
  -- what is copied and not appended is carried, by the thread itself
  have hmissing : ∀ m ∈ q.copied source,
      m ∈ q.appended.filter (·.source = source) ∨
        (q.producers t).message? = some m := by
    intro m hm
    obtain ⟨hsent, hsource, hkept⟩ := mem_copied.mp hm
    rcases haccounted.kept m hsent with h | h | ⟨u, hu⟩
    · exact Or.inl (List.mem_filter.mpr ⟨h, decide_eq_true hsource⟩)
    · exact absurd h hkept
    · have hut : some u = some t :=
        (hfifo.carried hu).1.symm.trans (hsender m hsent hsource)
      exact Or.inr (Option.some.inj hut ▸ hu)
  have hordered : (q.appended.filter (·.source = source)).Pairwise
      fun m₁ m₂ => m₁.id < m₂.id := by
    refine (hfifo.order.filter _).imp_of_mem fun hx hy himp => himp ?_
    have hx' := hpart _ hx
    have hy' := hpart _ hy
    rw [hsender _ (haccounted.appended_sent _ hx'.1) hx'.2,
      hsender _ (haccounted.appended_sent _ hy'.1) hy'.2]
  have hstart : q.appended.filter (·.source = source) <+: q.copied source :=
    prefix_of_ordered hordered (hfifo.sent_ordered.filter _) hcopied
      fun m hm m' hm' hlt => (hmissing m hm).resolve_right fun hcarried => by
        have happended := hpart m' hm'
        exact (hfifo.carried hcarried).2 m'.id hlt
          (hsender m' (haccounted.appended_sent m' happended.1) happended.2)
  refine ⟨hstart, fun hidle => ?_⟩
  refine hstart.eq_of_length_le (List.Nodup.length_le_of_subset ?_ ?_)
  · exact (haccounted.sent_id.of_map).filter _
  · intro m hm
    exact (hmissing m hm).resolve_right fun h => by
      rw [hidle] at h
      cases h

end MessageQueue

/-! ## Collections -/

/-- One more line at the end of a batch. -/
theorem formatGC_concat {rs : List GCRecord} {r : GCRecord}
    (hrs : ∀ r ∈ rs, r.Writable) (hr : r.Writable) :
    formatGC ((rs ++ [r]).flatMap GCRecord.content) =
      rs.map GCRecord.event ++ [r.event] := by
  have hlines : ∀ l ∈ rs.map GCRecord.line, '\n' ∉ l := by
    intro l hl
    obtain ⟨r', hr', rfl⟩ := List.mem_map.mp hl
    exact GCRecord.not_mem_line (hrs r' hr')
  have hsplit := splitOn_lines hlines (GCRecord.not_mem_line hr)
  rw [List.flatMap_map] at hsplit
  rw [formatGC, jsTrim_gcLines]
  change ((rs.flatMap (fun r => r.line ++ ['\n']) ++ r.line).splitOn '\n').map
    gcEvent = _
  rw [hsplit, List.map_append, List.map_map, List.map_singleton,
    GCRecord.gcEvent_line hr]
  congr 1
  exact List.map_congr_left fun r' hr' => GCRecord.gcEvent_line (hrs r' hr')

/-- The events of a batch of collections. -/
theorem formatGC_afterGC {batch : List GCReading} (hne : batch ≠ [])
    (hbatch : ∀ r ∈ batch, r.record.Writable) :
    formatGC (batch.flatMap afterGC) =
      batch.map fun r => r.record.event := by
  obtain hnil | ⟨front, last, rfl⟩ := List.eq_nil_or_concat' batch
  · exact absurd hnil hne
  have hfront : ∀ r ∈ front.map GCReading.record, r.Writable := by
    intro r hr
    obtain ⟨reading, hreading, rfl⟩ := List.mem_map.mp hr
    exact hbatch reading (List.mem_append_left _ hreading)
  have hlast := hbatch last (List.mem_append_right _ List.mem_cons_self)
  have hconcat := formatGC_concat hfront hlast
  rw [← List.map_singleton, ← List.map_append, List.flatMap_map] at hconcat
  change formatGC ((front ++ [last]).flatMap afterGC) = _ at hconcat
  rw [hconcat, List.map_map, List.map_append]
  rfl

/-- The callback of `localConnect`, as far as `formatGC` goes; `toString`
reads the bytes of the buffer. -/
def hearGC (toString : List UInt8 → List Char) (events : List GCEvent)
    (m : Message) : List GCEvent :=
  if m.source = "gc_node" then events ++ formatGC (toString m.data)
  else events

theorem foldl_hearGC (toString : List UInt8 → List Char)
    (messages : List Message) (events : List GCEvent) :
    messages.foldl (hearGC toString) events = events ++
      (messages.filter (·.source = "gc_node")).flatMap
        fun m => formatGC (toString m.data) := by
  induction messages generalizing events with
  | nil => simp
  | cons m messages ih =>
      rw [List.foldl_cons, ih, hearGC]
      by_cases hsource : m.source = "gc_node"
      · simp [hsource]
      · simp [hsource]

/-- Over every interleaving of the threads with the event loop, if one thread
sends all batches of collections: the events that `formatGC` raises are those
of the collections in the batches that were delivered, each once and in order;
these are the first ones of those that were copied, and all of them when
nothing is on its way any more. -/
theorem gc_delivery {T : Type} [DecidableEq T]
    (toString : List UInt8 → List Char) (t : T)
    (batch : Message → List GCReading) {steps : List (QueueStep T)}
    {s : ListenedQueue T (List GCEvent)}
    (hrun : (listenedMachine T (hearGC toString) []).run
      (listenedMachine T (hearGC toString) []).init steps = some s)
    (hsender : ∀ m ∈ s.queue.sent, m.source = "gc_node" →
      (QueueStep.senders steps)[m.id]? = some t)
    (hbatch : ∀ m ∈ s.queue.sent, m.source = "gc_node" → batch m ≠ [] ∧
      (∀ r ∈ batch m, r.record.Writable) ∧
      toString m.data = (batch m).flatMap afterGC) :
    s.listener = ((s.queue.delivered.filter (·.source = "gc_node")).flatMap
        batch).map (fun r => r.record.event) ∧
      s.queue.delivered.filter (·.source = "gc_node") <+:
        s.queue.copied "gc_node" ∧
      (¬ s.queue.WakeUp → s.queue.consumer = .idle →
        (s.queue.producers t).message? = none →
        s.listener = ((s.queue.copied "gc_node").flatMap batch).map
          fun r => r.record.event) := by
  have hqueue := run_queue hrun
  have hconsistent := MessageQueue.consistent.run (guarded_true _ _) hqueue
  have haccounted := hconsistent.accounted
  have hheard := (listener_eq (hearGC toString) []).run (guarded_true _ _)
    hrun
  obtain ⟨hstart, hall⟩ := (MessageQueue.run_fifo hqueue).source_appended
    haccounted hsender
  -- each message is read as its batch
  have hread {messages : List Message}
      (hmessages : messages <+: s.queue.copied "gc_node") :
      (messages.flatMap fun m => formatGC (toString m.data)) =
        (messages.flatMap batch).map fun r => r.record.event := by
    rw [List.map_flatMap]
    refine List.flatMap_congr fun m hm => ?_
    obtain ⟨hsent, hsource, -⟩ :=
      MessageQueue.mem_copied.mp (hmessages.subset hm)
    obtain ⟨hne, hwritable, htext⟩ := hbatch m hsent hsource
    rw [htext, formatGC_afterGC hne hwritable]
  have hdelivered := (hconsistent.delivered_prefix.filter
    (·.source = "gc_node")).trans hstart
  rw [foldl_hearGC, List.nil_append, hread hdelivered] at hheard
  refine ⟨hheard, hdelivered, fun hquiet hidle hcarried => ?_⟩
  rw [hheard, hconsistent.all_delivered hquiet hidle, hall hcarried]

namespace GcDeliveryWitness

def scavenge : GCReading := ⟨.scavenge, true, 1000000, 3000000, 70, 48, 13⟩

def markSweep : GCReading :=
  ⟨.markSweepCompact, false, 5000000, 5000000, 90, 48, 11⟩

/-- The characters of a text that is ASCII, as bytes. -/
def bytes (text : List Char) : List UInt8 :=
  text.map fun c => UInt8.ofNat c.toNat

def ascii (data : List UInt8) : List Char :=
  data.map fun byte => Char.ofNat byte.toNat

/-- The batches that are sent below. -/
def batch (m : Message) : List GCReading :=
  if m.id = 0 then [scavenge, markSweep] else [scavenge]

/-- One thread sends two batches; another thread's message is appended between
the two, and the second batch is copied while the first one is delivered. -/
def twoBatches : List (QueueStep Bool) :=
  [.sendData true "gc_node" (bytes
      "NodeGCData,70,S,48,13,2\nNodeGCData,90,M,48,11,0\n".toList),
    .sendData false "memory" (bytes "MemorySource".toList),
    .copy true true, .lock true, .walk true, .unlock true, .asyncSend true,
    .copy false true, .lock false, .walk false, .walk false, .unlock false,
    .asyncSend false, .sendData true "gc_node" (bytes
      "NodeGCData,70,S,48,13,2\n".toList),
    .wake, .lockList, .detach, .unlockList, .copy true true, .deliver,
    .lock true, .deliver, .walk true, .unlock true, .finish, .asyncSend true,
    .wake, .lockList, .detach, .unlockList, .deliver, .finish]

theorem twoBatches_runs :
    ∃ s, (listenedMachine Bool (hearGC ascii) []).run
        (listenedMachine Bool (hearGC ascii) []).init twoBatches = some s ∧
      s.queue.sent =
        [⟨0, "gc_node", bytes ([scavenge, markSweep].flatMap afterGC)⟩,
          ⟨1, "memory", bytes "MemorySource".toList⟩,
          ⟨2, "gc_node", bytes ([scavenge].flatMap afterGC)⟩] ∧
      (s.queue.copied "gc_node").flatMap batch =
        [scavenge, markSweep, scavenge] ∧
      s.queue.pending = false ∧ s.queue.consumer = .idle ∧
      ∀ t, s.queue.producers t = .idle :=
  ⟨_, rfl, rfl, rfl, rfl, rfl, by decide⟩

theorem gc_delivery_twoBatches :
    ∃ s, (listenedMachine Bool (hearGC ascii) []).run
        (listenedMachine Bool (hearGC ascii) []).init twoBatches = some s ∧
      s.listener = [scavenge, markSweep, scavenge].map
        fun r => r.record.event := by
  obtain ⟨s, hrun, hsent, hcopied, hpending, hconsumer, hproducers⟩ :=
    twoBatches_runs
  have hwritable : ∀ r ∈ [scavenge, markSweep], r.record.Writable :=
    List.forall_mem_cons.mpr
      ⟨GCReading.record_writable (by decide) (by decide) (by decide),
        List.forall_mem_singleton.mpr
          (GCReading.record_writable (by decide) (by decide) (by decide))⟩
  have hsender : ∀ m ∈ s.queue.sent, m.source = "gc_node" →
      (QueueStep.senders twoBatches)[m.id]? = some true := by
    rw [hsent]
    simp only [List.forall_mem_cons]
    exact ⟨fun _ => rfl, fun h => absurd h (by decide), fun _ => rfl,
      fun _ h => absurd h List.not_mem_nil⟩
  have hbatch : ∀ m ∈ s.queue.sent, m.source = "gc_node" → batch m ≠ [] ∧
      (∀ r ∈ batch m, r.record.Writable) ∧
      ascii m.data = (batch m).flatMap afterGC := by
    rw [hsent]
    simp only [List.forall_mem_cons]
    exact ⟨fun _ => ⟨List.cons_ne_nil _ _, hwritable, rfl⟩,
      fun h => absurd h (by decide),
      fun _ => ⟨List.cons_ne_nil _ _,
        List.forall_mem_singleton.mpr (hwritable _ List.mem_cons_self), rfl⟩,
      fun _ h => absurd h List.not_mem_nil⟩
  have hquiet : ¬ s.queue.WakeUp := by
    rintro (h | ⟨t, h⟩ | h)
    · rw [hpending] at h
      cases h
    · rw [hproducers t] at h
      cases h
    · rw [hconsumer] at h
      cases h
  refine ⟨s, hrun, ?_⟩
  rw [← hcopied]
  exact (gc_delivery ascii true batch hrun hsender hbatch).2.2 hquiet
    hconsumer (by rw [hproducers true]; rfl)

end GcDeliveryWitness

end Appmetrics
