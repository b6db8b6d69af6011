/-
Repeated `require` of a module.  A probe whose marker is found again keeps one
layer on every method it instruments; the one that leaves no marker adds a
layer each time, and three return nothing once they find theirs.
-/
import Mathlib.Data.List.Sort
import Mathlib.Data.String.Basic
import Appmetrics.Attach

namespace Appmetrics

open Wrapping

/-! ## The names of a probe's methods -/

namespace Attach

theorem map_fst_on (target : String) (meths : List String) (l : Wrapper) :
    (on target meths l).map Prod.fst = meths.map (target, ·) := by
  rw [on, List.map_map]
  rfl

theorem nodup_on {target : String} {meths : List String} {l : Wrapper}
    (hmeths : meths.Nodup) : ((on target meths l).map Prod.fst).Nodup := by
  rw [map_fst_on]
  exact hmeths.map fun _ _ heq => (Prod.mk.inj heq).2

theorem once_on {target : String} {meths : List String} {l : Wrapper}
    (hl : l.Once) : ∀ nl ∈ on target meths l, nl.2.Once := by
  intro nl hmem
  obtain ⟨m, _, rfl⟩ := List.mem_map.mp hmem
  exact hl

theorem once_starting : starting.Once := .start _

theorem once_startingOn (event : String) : (startingOn event).Once := .start _

theorem once_advising {methods : List (Method × Wrapper)}
    (hnodup : (methods.map Prod.fst).Nodup)
    (honce : ∀ nl ∈ methods, nl.2.Once) : (advising methods).Once :=
  .advise (fun _ => hnodup) fun _ => honce

theorem once_advisingNew {marker : String} {methods : List (Method × Wrapper)}
    (hnodup : (methods.map Prod.fst).Nodup)
    (honce : ∀ nl ∈ methods, nl.2.Once) : (advisingNew marker methods).Once :=
  .advise (fun _ => hnodup) fun _ => honce

theorem once_advisingOn {event marker : String}
    {methods : List (Method × Wrapper)}
    (hnodup : (methods.map Prod.fst).Nodup)
    (honce : ∀ nl ∈ methods, nl.2.Once) :
    (advisingOn event marker methods).Once := by
  apply Layer.Once.advise
  · intro a
    split
    · exact hnodup
    · exact List.nodup_nil
  · intro a
    split
    · exact honce
    · intro nl hmem
      cases hmem

/-- Nearly every hook of an advice starts operations on methods of one
object. -/
theorem once_advising_on {target : String} {meths : List String} {l : Wrapper}
    (hmeths : meths.Nodup) (hl : l.Once) :
    (advising (on target meths l)).Once :=
  once_advising (nodup_on hmeths) (once_on hl)

theorem forall_mem_append {P : Method × Wrapper → Prop}
    {xs ys : List (Method × Wrapper)} (hxs : ∀ nl ∈ xs, P nl)
    (hys : ∀ nl ∈ ys, P nl) : ∀ nl ∈ xs ++ ys, P nl := by
  intro nl hmem
  rcases List.mem_append.mp hmem with hmem | hmem
  · exact hxs nl hmem
  · exact hys nl hmem

theorem once_onConnection : onConnection.Once := by
  apply Layer.Once.advise
  · intro event
    split
    · decide
    · exact List.nodup_nil
  · intro event
    split
    · exact forall_mem_append (once_on once_starting) (once_on once_starting)
    · intro nl hmem
      cases hmem

end Attach

namespace Redis

/-- A name in upper case. -/
def IsUpper (s : String) : Prop := s.toList ≠ [] ∧ s.toList.all Char.isUpper

instance (s : String) : Decidable (IsUpper s) := instDecidableAnd

theorem isUpper_iff {c : Char} :
    c.isUpper = true ↔ c.val ≥ 'A'.val ∧ c.val ≤ 'Z'.val :=
  decide_eq_true_iff

theorem val_toLower (c : Char) :
    c.toLower.val =
      if c.isUpper then c.val + ('a'.val - 'A'.val) else c.val := by
  by_cases h : c.val ≥ 'A'.val ∧ c.val ≤ 'Z'.val
  · rw [if_pos (isUpper_iff.mpr h)]
    exact congrArg Char.val (dif_pos h)
  · rw [if_neg fun hc => h (isUpper_iff.mp hc)]
    exact congrArg Char.val (dif_neg h)

theorem toList_toLower (s : String) :
    s.toLower.toList = s.toList.map Char.toLower :=
  String.toList_map

theorem char_toLower_isUpper (c : Char) : c.toLower.isUpper = false := by
  rw [← Bool.not_eq_true, isUpper_iff, val_toLower]
  by_cases hc : c.isUpper = true
  · have hbounds := isUpper_iff.mp hc
    rw [if_pos hc]
    grind
  · rw [if_neg hc, ← isUpper_iff]
    exact hc

theorem char_toLower_inj {c d : Char} (hc : c.isUpper = true)
    (hd : d.isUpper = true) (heq : c.toLower = d.toLower) : c = d := by
  have hval := congrArg Char.val heq
  rw [val_toLower, val_toLower, if_pos hc, if_pos hd] at hval
  exact Char.ext ((UInt32.add_left_inj _).mp hval)

theorem map_toLower_inj {cs ds : List Char} (hcs : cs.all Char.isUpper)
    (hds : ds.all Char.isUpper)
    (heq : cs.map Char.toLower = ds.map Char.toLower) : cs = ds := by
  induction cs generalizing ds with
  | nil => exact (List.map_eq_nil_iff.mp heq.symm).symm
  | cons c cs ih =>
      cases ds with
      | nil => cases heq
      | cons d ds =>
          rw [List.all_cons, Bool.and_eq_true] at hcs hds
          obtain ⟨hhead, htail⟩ := List.cons.inj heq
          rw [char_toLower_inj hcs.1 hds.1 hhead, ih hcs.2 hds.2 htail]

theorem not_isUpper_toLower (s : String) : ¬IsUpper s.toLower := by
  rintro ⟨hne, hall⟩
  rw [toList_toLower] at hne hall
  obtain ⟨c, cs, hcs⟩ := List.exists_cons_of_ne_nil hne
  obtain ⟨d, _, rfl⟩ :=
    List.mem_map.mp (hcs ▸ List.mem_cons_self : c ∈ s.toList.map Char.toLower)
  rw [hcs, List.all_cons, char_toLower_isUpper] at hall
  cases hall

theorem toLower_injOn {s t : String} (hs : IsUpper s) (ht : IsUpper t)
    (heq : s.toLower = t.toLower) : s = t := by
  have hlists := congrArg String.toList heq
  rw [toList_toLower, toList_toLower] at hlists
  exact String.toList_inj.mp (map_toLower_inj hs.2 ht.2 hlists)

/-- Names in upper case, with each one in lower case as well. -/
theorem nodup_both_cases {names : List String} (hnodup : names.Nodup)
    (hupper : ∀ s ∈ names, IsUpper s) :
    (names.flatMap fun m => [m, m.toLower]).Nodup := by
  have hne {s t : String} (hs : IsUpper s) : s ≠ t.toLower := by
    rintro rfl
    exact not_isUpper_toLower t hs
  rw [List.nodup_flatMap]
  constructor
  · intro s hs
    simp [hne (hupper s hs)]
  · apply hnodup.imp_of_mem
    intro s t hs ht hst
    have hlower : s.toLower ≠ t.toLower := fun heq =>
      hst (toLower_injOn (hupper s hs) (hupper t ht) heq)
    simp [Function.onFun, hst.symm, hlower.symm, hne (hupper t ht),
      (hne (hupper s hs)).symm]

theorem nodup_all_methods : (methods ++ multiMethods).Nodup := by
  have hupper : ∀ s ∈ commands ++ ["MULTI", "BATCH"], IsUpper s := by
    decide +kernel
  -- in order, each name is compared with the next one only
  have hsorted : ((commands ++ ["MULTI", "BATCH"]).insertionSort
      (· ≤ ·)).IsChain (· < ·) := by
    decide +kernel
  have hnodup : (commands ++ ["MULTI", "BATCH"]).Nodup := by
    rw [← (List.perm_insertionSort (· ≤ ·) _).nodup_iff]
    exact hsorted.pairwise.imp fun h => ne_of_lt h
  have hboth := nodup_both_cases hnodup hupper
  rw [List.flatMap_append] at hboth
  apply (List.Perm.append_left methods ?_).nodup_iff.mp hboth
  decide +kernel

end Redis

/-! ## The first `require` and the later ones -/

theorem marks_mark {N M A : Type} [DecidableEq M] (h : Handle N M A)
    (m m' : M) : (h.mark m).marks m' = (decide (m' = m) || h.marks m') := by
  by_cases hm : m' = m
  · subst hm
    simp [Handle.mark]
  · simp [Handle.mark, hm]

theorem aspect_aspect (h : Module) (xs ys : List (Method × Wrapper)) :
    (h.aspect xs).aspect ys = h.aspect (xs ++ ys) :=
  List.foldl_append.symm

namespace Module

/-- A module that no probe has seen. -/
def fresh : Module := Handle.blank

@[simp] theorem fresh_marks (m : String) : fresh.marks m = false := rfl

/-- Only http and https are the names of two probes. -/
theorem require_eq (node : Nat) {p : ProbeKind}
    (hp : p.name ≠ "http" ∧ p.name ≠ "https") (target : Module) :
    require node p.name target =
      if target.marks "__ddProbeAttached__" then (.cached, target)
      else p.attach node p.name target := by
  cases p with
  | httpOutbound | http | httpsOutbound | https => simp [ProbeKind.name] at hp
  | _ =>
      simp only [require, attachAll, ProbeKind.all, ProbeKind.name,
        String.reduceEq, ↓reduceIte]
      generalize ProbeKind.attach node _ _ target = attached
      rcases attached with ⟨_ | _ | _, _⟩ <;> rfl

/-- http-outbound comes first in the directory. -/
theorem require_http (node : Nat) (target : Module) :
    require node "http" target =
      if target.marks "__ddProbeAttached__" then (.cached, target)
      else
        Attach.server "http" "__httpProbe__" "http"
          (Attach.outbound "http" (Attach.outboundMethods node 8) "http"
            target).2 := by
  simp only [require, attachAll, ProbeKind.all, ProbeKind.name,
    String.reduceEq, ↓reduceIte, ProbeKind.attach, Attach.outbound,
    Attach.server]
  split_ifs <;> simp_all

theorem require_https (node : Nat) (target : Module) :
    require node "https" target =
      if target.marks "__ddProbeAttached__" then (.cached, target)
      else
        Attach.server "https" "__httpsProbe__" "https"
          (Attach.outbound "https" (Attach.outboundMethods node 9) "https"
            target).2 := by
  simp only [require, attachAll, ProbeKind.all, ProbeKind.name,
    String.reduceEq, ↓reduceIte, ProbeKind.attach, Attach.outbound,
    Attach.server]
  split_ifs <;> simp_all

/-- The module object after one `require`. -/
def settled (node : Nat) (p : ProbeKind) : Module :=
  (require node p.name fresh).2

/-- What the first `require` gives the application. -/
def instrumentation (node : Nat) (p : ProbeKind) : Module :=
  ((settled node p).view (require node p.name fresh).1).getD fresh

end Module

/-- The probes that return nothing when they find their marker. -/
def ProbeKind.Forgetful (p : ProbeKind) : Prop :=
  p ∈ [mqlight, oracle, strongOracle]

instance (p : ProbeKind) : Decidable p.Forgetful :=
  inferInstanceAs (Decidable (p ∈ _))

namespace Module

theorem view_first (node : Nat) (p : ProbeKind) :
    (settled node p).view (require node p.name fresh).1 =
      some (instrumentation node p) := by
  rw [instrumentation]
  cases p with
  | httpOutbound | http | https | httpsOutbound =>
      simp [ProbeKind.name, require_http, require_https, Attach.outbound,
        Attach.server, marks_mark, view]
  | _ =>
      rw [require_eq _ (by simp [ProbeKind.name])]
      simp [ProbeKind.attach, ProbeKind.name, Attach.axon, Attach.riak,
        Attach.leveldown, Attach.loopback, Attach.memcached, Attach.mongo,
        Attach.mqlight, Attach.mqtt, Attach.mysql, Attach.oracle,
        Attach.oracledb, Attach.postgres, Attach.redis, Attach.socketio,
        Attach.strongExpressMetrics, Attach.strongMq, Attach.strongOracle,
        view]

/-- From the second `require` on nothing changes. -/
theorem require_settled (node : Nat) {p : ProbeKind} (hp : p ≠ .loopback) :
    (require node p.name (settled node p)).2 = settled node p := by
  cases p with
  | loopback => contradiction
  | httpOutbound | http | https | httpsOutbound =>
      simp [settled, ProbeKind.name, require_http, require_https,
        Attach.outbound, Attach.server, marks_mark]
  | _ =>
      rw [settled, require_eq _ (by simp [ProbeKind.name]),
        require_eq _ (by simp [ProbeKind.name])]
      simp [ProbeKind.attach, ProbeKind.name, Attach.axon, Attach.riak,
        Attach.leveldown, Attach.memcached, Attach.mongo, Attach.mqlight,
        Attach.mqtt, Attach.mysql, Attach.oracle, Attach.oracledb,
        Attach.postgres, Attach.redis, Attach.socketio,
        Attach.strongExpressMetrics, Attach.strongMq, Attach.strongOracle,
        marks_mark]

/-- The layers that the later ones give the application. -/
theorem view_later (node : Nat) {p : ProbeKind} (hp : p ≠ .loopback) :
    ((settled node p).view (require node p.name (settled node p)).1).map
        Handle.layers =
      if p.Forgetful then none else some (instrumentation node p).layers := by
  cases p with
  | loopback => contradiction
  | httpOutbound | http | https | httpsOutbound =>
      simp [instrumentation, settled, ProbeKind.name, require_http,
        require_https, Attach.outbound, Attach.server, marks_mark,
        ProbeKind.Forgetful, view]
  | socketio =>
      rw [instrumentation, settled, require_eq _ (by simp [ProbeKind.name]),
        require_eq _ (by simp [ProbeKind.name])]
      simp only [ProbeKind.attach, ProbeKind.name, Attach.socketio]
      rfl
  | _ =>
      rw [instrumentation, settled, require_eq _ (by simp [ProbeKind.name]),
        require_eq _ (by simp [ProbeKind.name])]
      simp [ProbeKind.attach, ProbeKind.name, Attach.axon, Attach.riak,
        Attach.leveldown, Attach.memcached, Attach.mongo, Attach.mqlight,
        Attach.mqtt, Attach.mysql, Attach.oracle, Attach.oracledb,
        Attach.postgres, Attach.redis, Attach.strongExpressMetrics,
        Attach.strongMq, Attach.strongOracle, marks_mark,
        ProbeKind.Forgetful, view]

/-! ## One layer on every method -/

theorem mark_aspect (h : Module) (m : String)
    (methods : List (Method × Wrapper)) :
    (h.aspect methods).mark m = (h.mark m).aspect methods := by
  induction methods generalizing h with
  | nil => rfl
  | cons nl methods ih => exact ih (h.wrap nl.1 nl.2)

theorem once_attach {h : Module} {methods : List (Method × Wrapper)}
    (hh : ∀ n, h.layers n = []) (hnodup : (methods.map Prod.fst).Nodup)
    (honce : ∀ nl ∈ methods, nl.2.Once) : (h.aspect methods).Once :=
  Handle.Once.aspect (fun n => Or.inl (hh n)) hnodup honce fun n _ => hh n

/-- A wrapper over an instrumented module. -/
theorem once_view_wrapper {target own : Module}
    (wrapped methods : List (Method × Wrapper))
    (htarget : target.layers = (fresh.aspect wrapped).layers)
    (hown : own.layers = (fresh.aspect methods).layers)
    (hnodup : ((wrapped ++ methods).map Prod.fst).Nodup)
    (honce : ∀ nl ∈ wrapped ++ methods, nl.2.Once) :
    Handle.Once
      ({ own with layers := fun n => own.layers n ++ target.layers n } :
        Module) := by
  have hall : (fresh.aspect (wrapped ++ methods)).Once :=
    once_attach (fun _ => rfl) hnodup honce
  apply hall.of_layers_eq
  funext n
  rw [← aspect_aspect, Handle.aspect_layers_append _ methods, hown, htarget]
  rfl

open Attach in
/-- http and https, with the outbound probe of the same name. -/
theorem once_http (node : Nat) (module marker : String) (own : Nat)
    (hne : module ≠ "Server.prototype") (h : Module)
    (hh : ∀ n, h.layers n = []) :
    (h.aspect (on module (outboundMethods node own) starting ++
      on "Server.prototype" listenMethods
        (advisingOn "request" marker
          (on "server" ["request"] starting)))).Once := by
  have houtbound : (outboundMethods node own).Nodup := by
    rw [outboundMethods]
    split <;> decide
  apply once_attach hh
  · rw [List.map_append, List.nodup_append]
    refine ⟨nodup_on houtbound, nodup_on (by decide), ?_⟩
    simp [map_fst_on, hne]
  · exact forall_mem_append (once_on once_starting)
      (once_on (once_advisingOn (nodup_on (by decide))
        (once_on once_starting)))

theorem instrumentation_eq (node : Nat) {p : ProbeKind}
    (hp : p.name ≠ "http" ∧ p.name ≠ "https") :
    instrumentation node p =
      (((p.attach node p.name fresh).2).view
        (p.attach node p.name fresh).1).getD fresh := by
  rw [instrumentation, settled, require_eq node hp]
  rfl

section

open Attach

theorem once_axon (node : Nat) : (instrumentation node .axon).Once := by
  rw [instrumentation_eq _ (by decide)]
  apply once_attach (fun _ => rfl) (nodup_on (by decide))
  apply once_on
  apply Layer.Once.advise
  · intro socketType
    cases sendTypeToMethod socketType with
    | some method => exact nodup_on (List.nodup_singleton method)
    | none => exact nodup_on (by decide)
  · intro socketType
    cases sendTypeToMethod socketType with
    | some method => exact once_on once_starting
    | none => exact once_on once_starting

theorem once_riak (node : Nat) : (instrumentation node .riak).Once := by
  rw [instrumentation_eq _ (by decide)]
  apply once_attach (fun _ => rfl) (nodup_on (by decide))
  exact once_on (once_advising_on (by decide +kernel) once_starting)

theorem once_leveldown (node : Nat) :
    (instrumentation node .leveldown).Once := by
  rw [instrumentation_eq _ (by decide)]
  apply once_view_wrapper []
    [(("", "()"), advising (on "db" Leveldown.methods starting))] rfl rfl
    (by decide)
  intro nl hmem
  cases List.mem_singleton.mp hmem
  exact once_advising_on (by decide) once_starting

theorem once_loopback (node : Nat) : (instrumentation node .loopback).Once := by
  rw [instrumentation_eq _ (by decide)]
  refine Handle.Once.of_layers_eq (once_attach (fun _ => rfl) ?_ ?_)
    (congrArg Handle.layers (aspect_aspect fresh _ _))
  · decide +kernel
  · exact forall_mem_append (once_on once_starting) (once_on once_starting)

theorem once_memcached (node : Nat) :
    (instrumentation node .memcached).Once := by
  rw [instrumentation_eq _ (by decide)]
  exact once_attach (fun _ => rfl) (nodup_on (by decide +kernel))
    (once_on once_starting)

theorem once_mongo (node : Nat) : (instrumentation node .mongo).Once := by
  rw [instrumentation_eq _ (by decide)]
  refine Handle.Once.of_layers_eq (once_attach (fun _ => rfl) ?_ ?_)
    (congrArg Handle.layers (aspect_aspect _ _ _))
  · decide +kernel
  · exact forall_mem_append (once_on once_starting) (once_on once_starting)

theorem once_mqlight (node : Nat) : (instrumentation node .mqlight).Once := by
  rw [instrumentation_eq _ (by decide)]
  apply once_attach (fun _ => rfl) (nodup_on (by decide))
  apply once_on
  exact once_advising (by decide) (forall_mem_append (once_on once_starting)
    (once_on (once_startingOn _)))

theorem once_mqtt (node : Nat) : (instrumentation node .mqtt).Once := by
  rw [instrumentation_eq _ (by decide)]
  apply once_attach (fun _ => rfl) (nodup_on (by decide))
  apply once_on
  exact once_advising (by decide) (forall_mem_append (once_on once_starting)
    (once_on (once_startingOn _)))

theorem once_mysql (node : Nat) : (instrumentation node .mysql).Once := by
  rw [instrumentation_eq _ (by decide)]
  exact once_attach (fun _ => rfl) (nodup_on (by decide))
    (once_on (once_advising_on (by decide) once_starting))

theorem once_oracle (node : Nat) : (instrumentation node .oracle).Once := by
  rw [instrumentation_eq _ (by decide)]
  exact once_attach (fun _ => rfl) (nodup_on (by decide))
    (once_on (once_advising_on (by decide) once_starting))

theorem once_oracledb (node : Nat) : (instrumentation node .oracledb).Once := by
  rw [instrumentation_eq _ (by decide)]
  apply once_attach (fun _ => rfl) (by decide)
  exact forall_mem_append
    (once_on (once_advising_on (by decide) once_starting))
    (once_on (once_advising_on (by decide)
      (once_advisingNew (by decide) (once_on once_starting))))

theorem once_postgres (node : Nat) : (instrumentation node .postgres).Once := by
  rw [instrumentation_eq _ (by decide)]
  apply once_attach (fun _ => rfl) (by decide)
  exact forall_mem_append
    (once_on (once_advisingNew (by decide) (once_on once_starting)))
    (once_on (once_advising_on (by decide)
      (once_advising_on (by decide) once_starting)))

theorem once_redis (node : Nat) : (instrumentation node .redis).Once := by
  rw [instrumentation_eq _ (by decide)]
  refine Handle.Once.of_layers_eq (once_attach (fun _ => rfl) ?_ ?_)
    (congrArg Handle.layers (aspect_aspect _ _ _))
  · rw [List.map_append, map_fst_on, map_fst_on, ← List.map_append]
    exact Redis.nodup_all_methods.map fun _ _ heq => (Prod.mk.inj heq).2
  · exact forall_mem_append (once_on once_starting)
      (once_on (once_advising_on (by decide) once_starting))

theorem once_socketio (node : Nat) : (instrumentation node .socketio).Once := by
  rw [instrumentation_eq _ (by decide)]
  apply once_view_wrapper
    (on "socket.io.prototype" listenMethods onConnection)
    [(("", "()"), advising sockets), (("", "listen"), advising sockets)]
    (Handle.aspect_layers_congr (Handle.mark_layers _ _) _) rfl (by decide)
  have hsockets : (advising sockets).Once :=
    once_advising_on (by decide) once_starting
  apply forall_mem_append (once_on once_onConnection)
  simp [hsockets]

theorem once_strongExpressMetrics (node : Nat) :
    (instrumentation node .strongExpressMetrics).Once := by
  rw [instrumentation_eq _ (by decide)]
  exact fun _ => Or.inl rfl

theorem once_strongMq (node : Nat) : (instrumentation node .strongMq).Once := by
  rw [instrumentation_eq _ (by decide)]
  apply once_attach (fun _ => rfl) (nodup_on (by decide))
  apply once_on
  exact once_advising (by decide) (forall_mem_append
    (once_on (once_advising_on (by decide) once_starting))
    (once_on (once_advising_on (by decide) once_starting)))

theorem once_strongOracle (node : Nat) :
    (instrumentation node .strongOracle).Once := by
  rw [instrumentation_eq _ (by decide)]
  apply once_view_wrapper [] [(("", "()"), advising (on "oracle"
    ["connect"] (advisingNew "__appmetricsProbeAttached__"
      (on "connection" ["execute"] starting))))] rfl rfl (by decide)
  intro nl hmem
  cases List.mem_singleton.mp hmem
  exact once_advising_on (by decide)
    (once_advisingNew (by decide) (once_on once_starting))

theorem once_instrumentation (node : Nat) (p : ProbeKind) :
    (instrumentation node p).Once := by
  cases p with
  | httpOutbound | http =>
      apply Handle.Once.of_layers_eq (once_http node "http" "__httpProbe__" 8
        (by decide) fresh fun _ => rfl)
      simp [instrumentation, settled, ProbeKind.name, require_http, outbound,
        server, marks_mark, view, mark_aspect, aspect_aspect]
      apply Handle.aspect_layers_congr
      rfl
  | httpsOutbound | https =>
      apply Handle.Once.of_layers_eq (once_http node "https"
        "__httpsProbe__" 9 (by decide) fresh fun _ => rfl)
      simp [instrumentation, settled, ProbeKind.name, require_https, outbound,
        server, marks_mark, view, mark_aspect, aspect_aspect]
      apply Handle.aspect_layers_congr
      rfl
  | axon => exact once_axon node
  | riak => exact once_riak node
  | leveldown => exact once_leveldown node
  | loopback => exact once_loopback node
  | memcached => exact once_memcached node
  | mongo => exact once_mongo node
  | mqlight => exact once_mqlight node
  | mqtt => exact once_mqtt node
  | mysql => exact once_mysql node
  | oracle => exact once_oracle node
  | oracledb => exact once_oracledb node
  | postgres => exact once_postgres node
  | redis => exact once_redis node
  | socketio => exact once_socketio node
  | strongExpressMetrics => exact once_strongExpressMetrics node
  | strongMq => exact once_strongMq node
  | strongOracle => exact once_strongOracle node

end

/-! ## Any number of calls -/

theorem requires_succ (node : Nat) (name : String) (n : Nat)
    (target : Module) :
    requires node name (n + 1) target =
      ((require node name target).1 ::
          (requires node name n (require node name target).2).1,
        (requires node name n (require node name target).2).2) := rfl

theorem requires_of_settled {node : Nat} {name : String} {target : Module}
    {ret : Returned} (hsettled : require node name target = (ret, target))
    (n : Nat) :
    requires node name n target = (List.replicate n ret, target) := by
  induction n with
  | zero => rfl
  | succ n ih => rw [requires_succ, hsettled, ih, List.replicate_succ]

theorem requires_succ_fresh (node : Nat) {p : ProbeKind} (hp : p ≠ .loopback)
    (n : Nat) :
    requires node p.name (n + 1) fresh =
      ((require node p.name fresh).1 ::
        List.replicate n (require node p.name (settled node p)).1,
        settled node p) := by
  have hsettled : require node p.name (settled node p) =
      ((require node p.name (settled node p)).1, settled node p) :=
    Prod.ext rfl (require_settled node hp)
  rw [requires_succ]
  change (_ :: (requires node p.name n (settled node p)).1,
    (requires node p.name n (settled node p)).2) = _
  rw [requires_of_settled hsettled n]

/-- What each `require` of loopback-datasource-juggler wraps. -/
def loopbackMethods : List (Method × Wrapper) :=
  Attach.on "DataAccessObject" Loopback.commands Attach.starting ++
    Attach.on "DataAccessObject.prototype" Loopback.instanceCommands
      Attach.starting

theorem require_loopback (node : Nat) {target : Module}
    (hunmarked : target.marks "__ddProbeAttached__" = false) :
    require node "loopback-datasource-juggler" target =
      (.cached, target.aspect loopbackMethods) := by
  have heq := require_eq node (p := .loopback) (by decide) target
  rw [hunmarked] at heq
  refine heq.trans ?_
  simp [ProbeKind.attach, ProbeKind.name, Attach.loopback, hunmarked,
    aspect_aspect, loopbackMethods]

theorem requires_loopback (node n : Nat) (target : Module)
    (hunmarked : target.marks "__ddProbeAttached__" = false) :
    requires node "loopback-datasource-juggler" n target =
      (List.replicate n .cached,
        (fun o : Module => o.aspect loopbackMethods)^[n] target) := by
  induction n generalizing target with
  | zero => rfl
  | succ n ih =>
      have hrest : (target.aspect loopbackMethods).marks
          "__ddProbeAttached__" = false := by
        rw [Handle.aspect_marks]
        exact hunmarked
      rw [requires_succ, require_loopback node hunmarked, ih _ hrest,
        List.replicate_succ, Function.iterate_succ_apply]

/-- Each of the `n` calls returns a module, and a call of an instrumented
method through any of them runs each start hook once. -/
def AttachedOnce (node : Nat) (p : ProbeKind) (n : Nat)
    (path : List (Wrapping.Call Method String)) (method : Method)
    (argument : String) : Prop :=
  ∀ ret ∈ (requires node p.name n fresh).1,
    ∃ h, view (requires node p.name n fresh).2 ret = some h ∧
      ((instrumentation node p).Instrumented path method argument →
        h.starts path method argument = 1)

theorem loopback_attachedOnce_iff (node n : Nat)
    (path : List (Wrapping.Call Method String)) (method : Method)
    (argument : String) :
    AttachedOnce node .loopback (n + 1) path method argument ↔
      ((instrumentation node .loopback).Instrumented path method argument →
        n = 0 ∧ (instrumentation node .loopback).HandedOutOnce path) := by
  have hlayers : (instrumentation node .loopback).layers =
      (fresh.aspect loopbackMethods).layers := by
    rw [instrumentation_eq node (by decide)]
    exact congrArg Handle.layers (aspect_aspect fresh _ _)
  have hcopies : (instrumentation node .loopback).Copies (n + 1)
      ((fun o : Module => o.aspect loopbackMethods)^[n + 1] fresh) := by
    intro m
    rw [hlayers]
    exact Handle.aspect_iterate_copies fresh (by decide +kernel)
      (fun _ => rfl) (n + 1) m
  have hnever : ¬(instrumentation node .loopback).MarksLater path := by
    apply Handle.not_marksLater_of_starting
    intro m l hl
    rw [hlayers] at hl
    by_cases hm : m ∈ loopbackMethods.map Prod.fst
    · obtain ⟨⟨_, l'⟩, hmem, rfl⟩ := List.mem_map.mp hm
      rw [Handle.aspect_layers_of_mem (by decide +kernel) hmem] at hl
      have hstarting : l' = Attach.starting := by
        rcases List.mem_append.mp hmem with hmem | hmem <;>
          · obtain ⟨_, _, heq⟩ := List.mem_map.mp hmem
            exact (Prod.mk.inj heq).2.symm
      cases List.mem_singleton.mp hl
      exact ⟨_, hstarting⟩
    · rw [Handle.aspect_layers_of_notMem hm] at hl
      cases hl
  have hstarts (hinstrumented :
      (instrumentation node .loopback).Instrumented path method argument) :=
    Handle.starts_eq_one_iff (once_instrumentation node .loopback) hcopies
      hinstrumented
  have hrequires := requires_loopback node (n + 1) fresh rfl
  rw [AttachedOnce]
  simp only [ProbeKind.name, hrequires, List.mem_replicate, view]
  constructor
  · intro hall hinstrumented
    obtain ⟨h, hview, hone⟩ := hall .cached ⟨Nat.succ_ne_zero n, rfl⟩
    cases Option.some.inj hview
    have hright := (hstarts hinstrumented).mp (hone hinstrumented)
    exact ⟨hright.1.resolve_right hnever, hright.2⟩
  · rintro himp _ ⟨_, rfl⟩
    refine ⟨_, rfl, fun hinstrumented => ?_⟩
    obtain ⟨hn, hhanded⟩ := himp hinstrumented
    exact (hstarts hinstrumented).mpr ⟨Or.inl hn, hhanded⟩

theorem settled_attachedOnce_iff (node : Nat) {p : ProbeKind}
    (hp : p ≠ .loopback) (n : Nat) (path : List (Wrapping.Call Method String))
    (method : Method) (argument : String) :
    AttachedOnce node p (n + 1) path method argument ↔
      (n = 0 ∨ ¬p.Forgetful) ∧
        ((instrumentation node p).Instrumented path method argument →
          (instrumentation node p).HandedOutOnce path) := by
  have hstarts {h : Module} (hlayers : h.layers =
      (instrumentation node p).layers) (hinstrumented :
      (instrumentation node p).Instrumented path method argument) :
      h.starts path method argument = 1 ↔
        (instrumentation node p).HandedOutOnce path := by
    have hcopies := (instrumentation node p).copies_one.of_layers_eq hlayers
    rw [Handle.starts_eq_one_iff (once_instrumentation node p) hcopies
      hinstrumented]
    simp
  have hlater := view_later node hp
  rw [AttachedOnce, requires_succ_fresh node hp]
  simp only [List.forall_mem_cons, view_first]
  constructor
  · rintro ⟨⟨h, hview, hone⟩, hrest⟩
    cases Option.some.inj hview
    refine ⟨?_, fun hinstrumented =>
      (hstarts rfl hinstrumented).mp (hone hinstrumented)⟩
    by_contra hno
    rw [not_or, not_not] at hno
    obtain ⟨h, hview, _⟩ := hrest _
      (List.mem_replicate.mpr ⟨hno.1, rfl⟩)
    rw [hview, if_pos hno.2] at hlater
    cases hlater
  · rintro ⟨hdefined, himp⟩
    refine ⟨⟨_, rfl, fun hinstrumented =>
      (hstarts rfl hinstrumented).mpr (himp hinstrumented)⟩, ?_⟩
    intro ret hret
    obtain ⟨hn, rfl⟩ := List.mem_replicate.mp hret
    rw [if_neg (hdefined.resolve_left hn)] at hlater
    obtain ⟨h, hview, hlayers⟩ := Option.map_eq_some_iff.mp hlater
    exact ⟨h, hview, fun hinstrumented =>
      (hstarts hlayers hinstrumented).mpr (himp hinstrumented)⟩

end Module

open Appmetrics.Module in
/-- For any number of `require` calls of any probe's module, and any way to
an instrumented method: all calls return a module and the method starts one
operation, exactly when the module was required once or its probe is none of
the four, and the objects on the way were handed out once or by calls that
mark them. -/
theorem attach_idempotent_iff (node : Nat) (p : ProbeKind) {n : Nat}
    (hn : 1 ≤ n) (path : List (Wrapping.Call Method String)) (method : Method)
    (argument : String) :
    AttachedOnce node p n path method argument ↔
      (n = 1 ∨ ¬p.Forgetful) ∧
        ((instrumentation node p).Instrumented path method argument →
          (n = 1 ∨ p ≠ .loopback) ∧
            (instrumentation node p).HandedOutOnce path) := by
  obtain ⟨k, rfl⟩ : ∃ k, n = k + 1 :=
    Nat.exists_eq_succ_of_ne_zero (Nat.ne_of_gt hn)
  by_cases hp : p = .loopback
  · subst hp
    rw [loopback_attachedOnce_iff]
    have hnever : ¬ProbeKind.loopback.Forgetful := by decide
    simp [hnever]
  · rw [settled_attachedOnce_iff node hp]
    simp [hp]

namespace AttachRunsWitness

open Appmetrics.Module

/-- A second file requires mysql. -/
theorem attach_idempotent_iff_mysql :
    1 ≤ 2 ∧ AttachedOnce 10 .mysql 2
      [⟨("mysql", "createConnection"), "localhost", 0⟩]
      ("connection", "query") "SELECT 1" :=
  ⟨by decide, (attach_idempotent_iff 10 .mysql (by decide) _ _ _).mpr
    ⟨Or.inr (by decide),
      fun _ => ⟨Or.inr (by decide), Or.inl rfl, trivial⟩⟩⟩

/-- Two calls of `require`: `create` starts two operations in the one, and
the second call returns nothing for the others. -/
theorem required_twice :
    ((requires 10 "loopback-datasource-juggler" 2 fresh).1.map fun ret =>
      ((requires 10 "loopback-datasource-juggler" 2 fresh).2.view ret).map
        fun h => h.starts [] ("DataAccessObject", "create") "") =
      [some 2, some 2] ∧
    ∀ name ∈ ["mqlight", "oracle", "strong-oracle"],
      ((requires 10 name 2 fresh).1.map fun ret =>
        ((requires 10 name 2 fresh).2.view ret).isSome) = [true, false] := by
  decide +kernel

end AttachRunsWitness

end Appmetrics
