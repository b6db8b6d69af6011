/-
The same for the probes that look into messages, requests and responses.
-/
import Appmetrics.InstrumentNeeds

namespace Appmetrics

open Effect

namespace Mqlight

/-- The data counts as long. -/
def Long (data : JsValue) : Prop :=
  (data.property "length").exceeds 25 = .ok true

/-- Data that can be measured and, if it is long, cut: a long buffer has no
`substring`. -/
def Clips (data : JsValue) : Prop :=
  data.nullish = false ∧ (data.property "length").hasText = true ∧
    (Long data → (∃ s, data = .string s) ∨
      (data.property "substring").isFunction = true)

theorem clip_of_short {data : JsValue} (hdata : data.nullish = false)
    (hshort : (data.property "length").exceeds 25 = .ok false) :
    clip data = .ok data := by
  simp only [clip, JsValue.get_eq hdata]
  change (data.property "length").exceeds 25 >>= _ = _
  rw [hshort]
  rfl

theorem clip_of_long {data : JsValue} (hdata : data.nullish = false)
    (hlong : Long data) : clip data = cut data := by
  simp only [clip, JsValue.get_eq hdata]
  change (data.property "length").exceeds 25 >>= _ = _
  rw [hlong]
  rfl

theorem cut_of_other {data : JsValue} (hdata : ∀ s, data ≠ .string s) :
    cut data = data.method "substring" >>= fun _ =>
      pure (.string "undefined...") := by
  cases data with
  | string s => exact absurd rfl (hdata s)
  | _ => rfl

theorem cut_gives {data : JsValue} (hdata : data.nullish = false) :
    Gives (cut data) ↔ (∃ s, data = .string s) ∨
      (data.property "substring").isFunction = true := by
  by_cases hstring : ∃ s, data = .string s
  · obtain ⟨s, rfl⟩ := hstring
    exact iff_of_true (gives_ok _) (Or.inl ⟨s, rfl⟩)
  · rw [cut_of_other (not_exists.mp hstring), gives_map,
      JsValue.gives_method]
    simp [hdata, hstring]

theorem cut_stringifies {data v : JsValue} (hv : cut data = .ok v) :
    v.stringifies = true := by
  by_cases hstring : ∃ s, data = .string s
  · obtain ⟨s, rfl⟩ := hstring
    cases hv
    rfl
  · rw [cut_of_other (not_exists.mp hstring)] at hv
    cases hmethod : data.method "substring" with
    | error e =>
        rw [hmethod] at hv
        cases hv
    | ok u =>
        rw [hmethod] at hv
        cases hv
        rfl

theorem clip_gives (data : JsValue) : Gives (clip data) ↔ Clips data := by
  cases hdata : data.nullish with
  | true =>
      refine iff_of_false (fun h => ?_) fun h => ?_
      · have hget := (JsValue.gives_get_bind.mp h).1
        rw [hdata] at hget
        cases hget
      · rw [h.1] at hdata
        cases hdata
  | false =>
      rcases hlength : (data.property "length").exceeds 25 with e | _ | _
      · have hnone : ¬Gives ((data.property "length").exceeds 25) := by
          simp [hlength]
        refine iff_of_false (fun h => ?_) fun h => ?_
        · obtain ⟨v, hv, _⟩ :=
            gives_bind.mp (JsValue.gives_get_bind.mp h).2
          exact hnone ⟨v, hv⟩
        · exact hnone (JsValue.gives_exceeds.mpr h.2.1)
      · rw [clip_of_short hdata hlength]
        refine iff_of_true (gives_ok _) ⟨hdata, ?_, fun hlong => ?_⟩
        · exact JsValue.gives_exceeds.mp ⟨_, hlength⟩
        · rw [Long, hlength] at hlong
          cases hlong
      · rw [clip_of_long hdata hlength, cut_gives hdata, Clips, hdata,
          ← JsValue.gives_exceeds, hlength]
        simp [Long, hlength]

theorem clip_stringifies {data v : JsValue} (hv : clip data = .ok v) :
    v.stringifies = true ↔ Long data ∨ data.stringifies = true := by
  have hclips := (clip_gives data).mp ⟨v, hv⟩
  obtain ⟨b, hb⟩ := JsValue.gives_exceeds.mpr hclips.2.1
  cases b with
  | false =>
      rw [clip_of_short hclips.1 hb] at hv
      cases hv
      simp [Long, hb]
  | true =>
      rw [clip_of_long hclips.1 hb] at hv
      exact iff_of_true (cut_stringifies hv) (Or.inl hb)

/-- The data can be shown, cut or as it is. -/
def Shows (data : JsValue) : Prop :=
  Long data ∨ data.stringifies = true

/-- Events are published as JSON, the context of a request is not. -/
def reads : Reads where
  start _ := True
  metrics c extra :=
    let client := extra.getD 0 .undefined
    (c.named "message" = true →
      (Clips (c.arg 0) ∧ (c.arg 1).nullish = false ∧
          ((c.arg 1).property "message").nullish = false ∧
          client.nullish = false) ∧
        (client.property "id").stringifies = true ∧ Shows (c.arg 0) ∧
        (((c.arg 1).property "message").property "topic").stringifies
          = true) ∧
    (c.named "send" = true →
      (Clips (c.arg 1) ∧
          (3 < c.methodArgs.length → (c.arg 2).nullish = false) ∧
          client.nullish = false) ∧
        (client.property "id").stringifies = true ∧ Shows (c.arg 1) ∧
        (c.arg 0).stringifies = true ∧
        (3 < c.methodArgs.length →
          ((c.arg 2).property "0").stringifies = true))
  context c extra :=
    let client := extra.getD 0 .undefined
    (c.named "message" = true →
      Clips (c.arg 0) ∧ client.nullish = false) ∧
    (c.named "send" = true →
      Clips (c.arg 1) ∧
        (3 < c.methodArgs.length → (c.arg 2).nullish = false) ∧
        client.nullish = false)

theorem sendQos_gives (c : Call) :
    Gives (sendQos c) ↔
      (3 < c.methodArgs.length → (c.arg 2).nullish = false) := by
  unfold sendQos
  by_cases hoptions : 3 < c.methodArgs.length
  · simp [hoptions, JsValue.gives_get]
  · simp [hoptions]

theorem sendQos_stringifies {c : Call} {qos : JsValue}
    (hqos : sendQos c = .ok qos) :
    qos.stringifies = true ↔
      (3 < c.methodArgs.length →
        ((c.arg 2).property "0").stringifies = true) := by
  by_cases hoptions : 3 < c.methodArgs.length
  · have hnullish := (sendQos_gives c).mp ⟨qos, hqos⟩ hoptions
    rw [sendQos, if_pos hoptions, JsValue.get_eq hnullish] at hqos
    cases hqos
    simp [hoptions]
  · rw [sendQos, if_neg hoptions] at hqos
    cases hqos
    simp [hoptions, JsValue.stringifies]

theorem not_send {c : Call} (hmessage : c.named "message" = true) :
    ¬c.named "send" = true := fun hsend =>
  absurd (Call.named_unique hmessage hsend) (by decide)

theorem context_gives (c : Call) (extra : List JsValue) :
    Gives (instrument.context c extra) ↔ reads.context c extra := by
  by_cases hmessage : c.named "message" = true
  · have hcontext : Gives (instrument.context c extra) ↔
        Clips (c.arg 0) ∧ (extra.getD 0 .undefined).nullish = false := by
      simp only [instrument, hmessage, ↓reduceIte]
      rw [gives_bind_const fun _ => gives_map.trans JsValue.gives_get,
        clip_gives]
    rw [hcontext]
    simp [reads, hmessage, not_send hmessage]
  · by_cases hsend : c.named "send" = true
    · have hcontext : Gives (instrument.context c extra) ↔
          Clips (c.arg 1) ∧
            (3 < c.methodArgs.length → (c.arg 2).nullish = false) ∧
            (extra.getD 0 .undefined).nullish = false := by
        simp only [instrument, hmessage, hsend, ↓reduceIte,
          Bool.false_eq_true]
        rw [gives_bind_const fun _ => gives_bind_const fun _ =>
          gives_map.trans JsValue.gives_get, clip_gives, sendQos_gives]
      rw [hcontext]
      simp [reads, hmessage, hsend]
    · simp [instrument, reads, hmessage, hsend]

theorem stringifies_of_named {c : Call} {name : String}
    (hname : c.named name = true) : c.methodName.stringifies = true := by
  rw [JsValue.isText_iff.mp hname]
  rfl

/-- The message branch of `metricsEnd`. -/
theorem messageEvent (c : Call) (extra : List JsValue)
    (hmessage : c.named "message" = true) :
    instrument.EndsMetrics c extra ↔ reads.metrics c extra := by
  have hgives : Gives (instrument.metrics c extra) ↔
      Clips (c.arg 0) ∧ (c.arg 1).nullish = false ∧
        ((c.arg 1).property "message").nullish = false ∧
        (extra.getD 0 .undefined).nullish = false := by
    simp only [instrument, hmessage, ↓reduceIte]
    rw [gives_bind_const fun _ => JsValue.gives_get_bind.trans
      (and_congr_right fun _ => JsValue.gives_get_bind.trans
        (and_congr_right fun _ => gives_map.trans JsValue.gives_get)),
      clip_gives]
  by_cases hall : Gives (instrument.metrics c extra)
  · obtain ⟨hclips, hdelivery, hinner, hclient⟩ := hgives.mp hall
    obtain ⟨data, hdata⟩ := (clip_gives _).mpr hclips
    have hfields : instrument.metrics c extra = .ok (some
        [given "clientid" ((extra.getD 0 .undefined).property "id"),
          given "data" data, given "method" c.methodName,
          given "topic"
            (((c.arg 1).property "message").property "topic")]) := by
      simp only [instrument, hmessage, ↓reduceIte, hdata,
        JsValue.get_eq hdelivery, JsValue.get_eq hclient]
      change JsValue.get _ "topic" >>= _ = _
      rw [JsValue.get_eq hinner]
      rfl
    rw [Instrument.endsMetrics_of_eq hfields]
    rw [List.getD_eq_getElem?_getD] at hclient
    simp [publishes, instrument, nativeTopics, given, Field.stringifies,
      reads, hmessage, not_send hmessage, stringifies_of_named hmessage,
      clip_stringifies hdata, Shows, hclips, hdelivery, hinner, hclient]
  · refine iff_of_false ?_ fun h => hall (hgives.mpr (h.1 hmessage).1)
    rintro ⟨event, hevent, _⟩
    exact hall ⟨event, hevent⟩

/-- The send branch of `metricsEnd`. -/
theorem sendEvent (c : Call) (extra : List JsValue)
    (hsend : c.named "send" = true) :
    instrument.EndsMetrics c extra ↔ reads.metrics c extra := by
  have hmessage : ¬c.named "message" = true := fun h => not_send h hsend
  have hgives : Gives (instrument.metrics c extra) ↔
      Clips (c.arg 1) ∧
        (3 < c.methodArgs.length → (c.arg 2).nullish = false) ∧
        (extra.getD 0 .undefined).nullish = false := by
    simp only [instrument, hmessage, hsend, ↓reduceIte, Bool.false_eq_true]
    rw [gives_bind_const fun _ => gives_bind_const fun _ =>
      gives_map.trans JsValue.gives_get, clip_gives, sendQos_gives]
  by_cases hall : Gives (instrument.metrics c extra)
  · obtain ⟨hclips, hoptions, hclient⟩ := hgives.mp hall
    obtain ⟨data, hdata⟩ := (clip_gives _).mpr hclips
    obtain ⟨qos, hqos⟩ := (sendQos_gives c).mpr hoptions
    have hfields : instrument.metrics c extra = .ok (some
        [given "clientid" ((extra.getD 0 .undefined).property "id"),
          given "data" data, given "method" c.methodName,
          given "topic" (c.arg 0), given "qos" qos]) := by
      simp only [instrument, hmessage, hsend, ↓reduceIte, hdata, hqos,
        JsValue.get_eq hclient, Bool.false_eq_true]
      rfl
    rw [Instrument.endsMetrics_of_eq hfields]
    rw [List.getD_eq_getElem?_getD] at hclient
    simp [publishes, instrument, nativeTopics, given, Field.stringifies,
      reads, hmessage, hsend, stringifies_of_named hsend,
      clip_stringifies hdata, Shows, sendQos_stringifies hqos, hclips,
      hclient]
    exact fun _ _ _ _ => hoptions
  · refine iff_of_false ?_ fun h => hall (hgives.mpr (h.2 hsend).1)
    rintro ⟨event, hevent, _⟩
    exact hall ⟨event, hevent⟩

theorem reads_of : reads.Of instrument where
  start _ := iff_of_true ⟨gives_ok _, rfl⟩ trivial
  metrics c extra := by
    by_cases hmessage : c.named "message" = true
    · exact messageEvent c extra hmessage
    · by_cases hsend : c.named "send" = true
      · exact sendEvent c extra hsend
      · refine iff_of_true ⟨none, ?_, nofun⟩ ?_
        · simp [instrument, hmessage, hsend]
        · simp [reads, hmessage, hsend]
  context c extra :=
    (Instrument.endsRequest_iff rfl).trans (context_gives c extra)

end Mqlight

namespace Outbound

/-- The end hooks look into the response. -/
def reads : Reads where
  start _ := True
  metrics _ extra := (extra.getD 2 .undefined).nullish = false
  context _ extra := (extra.getD 2 .undefined).nullish = false

theorem contentType_gives {res : JsValue} :
    Gives (contentType res) ↔ res.nullish = false := by
  unfold contentType
  rw [JsValue.gives_get_bind, and_iff_left]
  split
  · rename_i htruthy
    exact JsValue.gives_get.mpr (JsValue.nullish_of_truthy htruthy)
  · exact gives_pure _

theorem reads_of {topic : String} (htopic : topic ∉ nativeTopics) :
    reads.Of (instrument topic) where
  start _ := iff_of_true ⟨gives_ok _, rfl⟩ trivial
  metrics c extra := by
    rw [Instrument.endsMetrics_iff htopic]
    simp only [instrument]
    rw [JsValue.gives_get_bind, gives_map, contentType_gives]
    exact and_self_iff
  context c extra := by
    rw [Instrument.endsRequest_iff rfl]
    simp only [instrument]
    rw [JsValue.gives_get_bind, gives_map, contentType_gives]
    exact and_self_iff

/-- The properties of the options that become part of the URL have texts. -/
def Formats (options : JsValue) : Prop :=
  (∀ p ∈ ["protocol", "auth", "host", "port", "path"],
      (options.property p).truthy = true →
        (options.property p).hasText = true) ∧
    ((options.property "host").truthy = false →
      (options.property "hostname").truthy = true →
        (options.property "hostname").hasText = true)

theorem addAuth_textIf (s : String) (auth : JsValue) :
    JsValue.TextIf (auth.truthy = true → auth.hasText = true)
      (addAuth (.string s) auth) := by
  unfold addAuth
  cases auth.truthy with
  | true =>
      exact (JsValue.TextIf.bind (JsValue.plus_string auth "@") fun t =>
        JsValue.string_plus_string s t).congr (by simp)
  | false => exact (JsValue.textIf_string s).congr (by simp)

theorem addPort_textIf (s : String) (port : JsValue) :
    JsValue.TextIf (port.truthy = true → port.hasText = true)
      (addPort (.string s) port) := by
  unfold addPort
  cases port.truthy with
  | true =>
      refine (JsValue.TextIf.bind (Q := True)
        (JsValue.string_plus ":" port) fun t => ?_).congr (by simp)
      split
      · exact JsValue.textIf_string s
      · exact JsValue.string_plus_string s t
  | false => exact (JsValue.textIf_string s).congr (by simp)

/-- A value that stands in for a missing one has a text. -/
theorem hasText_ite {b : Bool} {v : JsValue} (s : String) :
    (if b then v else JsValue.string s).hasText = true ↔
      (b = true → v.hasText = true) := by
  cases b <;> simp [JsValue.hasText]

theorem formatURL_textIf (protocol : String) (options : JsValue)
    (hoptions : options.nullish = false) :
    JsValue.TextIf (Formats options) (formatURL protocol options) := by
  have hchain (own auth host hostname port path : JsValue) :
      JsValue.TextIf _ (do
        let url ← (if own.truthy then own else .string protocol).plus
          (.string "//")
        let url ← addAuth url auth
        let url ← url.plus (if host.truthy then host
          else if hostname.truthy then hostname else .string "localhost")
        let url ← addPort url port
        url.plus (if path.truthy then path else .string "/")) :=
    .bind (JsValue.plus_string _ _) fun s =>
      .bind (addAuth_textIf s auth) fun s =>
        .bind (JsValue.string_plus s _) fun s =>
          .bind (addPort_textIf s port) fun s => JsValue.string_plus s _
  unfold formatURL
  simp only [JsValue.get_eq hoptions]
  refine (hchain (options.property "protocol") (options.property "auth")
    (options.property "host") (options.property "hostname")
    (options.property "port") (options.property "path")).congr ?_
  unfold Formats
  cases hhost : (options.property "host").truthy with
  | true => simp [hasText_ite, hhost]
  | false =>
      simp only [hasText_ite, Bool.false_eq_true, ↓reduceIte, List.mem_cons,
        List.not_mem_nil, or_false, forall_eq_or_imp, forall_eq,
        forall_const, hhost]
      tauto

/-- Options, or a URL that can be parsed. -/
def Requests (urlParses : String → Bool) (options : JsValue) : Prop :=
  match options with
  | .null => True
  | .object .. => Formats options
  | .string s => urlParses s = true
  | _ => False

theorem getRequestItems_gives (protocol : String)
    (urlParses : String → Bool) (options : JsValue) :
    Gives (getRequestItems protocol urlParses options) ↔
      Requests urlParses options := by
  cases options with
  | null => exact iff_of_true (gives_ok _) trivial
  | object own inherits json =>
      have hurl :=
        (formatURL_textIf protocol (.object own inherits json) rfl).gives
      simp only [getRequestItems]
      rw [gives_bind_const fun _ => JsValue.gives_get_bind.trans
        (and_congr_right fun _ => gives_map.trans JsValue.gives_get), hurl]
      simp [Requests, JsValue.nullish]
  | string s =>
      cases hparses : urlParses s <;>
        simp [getRequestItems, Requests, hparses]
  | _ => exact iff_of_false (not_gives_error _) id

end Outbound

namespace Server

/-- The end hooks look into the response and the request. -/
def reads (topic : String) : Reads where
  start _ := True
  metrics c extra :=
    let res := extra.getD 0 .undefined
    let httpReq := extra.getD 1 .undefined
    (res.nullish = false ∧ (res.property "getHeader").isFunction = true ∧
        httpReq.nullish = false) ∧
      (topic ∈ nativeTopics →
        c.methodName.stringifies = true ∧ (c.arg 0).stringifies = true ∧
          (∀ p ∈ ["_header", "statusCode", "content-type"],
            (res.property p).stringifies = true) ∧
          (httpReq.property "headers").stringifies = true)
  context _ extra :=
    let res := extra.getD 0 .undefined
    (extra.getD 1 .undefined).nullish = false ∧ res.nullish = false ∧
      (res.property "getHeader").isFunction = true

theorem getHeader_gives {res : JsValue} :
    Gives (getHeader res) ↔
      res.nullish = false ∧ (res.property "getHeader").isFunction = true := by
  unfold getHeader
  rw [gives_bind_const fun _ => JsValue.gives_get, JsValue.gives_method]
  tauto

theorem getHeader_eq {res : JsValue} (hres : res.nullish = false)
    (hcall : (res.property "getHeader").isFunction = true) :
    getHeader res = .ok (res.property "content-type") := by
  obtain ⟨u, hu⟩ := JsValue.gives_method.mpr ⟨hres, hcall⟩
  unfold getHeader
  rw [hu]
  exact JsValue.get_eq hres "content-type"

theorem metrics_gives {topic : String} (c : Call) (extra : List JsValue) :
    Gives ((instrument topic).metrics c extra) ↔
      (extra.getD 0 .undefined).nullish = false ∧
        ((extra.getD 0 .undefined).property "getHeader").isFunction = true ∧
        (extra.getD 1 .undefined).nullish = false := by
  simp only [instrument]
  rw [JsValue.gives_get_bind, JsValue.gives_get_bind, gives_bind_const
    fun _ => gives_map.trans JsValue.gives_get, getHeader_gives]
  tauto

theorem reads_of (topic : String) : (reads topic).Of (instrument topic) where
  start _ := iff_of_true ⟨gives_ok _, rfl⟩ trivial
  metrics c extra := by
    by_cases hall : Gives ((instrument topic).metrics c extra)
    · obtain ⟨hres, hcall, hreq⟩ := (metrics_gives c extra).mp hall
      have hfields : (instrument topic).metrics c extra = .ok (some
          [given "method" c.methodName, given "url" (c.arg 0),
            given "header" ((extra.getD 0 .undefined).property "_header"),
            given "statusCode"
              ((extra.getD 0 .undefined).property "statusCode"),
            given "contentType"
              ((extra.getD 0 .undefined).property "content-type"),
            given "requestHeader"
              ((extra.getD 1 .undefined).property "headers")]) := by
        simp only [instrument, JsValue.get_eq hres, JsValue.get_eq hreq,
          getHeader_eq hres hcall]
        rfl
      rw [Instrument.endsMetrics_of_eq hfields]
      rw [List.getD_eq_getElem?_getD] at hres hcall hreq
      by_cases htopic : topic ∈ nativeTopics
      · simp [publishes, instrument, htopic, given, Field.stringifies,
          reads, hres, hcall, hreq, and_assoc]
      · simp [publishes, instrument, htopic, reads, hres, hcall, hreq]
    · refine iff_of_false ?_ fun h => hall ((metrics_gives c extra).mpr h.1)
      rintro ⟨event, hevent, _⟩
      exact hall ⟨event, hevent⟩
  context c extra := by
    rw [Instrument.endsRequest_iff rfl]
    simp only [instrument]
    rw [JsValue.gives_get_bind, JsValue.gives_get_bind,
      JsValue.gives_get_bind, gives_map, getHeader_gives]
    simp only [reads]
    tauto

end Server

end Appmetrics
