import IngestKit.Api.Ingest
import IngestKit.Transition.Runs

/-! What a response tells the client: 202 means that the broker acknowledged every record,
and which accepted bodies are answered 503 although nothing was sent. -/
namespace IngestKit.Api
open Event Messaging

section Prepared
variable {U : UUID.Codec}

/-- The consumer reads this event under this tenant. -/
structure SameEvent (e : Envelope) (i : Input) (tenant : Bytes) : Prop where
  tenantID : e.tenantID = tenant
  eventID : e.eventID = i.eventID
  eventType : e.eventType = i.eventType
  occurredAt : e.occurredAt = i.occurredAt
  payload : Json.compact i.payload = some e.payload

private theorem sameEvent_of_encode {raw tenant value : Bytes} {i : Input} {received : Time}
    (hi : decodeInput U raw = .ok i) (ht : validTenant tenant = true)
    (he : encodeEnvelope ⟨i, tenant, received.utc⟩ = .ok value) :
    ∃ e, decodeEnvelope U value = .ok e ∧ SameEvent e i tenant := by
  have hz : received.isZero = false := by
    unfold encodeEnvelope at he
    split at he
    · cases he
    next e ha => exact ((accept_ok_iff _ _ _ _).mp ha).2.2.1
  have hacc := accepted_of_decodeInput hi ht hz
  obtain ⟨ho, hr⟩ := (encodeEnvelope_ok_iff hacc).mp ⟨value, he⟩
  obtain ⟨d, hd, -⟩ := hacc.valid.payload
  have hval := (encodeEnvelope_eq_ok hacc ho hr hd).symm.trans he
  cases hval
  refine ⟨_, decodeEnvelope_marshal U hacc ho hr hd, rfl, rfl, rfl, rfl, ?_⟩
  have hd' : Json.parse? i.payload = some d := hd
  rw [Json.compact, hd']
  rfl

/-- What is known once the first record may be produced. -/
theorem prepare_eq_ok {app : App} {topic : Bytes} {req : Request} {allowed : Bool}
    {received : Time} {records : List BrokerRecord} {ids : List Bytes}
    (h : prepare U app topic req allowed received = .ok (records, ids)) :
    ∃ tenant inputs, apiKeyAuth app req.authorization = .ok tenant ∧
      decodeBody U req.batch req.body = .ok inputs ∧
      ids = inputs.map (fun i => i.eventID.string) ∧
      List.Forall₂ (fun i r => ∃ e, decodeEnvelope U r.value = .ok e ∧ SameEvent e i tenant)
        inputs records := by
  obtain ⟨tenant, inputs, hauth, hdec, hencode, rfl⟩ := of_prepare h
  refine ⟨tenant, inputs, hauth, hdec, rfl, ?_⟩
  have hall := encodeRecords_eq_ok hencode
  rw [List.forall₂_map_left_iff] at hall
  have hmem := (List.forall₂_and_left inputs records).mpr ⟨decodeBody_mem hdec, hall⟩
  refine hmem.imp fun i r hir => ?_
  obtain ⟨⟨raw, hraw⟩, he⟩ := hir
  exact sameEvent_of_encode hraw (validTenant_of_auth hauth) he

end Prepared

namespace Exchange

private theorem result_step {s s' : Sending} (h : Sending.Step s s')
    {r : Except PublishError Unit} (hr : s.result = some r) : s'.result = some r := by
  cases h with
  | callback e hi room => exact hr
  | produce hn _ | receive hn _ _ _ | deadline hn _ _ | finish hn _ _ =>
    rw [hr] at hn
    cases hn

/-- The answer follows the result of `send`. -/
def Inv (start : Except Response (List BrokerRecord × List Bytes)) : Exchange → Prop
  | .sending ids s => s.Inv ∧ start = .ok (s.records, ids)
  | .answered r none => start = .error r
  | .answered r (some s) => s.Inv ∧ ∃ ids res, start = .ok (s.records, ids) ∧
      s.result = some res ∧ r = reply ids res

theorem inv_start (p : Except Response (List BrokerRecord × List Bytes)) :
    Inv p (Exchange.start p) := by
  cases p with
  | error r => exact rfl
  | ok rs => exact ⟨Sending.inv_start rs.1, rfl⟩

theorem inv_step {p : Except Response (List BrokerRecord × List Bytes)} {x y : Exchange}
    (hx : Inv p x) (h : Step x y) : Inv p y := by
  cases h with
  | send hs =>
    refine ⟨hx.1.step hs, ?_⟩
    rw [Sending.records_step hs]
    exact hx.2
  | respond hr => exact ⟨hx.1, _, _, hx.2, hr, rfl⟩
  | late hs =>
    obtain ⟨hinv, ids, res, hp, hres, hr⟩ := hx
    refine ⟨hinv.step hs, ids, res, ?_, result_step hs hres, hr⟩
    rw [Sending.records_step hs]
    exact hp

theorem inv_of_run {p : Except Response (List BrokerRecord × List Bytes)} {x : Exchange}
    (h : Relation.ReflTransGen Step (Exchange.start p) x) : Inv p x :=
  Transition.run_invariant (inv_start p) (fun _ _ => inv_step) h

private theorem Inv.sending {p : Except Response (List BrokerRecord × List Bytes)} {x : Exchange}
    (h : Inv p x) {s : Sending} (hs : x.publication = some s) : s.Inv := by
  cases x with
  | sending ids t =>
    cases hs
    exact h.1
  | answered r t =>
    cases hs
    exact h.1

end Exchange

private theorem prepare_status {U : UUID.Codec} {app : App} {topic : Bytes} {req : Request}
    {allowed : Bool} {received : Time} {r : Response}
    (h : prepare U app topic req allowed received = .error r) :
    ∀ ids, r ≠ ⟨202, .accepted ids⟩ := by
  have herr : ∀ status code message ids, sendError status code message ≠ ⟨202, .accepted ids⟩ := by
    intro status code message ids he
    cases he
  intro ids
  unfold prepare at h
  split at h
  next r' hauth =>
    cases h
    unfold apiKeyAuth at hauth
    split_ifs at hauth
    · cases hauth
      exact herr _ _ _ _
    · split at hauth
      · cases hauth
        exact herr _ _ _ _
      · cases hauth
  · split at h
    next r' hlimit =>
      cases h
      unfold rateLimit at hlimit
      split_ifs at hlimit
      cases hlimit
      exact herr _ _ _ _
    · unfold ingest at h
      split at h
      · cases h
        exact herr _ _ _ _
      · dsimp only at h
        split at h
        · cases h
          exact herr _ _ _ _
        · split at h
          · cases h
            exact herr _ _ _ _
          · cases h

/-- In every order of callbacks, deadline and handler steps, a 202 names the decoded events in
order, each acknowledged by the broker as a record that decodes to it, and no callback ever
blocks on the results channel. -/
theorem accepted_is_acknowledged (U : UUID.Codec) (app : App) (topic : Bytes) (req : Request)
    (allowed : Bool) (received : Time) (x : Exchange)
    (h : Relation.ReflTransGen Exchange.Step
      (Exchange.start (prepare U app topic req allowed received)) x) :
    (∀ ids publication, x = .answered ⟨202, .accepted ids⟩ publication →
      ∃ s tenant inputs, publication = some s ∧ apiKeyAuth app req.authorization = .ok tenant ∧
        decodeBody U req.batch req.body = .ok inputs ∧
        ids = inputs.map (fun i => i.eventID.string) ∧
        List.Forall₂ (fun i r => ∃ e, decodeEnvelope U r.value = .ok e ∧ SameEvent e i tenant)
          inputs s.records ∧
        ∀ k < s.records.length, (k, none) ∈ s.reported) ∧
    ∀ s, x.publication = some s → ∀ k ∈ s.waiting, s.channel.length < s.capacity := by
  have hinv := Exchange.inv_of_run h
  refine ⟨fun ids publication hx => ?_, fun s hs k hk => (hinv.sending hs).room hk⟩
  subst hx
  cases publication with
  | none => exact absurd rfl (prepare_status hinv ids)
  | some s =>
    obtain ⟨hsinv, ids', res, hp, hres, hreply⟩ := hinv
    cases res with
    | error err => cases hreply
    | ok u =>
      cases hreply
      obtain ⟨tenant, inputs, hauth, hdec, hids, hall⟩ := prepare_eq_ok hp
      exact ⟨s, tenant, inputs, rfl, hauth, hdec, hids, hall, fun k hk =>
        hsinv.all_reported hres hk⟩

section Order

def demoApp : App := ⟨[(ascii ['k'], ascii ['d'])], by decide⟩

def orderRequest : Request := ⟨bearer ++ ascii ['k'], orderBody, false⟩

theorem run_single {records : List BrokerRecord} (h : records.length = 1)
    (ids : List Bytes) : Relation.ReflTransGen Exchange.Step (.sending ids (.start records))
      (.answered ⟨202, .accepted ids⟩
        (some ⟨records, 1, [], [(0, none)], [], 1, some (.ok ())⟩)) := by
  have h1 : Sending.Step (.start records) ⟨records, 1, [0], [], [], 0, none⟩ :=
    .produce rfl (by simp [Sending.start, h])
  have h2 : Sending.Step ⟨records, 1, [0], [], [], 0, none⟩
      ⟨records, 1, [], [(0, none)], [none], 0, none⟩ :=
    .callback (s := ⟨records, 1, [0], [], [], 0, none⟩) none (List.mem_singleton_self 0)
      (by simp [Sending.capacity, h])
  have h3 : Sending.Step ⟨records, 1, [], [(0, none)], [none], 0, none⟩
      ⟨records, 1, [], [(0, none)], [], 1, none⟩ :=
    .receive (s := ⟨records, 1, [], [(0, none)], [none], 0, none⟩) rfl h.symm (by simp [h]) rfl
  have h4 : Sending.Step ⟨records, 1, [], [(0, none)], [], 1, none⟩
      ⟨records, 1, [], [(0, none)], [], 1, some (.ok ())⟩ := .finish rfl h.symm h.symm
  exact ((((Relation.ReflTransGen.refl.tail (.send h1)).tail (.send h2)).tail (.send h3)).tail
    (.send h4)).tail (.respond (r := .ok ()) rfl)

theorem decodeBody_order :
    decodeBody UUID.standard orderRequest.batch orderRequest.body = .ok [orderInput] := by
  rw [decodeBody, orderRequest, if_neg (by decide), decode_orderBody]

theorem prepare_order : ∃ records ids,
    prepare UUID.standard demoApp [] orderRequest true (midnight 0) = .ok (records, ids) := by
  have haccept : acceptAll (ascii ['d']) (midnight 0) [orderInput] =
      .ok [⟨orderInput, ascii ['d'], (midnight 0).utc⟩] :=
    acceptAll_of_valid [orderInput] (by simpa using (decodeInput_spec decode_orderBody).2.1)
      (by decide) (by decide)
  obtain ⟨records, hrecords⟩ : ∃ records, encodeRecords []
      [⟨orderInput, ascii ['d'], (midnight 0).utc⟩] = .ok records := by
    rw [encodeRecords_ok_iff, List.forall_mem_singleton,
      encodeEnvelope_ok_iff (accepted_of_decodeInput decode_orderBody (by decide) (by decide))]
    decide
  have hauth : apiKeyAuth demoApp orderRequest.authorization = .ok (ascii ['d']) := by decide
  refine ⟨records, [orderInput.eventID.string], ?_⟩
  simp only [prepare, ingest, hauth, rateLimit, if_true, decodeBody_order, haccept, hrecords,
    List.map_cons, List.map_nil]

theorem accepted_is_acknowledged_order : ∃ ids s,
    Relation.ReflTransGen Exchange.Step (Exchange.start
      (prepare UUID.standard demoApp [] orderRequest true (midnight 0)))
      (.answered ⟨202, .accepted ids⟩ (some s)) ∧
        s.records.length = 1 ∧ ∀ k < s.records.length, (k, none) ∈ s.reported := by
  obtain ⟨records, ids, hp⟩ := prepare_order
  have hlen : records.length = 1 := by
    obtain ⟨tenant, inputs, -, hin, -, hall⟩ := prepare_eq_ok hp
    have hinputs := Except.ok.inj (decodeBody_order.symm.trans hin)
    rw [← hinputs] at hall
    exact hall.length_eq.symm
  have hrun := run_single hlen ids
  have hstart : Exchange.start (prepare UUID.standard demoApp [] orderRequest true (midnight 0)) =
      .sending ids (.start records) := by rw [hp, Exchange.start]
  rw [← hstart] at hrun
  obtain ⟨s, tenant, inputs, hs, -, -, -, -, hall⟩ :=
    (accepted_is_acknowledged UUID.standard demoApp [] orderRequest true (midnight 0) _ hrun).1
      _ _ rfl
  cases hs
  exact ⟨ids, _, hrun, hlen, hall⟩

end Order

section Zones
variable (U : UUID.Codec) (topic : Bytes)

private theorem marshals_of_utc {t : Time} (hutc : t.offset = 0) (h1 : 1 ≤ t.date.year)
    (h2 : t.date.year ≤ 9999) : t.utc.Marshals := by
  have hu : t.utc = t := by rw [Time.utc, ← hutc]
  rw [hu]
  exact ⟨by omega, h2, by rw [hutc]; decide⟩

/-- Every accepted body passes `Accept`, and it can be published exactly when no event has a zone
offset of 24 hours or more; otherwise the answer is 503 with nothing sent. -/
theorem encodes_iff_zone_below_24 (batch : Bool) (raw : Bytes) (inputs : List Input)
    (tenant : Bytes) (received : Time) (hdec : decodeBody U batch raw = .ok inputs)
    (ht : validTenant tenant = true) (hz : received.isZero = false) (hutc : received.offset = 0)
    (hy1 : 1 ≤ received.date.year) (hy2 : received.date.year ≤ 9999) :
    (∃ events, acceptAll tenant received inputs = .ok events ∧
      ((∃ records, encodeRecords topic events = .ok records) ↔
        ∀ i ∈ inputs, Time.zoneHour i.occurredAt.offset < 24)) ∧
    ∀ (app : App) (header : Bytes), apiKeyAuth app header = .ok tenant →
      (prepare U app topic ⟨header, raw, batch⟩ true received = .error unavailable ↔
        ∃ i ∈ inputs, 24 ≤ Time.zoneHour i.occurredAt.offset) := by
  have hinputs := decodeBody_mem hdec
  have haccept := acceptAll_of_valid inputs
    (fun i hi => by
      obtain ⟨raw', hraw⟩ := hinputs i hi
      exact (decodeInput_spec hraw).2.1) ht hz
  have hencode : (∃ records, encodeRecords topic
      (inputs.map fun i => (⟨i, tenant, received.utc⟩ : Envelope)) = .ok records) ↔
        ∀ i ∈ inputs, Time.zoneHour i.occurredAt.offset < 24 := by
    rw [encodeRecords_ok_iff, List.forall_mem_map]
    refine forall₂_congr fun i hi => ?_
    obtain ⟨raw', hraw⟩ := hinputs i hi
    obtain ⟨b, hb⟩ := (decodeInput_spec hraw).2.2.1
    rw [encodeEnvelope_ok_iff (accepted_of_decodeInput hraw ht hz)]
    have hm := Time.marshals_of_parse hb
    exact ⟨fun h => hm.mp h.1, fun h => ⟨hm.mpr h, marshals_of_utc hutc hy1 hy2⟩⟩
  refine ⟨⟨_, haccept, hencode⟩, fun app header hauth => ?_⟩
  have hnot : (∃ i ∈ inputs, 24 ≤ Time.zoneHour i.occurredAt.offset) ↔
      ¬∃ records, encodeRecords topic
        (inputs.map fun i => (⟨i, tenant, received.utc⟩ : Envelope)) = .ok records := by
    rw [hencode]
    simp
  rw [hnot]
  simp only [prepare, ingest, hauth, rateLimit, if_true, hdec, haccept]
  cases encodeRecords topic (inputs.map fun i => (⟨i, tenant, received.utc⟩ : Envelope)) <;> simp

theorem encodes_order :
    (∃ events, acceptAll (ascii ['d']) (midnight 0) [orderInput] = .ok events ∧
      ((∃ records, encodeRecords [] events = .ok records) ↔
        ∀ i ∈ [orderInput], Time.zoneHour i.occurredAt.offset < 24)) ∧
    ∀ (app : App) (header : Bytes), apiKeyAuth app header = .ok (ascii ['d']) →
      (prepare UUID.standard app [] ⟨header, orderBody, false⟩ true (midnight 0) =
        .error unavailable ↔ ∃ i ∈ [orderInput], 24 ≤ Time.zoneHour i.occurredAt.offset) :=
  encodes_iff_zone_below_24 UUID.standard [] false orderBody [orderInput] (ascii ['d']) (midnight 0)
    (by rw [decodeBody, if_neg (by decide), decode_orderBody]) (by decide) (by decide) (by decide)
    (by decide) (by decide)

/-- A body whose zone is `+24:00`. -/
def zone24Body : Bytes := bodyText (ascii ['+', '2', '4', ':', '0', '0']) blankPayload

def zone24Input : Input := ⟨orderID, orderType, midnight 86400, blankPayload⟩

/-- It is decoded and accepted, cannot be encoded, and is answered 503. -/
theorem zone_24_is_answered_503 :
    decodeInput UUID.standard zone24Body = .ok zone24Input ∧
    accept zone24Input (ascii ['d']) (midnight 0) =
      .ok ⟨zone24Input, ascii ['d'], midnight 0⟩ ∧
    encodeEnvelope ⟨zone24Input, ascii ['d'], midnight 0⟩ = .error .encoding ∧
    prepare UUID.standard demoApp [] ⟨bearer ++ ascii ['k'], zone24Body, false⟩ true (midnight 0) =
      .error unavailable := by
  have hdec : decodeInput UUID.standard zone24Body = .ok zone24Input := by decide +kernel
  have haccept : accept zone24Input (ascii ['d']) (midnight 0) =
      .ok ⟨zone24Input, ascii ['d'], midnight 0⟩ := by decide
  have hencode : encodeEnvelope ⟨zone24Input, ascii ['d'], midnight 0⟩ = .error .encoding := by
    decide
  have hauth : apiKeyAuth demoApp (bearer ++ ascii ['k']) = .ok (ascii ['d']) := by decide
  refine ⟨hdec, haccept, hencode, ?_⟩
  simp [prepare, ingest, hauth, rateLimit, decodeBody, hdec, acceptAll, haccept, encodeRecords,
    hencode]

end Zones

end IngestKit.Api
