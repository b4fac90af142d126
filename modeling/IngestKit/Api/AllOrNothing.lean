import IngestKit.Api.Acknowledged
import IngestKit.Api.RateLimit

/-! The whole handler chain of an ingest request: a request reaches the broker with all of its
events or with none. -/
namespace IngestKit.Api
open Event Messaging

section Handler
variable (U : UUID.Codec)

/-- A request of the protected routes: the server's body limit, authentication, the tenant's bucket
and the handler. -/
def serve (app : App) (topic : Bytes) (rps : ℕ) (b : Bucket) (now : ℤ) (req : Request)
    (received : Time) : Except Response (List BrokerRecord × List Bytes) :=
  if req.body.length > maxRequestBytes then
    .error (sendError 413 "request_failed" "request could not be processed")
  else prepare U app topic req (b.allow rps now).1.allowed received

end Handler

/-- The record a decoded event is published as. -/
structure RecordOf (topic tenant : Bytes) (received : Time) (i : Input) (r : BrokerRecord) :
    Prop where
  topic : r.topic = topic
  key : r.key = recordKey tenant i.eventID
  value : encodeEnvelope ⟨i, tenant, received.utc⟩ = .ok r.value

namespace Exchange

/-- The records that `produce` was called with, in order. -/
def produced (x : Exchange) : List BrokerRecord :=
  match x.publication with
  | none => []
  | some s => s.records.take s.produced

end Exchange

section Specs
variable {U : UUID.Codec}

theorem serve_eq_prepare {app : App} {topic : Bytes} {rps : ℕ} {b : Bucket} {now : ℤ}
    {req : Request} {received : Time} (h : req.body.length ≤ maxRequestBytes) :
    serve U app topic rps b now req received =
      prepare U app topic req (b.allow rps now).1.allowed received := by
  rw [serve, if_neg (Nat.not_lt.mpr h)]

theorem records_of_encode {topic tenant : Bytes} {received : Time} {inputs : List Input}
    {records : List BrokerRecord}
    (h : encodeRecords topic (inputs.map fun i => ⟨i, tenant, received.utc⟩) = .ok records) :
    List.Forall₂ (RecordOf topic tenant received) inputs records := by
  induction inputs generalizing records with
  | nil =>
    cases h
    exact .nil
  | cons i is ih =>
    rw [List.map_cons, encodeRecords] at h
    split at h
    · cases h
    next raw hraw =>
      split at h
      · cases h
      next rs hrs =>
        cases h
        exact .cons ⟨rfl, rfl, hraw⟩ (ih hrs)

/-- What is known of a request that may be published. -/
theorem serve_eq_ok {app : App} {topic : Bytes} {rps : ℕ} {b : Bucket} {now : ℤ} {req : Request}
    {received : Time} {records : List BrokerRecord} {ids : List Bytes}
    (h : serve U app topic rps b now req received = .ok (records, ids)) :
    ∃ tenant inputs, apiKeyAuth app req.authorization = .ok tenant ∧
      decodeBody U req.batch req.body = .ok inputs ∧
      List.Forall₂ (RecordOf topic tenant received) inputs records := by
  unfold serve at h
  split_ifs at h
  obtain ⟨tenant, inputs, hauth, hdec, hencode, -⟩ := of_prepare h
  exact ⟨tenant, inputs, hauth, hdec, records_of_encode hencode⟩

end Specs

namespace Exchange

theorem complete_of_run {p : Except Response (List BrokerRecord × List Bytes)} {x : Exchange}
    (h : Relation.ReflTransGen Step (Exchange.start p) x) :
    ∀ s, x.publication = some s → s.Complete := by
  refine Transition.run_invariant (I := fun x => ∀ s, x.publication = some s → s.Complete) ?_ ?_ h
  · intro s hs
    cases p with
    | error r => cases hs
    | ok rs =>
      cases hs
      exact fun hne => absurd rfl hne
  · intro x y hx hstep
    cases hstep with
    | send hs =>
      intro s hs'
      cases hs'
      exact (hx _ rfl).step hs
    | respond hr =>
      intro s hs'
      cases hs'
      exact hx _ rfl
    | late hs =>
      intro s hs'
      cases hs'
      exact (hx _ rfl).step hs

end Exchange

/-- Either every decoded event is handed to the producer, once and in order, or none is; and none is
when the answer is 400, 401, 413, 429 or 500. -/
theorem all_or_nothing (U : UUID.Codec) (app : App) (topic : Bytes) (rps : ℕ) (b : Bucket) (now : ℤ)
    (req : Request) (received : Time) (x : Exchange)
    (h : Relation.ReflTransGen Exchange.Step
      (Exchange.start (serve U app topic rps b now req received)) x) :
    ∃ records, x.produced <+: records ∧
      (records = [] ∨ ∃ tenant inputs, apiKeyAuth app req.authorization = .ok tenant ∧
        decodeBody U req.batch req.body = .ok inputs ∧
        List.Forall₂ (RecordOf topic tenant received) inputs records) ∧
      ∀ r publication, x = .answered r publication → x.produced = records ∧
        (r.status ∈ [400, 401, 413, 429, 500] → records = []) := by
  have hinv := Exchange.inv_of_run h
  have hcomplete := Exchange.complete_of_run h
  cases x with
  | sending ids s =>
    refine ⟨s.records, List.take_prefix _ _, Or.inr (serve_eq_ok hinv.2), ?_⟩
    intro r publication hx
    cases hx
  | answered r publication =>
    cases publication with
    | none =>
      refine ⟨[], List.prefix_refl _, Or.inl rfl, ?_⟩
      intro r' publication hx
      exact ⟨rfl, fun _ => rfl⟩
    | some s =>
      obtain ⟨-, ids, res, hstart, hres, hreply⟩ := hinv
      refine ⟨s.records, List.take_prefix _ _, Or.inr (serve_eq_ok hstart), ?_⟩
      intro r' publication hx
      cases hx
      have hall := hcomplete s rfl (by rw [hres]; simp)
      refine ⟨?_, fun hstatus => ?_⟩
      · change s.records.take s.produced = s.records
        rw [hall, List.take_length]
      · rw [hreply] at hstatus
        cases res with
        | ok u => simp [Exchange.reply] at hstatus
        | error e => simp [Exchange.reply, unavailable, sendError] at hstatus

theorem all_or_nothing_order : ∃ x r publication,
    Relation.ReflTransGen Exchange.Step (Exchange.start
      (serve UUID.standard demoApp [] 1 (.new 1 0) 0 orderRequest (midnight 0))) x ∧
    x = .answered r publication ∧ r.status = 202 ∧ x.produced.length = 1 ∧
    List.Forall₂ (RecordOf [] (ascii ['d']) (midnight 0)) [orderInput] x.produced := by
  obtain ⟨records, ids, hprepare⟩ := prepare_order
  have hallow : ((Bucket.new 1 0).allow 1 0).1.allowed = true := by decide +kernel
  have hbody : orderRequest.body.length ≤ maxRequestBytes := by decide +kernel
  have hserve : serve UUID.standard demoApp [] 1 (.new 1 0) 0 orderRequest (midnight 0) =
      .ok (records, ids) := by rw [serve_eq_prepare hbody, hallow, hprepare]
  have hlen : records.length = 1 := by
    obtain ⟨tenant, inputs, -, hdec, hall⟩ := serve_eq_ok hserve
    rw [decodeBody_order] at hdec
    cases hdec
    exact hall.length_eq.symm
  have hrun := run_single hlen ids
  have hstart : Exchange.start (serve UUID.standard demoApp [] 1 (.new 1 0) 0 orderRequest
      (midnight 0)) = .sending ids (.start records) := by rw [hserve, Exchange.start]
  rw [← hstart] at hrun
  have hproduced : (Exchange.produced (.answered ⟨202, .accepted ids⟩
      (some ⟨records, 1, [], [(0, none)], [], 1, some (.ok ())⟩))).length = 1 := by
    change (records.take 1).length = 1
    rw [← hlen, List.take_length]
  refine ⟨_, _, _, hrun, rfl, rfl, hproduced, ?_⟩
  obtain ⟨rs, -, hrs, hanswered⟩ := all_or_nothing UUID.standard demoApp [] 1 (.new 1 0) 0
    orderRequest (midnight 0) _ hrun
  rw [(hanswered _ _ rfl).1] at hproduced ⊢
  rcases hrs with rfl | ⟨tenant, inputs, hauth, hdec, hall⟩
  · cases hproduced
  · have htenant : apiKeyAuth demoApp orderRequest.authorization = .ok (ascii ['d']) := by decide
    rw [htenant] at hauth
    rw [decodeBody_order] at hdec
    cases hauth
    cases hdec
    exact hall

end IngestKit.Api
