import IngestKit.Event.RoundTrip
import IngestKit.Messaging.Publisher

/-! One HTTP request: authentication, rate limit, decoding, publication and the answer.
`X-Request-ID` and response timestamps are left out. -/
namespace IngestKit.Api
open Event Messaging

structure Config where
  apiKeys : List (Bytes × Bytes)
  rateLimitRPS : ℤ
  publishTimeout : ℤ

/-- A running application: nonempty keys, each mapped to a valid tenant. -/
structure App where
  keys : List (Bytes × Bytes)
  valid : ∀ kv ∈ keys, kv.1 ≠ [] ∧ validTenant kv.2 = true

def newApp (config : Config) : Option App :=
  if config.apiKeys.length = 0 ∨ config.rateLimitRPS ≤ 0 ∨ config.publishTimeout ≤ 0 then none
  else if h : ∀ kv ∈ config.apiKeys, kv.1 ≠ [] ∧ validTenant kv.2 = true then
    some ⟨config.apiKeys, h⟩
  else none

inductive Body
  | error (code message : String)
  | accepted (eventIDs : List Bytes)
  deriving DecidableEq

structure Response where
  status : ℕ
  body : Body
  deriving DecidableEq

def sendError (status : ℕ) (code message : String) : Response := ⟨status, .error code message⟩

def App.validateKey (app : App) (key : Bytes) : Option Bytes := app.keys.lookup key

def bearer : Bytes := ascii ['B', 'e', 'a', 'r', 'e', 'r', ' ']

/-- Both `Bearer <key>` and the plain key are understood. -/
def extractKey (header : Bytes) : Bytes :=
  if bearer.isPrefixOf header then header.drop bearer.length else header

def apiKeyAuth (app : App) (header : Bytes) : Except Response Bytes :=
  if header = [] then
    .error (sendError 401 "authentication_failed" "missing authorization header")
  else
    match app.validateKey (extractKey header) with
    | none => .error (sendError 401 "authentication_failed" "invalid API key")
    | some tenant => .ok tenant

/-- The limiter's verdict comes from the tenant's bucket. -/
def rateLimit (allowed : Bool) : Except Response Unit :=
  if allowed then .ok ()
  else .error (sendError 429 "rate_limit_exceeded" "rate limit exceeded, please try again later")

structure Request where
  authorization : Bytes
  body : Bytes
  batch : Bool

section Handler
variable (U : UUID.Codec)

def decodeBody (batch : Bool) (raw : Bytes) : Except Error (List Input) :=
  if batch then decodeBatch U raw
  else match decodeInput U raw with
    | .error e => .error e
    | .ok i => .ok [i]

def acceptAll (tenant : Bytes) (received : Time) : List Input → Except Error (List Envelope)
  | [] => .ok []
  | i :: is =>
    match accept i tenant received with
    | .error e => .error e
    | .ok e =>
      match acceptAll tenant received is with
      | .error err => .error err
      | .ok es => .ok (e :: es)

def unavailable : Response :=
  sendError 503 "unavailable" "delivery is uncertain; retry with the same event IDs"

/-- The handler of both routes, up to the first record handed to the producer. `tenant` is what the
authentication left in the request's locals. -/
def ingest (topic : Bytes) (batch : Bool) (raw : Bytes) (tenant : Option Bytes) (received : Time) :
    Except Response (List BrokerRecord × List Bytes) :=
  match decodeBody U batch raw with
  | .error e =>
    .error (sendError (if isTooLarge e then 413 else 400) "validation_failed" e.message)
  | .ok inputs =>
    match tenant with
    | none => .error (sendError 500 "internal_error" "missing tenant identity")
    | some tenant =>
      match acceptAll tenant received inputs with
      | .error _ => .error (sendError 400 "validation_failed" "invalid event identity")
      | .ok events =>
        match encodeRecords topic events with
        | .error _ => .error unavailable
        | .ok records => .ok (records, inputs.map fun i => i.eventID.string)

/-- Authentication, the answer of the tenant's bucket and the handler. -/
def prepare (app : App) (topic : Bytes) (req : Request) (allowed : Bool) (received : Time) :
    Except Response (List BrokerRecord × List Bytes) :=
  match apiKeyAuth app req.authorization with
  | .error r => .error r
  | .ok tenant =>
    match rateLimit allowed with
    | .error r => .error r
    | .ok () => ingest U topic req.batch req.body (some tenant) received

end Handler

/-- A request that is being published, or one that was answered while callbacks of its
records may still run. -/
inductive Exchange
  | sending (ids : List Bytes) (s : Sending)
  | answered (r : Response) (s : Option Sending)

namespace Exchange

def start : Except Response (List BrokerRecord × List Bytes) → Exchange
  | .error r => .answered r none
  | .ok (records, ids) => .sending ids (.start records)

def reply (ids : List Bytes) : Except PublishError Unit → Response
  | .ok () => ⟨202, .accepted ids⟩
  | .error _ => unavailable

inductive Step : Exchange → Exchange → Prop
  | send {ids : List Bytes} {s s' : Sending} (h : Sending.Step s s') :
      Step (.sending ids s) (.sending ids s')
  | respond {ids : List Bytes} {s : Sending} {r : Except PublishError Unit}
      (h : s.result = some r) : Step (.sending ids s) (.answered (reply ids r) (some s))
  | late {r : Response} {s s' : Sending} (h : Sending.Step s s') :
      Step (.answered r (some s)) (.answered r (some s'))

def publication : Exchange → Option Sending
  | .sending _ s => some s
  | .answered _ s => s

end Exchange

section Accepted
variable {U : UUID.Codec}

theorem validTenant_of_auth {app : App} {header tenant : Bytes}
    (h : apiKeyAuth app header = .ok tenant) : validTenant tenant = true := by
  unfold apiKeyAuth at h
  split_ifs at h
  split at h
  · cases h
  next t ht =>
    cases h
    obtain ⟨a, b, hab, -⟩ := List.lookup_eq_some_iff.mp ht
    exact (app.valid (extractKey header, tenant) (by rw [hab]; simp)).2

private theorem decodeAll_mem {raws : List Bytes} {inputs : List Input}
    (h : decodeAll U raws = .ok inputs) : ∀ i ∈ inputs, ∃ raw, decodeInput U raw = .ok i := by
  induction raws generalizing inputs with
  | nil =>
    cases h
    simp
  | cons b bs ih =>
    unfold decodeAll at h
    split at h
    · cases h
    next i hi =>
      split at h
      · cases h
      next is his =>
        cases h
        exact List.forall_mem_cons.mpr ⟨⟨b, hi⟩, ih his⟩

/-- Each input of an accepted body was accepted on its own. -/
theorem decodeBody_mem {batch : Bool} {raw : Bytes} {inputs : List Input}
    (h : decodeBody U batch raw = .ok inputs) : ∀ i ∈ inputs, ∃ raw, decodeInput U raw = .ok i := by
  unfold decodeBody at h
  split_ifs at h
  · unfold decodeBatch at h
    split at h
    · cases h
    next events _ =>
      split_ifs at h
      exact decodeAll_mem h
  · split at h
    · cases h
    next i hi =>
      cases h
      exact List.forall_mem_singleton.mpr ⟨raw, hi⟩

theorem acceptAll_eq_ok {tenant : Bytes} {received : Time} {inputs : List Input}
    {events : List Envelope} (h : acceptAll tenant received inputs = .ok events) :
    events = inputs.map fun i => ⟨i, tenant, received.utc⟩ := by
  induction inputs generalizing events with
  | nil =>
    cases h
    rfl
  | cons i is ih =>
    unfold acceptAll at h
    split at h
    · cases h
    next e he =>
      split at h
      · cases h
      next es hes =>
        cases h
        rw [((accept_ok_iff _ _ _ _).mp he).2.2.2, ih hes, List.map_cons]

/-- What a request went through that may be published. -/
theorem of_prepare {app : App} {topic : Bytes} {req : Request} {allowed : Bool} {received : Time}
    {records : List BrokerRecord} {ids : List Bytes}
    (h : prepare U app topic req allowed received = .ok (records, ids)) :
    ∃ tenant inputs, apiKeyAuth app req.authorization = .ok tenant ∧
      decodeBody U req.batch req.body = .ok inputs ∧
      encodeRecords topic (inputs.map fun i => ⟨i, tenant, received.utc⟩) = .ok records ∧
      ids = inputs.map fun i => i.eventID.string := by
  unfold prepare ingest at h
  split at h
  · cases h
  next tenant hauth =>
    split at h
    · cases h
    · split at h
      · cases h
      next inputs hdec =>
        dsimp only at h
        split at h
        · cases h
        next events haccept =>
          split at h
          · cases h
          next rs hencode =>
            cases h
            rw [acceptAll_eq_ok haccept] at hencode
            exact ⟨tenant, inputs, hauth, hdec, hencode, rfl⟩

theorem acceptAll_of_valid {tenant : Bytes} {received : Time} (inputs : List Input)
    (hv : ∀ i ∈ inputs, i.Valid) (ht : validTenant tenant = true) (hz : received.isZero = false) :
    acceptAll tenant received inputs = .ok (inputs.map fun i => ⟨i, tenant, received.utc⟩) := by
  induction inputs with
  | nil => rfl
  | cons i is ih =>
    obtain ⟨hi, his⟩ := List.forall_mem_cons.mp hv
    rw [acceptAll, accept_eq_ok hi ht hz, ih his, List.map_cons]

theorem encodeRecords_eq_ok {topic : Bytes} {events : List Envelope} {records : List BrokerRecord}
    (h : encodeRecords topic events = .ok records) :
    List.Forall₂ (fun e r => encodeEnvelope e = .ok r.value) events records := by
  induction events generalizing records with
  | nil =>
    cases h
    exact .nil
  | cons e es ih =>
    unfold encodeRecords at h
    split at h
    · cases h
    next raw hraw =>
      split at h
      · cases h
      next rs hrs =>
        cases h
        exact .cons hraw (ih hrs)

/-- Publication gets as far as the producer exactly when every event encodes. -/
theorem encodeRecords_ok_iff (topic : Bytes) (events : List Envelope) :
    (∃ records, encodeRecords topic events = .ok records) ↔
      ∀ e ∈ events, ∃ raw, encodeEnvelope e = .ok raw := by
  induction events with
  | nil => exact iff_of_true ⟨[], rfl⟩ (by simp)
  | cons e es ih =>
    rw [List.forall_mem_cons, ← ih]
    cases he : encodeEnvelope e with
    | error err => simp [encodeRecords, he]
    | ok raw =>
      cases hes : encodeRecords topic es with
      | error err => simp [encodeRecords, he, hes]
      | ok rs => simp [encodeRecords, he, hes]

end Accepted

end IngestKit.Api
