import IngestKit.Event.Jsonb
import IngestKit.Json.Decode

/-! Validation and decoding of requests and broker records. -/
namespace IngestKit.Event
open Json

def isJSONObject (payload : Bytes) : Bool :=
  match parse? payload with
  | none => false
  | some d => d.value.isObject

def validate (i : Input) : Except Error Unit :=
  if i.eventID = UUID.nil then .error (invalid "event_id must be a nonzero UUID")
  else if i.eventType.length = 0 ∨ i.eventType.length > 128 ∨ validText i.eventType = false then
    .error (invalid "event_type must contain 1–128 bytes")
  else if i.occurredAt.isZero then .error (invalid "occurred_at must be an RFC 3339 timestamp")
  else if isJSONObject i.payload = false then .error (invalid "payload must be a JSON object")
  else if validJSONB i.payload = false then
    .error (invalid "payload must be PostgreSQL-compatible JSON with nesting at most 64")
  else .ok ()

def accept (i : Input) (tenant : Bytes) (received : Time) : Except Error Envelope :=
  match validate i with
  | .error e => .error e
  | .ok () =>
    if validTenant tenant = false ∨ received.isZero then
      .error (.server "invalid server event identity")
    else .ok ⟨i, tenant, received.utc⟩

/-- `time.Time` reads the bytes between the quotes without resolving escapes. -/
def unmarshalTime (v : Value) (old : Time) : Option Time :=
  match v with
  | .null => some old
  | .string s => Time.parse s.body
  | _ => none

namespace Name

def eventID : Bytes := ascii ['e', 'v', 'e', 'n', 't', '_', 'i', 'd']

def eventType : Bytes := ascii ['e', 'v', 'e', 'n', 't', '_', 't', 'y', 'p', 'e']

def occurredAt : Bytes := ascii ['o', 'c', 'c', 'u', 'r', 'r', 'e', 'd', '_', 'a', 't']

def payload : Bytes := ascii ['p', 'a', 'y', 'l', 'o', 'a', 'd']

def tenantID : Bytes := ascii ['t', 'e', 'n', 'a', 'n', 't', '_', 'i', 'd']

def receivedAt : Bytes := ascii ['r', 'e', 'c', 'e', 'i', 'v', 'e', 'd', '_', 'a', 't']

def events : Bytes := ascii ['e', 'v', 'e', 'n', 't', 's']

end Name

/-- The checks every document goes through before its fields are looked at. -/
def decode {σ : Type} (fs : List (FieldSpec σ)) (start : σ) (max : ℕ) (raw : Bytes) :
    Except Error σ :=
  if raw.length > max then
    .error (.validation ⟨"event or request exceeds byte limit", true⟩)
  else if validUnicodeJSON raw = false then
    .error (invalid "JSON text must be valid Unicode without NUL")
  else match decodeFirst raw with
    | none => .error (invalid "invalid event JSON or field")
    | some (v, rest) =>
      match decodeStruct .refuse fs v start with
      | none => .error (invalid "invalid event JSON or field")
      | some s =>
        if atEOF rest then .ok s else .error (invalid "expected one JSON document")

section Fields
variable (U : UUID.Codec) {σ : Type}

/-- The fields of `Input`, inside any record that holds one. -/
def inputFields (get : σ → Input) (put : Input → σ → σ) : List (FieldSpec σ) :=
  [⟨Name.eventID, fun v s =>
      (decodeText U.unmarshalText v (get s).eventID).map fun x => put { get s with eventID := x } s⟩,
   ⟨Name.eventType, fun v s =>
      (decodeString v (get s).eventType).map fun x => put { get s with eventType := x } s⟩,
   ⟨Name.occurredAt, fun v s =>
      (unmarshalTime v (get s).occurredAt).map fun x => put { get s with occurredAt := x } s⟩,
   ⟨Name.payload, fun v s => some (put { get s with payload := v.print } s)⟩]

def envelopeFields : List (FieldSpec Envelope) :=
  inputFields U (fun e => e.toInput) (fun i e => { e with toInput := i }) ++
    [⟨Name.tenantID, fun v e => (decodeString v e.tenantID).map fun x => { e with tenantID := x }⟩,
     ⟨Name.receivedAt, fun v e =>
        (unmarshalTime v e.receivedAt).map fun x => { e with receivedAt := x }⟩]

def decodeInput (raw : Bytes) : Except Error Input :=
  match decode (inputFields U id fun i _ => i) Input.zero maxEventBytes raw with
  | .error e => .error e
  | .ok i =>
    match validate i with
    | .error e => .error e
    | .ok () => .ok i

/-- A list of raw messages; `null` empties it. -/
def unmarshalList (v : Value) : Option (List Bytes) :=
  match v with
  | .null => some []
  | .emptyArray _ => some []
  | .array es => some (es.values.map Value.print)
  | _ => none

def batchFields : List (FieldSpec (List Bytes)) := [⟨Name.events, fun v _ => unmarshalList v⟩]

def decodeAll : List Bytes → Except Error (List Input)
  | [] => .ok []
  | b :: bs =>
    match decodeInput U b with
    | .error e => .error e
    | .ok i =>
      match decodeAll bs with
      | .error e => .error e
      | .ok is => .ok (i :: is)

def decodeBatch (raw : Bytes) : Except Error (List Input) :=
  match decode batchFields [] maxRequestBytes raw with
  | .error e => .error e
  | .ok events =>
    if events.length = 0 ∨ events.length > maxBatchEvents then
      .error (invalid "batch must contain 1–100 events")
    else decodeAll U events

def decodeEnvelope (raw : Bytes) : Except Error Envelope :=
  match decode (envelopeFields U) Envelope.zero maxEnvelopeBytes raw with
  | .error e => .error e
  | .ok e => accept e.toInput e.tenantID e.receivedAt

end Fields

/-- What `validate` checks. -/
structure Input.Valid (i : Input) : Prop where
  eventID : i.eventID ≠ UUID.nil
  eventType : 1 ≤ i.eventType.length ∧ i.eventType.length ≤ 128 ∧ validText i.eventType = true
  occurredAt : i.occurredAt.isZero = false
  payload : ∃ d, parse? i.payload = some d ∧ d.value.isObject = true ∧ goodValue d.value = true

theorem validate_ok_iff (i : Input) : validate i = .ok () ↔ i.Valid := by
  have hobj : isJSONObject i.payload = true ∧ validJSONB i.payload = true ↔
      ∃ d, parse? i.payload = some d ∧ d.value.isObject = true ∧ goodValue d.value = true := by
    rw [validJSONB_iff, isJSONObject]
    cases parse? i.payload <;> simp
  unfold validate
  split_ifs with hid htype htime hmap hjsonb
  · exact iff_of_false (by simp) fun h => h.eventID hid
  · refine iff_of_false (by simp) fun h => ?_
    obtain ⟨h1, h2, h3⟩ := h.eventType
    rcases htype with ht | ht | ht
    · omega
    · omega
    · simp [h3] at ht
  · exact iff_of_false (by simp) fun h => by simp [h.occurredAt] at htime
  · exact iff_of_false (by simp) fun h => by simp [(hobj.mpr h.payload).1] at hmap
  · exact iff_of_false (by simp) fun h => by simp [(hobj.mpr h.payload).2] at hjsonb
  · simp only [not_or, Bool.not_eq_false, not_lt] at htype hmap hjsonb
    exact iff_of_true rfl ⟨hid, ⟨by omega, htype.2⟩, by simpa using htime, hobj.mp ⟨hmap, hjsonb⟩⟩

theorem accept_ok_iff (i : Input) (tenant : Bytes) (received : Time) (e : Envelope) :
    accept i tenant received = .ok e ↔ i.Valid ∧ validTenant tenant = true ∧
      received.isZero = false ∧ e = ⟨i, tenant, received.utc⟩ := by
  unfold accept
  split
  next err herr =>
    refine iff_of_false (by simp) fun h => ?_
    rw [← validate_ok_iff, herr] at h
    exact absurd h.1 (by simp)
  next hok =>
    rw [validate_ok_iff] at hok
    split_ifs with h
    · refine iff_of_false (by simp) fun hv => ?_
      rcases h with h | h
      · simp [hv.2.1] at h
      · simp [hv.2.2.1] at h
    · simp only [not_or, Bool.not_eq_false, Bool.not_eq_true] at h
      simp only [Except.ok.injEq, hok, h, true_and]
      exact eq_comm

theorem decode_ok_iff {σ : Type} (fs : List (FieldSpec σ)) (start s : σ) (max : ℕ) (raw : Bytes) :
    decode fs start max raw = .ok s ↔ raw.length ≤ max ∧ validUnicodeJSON raw = true ∧
      ∃ d, parse? raw = some d ∧ decodeStruct .refuse fs d.value start = some s := by
  unfold decode
  split_ifs with hlen huni
  · exact iff_of_false (by simp) fun h => by omega
  · exact iff_of_false (by simp) fun h => by simp [h.2.1] at huni
  · simp only [Bool.not_eq_false] at huni
    simp only [huni, true_and, show raw.length ≤ max by omega]
    constructor
    · intro h
      split at h
      · cases h
      next v rest hv =>
        split at h
        · cases h
        next s' hs =>
          split_ifs at h with he
          cases h
          exact ⟨_, parse?_of_decodeFirst hv he, hs⟩
    · rintro ⟨d, hp, hs⟩
      obtain ⟨t, hv, he⟩ := decodeFirst_of_parse? hp
      simp only [hv, hs, he, if_true]

end IngestKit.Event
