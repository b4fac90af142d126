import IngestKit.Event.Accepted
import IngestKit.Json.Plain

/-! The broker envelope as JSON. HTML characters are not escaped and the payload is
emitted without insignificant whitespace. -/
namespace IngestKit.Event
open Json

/-- The members of an envelope, given its formatted times and parsed payload. -/
def envelopeMembers (e : Envelope) (occurred : Bytes) (payload : Value) (received : Bytes) :
    Members :=
  .more (.plain Name.eventID) (.string (quote e.eventID.string)) []
    (.more (.plain Name.eventType) (.string (quote e.eventType)) []
      (.more (.plain Name.occurredAt) (.string (Str.plain occurred)) []
        (.more (.plain Name.payload) payload.strip []
          (.more (.plain Name.tenantID) (.string (quote e.tenantID)) []
            (.one (.plain Name.receivedAt) (.string (Str.plain received)) [])))))

/-- `json.Encoder.Encode`: a value and a newline. -/
def marshalEnvelope (e : Envelope) : Option Bytes :=
  match e.occurredAt.marshalText, parse? e.payload, e.receivedAt.marshalText with
  | some occurred, some d, some received =>
    some ((Value.object (envelopeMembers e occurred d.value received)).print ++ [0x0a])
  | _, _, _ => none

def encodeEnvelope (e : Envelope) : Except Error Bytes :=
  match accept e.toInput e.tenantID e.receivedAt with
  | .error err => .error err
  | .ok _ =>
    match marshalEnvelope e with
    | none => .error .encoding
    | some b =>
      if b.length > maxEnvelopeBytes then
        .error (.validation ⟨"broker envelope exceeds byte limit", true⟩)
      else .ok b

/-- An envelope that `accept` builds from a decoded body. -/
structure Envelope.Accepted (e : Envelope) : Prop where
  valid : e.toInput.Valid
  tenant : validTenant e.tenantID = true
  received : e.receivedAt.isZero = false
  utc : e.receivedAt.offset = 0
  occurred : ∃ b, Time.parse b = some e.occurredAt
  size : e.payload.length ≤ maxEventBytes

theorem accepted_of_decodeInput {U : UUID.Codec} {raw tenant : Bytes} {i : Input} {now : Time}
    (h : decodeInput U raw = .ok i) (ht : validTenant tenant = true) (hz : now.isZero = false) :
    (⟨i, tenant, now.utc⟩ : Envelope).Accepted := by
  obtain ⟨hlen, hv, hp, hpl⟩ := decodeInput_spec h
  exact ⟨hv, ht, hz, rfl, hp, hpl.trans hlen⟩

theorem accept_eq_ok {i : Input} {tenant : Bytes} {now : Time} (hv : i.Valid)
    (ht : validTenant tenant = true) (hz : now.isZero = false) :
    accept i tenant now = .ok ⟨i, tenant, now.utc⟩ :=
  (accept_ok_iff _ _ _ _).mpr ⟨hv, ht, hz, rfl⟩

/-- Member names need no escape. -/
theorem plainByte_names : ∀ n ∈ [Name.eventID, Name.eventType, Name.occurredAt, Name.payload,
    Name.tenantID, Name.receivedAt], ∀ x ∈ n, PlainByte x := by
  decide +kernel

theorem plainByte_num (w n : ℕ) : ∀ x ∈ Time.num w n, PlainByte x := plainByte_digits _

theorem plainByte_text (t : Time) : ∀ x ∈ t.text, PlainByte x := by
  have hfrac : ∀ x ∈ Time.fractionText t.nsec, PlainByte x := by
    unfold Time.fractionText
    split_ifs
    · simp
    · exact List.forall_mem_cons.mpr ⟨by decide, plainByte_digits _⟩
  have hzone : ∀ x ∈ Time.zoneText t.offset, PlainByte x := by
    have hnum : ∀ m n, ∀ x ∈ Time.num 2 m ++ 0x3a :: Time.num 2 n, PlainByte x := fun m n =>
      List.forall_mem_append.mpr ⟨plainByte_num _ _,
        List.forall_mem_cons.mpr ⟨by decide, plainByte_num _ _⟩⟩
    unfold Time.zoneText
    split_ifs
    · decide +kernel
    · exact List.forall_mem_cons.mpr ⟨by decide, hnum _ _⟩
    · exact List.forall_mem_cons.mpr ⟨by decide, hnum _ _⟩
  have hsep : ∀ (c : UInt8), PlainByte c → ∀ w m (r : Bytes), (∀ x ∈ r, PlainByte x) →
      ∀ x ∈ Time.num w m ++ c :: r, PlainByte x := fun c hc w m r hr =>
    List.forall_mem_append.mpr ⟨plainByte_num _ _, List.forall_mem_cons.mpr ⟨hc, hr⟩⟩
  refine List.forall_mem_append.mpr ⟨?_, List.forall_mem_cons.mpr ⟨by decide,
    List.forall_mem_append.mpr ⟨?_, List.forall_mem_append.mpr ⟨hfrac, hzone⟩⟩⟩⟩
  · exact hsep _ (by decide) _ _ _ (hsep _ (by decide) _ _ _ (plainByte_num _ _))
  · exact hsep _ (by decide) _ _ _ (hsep _ (by decide) _ _ _ (plainByte_num _ _))

end IngestKit.Event
