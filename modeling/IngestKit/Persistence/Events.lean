import IngestKit.Event.RoundTrip
import IngestKit.Replay.FirstWins

/-! Rows of `ingestkit.events` and the constraints of that table. -/
namespace IngestKit.Persistence
open Json Event

/-- The columns written by `WriteBatch`; `persisted_at` is the database's own. Times
are microseconds since 1 January of year 1 UTC. -/
structure Row where
  tenantID : Bytes
  eventID : UUID
  eventType : Bytes
  occurredAt : ℤ
  receivedAt : ℤ
  payload : Bytes
  deriving DecidableEq

def microseconds (t : Time) : ℤ := t.sec * 1000000 + t.nsec / 1000

def Row.ofEnvelope (e : Envelope) : Row :=
  ⟨e.tenantID, e.eventID, e.eventType, microseconds e.occurredAt, microseconds e.receivedAt,
    e.payload⟩

/-- The primary key. -/
def Row.key (r : Row) : Bytes × UUID := (r.tenantID, r.eventID)

structure WriteResult where
  inserted : ℕ
  duplicates : ℕ
  deriving DecidableEq

/-- One `INSERT .. ON CONFLICT (tenant_id,event_id) DO NOTHING` over all events. -/
def writeBatch (table : List Row) (events : List Envelope) : List Row × WriteResult :=
  let after := Replay.insertAll Row.key table (events.map Row.ofEnvelope)
  let affected := after.length - table.length
  (after, ⟨affected, events.length - affected⟩)

/-- A `text` column under `CHECK (octet_length(..) BETWEEN 1 AND 128)`. -/
def TextColumn (b : Bytes) : Prop :=
  (∃ cs, b = Utf8.encode cs ∧ Char.ofNat 0 ∉ cs) ∧ 1 ≤ b.length ∧ b.length ≤ 128

/-- A `timestamptz` column, whose range covers years -1 to 10000. -/
def TimestampColumn (us : ℤ) : Prop :=
  Time.daysBeforeYear (-1) * 86400000000 ≤ us ∧ us < Time.daysBeforeYear 10001 * 86400000000

/-- A `jsonb` column under `CHECK (jsonb_typeof(payload)='object')`. -/
def ObjectColumn (b : Bytes) : Prop :=
  ∃ d : Doc, d.print = b ∧ d.value.isObject = true ∧ d.value.depth ≤ maxPayloadDepth ∧
    (∀ s ∈ d.value.strings, ∃ cs, Denotes s cs ∧ Char.ofNat 0 ∉ cs) ∧
    ∀ n ∈ d.value.numbers, n.IntegerDigits 131072 ∧ n.scale ≤ 16383

structure Row.Storable (r : Row) : Prop where
  tenantID : TextColumn r.tenantID
  eventType : TextColumn r.eventType
  occurredAt : TimestampColumn r.occurredAt
  receivedAt : TimestampColumn r.receivedAt
  payload : ObjectColumn r.payload

private theorem textColumn_of_validText {b : Bytes} (h : validText b = true)
    (h1 : 1 ≤ b.length) (h2 : b.length ≤ 128) : TextColumn b := by
  rw [validText, Bool.and_eq_true, Utf8.valid_iff] at h
  obtain ⟨⟨cs, rfl⟩, hn⟩ := h
  refine ⟨⟨cs, rfl, fun hc => ?_⟩, h1, h2⟩
  have hm : (0 : UInt8) ∈ Utf8.encode cs := List.mem_flatMap.mpr ⟨_, hc, by decide⟩
  simp [hm] at hn

private theorem timestampColumn_of_withinYears {t : Time} (h : Time.WithinYears (-1) 10000 t) :
    TimestampColumn (microseconds t) := by
  obtain ⟨h0, h1⟩ := h
  have hn := t.nsec_lt
  rw [show (10000 + 1 : ℤ) = 10001 by norm_num] at h1
  simp only [TimestampColumn, microseconds]
  omega

private theorem objectColumn_of_goodValue {b : Bytes} {d : Doc} (hp : parse? b = some d)
    (ho : d.value.isObject = true) (hg : goodValue d.value = true) : ObjectColumn b := by
  simp only [goodValue, goodNumbers, Bool.and_eq_true, decide_eq_true_eq, List.all_eq_true] at hg
  obtain ⟨⟨hd, hn⟩, hs⟩ := hg
  refine ⟨d, ((parse?_eq_some_iff b d).mp hp).1, ho, hd, fun s hm => ?_, fun n hm => ?_⟩
  · have hgood := hs s hm
    rw [goodLiteral, Bool.and_eq_true] at hgood
    exact denotes_of_paired s hgood.2 hgood.1
  · exact integerDigits_of_representable (hn n hm)

/-- Whatever the consumer accepts as valid, the table can store. -/
theorem storable_of_decodeEnvelope (U : UUID.Codec) (raw : Bytes) (e : Envelope)
    (h : decodeEnvelope U raw = .ok e) : (Row.ofEnvelope e).Storable := by
  obtain ⟨hv, ht, -, ⟨b, hb⟩, t, b', hb', hr⟩ := decodeEnvelope_spec h
  obtain ⟨d, hp, ho, hg⟩ := hv.payload
  simp only [validTenant, Bool.and_eq_true, decide_eq_true_eq] at ht
  have hrecv : Time.WithinYears (-1) 10000 e.receivedAt := by
    have hw := Time.withinYears_of_parse hb'
    rw [hr]
    exact hw
  exact {
    tenantID := textColumn_of_validText ht.2 ht.1.1 ht.1.2
    eventType := textColumn_of_validText hv.eventType.2.2 hv.eventType.1 hv.eventType.2.1
    occurredAt := timestampColumn_of_withinYears (Time.withinYears_of_parse hb)
    receivedAt := timestampColumn_of_withinYears hrecv
    payload := objectColumn_of_goodValue hp ho hg }

def orderEnvelope : Envelope := ⟨orderInput, ascii ['d'], midnight 0⟩

/-- The record a producer would write for that envelope, with its blanks kept. -/
def orderRecord : Bytes :=
  0x7b :: (memberText Name.tenantID (quoted (ascii ['d'])) ++ 0x2c ::
    (memberText Name.receivedAt (quoted (midnight 0).text) ++ 0x2c :: orderBody.tail))

theorem decode_orderRecord : decodeEnvelope UUID.standard orderRecord = .ok orderEnvelope := by
  decide +kernel

theorem storable_orderEnvelope : (Row.ofEnvelope orderEnvelope).Storable :=
  storable_of_decodeEnvelope UUID.standard orderRecord orderEnvelope decode_orderRecord

end IngestKit.Persistence
