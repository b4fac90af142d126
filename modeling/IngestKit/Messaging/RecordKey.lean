import IngestKit.Messaging.Publisher
import IngestKit.Persistence.Events

/-! The key of a broker record against the primary key of the table. A tenant may hold colons and
hexadecimal text; the text of a UUID always has 36 bytes. -/
namespace IngestKit.Messaging
open Event Persistence

theorem recordKey_inj {a b : Bytes} {x y : UUID} :
    recordKey a x = recordKey b y ↔ a = b ∧ x = y := by
  constructor
  · intro h
    have hlength : (0x3a :: x.string).length = (0x3a :: y.string).length := by
      rw [List.length_cons, List.length_cons, x.length_string, y.length_string]
    obtain ⟨htenant, hid⟩ := List.append_inj' h hlength
    exact ⟨htenant, UUID.string_injective (List.cons.inj hid).2⟩
  · rintro ⟨rfl, rfl⟩
    rfl

theorem key_of_encodeRecords {topic : Bytes} {events : List Envelope}
    {records : List BrokerRecord} (h : encodeRecords topic events = .ok records) {e : Envelope}
    {r : BrokerRecord} (hr : (e, r) ∈ events.zip records) :
    r.key = recordKey e.tenantID e.eventID := by
  induction events generalizing records with
  | nil => cases hr
  | cons f fs ih =>
    unfold encodeRecords at h
    split at h
    · cases h
    next raw hraw =>
      split at h
      · cases h
      next rs hrs =>
        cases h
        rw [List.zip_cons_cons, List.mem_cons] at hr
        rcases hr with hr | hr
        · obtain ⟨rfl, rfl⟩ := Prod.mk.inj hr
          rfl
        · exact ih hrs hr

theorem key_ofEnvelope (e : Envelope) : (Row.ofEnvelope e).key = (e.tenantID, e.eventID) := rfl

theorem rows_writeBatch (table : List Row) (e : Envelope) : (writeBatch table [e]).1 =
    if ∃ row ∈ table, row.key = (Row.ofEnvelope e).key then table
    else table ++ [Row.ofEnvelope e] := by
  simp only [writeBatch, List.map_cons, List.map_nil, Replay.insertAll, List.foldl_cons,
    List.foldl_nil, Replay.insertNew, List.any_eq_true, decide_eq_true_eq]

theorem duplicate_writeBatch (table : List Row) (e : Envelope) :
    (writeBatch table [e]).2 = ⟨0, 1⟩ ↔ ∃ row ∈ table, row.key = (Row.ofEnvelope e).key := by
  have hresult : (writeBatch table [e]).2 = ⟨(writeBatch table [e]).1.length - table.length,
      1 - ((writeBatch table [e]).1.length - table.length)⟩ := rfl
  rw [hresult, rows_writeBatch]
  split_ifs with h
  · simp [h]
  · simp [h]

theorem keys_writeBatch (table : List Row) (e : Envelope) (k : Bytes × UUID) :
    (∃ row ∈ (writeBatch table [e]).1, row.key = k) ↔
      (∃ row ∈ table, row.key = k) ∨ (Row.ofEnvelope e).key = k := by
  rw [rows_writeBatch]
  split_ifs with h
  · constructor
    · exact Or.inl
    · rintro (hk | rfl)
      · exact hk
      · exact h
  · simp [or_and_right, exists_or]

/-- The keys of two records are equal exactly if tenant and event ID are: so records of any two
publications share their key exactly if their events have one primary key, which is when the
second event is a duplicate for a table that has no row of its key but for the first. -/
theorem record_key_identifies_row :
    (∀ (a b : Bytes) (x y : UUID), recordKey a x = recordKey b y ↔ a = b ∧ x = y) ∧
      ∀ (topic topic' : Bytes) (events events' : List Envelope) (records records' :
        List BrokerRecord), encodeRecords topic events = .ok records →
        encodeRecords topic' events' = .ok records' →
        ∀ e r e' r', (e, r) ∈ events.zip records → (e', r') ∈ events'.zip records' →
          (r.key = r'.key ↔ (Row.ofEnvelope e).key = (Row.ofEnvelope e').key) ∧
          ∀ table : List Row, (∀ row ∈ table, row.key ≠ (Row.ofEnvelope e').key) →
            (r.key = r'.key ↔ (writeBatch (writeBatch table [e]).1 [e']).2 = ⟨0, 1⟩) := by
  refine ⟨fun _ _ _ _ => recordKey_inj, ?_⟩
  intro topic topic' events events' records records' h h' e r e' r' hr hr'
  have hkeys : r.key = r'.key ↔ (Row.ofEnvelope e).key = (Row.ofEnvelope e').key := by
    rw [key_of_encodeRecords h hr, key_of_encodeRecords h' hr', recordKey_inj, key_ofEnvelope,
      key_ofEnvelope, Prod.mk.injEq]
  refine ⟨hkeys, fun table htable => ?_⟩
  rw [hkeys, duplicate_writeBatch, keys_writeBatch]
  constructor
  · exact Or.inr
  · rintro (⟨row, hrow, hkey⟩ | hkey)
    · exact absurd hkey (htable row hrow)
    · exact hkey

/-- A second publication of an event meets the row of the first. -/
theorem record_key_identifies_row_order : ∃ r, encodeRecords [] [orderEnvelope] = .ok [r] ∧
    (r.key = r.key ↔
      (writeBatch (writeBatch [] [orderEnvelope]).1 [orderEnvelope]).2 = ⟨0, 1⟩) := by
  have hencode : ∃ r, encodeRecords [] [orderEnvelope] = .ok [r] := by
    have hok : (encodeEnvelope orderEnvelope).isOk = true := by decide +kernel
    cases h : encodeEnvelope orderEnvelope with
    | error err =>
      rw [h] at hok
      cases hok
    | ok raw => exact ⟨_, by rw [encodeRecords, h]; rfl⟩
  obtain ⟨r, hr⟩ := hencode
  have hmem : (orderEnvelope, r) ∈ [orderEnvelope].zip [r] := List.mem_cons_self
  exact ⟨r, hr, (record_key_identifies_row.2 [] [] _ _ _ _ hr hr _ _ _ _ hmem hmem).2 []
    (List.forall_mem_nil _)⟩

end IngestKit.Messaging
