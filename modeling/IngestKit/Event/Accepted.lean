import IngestKit.Event.Decode

/-! What a decoded input or envelope guarantees. -/
namespace IngestKit.Event
open Json

/-- The timestamp was never set or was read from text. -/
def Decoded (t : Time) : Prop := t = Time.zero ∨ ∃ b, Time.parse b = some t

theorem Decoded.exists_parse {t : Time} (h : Decoded t) (hz : t.isZero = false) :
    ∃ b, Time.parse b = some t := by
  rcases h with rfl | h
  · cases hz
  · exact h

theorem unmarshalTime_decoded {v : Value} {old t : Time} (hold : Decoded old)
    (h : unmarshalTime v old = some t) : Decoded t := by
  unfold unmarshalTime at h
  split at h
  · exact Option.some.inj h ▸ hold
  next s => exact Or.inr ⟨s.body, h⟩
  · cases h

/-- The payload is a part of a text of `n` bytes. -/
def FieldsRead (n : ℕ) (i : Input) : Prop := Decoded i.occurredAt ∧ i.payload.length ≤ n

theorem fieldsRead_zero (n : ℕ) : FieldsRead n Input.zero := ⟨Or.inl rfl, Nat.zero_le _⟩

theorem inputFields_set {U : UUID.Codec} {σ : Type} {get : σ → Input} {put : Input → σ → σ}
    {n : ℕ} {f : FieldSpec σ} (hf : f ∈ inputFields U get put) {v : Value}
    (hv : v.print.length ≤ n) {s s' : σ} (hs : FieldsRead n (get s)) (h : f.set v s = some s') :
    ∃ i, s' = put i s ∧ FieldsRead n i := by
  simp only [inputFields, List.mem_cons, List.not_mem_nil, or_false] at hf
  rcases hf with rfl | rfl | rfl | rfl
  · obtain ⟨x, -, rfl⟩ := Option.map_eq_some_iff.mp h
    exact ⟨_, rfl, hs⟩
  · obtain ⟨x, -, rfl⟩ := Option.map_eq_some_iff.mp h
    exact ⟨_, rfl, hs⟩
  · obtain ⟨x, hx, rfl⟩ := Option.map_eq_some_iff.mp h
    exact ⟨_, rfl, unmarshalTime_decoded hs.1 hx, hs.2⟩
  · cases h
    exact ⟨_, rfl, hs.1, hv⟩

private theorem value_length_le {raw : Bytes} {d : Doc} (h : parse? raw = some d) :
    d.value.print.length ≤ raw.length := by
  rw [← ((parse?_eq_some_iff raw d).mp h).1, Doc.print, List.length_append, List.length_append]
  omega

/-- An accepted input passed validation, its time was read from text, and its
payload is no longer than the body. -/
theorem decodeInput_spec {U : UUID.Codec} {raw : Bytes} {i : Input}
    (h : decodeInput U raw = .ok i) :
    raw.length ≤ maxEventBytes ∧ i.Valid ∧ (∃ b, Time.parse b = some i.occurredAt) ∧
      i.payload.length ≤ raw.length := by
  unfold decodeInput at h
  split at h
  · cases h
  next j hj =>
    split at h
    · cases h
    next hv =>
      cases h
      rw [validate_ok_iff] at hv
      obtain ⟨hlen, -, d, hp, hs⟩ := (decode_ok_iff _ _ _ _ _).mp hj
      have hread : FieldsRead raw.length i := by
        refine decodeStruct_induction (fieldsRead_zero _) (fun f hf w hw s s' hs hset => ?_) hs
        obtain ⟨k, rfl, hk⟩ :=
          inputFields_set hf (hw.trans (value_length_le hp)) hs hset
        exact hk
      exact ⟨hlen, hv, hread.1.exists_parse hv.occurredAt, hread.2⟩

theorem decodeEnvelope_spec {U : UUID.Codec} {raw : Bytes} {e : Envelope}
    (h : decodeEnvelope U raw = .ok e) :
    e.toInput.Valid ∧ validTenant e.tenantID = true ∧ e.receivedAt.isZero = false ∧
      (∃ b, Time.parse b = some e.occurredAt) ∧
      ∃ t b, Time.parse b = some t ∧ e.receivedAt = t.utc := by
  unfold decodeEnvelope at h
  split at h
  · cases h
  next r hr =>
    obtain ⟨hv, ht, hz, rfl⟩ := (accept_ok_iff _ _ _ _).mp h
    obtain ⟨-, -, d, hp, hs⟩ := (decode_ok_iff _ _ _ _ _).mp hr
    have hread : FieldsRead raw.length r.toInput ∧ Decoded r.receivedAt := by
      refine decodeStruct_induction (P := fun e : Envelope => FieldsRead raw.length e.toInput ∧
        Decoded e.receivedAt) ⟨fieldsRead_zero _, Or.inl rfl⟩ (fun f hf w hw s s' hs hset => ?_) hs
      rcases List.mem_append.mp hf with hf | hf
      · obtain ⟨k, rfl, hk⟩ :=
          inputFields_set hf (hw.trans (value_length_le hp)) hs.1 hset
        exact ⟨hk, hs.2⟩
      · simp only [List.mem_cons, List.not_mem_nil, or_false] at hf
        rcases hf with rfl | rfl
        · obtain ⟨x, -, rfl⟩ := Option.map_eq_some_iff.mp hset
          exact hs
        · obtain ⟨x, hx, rfl⟩ := Option.map_eq_some_iff.mp hset
          exact ⟨hs.1, unmarshalTime_decoded hs.2 hx⟩
    obtain ⟨b, hb⟩ := hread.2.exists_parse hz
    exact ⟨hv, ht, hz, hread.1.1.exists_parse hv.occurredAt, _, b, hb, rfl⟩

end IngestKit.Event
