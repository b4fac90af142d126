import IngestKit.Event.Encode

/-! An encoded envelope fits the broker limit and decodes to the same event. -/
namespace IngestKit.Event
open Json

theorem goodLiteral_plain {b : Bytes} (h : ∀ x ∈ b, PlainByte x) :
    goodLiteral (Str.plain b) = true := by
  rw [goodLiteral, Str.body_plain h, Str.paired_plain, valid_of_ascii (allAscii_of_plain h)]
  rfl

private theorem goodLiteral_quote {b : Bytes} (h : validText b = true) :
    goodLiteral (quote b) = true := by
  rw [validText, Bool.and_eq_true] at h
  obtain ⟨cs, rfl⟩ := (Utf8.valid_iff b).mp h.1
  have hn : Char.ofNat 0 ∉ cs := by
    intro hc
    have hm : (0 : UInt8) ∈ Utf8.encode cs := List.mem_flatMap.mpr ⟨_, hc, by decide⟩
    simp [hm] at h
  rw [goodLiteral, valid_body_quote h.1, paired_quote hn]
  rfl

theorem validText_string (u : UUID) : validText u.string = true := by
  rw [validText, valid_of_ascii u.allAscii_string.1]
  simp [u.allAscii_string.2]

private theorem validText_tenant {b : Bytes} (h : validTenant b = true) :
    b.length ≤ 128 ∧ validText b = true := by
  simp only [validTenant, Bool.and_eq_true, decide_eq_true_eq] at h
  exact ⟨h.1.2, h.2⟩

private theorem length_quote_le {b : Bytes} (h : validText b = true) :
    (quote b).body.length ≤ 6 * b.length := by
  rw [validText, Bool.and_eq_true] at h
  exact length_quote h.1

private theorem unquote_text {b : Bytes} (h : validText b = true) : (quote b).unquote = b := by
  rw [validText, Bool.and_eq_true] at h
  exact unquote_quote h.1

theorem length_label {n : Bytes} (h : ∀ x ∈ n, PlainByte x) :
    (Label.plain n).print.length = n.length + 3 := by
  simp only [Label.plain, Label.print, Str.print, Blank.print, List.map_nil, List.nil_append,
    List.length_append, List.length_cons, List.length_nil, Str.body_plain h]

theorem length_str (s : Str) : s.print.length = s.body.length + 2 := by
  simp [Str.print]

/-- The JSON of an envelope whose payload is `d`. -/
def Envelope.json (e : Envelope) (d : Doc) : Value :=
  .object (envelopeMembers e e.occurredAt.text d.value e.receivedAt.text)

/-- The envelope adds less than 4096 bytes to its payload, however it is escaped. -/
private theorem length_envelope {e : Envelope} (he : e.Accepted) {d : Doc}
    (hd : parse? e.payload = some d) :
    ((e.json d).print ++ [0x0a]).length ≤ maxEnvelopeBytes := by
  have hid := length_quote_le (validText_string e.eventID)
  have htype := length_quote_le he.valid.eventType.2.2
  have htenant := length_quote_le (validText_tenant he.tenant).2
  have hocc := e.occurredAt.length_text_le
  have hrec := e.receivedAt.length_text_le
  have hstrip := d.value.length_strip_le
  have hprint : d.value.print.length ≤ e.payload.length := by
    rw [← ((parse?_eq_some_iff _ d).mp hd).1, Doc.print, List.length_append, List.length_append]
    omega
  have h1 := length_label (plainByte_names Name.eventID (by simp))
  have h2 := length_label (plainByte_names Name.eventType (by simp))
  have h3 := length_label (plainByte_names Name.occurredAt (by simp))
  have h4 := length_label (plainByte_names Name.payload (by simp))
  have h5 := length_label (plainByte_names Name.tenantID (by simp))
  have h6 := length_label (plainByte_names Name.receivedAt (by simp))
  have hsum : Name.eventID.length + Name.eventType.length + Name.occurredAt.length +
      Name.payload.length + Name.tenantID.length + Name.receivedAt.length = 56 := by decide
  have hsize := he.size
  have hl1 := he.valid.eventType.2.1
  have hl2 := (validText_tenant he.tenant).1
  have hmax : maxEnvelopeBytes = maxEventBytes + 4096 := rfl
  rw [UUID.length_string] at hid
  rw [hmax]
  generalize maxEventBytes = m at hsize ⊢
  simp only [Envelope.json, envelopeMembers, Value.print, Members.print, Blank.print, List.map_nil,
    List.nil_append, List.length_append, List.length_cons, List.length_nil, length_str,
    Str.body_plain (plainByte_text _), h1, h2, h3, h4, h5, h6]
  omega

private theorem goodLiterals_envelope {e : Envelope} (he : e.Accepted) {d : Doc}
    (hd : d.value.strings.all goodLiteral = true) :
    (e.json d).strings.all goodLiteral = true := by
  simp only [Envelope.json, envelopeMembers, Value.strings, Members.strings,
    List.all_cons, List.all_append,
    List.all_nil, Label.plain, goodLiteral_plain (plainByte_text _), d.value.strip_strings, hd,
    goodLiteral_quote (validText_string _), goodLiteral_quote he.valid.eventType.2.2,
    goodLiteral_quote (validText_tenant he.tenant).2,
    goodLiteral_plain (plainByte_names Name.eventID (by simp)),
    goodLiteral_plain (plainByte_names Name.eventType (by simp)),
    goodLiteral_plain (plainByte_names Name.occurredAt (by simp)),
    goodLiteral_plain (plainByte_names Name.payload (by simp)),
    goodLiteral_plain (plainByte_names Name.tenantID (by simp)),
    goodLiteral_plain (plainByte_names Name.receivedAt (by simp)), Bool.and_true]

/-- The members of an input, in any record that holds one. -/
theorem setMember_input (U : UUID.Codec) {σ : Type} {get : σ → Input} {put : Input → σ → σ}
    {fs : List (FieldSpec σ)} (hfs : inputFields U get put ⊆ fs)
    (hd : (fs.map FieldSpec.name).Nodup) (unknown : Unknown) :
    (∀ v s, setMember unknown fs (.plain Name.eventID) v s =
      (decodeText U.unmarshalText v (get s).eventID).map fun x =>
        put { get s with eventID := x } s) ∧
    (∀ v s, setMember unknown fs (.plain Name.eventType) v s =
      (decodeString v (get s).eventType).map fun x => put { get s with eventType := x } s) ∧
    (∀ v s, setMember unknown fs (.plain Name.occurredAt) v s =
      (unmarshalTime v (get s).occurredAt).map fun x => put { get s with occurredAt := x } s) ∧
    ∀ v s, setMember unknown fs (.plain Name.payload) v s =
      some (put { get s with payload := v.print } s) := by
  have hplain : ∀ f ∈ inputFields U get put, ∀ x ∈ f.name, PlainByte x := by
    simp only [inputFields, List.forall_mem_cons]
    exact ⟨plainByte_names Name.eventID (by simp), plainByte_names Name.eventType (by simp),
      plainByte_names Name.occurredAt (by simp), plainByte_names Name.payload (by simp), by simp⟩
  have hset : ∀ f ∈ inputFields U get put, ∀ v s,
      setMember unknown fs (.plain f.name) v s = f.set v s :=
    fun f hf => setMember_plain (hfs hf) hd (hplain f hf)
  simp only [inputFields, List.forall_mem_cons] at hset
  obtain ⟨hid, htype, htime, hpayload, -⟩ := hset
  exact ⟨hid, htype, htime, hpayload⟩

private theorem decodeStruct_envelope (U : UUID.Codec) {e : Envelope} (he : e.Accepted)
    (ho : e.occurredAt.Marshals) (hr : e.receivedAt.Marshals) (d : Doc) :
    decodeStruct .refuse (envelopeFields U) (e.json d) Envelope.zero =
      some { e with payload := d.value.strip.print } := by
  have hnodup : ((envelopeFields U).map FieldSpec.name).Nodup := by
    change [Name.eventID, Name.eventType, Name.occurredAt, Name.payload, Name.tenantID,
      Name.receivedAt].Nodup
    decide
  have hinput : inputFields U (fun e => e.toInput) (fun i e => { e with toInput := i }) ⊆
      envelopeFields U := List.subset_append_left _ _
  obtain ⟨h1, h2, h3, h4⟩ := setMember_input U hinput hnodup .refuse
  have hrest : ∀ f ∈ (envelopeFields U).drop 4, (∀ x ∈ f.name, PlainByte x) → ∀ v s,
      setMember .refuse (envelopeFields U) (.plain f.name) v s = f.set v s :=
    fun f hf hn => setMember_plain (List.mem_of_mem_drop hf) hnodup hn
  have h5 : ∀ v s, setMember .refuse (envelopeFields U) (.plain Name.tenantID) v s =
      (decodeString v s.tenantID).map fun x => { s with tenantID := x } :=
    hrest _ List.mem_cons_self (plainByte_names Name.tenantID (by simp))
  have h6 : ∀ v s, setMember .refuse (envelopeFields U) (.plain Name.receivedAt) v s =
      (unmarshalTime v s.receivedAt).map fun x => { s with receivedAt := x } :=
    hrest _ (List.mem_cons_of_mem _ List.mem_cons_self)
      (plainByte_names Name.receivedAt (by simp))
  have hocc : Time.parse e.occurredAt.text = some e.occurredAt := by
    obtain ⟨b, hb⟩ := he.occurred
    exact Time.parse_marshalText (if_pos ho) (Time.parse_spec hb).2.1
  have hrec : Time.parse e.receivedAt.text = some e.receivedAt :=
    Time.parse_marshalText (if_pos hr) (by rw [he.utc]; rfl)
  simp only [decodeStruct, Envelope.json, envelopeMembers, decodeMembers, h1, h2, h3, h4, h5, h6,
    decodeText,
    decodeString, unmarshalTime, unquote_text (validText_string _), U.unmarshalText_string,
    unquote_text he.valid.eventType.2.2, unquote_text (validText_tenant he.tenant).2,
    Str.body_plain (plainByte_text _), hocc, hrec, Option.map_some]

/-- The same envelope with its payload compacted. -/
def Envelope.compacted (e : Envelope) (d : Doc) : Envelope :=
  { e with payload := d.value.strip.print }

/-- Encoding succeeds when both times can be written. -/
theorem encodeEnvelope_eq_ok {e : Envelope} (he : e.Accepted) (ho : e.occurredAt.Marshals)
    (hr : e.receivedAt.Marshals) {d : Doc} (hd : parse? e.payload = some d) :
    encodeEnvelope e = .ok ((e.json d).print ++ [0x0a]) := by
  have hlen := length_envelope he hd
  rw [encodeEnvelope, accept_eq_ok he.valid he.tenant he.received, marshalEnvelope,
    Time.marshalText, if_pos ho, hd, Time.marshalText, if_pos hr]
  exact if_neg (Nat.not_lt.mpr hlen)

private theorem valid_compacted {e : Envelope} (he : e.Accepted) {d : Doc}
    (hd : parse? e.payload = some d) : (e.compacted d).toInput.Valid := by
  obtain ⟨d', hd', ho, hg⟩ := he.valid.payload
  cases hd.symm.trans hd'
  refine ⟨he.valid.eventID, he.valid.eventType, he.valid.occurredAt, ⟨[], d.value.strip, []⟩,
    ?_, ?_, ?_⟩
  · apply parse?_print
    rw [d.value.strip_depth]
    exact ((parse?_eq_some_iff _ _).mp hd).2
  · rw [d.value.strip_isObject, ho]
  · rw [goodValue_strip, hg]

/-- Decoding the bytes of an accepted envelope gives it back, payload compacted. -/
theorem decodeEnvelope_marshal (U : UUID.Codec) {e : Envelope} (he : e.Accepted)
    (ho : e.occurredAt.Marshals) (hr : e.receivedAt.Marshals) {d : Doc}
    (hd : parse? e.payload = some d) :
    decodeEnvelope U ((e.json d).print ++ [0x0a]) = .ok (e.compacted d) := by
  obtain ⟨d', hd', -, hg⟩ := he.valid.payload
  cases hd.symm.trans hd'
  simp only [goodValue, Bool.and_eq_true, decide_eq_true_eq] at hg
  obtain ⟨⟨hdepth, -⟩, hlits⟩ := hg
  have hdoc : (⟨[], e.json d, [.lf]⟩ : Doc).print = (e.json d).print ++ [0x0a] := rfl
  have huni : validUnicodeJSON ((e.json d).print ++ [0x0a]) = true := by
    rw [← hdoc, validUnicodeJSON_doc]
    exact goodLiterals_envelope he hlits
  have hparse : parse? ((e.json d).print ++ [0x0a]) = some ⟨[], e.json d, [.lf]⟩ := by
    rw [parse?_eq_some_iff]
    refine ⟨hdoc, ?_⟩
    simp only [Envelope.json, envelopeMembers, Value.depth, Members.depth,
      d.value.strip_depth, maxNestingDepth]
    simp only [maxPayloadDepth] at hdepth
    omega
  have hdecode := (decode_ok_iff (envelopeFields U) Envelope.zero (e.compacted d)
    maxEnvelopeBytes _).mpr
    ⟨length_envelope he hd, huni, _, hparse, decodeStruct_envelope U he ho hr d⟩
  have hutc : (e.compacted d) = ⟨(e.compacted d).toInput, e.tenantID, e.receivedAt.utc⟩ := by
    have hz : e.receivedAt.utc = e.receivedAt := by rw [Time.utc, ← he.utc]
    rw [hz]
    rfl
  rw [decodeEnvelope, hdecode]
  exact (accept_ok_iff _ _ _ _).mpr ⟨valid_compacted he hd, he.tenant, he.received, hutc⟩

/-- An accepted envelope encodes exactly when both of its times can be written. -/
theorem encodeEnvelope_ok_iff {e : Envelope} (he : e.Accepted) :
    (∃ b, encodeEnvelope e = .ok b) ↔ e.occurredAt.Marshals ∧ e.receivedAt.Marshals := by
  constructor
  · rintro ⟨b, hb⟩
    rw [encodeEnvelope, accept_eq_ok he.valid he.tenant he.received] at hb
    simp only [marshalEnvelope, Time.marshalText] at hb
    by_contra h
    rw [not_and_or] at h
    rcases h with h | h <;> simp [h] at hb
  · rintro ⟨ho, hr⟩
    obtain ⟨d, hd, -⟩ := he.valid.payload
    exact ⟨_, encodeEnvelope_eq_ok he ho hr hd⟩

/-- What is published for an accepted body fits the broker limit and is read back by the
consumer as the same event; its payload has the same tokens without whitespace between them. -/
theorem envelope_round_trip (U : UUID.Codec) (raw tenant : Bytes) (i : Input) (received : Time)
    (hi : decodeInput U raw = .ok i) (ht : validTenant tenant = true)
    (hz : received.isZero = false) (ho : i.occurredAt.Marshals) (hr : received.utc.Marshals) :
    ∃ e b e', accept i tenant received = .ok e ∧ encodeEnvelope e = .ok b ∧
      b.length ≤ maxEnvelopeBytes ∧ decodeEnvelope U b = .ok e' ∧ e'.eventID = i.eventID ∧
      e'.eventType = i.eventType ∧ e'.tenantID = tenant ∧ e'.occurredAt = i.occurredAt ∧
      e'.receivedAt = received.utc ∧ compact i.payload = some e'.payload ∧
      Compacted i.payload e'.payload := by
  have he := accepted_of_decodeInput hi ht hz
  obtain ⟨d, hd, -⟩ := he.valid.payload
  have hcompact : compact i.payload = some d.value.strip.print := by
    have hd' : parse? i.payload = some d := hd
    rw [compact, hd']
    rfl
  exact ⟨⟨i, tenant, received.utc⟩, _, _, accept_eq_ok he.valid ht hz,
    encodeEnvelope_eq_ok he ho hr hd, length_envelope he hd, decodeEnvelope_marshal U he ho hr hd,
    rfl, rfl, rfl, rfl, rfl, hcompact, compacted_of_compact hcompact⟩

/-- `"name":value`. -/
def memberText (name value : Bytes) : Bytes := 0x22 :: (name ++ 0x22 :: 0x3a :: value)

def quoted (b : Bytes) : Bytes := 0x22 :: (b ++ [0x22])

def orderID : UUID := ⟨[0, 0, 0, 0, 0, 0, 0x40, 0, 0x80, 0, 0, 0, 0, 0, 0, 1], by decide⟩

def orderType : Bytes := ascii ['o', 'r', 'd', 'e', 'r']

/-- The start of 3 November 2026 in a zone. -/
def midnight (offset : ℤ) : Time :=
  ⟨Time.Date.days ⟨2026, 11, 3⟩ * 86400 - offset, 0, offset, Time.zero_nsec_lt⟩

/-- An event as a client writes it. -/
def bodyText (zone payload : Bytes) : Bytes :=
  0x7b :: (memberText Name.eventID (quoted orderID.string) ++ 0x2c ::
    (memberText Name.eventType (quoted orderType) ++ 0x2c ::
      (memberText Name.occurredAt (quoted (ascii ['2', '0', '2', '6', '-', '1', '1', '-', '0', '3',
        'T', '0', '0', ':', '0', '0', ':', '0', '0'] ++ zone)) ++ 0x2c ::
        (memberText Name.payload payload ++ [0x7d]))))

/-- The text `{ "a" : 1 }`. -/
def blankPayload : Bytes := ascii [Char.ofNat 0x7b, ' ', Char.ofNat 0x22, 'a', Char.ofNat 0x22, ' ',
  ':', ' ', '1', ' ', Char.ofNat 0x7d]

def orderBody : Bytes := bodyText (ascii ['+', '0', '5', ':', '3', '0']) blankPayload

def orderInput : Input := ⟨orderID, orderType, midnight 19800, blankPayload⟩

theorem decode_orderBody : decodeInput UUID.standard orderBody = .ok orderInput := by
  decide +kernel

theorem envelope_round_trip_order :
    ∃ e b e', accept orderInput (ascii ['d']) (midnight 0) = .ok e ∧ encodeEnvelope e = .ok b ∧
      b.length ≤ maxEnvelopeBytes ∧ decodeEnvelope UUID.standard b = .ok e' ∧
      e'.eventID = orderInput.eventID ∧ e'.eventType = orderInput.eventType ∧
      e'.tenantID = ascii ['d'] ∧ e'.occurredAt = orderInput.occurredAt ∧
      e'.receivedAt = (midnight 0).utc ∧ compact orderInput.payload = some e'.payload ∧
      Compacted orderInput.payload e'.payload :=
  envelope_round_trip UUID.standard orderBody (ascii ['d']) orderInput (midnight 0)
    decode_orderBody (by decide) (by decide) (by decide) (by decide)

end IngestKit.Event
