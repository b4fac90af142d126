import IngestKit.Outbox.World

/-! The request of a dispatch: the stored bodies inside one array, byte for byte, which the
collector decodes to the saved events. -/
namespace IngestKit.Outbox
open Json Event Api Checkout Messaging
open Python (Object Loader)

theorem valid_of_plain {b : Bytes} (h : ∀ x ∈ b, PlainByte x) : Utf8.valid b = true :=
  valid_of_ascii (allAscii_of_plain h)

namespace OrderEvent
variable (e : OrderEvent)

/-- The columns that `dispatch_once` selects. -/
def row : Bytes × Bytes := (e.eventID.string, e.body)

theorem sound_object : e.object.sound = true := by
  have hnames : ∀ n ∈ [Event.Name.eventID, Event.Name.eventType, Event.Name.occurredAt,
      Event.Name.payload, Name.orderID, Name.amountCents, Name.orderCompleted],
      Utf8.valid n = true := by decide +kernel
  simp only [List.forall_mem_cons, List.not_mem_nil, false_implies, implies_true,
    and_true] at hnames
  obtain ⟨h1, h2, h3, h4, h5, h6, h7⟩ := hnames
  have hamount : (IntPart.ofNat e.order.amountCents.natAbs).digits.length ≤ 4300 :=
    e.length_amount_le.trans (by decide)
  have hevent : [Event.Name.eventID, Event.Name.eventType, Event.Name.occurredAt,
      Event.Name.payload].Nodup := by decide
  have hpayload : [Name.orderID, Name.amountCents].Nodup := by decide
  have htext : Utf8.valid e.order.orderID = true := by
    have htext := e.order.text
    rw [validText, Bool.and_eq_true] at htext
    exact htext.1
  simp only [object, payload, Object.sound, Object.soundEntries, List.map_cons, List.map_nil, h1,
    h2, h3, h4, h5, h6, h7, htext, hevent, hpayload, hamount, valid_of_plain (plainByte_string _),
    valid_of_plain (plainByte_isoformat _), decide_true, Bool.and_self]

theorem loads_body (J : Loader) : J.loads e.body = some e.object :=
  J.loads_dumps e.sound_object (by rw [e.depth_object]; decide)

end OrderEvent

section Identifiers

theorem isUUIDText_string (u : UUID) : isUUIDText u.string = true := by
  obtain ⟨b, hb⟩ := u
  match b, hb with
  | [b0, b1, b2, b3, b4, b5, b6, b7, b8, b9, b10, b11, b12, b13, b14, b15], hb =>
    have h1 : ∀ x : UInt8, isHex (HexDigit.ofFin (Fin.ofNat 16 (x.toNat / 16))).byte = true :=
      fun x => (by decide : ∀ n : Fin 16, isHex (HexDigit.ofFin n).byte = true) _
    have h2 : ∀ x : UInt8, isHex (HexDigit.ofFin (Fin.ofNat 16 x.toNat)).byte = true :=
      fun x => (by decide : ∀ n : Fin 16, isHex (HexDigit.ofFin n).byte = true) _
    simp only [isUUIDText, UUID.string, UUID.hex, UUID.hexPair, List.flatMap_cons, List.flatMap_nil,
      List.take_succ_cons, List.take_zero, List.drop_succ_cons, List.drop_zero, List.cons_append,
      List.nil_append, List.append_nil, List.length_cons, List.length_nil, List.all_cons,
      List.all_nil, h1, h2, List.getElem?_cons_succ, List.getElem?_cons_zero, beq_self_eq_true,
      Bool.and_self]

theorem lower_string (u : UUID) : lower u.string = u.string := by
  have hlower : ∀ x ∈ u.string, ¬(0x41 ≤ x.toNat ∧ x.toNat ≤ 0x5a) :=
    forall_mem_string (by decide) (by decide) u
  rw [lower]
  exact (List.map_congr_left fun x hx => if_neg (hlower x hx)).trans (List.map_id _)

end Identifiers

/-- The body of a request with these events. -/
def batchOf (chosen : List OrderEvent) : Bytes := batchBody (chosen.map OrderEvent.body)

def identifiers (chosen : List OrderEvent) : List Bytes := chosen.map fun e => e.eventID.string

section Requests
variable (chosen : List OrderEvent)

theorem mapM_loads (J : Loader) : (chosen.map OrderEvent.row).mapM (fun row => J.loads row.2) =
    some (chosen.map OrderEvent.object) := by
  induction chosen with
  | nil => rfl
  | cons e es ih =>
    have hload : J.loads e.row.2 = some e.object := e.loads_body J
    rw [List.map_cons, List.mapM_cons, hload, ih]
    rfl

theorem mapM_idOf : (chosen.map OrderEvent.object).mapM idOf = some (identifiers chosen) := by
  induction chosen with
  | nil => rfl
  | cons e es ih =>
    have hid : idOf e.object = some e.eventID.string := if_pos (isUUIDText_string e.eventID)
    rw [List.map_cons, List.mapM_cons, hid, ih]
    rfl

theorem map_lower : (identifiers chosen).map lower = identifiers chosen := by
  rw [identifiers, List.map_map]
  exact List.map_congr_left fun e _ => lower_string e.eventID

theorem print_batch (h : chosen ≠ []) :
    Object.dumps (.dict [(Event.Name.events, .list (chosen.map OrderEvent.object))]) =
      batchOf chosen := by
  have hname : Python.quote Event.Name.events = Str.plain Event.Name.events :=
    Python.quote_eq_plain (by decide +kernel)
  obtain ⟨e, es, rfl⟩ := List.exists_cons_of_ne_nil h
  have htree : Object.tree (.dict [(Event.Name.events,
      .list ((e :: es).map OrderEvent.object))]) =
        batchValue e.object.tree (es.map fun e => e.object.tree) := by
    simp only [Object.tree, Object.members, Object.trees_eq_map, hname, List.map_cons, List.map_map,
      Python.arrayOf, marshalObject, Members.ofList, batchValue, Label.plain]
    rfl
  rw [Object.dumps, htree, print_batchValue, batchOf, List.map_cons, List.map_map, List.map_cons]
  rfl

theorem encodable_batch (chosen : List OrderEvent) :
    Object.encodable (.dict [(Event.Name.events, .list (chosen.map OrderEvent.object))]) =
      true := by
  have hname : Utf8.valid Event.Name.events = true := by decide +kernel
  have hitems : Object.encodableItems (chosen.map OrderEvent.object) = true := by
    induction chosen with
    | nil => rfl
    | cons e es ih =>
      rw [List.map_cons, Object.encodableItems, Object.encodable_of_sound _ e.sound_object, ih]
      rfl
  rw [Object.encodable, Object.encodableEntries, hname, Object.encodable, hitems]
  rfl

theorem serialise_saved (h : chosen ≠ []) : serialise (chosen.map OrderEvent.object) true =
    .ok (identifiers chosen, batchOf chosen) := by
  have hids := mapM_idOf chosen
  have hprint := print_batch chosen h
  obtain ⟨e, es, rfl⟩ := List.exists_cons_of_ne_nil h
  have hencodable := encodable_batch (e :: es)
  rw [List.map_cons] at hids hprint hencodable
  have hcontent : content e.object (es.map OrderEvent.object) true =
      .dict [(Event.Name.events, .list (e.object :: es.map OrderEvent.object))] := if_pos rfl
  rw [List.map_cons, serialise, hids]
  dsimp only
  rw [map_lower, hcontent, if_pos hencodable, hprint]

/-- A dispatch of saved rows gets as far as its first attempt. -/
theorem start_saved (J : Loader) (h : chosen ≠ []) :
    Dispatcher.start J (chosen.map OrderEvent.row) =
      some ⟨chosen.map OrderEvent.row, identifiers chosen, batchOf chosen, .attempting 0⟩ := by
  have hload := mapM_loads chosen J
  have hserialise := serialise_saved chosen h
  obtain ⟨e, es, rfl⟩ := List.exists_cons_of_ne_nil h
  rw [List.map_cons] at hload
  rw [List.map_cons, Dispatcher.start, hload]
  dsimp only
  rw [hserialise]

theorem length_joinCommas_le {bodies : List Bytes} {n : ℕ} (h : ∀ b ∈ bodies, b.length ≤ n) :
    (joinCommas bodies).length ≤ bodies.length * (n + 1) := by
  induction bodies with
  | nil => exact Nat.zero_le _
  | cons b bs ih =>
    obtain ⟨hb, hbs⟩ := List.forall_mem_cons.mp h
    have hrest := ih hbs
    have hmul : (bs.length + 1) * (n + 1) = bs.length * (n + 1) + (n + 1) := Nat.succ_mul _ _
    cases bs with
    | nil =>
      simp only [joinCommas, List.length_cons, List.length_nil] at hmul ⊢
      omega
    | cons c cs =>
      rw [joinCommas, List.length_append, List.length_cons, List.length_cons, hmul]
      · omega
      · simp

theorem length_batchOf_le (h : chosen.length ≤ 100) :
    (batchOf chosen).length ≤ maxRequestBytes := by
  have hbodies : ∀ b ∈ chosen.map OrderEvent.body, b.length ≤ 1000 := by
    intro b hb
    obtain ⟨e, -, rfl⟩ := List.mem_map.mp hb
    exact e.length_body_le
  have hjoin := length_joinCommas_le hbodies
  have hname : Event.Name.events.length = 6 := rfl
  rw [List.length_map] at hjoin
  simp only [batchOf, batchBody, memberText, List.length_cons, List.length_append, List.length_nil,
    hname, maxRequestBytes]
  omega

/-- The collector decodes the saved events, in order. -/
theorem decodeBatch_saved (U : UUID.Codec) (hne : chosen ≠ []) (hlen : chosen.length ≤ 100) :
    decodeBatch U (batchOf chosen) = .ok (chosen.map OrderEvent.input) := by
  have hsize := length_batchOf_le chosen hlen
  have hprint : chosen.map OrderEvent.body =
      (chosen.map fun e => e.object.tree).map Value.print := by
    rw [List.map_map]
    rfl
  have hunicode : ∀ v ∈ chosen.map fun e => e.object.tree, validUnicodeJSON v.print = true := by
    intro v hv
    obtain ⟨e, -, rfl⟩ := List.mem_map.mp hv
    exact validUnicodeJSON_of_decodeInput U (e.decodeInput_body U)
  have hdepth : ∀ v ∈ chosen.map fun e => e.object.tree, v.depth + 2 ≤ maxNestingDepth := by
    intro v hv
    obtain ⟨e, -, rfl⟩ := List.mem_map.mp hv
    rw [e.depth_object]
    decide
  have hall : decodeAll U (chosen.map OrderEvent.body) = .ok (chosen.map OrderEvent.input) := by
    rw [decodeAll_eq_ok_iff, List.forall₂_map_left_iff, List.forall₂_map_right_iff,
      List.forall₂_same]
    exact fun e _ => e.decodeInput_body U
  obtain ⟨e, es, rfl⟩ := List.exists_cons_of_ne_nil hne
  have hdecode : decode batchFields [] maxRequestBytes (batchOf (e :: es)) =
      .ok ((e :: es).map OrderEvent.body) := by
    rw [batchOf, hprint] at hsize ⊢
    exact (decode_batchBody _ _ _).mpr ⟨hsize, hunicode, hdepth, rfl⟩
  have hcount : ¬(((e :: es).map OrderEvent.body).length = 0 ∨
      ((e :: es).map OrderEvent.body).length > maxBatchEvents) := by
    rw [List.length_map, List.length_cons, maxBatchEvents]
    rw [List.length_cons] at hlen
    omega
  rw [decodeBatch, hdecode]
  exact (if_neg hcount).trans hall

end Requests

section Answers
variable {U : UUID.Codec} {app : App} {topic : Bytes} {rps : ℕ} {b : Bucket} {now : ℤ}
  {received : Time} {client : Client} {chosen : List OrderEvent}

private theorem status_of_auth {header : Bytes} {r : Response}
    (h : apiKeyAuth app header = .error r) : r.status = 401 := by
  unfold apiKeyAuth at h
  split_ifs at h
  · cases h
    rfl
  · split at h
    · cases h
      rfl
    · cases h

private theorem status_of_rateLimit {allowed : Bool} {r : Response}
    (h : rateLimit allowed = .error r) : r.status = 429 := by
  unfold rateLimit at h
  split_ifs at h
  cases h
  rfl

/-- What is left of the handler chain for the request of a dispatch. -/
theorem serve_saved (hne : chosen ≠ []) (hlen : chosen.length ≤ 100)
    (hclock : received.isZero = false) :
    serve U app topic rps b now (request client (batchOf chosen)) received =
      match apiKeyAuth app (bearer ++ client.key) with
      | .error r => .error r
      | .ok tenant =>
        match rateLimit (b.allow rps now).1.allowed with
        | .error r => .error r
        | .ok () =>
          match encodeRecords topic ((chosen.map OrderEvent.input).map fun i =>
            ⟨i, tenant, received.utc⟩) with
          | .error _ => .error unavailable
          | .ok records => .ok (records, identifiers chosen) := by
  have hids : (chosen.map OrderEvent.input).map (fun i => i.eventID.string) =
      identifiers chosen := by
    rw [List.map_map]
    rfl
  have hbody : decodeBody U (request client (batchOf chosen)).batch
      (request client (batchOf chosen)).body = .ok (chosen.map OrderEvent.input) :=
    decodeBatch_saved chosen U hne hlen
  have hheader : (request client (batchOf chosen)).authorization = bearer ++ client.key := rfl
  rw [serve_eq_prepare (length_batchOf_le chosen hlen), prepare, hheader]
  cases hauth : apiKeyAuth app (bearer ++ client.key) with
  | error r => rfl
  | ok tenant =>
    have haccept := acceptAll_of_valid (chosen.map OrderEvent.input)
      (List.forall_mem_map.mpr fun e _ => e.valid_input) (validTenant_of_auth hauth) hclock
    dsimp only
    rw [ingest, hbody]
    dsimp only
    rewrite [haccept, hids]
    rfl

theorem serve_saved_cases (hne : chosen ≠ []) (hlen : chosen.length ≤ 100)
    (hclock : received.isZero = false) :
    (∃ r, serve U app topic rps b now (request client (batchOf chosen)) received = .error r ∧
      r.status ∈ [401, 429, 503]) ∨
    ∃ records, serve U app topic rps b now (request client (batchOf chosen)) received =
      .ok (records, identifiers chosen) := by
  rw [serve_saved hne hlen hclock]
  cases hauth : apiKeyAuth app (bearer ++ client.key) with
  | error r =>
    refine Or.inl ⟨r, rfl, ?_⟩
    simp [status_of_auth hauth]
  | ok tenant =>
    cases hlimit : rateLimit (b.allow rps now).1.allowed with
    | error r =>
      refine Or.inl ⟨r, rfl, ?_⟩
      simp [status_of_rateLimit hlimit]
    | ok u =>
      dsimp only
      cases encodeRecords topic ((chosen.map OrderEvent.input).map fun i =>
          (⟨i, tenant, received.utc⟩ : Envelope)) with
      | error err => exact Or.inl ⟨unavailable, rfl, by decide⟩
      | ok records => exact Or.inr ⟨records, rfl⟩

/-- A collector that knows the key and lets the request through publishes it. -/
theorem serve_saved_eq_ok (hne : chosen ≠ []) (hlen : chosen.length ≤ 100)
    (hclock : received.isZero = false) (hmarshal : received.utc.Marshals) {tenant : Bytes}
    (hauth : apiKeyAuth app (bearer ++ client.key) = .ok tenant)
    (hallow : (b.allow rps now).1.allowed = true) :
    ∃ records, serve U app topic rps b now (request client (batchOf chosen)) received =
      .ok (records, identifiers chosen) := by
  have hencode : ∃ records, encodeRecords topic ((chosen.map OrderEvent.input).map fun i =>
      (⟨i, tenant, received.utc⟩ : Envelope)) = .ok records := by
    rw [encodeRecords_ok_iff, List.forall_mem_map, List.forall_mem_map]
    intro e _
    have haccepted := accepted_of_decodeInput (e.decodeInput_body U) (validTenant_of_auth hauth)
      hclock
    have hoccurred : e.occurredAt.Marshals := by
      have hfirst := e.moment.first
      refine ⟨by omega, e.moment.last, ?_⟩
      rw [e.moment.utc]
      decide
    exact (encodeEnvelope_ok_iff haccepted).mpr ⟨hoccurred, hmarshal⟩
  obtain ⟨records, hrecords⟩ := hencode
  refine ⟨records, ?_⟩
  rw [serve_saved hne hlen hclock, hauth]
  dsimp only
  rw [hallow, rateLimit, if_pos rfl]
  dsimp only
  rw [hrecords]

private theorem print_marshalSlice (id : Bytes) (ids : List Bytes) :
    (marshalSlice (fun id => .string (marshalString id)) (some (id :: ids))).print =
      0x5b :: (joinCommas ((id :: ids).map fun id => (Value.string (marshalString id)).print) ++
        [0x5d]) := by
  rw [marshalSlice, Value.print, print_ofList, List.map_cons, List.map_map]
  rfl

/-- The identifiers of a whole request, as the collector writes them. -/
theorem length_identifiers_le (hlen : chosen.length ≤ 100) :
    (marshalSlice (fun id => .string (marshalString id))
      (some (identifiers chosen))).print.length ≤ 21902 := by
  have hids : ∀ b ∈ (identifiers chosen).map fun id => (Value.string (marshalString id)).print,
      b.length ≤ 218 := by
    intro b hb
    obtain ⟨id, hid, rfl⟩ := List.mem_map.mp hb
    obtain ⟨e, -, rfl⟩ := List.mem_map.mp hid
    have hbody := length_marshalString (valid_of_plain (plainByte_string e.eventID))
    rw [Value.print, length_str]
    rw [e.eventID.length_string] at hbody
    omega
  have hjoin := length_joinCommas_le hids
  have hcount : (identifiers chosen).length ≤ 100 := by
    rw [identifiers, List.length_map]
    exact hlen
  rw [List.length_map] at hjoin
  generalize identifiers chosen = ids at hjoin hcount ⊢
  cases ids with
  | nil => decide
  | cons id ids =>
    rw [print_marshalSlice, List.length_cons, List.length_append, List.length_singleton]
    omega

/-- The collector's answer to a whole request fits what the client reads of it. -/
theorem length_acceptedBody_le (hlen : chosen.length ≤ 100) {requestID : Bytes}
    (hvalid : Utf8.valid requestID = true) (hsize : requestID.length ≤ 1000) :
    (acceptedBody (identifiers chosen) requestID).length ≤ 65536 := by
  have hslice := length_identifiers_le hlen
  have hrequest := length_marshalString hvalid
  have hnames : (marshalString Member.eventIDs).print.length = 11 ∧
      (marshalString Member.requestID).print.length = 12 ∧
      (marshalString Member.status).print.length = 8 ∧
      (marshalString acceptedText).print.length = 10 := by
    decide +kernel
  obtain ⟨h1, h2, h3, h4⟩ := hnames
  simp only [acceptedBody, marshalMap, acceptedMembers, List.map_cons, List.map_nil, marshalObject,
    Members.ofList, Value.print, Members.print, Label.print, Blank.print, List.nil_append,
    List.append_nil, List.length_append, List.length_cons, List.length_nil, h1, h2, h3, h4,
    length_str (marshalString requestID)]
  omega

/-- The client understands the collector's answer. -/
theorem attempt_acceptedBody (J : Loader) (hlen : chosen.length ≤ 100) {requestID : Bytes}
    (hvalid : Utf8.valid requestID = true) (hsize : requestID.length ≤ 1000) :
    attempt J (identifiers chosen)
      (.response 202 (acceptedBody (identifiers chosen) requestID) false) =
        .ok (identifiers chosen) := by
  have hids : ∀ id ∈ identifiers chosen, Utf8.valid id = true := by
    intro id hid
    obtain ⟨e, -, rfl⟩ := List.mem_map.mp hid
    exact valid_of_plain (plainByte_string e.eventID)
  have hack := (acknowledges_acceptedBody J hids (identifiers chosen) requestID).mpr
    ⟨length_acceptedBody_le hlen hvalid hsize, rfl⟩
  rw [attempt, if_neg (not_not.mpr rfl), hack, if_neg Bool.true_eq_false_eq_False,
    if_neg Bool.false_ne_true]

/-- The broker acknowledged one record for each event, and the consumer reads it back from it. -/
structure Published (U : UUID.Codec) (tenant : Bytes) (chosen : List OrderEvent) (s : Sending) :
    Prop where
  records : List.Forall₂ (fun e record => ∃ envelope, decodeEnvelope U record.value = .ok envelope ∧
    SameEvent envelope e.input tenant) chosen s.records
  acknowledged : ∀ k < s.records.length, (k, none) ∈ s.reported

/-- All that the collector answers to the request of a dispatch. -/
theorem answer_saved (hne : chosen ≠ []) (hlen : chosen.length ≤ 100)
    (hclock : received.isZero = false) {r : Response} {p : Option Sending}
    (h : Relation.ReflTransGen Exchange.Step
      (.start (serve U app topic rps b now (request client (batchOf chosen)) received))
      (.answered r p)) :
    r.status ∈ [401, 429, 503] ∨ r = ⟨202, .accepted (identifiers chosen)⟩ ∧
      ∃ s tenant, p = some s ∧ apiKeyAuth app (bearer ++ client.key) = .ok tenant ∧
        Published U tenant chosen s := by
  have hinv := Exchange.inv_of_run h
  have hcases : (∃ r, serve U app topic rps b now (request client (batchOf chosen)) received =
      .error r ∧ r.status ∈ [401, 429, 503]) ∨
      ∃ records, serve U app topic rps b now (request client (batchOf chosen)) received =
        .ok (records, identifiers chosen) := serve_saved_cases hne hlen hclock
  rcases hcases with ⟨r', hserve, hstatus⟩ | ⟨records, hserve⟩
  · rw [hserve] at hinv
    cases p with
    | none =>
      cases hinv
      exact Or.inl hstatus
    | some s =>
      obtain ⟨-, ids, res, hstart, -⟩ := hinv
      cases hstart
  · rw [hserve] at hinv
    cases p with
    | none => cases hinv
    | some s =>
      obtain ⟨hsinv, ids, res, hstart, hres, hreply⟩ := hinv
      cases hstart
      cases res with
      | error err =>
        rw [hreply]
        exact Or.inl (by simp [Exchange.reply, unavailable, sendError])
      | ok u =>
        rw [serve_eq_prepare (length_batchOf_le chosen hlen)] at hserve
        obtain ⟨tenant, inputs, hauth, hdec, -, hall⟩ := prepare_eq_ok hserve
        have hinputs : inputs = chosen.map OrderEvent.input :=
          Except.ok.inj (hdec.symm.trans (decodeBatch_saved chosen U hne hlen))
        rw [hinputs, List.forall₂_map_left_iff] at hall
        exact Or.inr ⟨hreply, s, tenant, rfl, hauth, hall, fun k hk => hsinv.all_reported hres hk⟩

/-- Any choice of saved rows is a request that the client sends byte for byte as stored. The
collector decodes it to the saved events, never calls it invalid or too large, and its 202 is the
acknowledgement that the client expects. -/
theorem saved_rows_are_one_request (J : Loader) (U : UUID.Codec) (app : App) (topic : Bytes)
    (rps : ℕ) (client : Client) (chosen : List OrderEvent) (hne : chosen ≠ [])
    (hlen : chosen.length ≤ 100) :
    Dispatcher.start J (chosen.map OrderEvent.row) =
      some ⟨chosen.map OrderEvent.row, identifiers chosen, batchOf chosen, .attempting 0⟩ ∧
    decodeBatch U (batchOf chosen) = .ok (chosen.map OrderEvent.input) ∧
    (∀ b now received r p, received.isZero = false → Relation.ReflTransGen Exchange.Step
      (.start (serve U app topic rps b now (request client (batchOf chosen)) received))
      (.answered r p) →
        r.status ∈ [401, 429, 503] ∨ r = ⟨202, .accepted (identifiers chosen)⟩) ∧
    ∀ requestID, Utf8.valid requestID = true → requestID.length ≤ 1000 →
      attempt J (identifiers chosen)
        (.response 202 (acceptedBody (identifiers chosen) requestID) false) =
          .ok (identifiers chosen) := by
  refine ⟨start_saved chosen J hne, decodeBatch_saved chosen U hne hlen, ?_, ?_⟩
  · intro b now received r p hclock hrun
    exact (answer_saved hne hlen hclock hrun).imp id And.left
  · intro requestID hvalid hsize
    exact attempt_acceptedBody J hlen hvalid hsize

end Answers

section Sample

def sampleEvent : OrderEvent where
  eventID := ⟨[0, 0, 0, 0, 0, 0, 0x40, 0, 0x80, 0, 0, 0, 0, 0, 0, 1], rfl⟩
  occurredAt := midnight 0
  order := ⟨ascii ['o'], 1, by decide, by decide, by decide, by decide, by decide⟩
  version := by decide
  moment := by decide

def laterEvent : OrderEvent where
  eventID := ⟨[0, 0, 0, 0, 0, 0, 0x4a, 0, 0xbf, 0, 0, 0, 0, 0, 0, 2], rfl⟩
  occurredAt := { midnight 0 with nsec := 250000, nsec_lt := by decide }
  order := ⟨Utf8.encode ['é', '"'], 250, by decide, by decide, by decide, by decide, by decide⟩
  version := by decide
  moment := by decide

def sampleClient : Client := ⟨ascii ['k'], 2, by decide, by decide⟩

theorem saved_rows_are_one_request_sample :
    decodeBatch UUID.standard (batchOf [sampleEvent, laterEvent]) =
      .ok [sampleEvent.input, laterEvent.input] ∧
    attempt .plain (identifiers [sampleEvent, laterEvent]) (.response 202
      (acceptedBody (identifiers [sampleEvent, laterEvent]) (ascii ['<', 'r', '>'])) false) =
        .ok [sampleEvent.eventID.string, laterEvent.eventID.string] := by
  obtain ⟨-, hdecode, -, hattempt⟩ := saved_rows_are_one_request .plain UUID.standard demoApp [] 1
    sampleClient [sampleEvent, laterEvent] (List.cons_ne_nil _ _) (by decide)
  exact ⟨hdecode, hattempt (ascii ['<', 'r', '>']) (by decide) (by decide)⟩

end Sample

end IngestKit.Outbox
