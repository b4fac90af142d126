import IngestKit.Event.Batch
import IngestKit.Json.Python
import IngestKit.Time.IsoFormat

/-! The event that is saved with an order, and what the collector reads when it is sent. -/
namespace IngestKit.Outbox
open Json Event
open Python (Object)

/-- Arguments that `create_order` accepts. -/
structure Order where
  orderID : Bytes
  amountCents : ℤ
  text : validText orderID = true
  nonempty : orderID ≠ []
  size : orderID.length ≤ 128
  low : 0 ≤ amountCents
  high : amountCents ≤ 9223372036854775807
  deriving DecidableEq

/-- The check at the head of `create_order`. -/
def Order.check (orderID : Bytes) (amountCents : ℤ) : Except String Order :=
  if h : orderID ≠ [] ∧ validText orderID = true ∧ orderID.length ≤ 128 ∧ 0 ≤ amountCents ∧
      amountCents ≤ 9223372036854775807 then
    .ok ⟨orderID, amountCents, h.2.1, h.1, h.2.2.1, h.2.2.2.1, h.2.2.2.2⟩
  else .error "invalid order"

/-- The identifiers `uuid4` draws from. -/
def isUUID4 (u : UUID) : Bool :=
  (u.bytes[6]?.any fun b => b &&& 0xf0 == 0x40) && u.bytes[8]?.any fun b => b &&& 0xc0 == 0x80

theorem ne_nil_of_isUUID4 {u : UUID} (h : isUUID4 u = true) : u ≠ UUID.nil := by
  rintro rfl
  exact absurd h (by decide)

namespace Name

def orderID : Bytes := ascii ['o', 'r', 'd', 'e', 'r', '_', 'i', 'd']

def amountCents : Bytes := ascii ['a', 'm', 'o', 'u', 'n', 't', '_', 'c', 'e', 'n', 't', 's']

def orderCompleted : Bytes :=
  ascii ['o', 'r', 'd', 'e', 'r', '_', 'c', 'o', 'm', 'p', 'l', 'e', 't', 'e', 'd']

end Name

/-- An order with the identifier and the moment that were drawn for its event. -/
structure OrderEvent where
  eventID : UUID
  occurredAt : Time
  order : Order
  version : isUUID4 eventID = true
  moment : occurredAt.IsUtcNow
  deriving DecidableEq

namespace OrderEvent

def payload (e : OrderEvent) : Object :=
  .dict [(Name.orderID, .str e.order.orderID), (Name.amountCents, .int e.order.amountCents)]

def object (e : OrderEvent) : Object :=
  .dict [(Event.Name.eventID, .str e.eventID.string),
    (Event.Name.eventType, .str Name.orderCompleted),
    (Event.Name.occurredAt, .str e.occurredAt.isoformat),
    (Event.Name.payload, e.payload)]

/-- The text that is saved in the `body` column. -/
def body (e : OrderEvent) : Bytes := e.object.dumps

/-- What the collector reads. -/
def input (e : OrderEvent) : Input :=
  ⟨e.eventID, Name.orderCompleted, e.occurredAt, e.payload.dumps⟩

end OrderEvent

section Literals

theorem plainByte_isoformat (t : Time) : ∀ x ∈ t.isoformat, PlainByte x := by
  have hsep : ∀ (c : UInt8), PlainByte c → ∀ w m (r : Bytes), (∀ x ∈ r, PlainByte x) →
      ∀ x ∈ Time.num w m ++ c :: r, PlainByte x := by
    intro c hc w m r hr
    exact List.forall_mem_append.mpr ⟨plainByte_num w m, List.forall_mem_cons.mpr ⟨hc, hr⟩⟩
  have hdate : ∀ x ∈ Time.dateText t.date, PlainByte x :=
    hsep _ (by decide) _ _ _ (hsep _ (by decide) _ _ _ (plainByte_num _ _))
  have hclock : ∀ x ∈ Time.clockText t.clock, PlainByte x :=
    hsep _ (by decide) _ _ _ (hsep _ (by decide) _ _ _ (plainByte_num _ _))
  have hmicro : ∀ x ∈ Time.microText (t.nsec / 1000), PlainByte x := by
    unfold Time.microText
    split_ifs
    · simp
    · exact List.forall_mem_cons.mpr ⟨by decide, plainByte_num _ _⟩
  have hzone : ∀ x ∈ Time.utcText, PlainByte x := by decide +kernel
  exact List.forall_mem_append.mpr ⟨hdate, List.forall_mem_cons.mpr ⟨by decide,
    List.forall_mem_append.mpr ⟨hclock, List.forall_mem_append.mpr ⟨hmicro, hzone⟩⟩⟩⟩

/-- What holds of the digits and of the dash holds of every byte of an identifier's text. -/
theorem forall_mem_string {P : UInt8 → Prop} (hdigit : ∀ n : Fin 16, P (HexDigit.ofFin n).byte)
    (hdash : P 0x2d) (u : UUID) : ∀ x ∈ u.string, P x := by
  have hhex : ∀ b, ∀ x ∈ UUID.hex b, P x := by
    intro b x hx
    obtain ⟨y, -, hy⟩ := List.mem_flatMap.mp hx
    simp only [UUID.hexPair, List.mem_cons, List.not_mem_nil, or_false] at hy
    rcases hy with rfl | rfl
    · exact hdigit _
    · exact hdigit _
  simp only [UUID.string, List.forall_mem_append, List.forall_mem_cons]
  exact ⟨hhex _, hdash, hhex _, hdash, hhex _, hdash, hhex _, hdash, hhex _⟩

theorem plainByte_string (u : UUID) : ∀ x ∈ u.string, PlainByte x :=
  forall_mem_string (by decide) (by decide) u

theorem goodLiteral_quote {b : Bytes} (h : validText b = true) :
    goodLiteral (Python.quote b) = true := by
  rw [validText, Bool.and_eq_true] at h
  obtain ⟨cs, rfl⟩ := (Utf8.valid_iff b).mp h.1
  have hnul : Char.ofNat 0 ∉ cs := by
    intro hc
    have hmem : (0 : UInt8) ∈ Utf8.encode cs := List.mem_flatMap.mpr ⟨_, hc, by decide⟩
    simp [hmem] at h
  rw [goodLiteral, Python.valid_body_quote h.1, Python.paired_quote hnul]
  rfl

end Literals

namespace OrderEvent
variable (e : OrderEvent)

/-- The members of the payload. -/
def payloadMembers : Members :=
  .ofList (Label.plain Name.orderID, .string (Python.quote e.order.orderID))
    [(Label.plain Name.amountCents, marshalInt e.order.amountCents)]

/-- The members of the event, all but the order's identifier without escapes. -/
def eventMembers : Members :=
  .ofList (Label.plain Event.Name.eventID, .string (Str.plain e.eventID.string))
    [(Label.plain Event.Name.eventType, .string (Str.plain Name.orderCompleted)),
      (Label.plain Event.Name.occurredAt, .string (Str.plain e.occurredAt.isoformat)),
      (Label.plain Event.Name.payload, .object e.payloadMembers)]

theorem payload_tree : e.payload.tree = .object e.payloadMembers := by
  have horder : Python.quote Name.orderID = Str.plain Name.orderID :=
    Python.quote_eq_plain (by decide +kernel)
  have hamount : Python.quote Name.amountCents = Str.plain Name.amountCents :=
    Python.quote_eq_plain (by decide +kernel)
  simp only [payload, payloadMembers, Object.tree, Object.members, marshalObject, horder, hamount,
    Label.plain]

theorem object_tree : e.object.tree = .object e.eventMembers := by
  have hname : ∀ n ∈ [Event.Name.eventID, Event.Name.eventType, Event.Name.occurredAt,
      Event.Name.payload, Name.orderCompleted], Python.quote n = Str.plain n := by
    intro n hn
    exact Python.quote_eq_plain ((by decide +kernel : ∀ n ∈ [Event.Name.eventID,
      Event.Name.eventType, Event.Name.occurredAt, Event.Name.payload, Name.orderCompleted],
      ∀ x ∈ n, PlainByte x) n hn)
  simp only [List.forall_mem_cons, List.not_mem_nil, false_implies, implies_true, and_true] at hname
  obtain ⟨hid, htype, htime, hpayload, hcompleted⟩ := hname
  simp only [object, eventMembers, Object.tree, Object.members, marshalObject, payload_tree, hid,
    htype, htime, hpayload, hcompleted, Python.quote_eq_plain (plainByte_string _),
    Python.quote_eq_plain (plainByte_isoformat _), Label.plain]

/-- The literal of the amount. -/
def amount : Number :=
  ⟨e.order.amountCents < 0, .ofNat e.order.amountCents.natAbs, none, none⟩

theorem length_amount_le : (IntPart.ofNat e.order.amountCents.natAbs).digits.length ≤ 19 := by
  have hbound : e.order.amountCents.natAbs < 10 ^ 19 := by
    have hlow := e.order.low
    have hhigh := e.order.high
    omega
  rw [IntPart.ofNat]
  split_ifs with hzero
  · exact (by decide : IntPart.zero.digits.length ≤ 19)
  · have hlog : Nat.log 10 e.order.amountCents.natAbs < 19 := Nat.log_lt_of_lt_pow hzero hbound
    rw [IntPart.digits, List.length_cons, length_fixedDigits]
    exact hlog

theorem representable_amount : representableNumber e.amount.print = true := by
  have hlength := e.length_amount_le
  have hfraction : e.amount.fractionDigits = [] := rfl
  have hexponent : e.amount.exponent = 0 := rfl
  have hdigits : e.amount.int.digits.length ≤ 19 := hlength
  rw [representableNumber_iff, Number.scale, hexponent, hfraction, List.length_nil]
  refine ⟨by decide, ⟨by omega, by omega⟩, Or.inr ?_, by decide⟩
  omega

theorem literals_payload : e.payloadMembers.strings.all goodLiteral = true := by
  have horder : goodLiteral (Label.plain Name.orderID).key = true := by decide +kernel
  have hamount : goodLiteral (Label.plain Name.amountCents).key = true := by decide +kernel
  simp only [payloadMembers, Members.ofList, Members.strings, Value.strings, marshalInt,
    List.all_cons, List.all_append, List.all_nil, horder, hamount,
    goodLiteral_quote e.order.text, Bool.and_true]

theorem literals_event : e.eventMembers.strings.all goodLiteral = true := by
  have hname : ∀ n ∈ [Event.Name.eventID, Event.Name.eventType, Event.Name.occurredAt,
      Event.Name.payload], goodLiteral (Label.plain n).key = true := by decide +kernel
  simp only [List.forall_mem_cons, List.not_mem_nil, false_implies, implies_true, and_true] at hname
  obtain ⟨hid, htype, htime, hpayload⟩ := hname
  have hcompleted : goodLiteral (Str.plain Name.orderCompleted) = true := by decide +kernel
  simp only [eventMembers, Members.ofList, Members.strings, Value.strings, List.all_cons,
    List.all_append, List.all_nil, hid, htype, htime, hpayload, hcompleted,
    goodLiteral_plain (plainByte_string _), goodLiteral_plain (plainByte_isoformat _),
    e.literals_payload, Bool.and_true]

theorem depth_payload : (Value.object e.payloadMembers).depth = 1 := rfl

theorem depth_object : e.object.tree.depth = 2 := by
  rw [object_tree]
  rfl

theorem parse_payload : parse? e.payload.dumps = some ⟨[], .object e.payloadMembers, []⟩ := by
  have hparse := parse?_print (v := .object e.payloadMembers) (by rw [e.depth_payload]; decide)
  rw [Object.dumps, payload_tree, hparse]

theorem valid_input : e.input.Valid where
  eventID := ne_nil_of_isUUID4 e.version
  eventType := (by decide +kernel : 1 ≤ Name.orderCompleted.length ∧
    Name.orderCompleted.length ≤ 128 ∧ validText Name.orderCompleted = true)
  occurredAt := Time.isZero_of_isUtcNow e.moment
  payload := by
    have hnumbers : (Value.object e.payloadMembers).numbers = [e.amount] := rfl
    refine ⟨_, e.parse_payload, rfl, ?_⟩
    rw [goodValue, goodNumbers, hnumbers, List.all_cons, List.all_nil, e.representable_amount,
      Bool.and_true, e.depth_payload, Bool.and_true, Bool.and_eq_true]
    exact ⟨by decide, e.literals_payload⟩

/-- Every saved body is short. -/
theorem length_body_le : e.body.length ≤ 1000 := by
  have hvalid : Utf8.valid e.order.orderID = true := by
    have htext := e.order.text
    rw [validText, Bool.and_eq_true] at htext
    exact htext.1
  have horder := Python.length_quote hvalid
  have hsize := e.order.size
  have htime := e.occurredAt.length_isoformat_le
  have hid := e.eventID.length_string
  have hdigits := e.length_amount_le
  have hamount : (marshalInt e.order.amountCents).print.length ≤ 20 := by
    simp only [marshalInt, Value.print, Number.print, Option.elim_none, List.append_nil,
      List.length_append, printDigits, List.length_map]
    split_ifs
    · simp only [List.length_cons, List.length_nil]
      omega
    · simp only [List.length_nil]
      omega
  have hlabels : (Label.plain Event.Name.eventID).print.length = 11 ∧
      (Label.plain Event.Name.eventType).print.length = 13 ∧
      (Label.plain Event.Name.occurredAt).print.length = 14 ∧
      (Label.plain Event.Name.payload).print.length = 10 ∧
      (Label.plain Name.orderID).print.length = 11 ∧
      (Label.plain Name.amountCents).print.length = 15 := by
    decide +kernel
  obtain ⟨h1, h2, h3, h4, h5, h6⟩ := hlabels
  have hcompleted : (Value.string (Str.plain Name.orderCompleted)).print.length = 17 := by
    decide +kernel
  rw [body, Object.dumps, object_tree]
  simp only [eventMembers, payloadMembers, Members.ofList, Value.print, Members.print, Blank.print,
    List.map_nil, List.nil_append, List.append_nil, List.length_append, List.length_cons,
    List.length_nil, length_str, Str.body_plain (plainByte_string _),
    Str.body_plain (plainByte_isoformat _), h1, h2, h3, h4, h5, h6] at hcompleted ⊢
  omega

private theorem decodeStruct_object (U : UUID.Codec) :
    decodeStruct .refuse (inputFields U id fun i _ => i) (.object e.eventMembers) Input.zero =
      some e.input := by
  have hnodup : ((inputFields U id fun i _ => i).map FieldSpec.name).Nodup := by
    change [Event.Name.eventID, Event.Name.eventType, Event.Name.occurredAt,
      Event.Name.payload].Nodup
    decide
  obtain ⟨h1, h2, h3, h4⟩ := setMember_input U (List.Subset.refl _) hnodup .refuse
  have hcompleted : (Str.plain Name.orderCompleted).unquote = Name.orderCompleted :=
    Str.unquote_plain (by decide +kernel)
  have hdumps : (Value.object e.payloadMembers).print = e.payload.dumps := by
    rw [Object.dumps, payload_tree]
  simp only [decodeStruct, eventMembers, Members.ofList, decodeMembers, h1, h2, h3, h4, decodeText,
    decodeString, unmarshalTime, Str.unquote_plain (plainByte_string _),
    Str.body_plain (plainByte_isoformat _), U.unmarshalText_string, hcompleted,
    Time.parse_isoformat e.moment, hdumps, Option.map_some, id_eq, input]

/-- The collector reads back the event that was saved, its payload byte for byte. -/
theorem decodeInput_body (U : UUID.Codec) : decodeInput U e.body = .ok e.input := by
  have hlength : e.body.length ≤ maxEventBytes := le_trans e.length_body_le (by decide)
  have hprint : e.body = (Value.object e.eventMembers).print := by
    rw [body, Object.dumps, object_tree]
  have hunicode : validUnicodeJSON e.body = true := by
    rw [hprint, validUnicodeJSON_print]
    exact e.literals_event
  have hparse : parse? e.body = some ⟨[], .object e.eventMembers, []⟩ := by
    have hdepth := e.depth_object
    rw [object_tree] at hdepth
    rw [hprint]
    exact parse?_print (by rw [hdepth]; decide)
  have hdecode := (decode_ok_iff (inputFields U id fun i _ => i) Input.zero e.input maxEventBytes
    e.body).mpr ⟨hlength, hunicode, _, hparse, e.decodeStruct_object U⟩
  rw [decodeInput, hdecode]
  dsimp only
  rw [(validate_ok_iff e.input).mpr e.valid_input]

end OrderEvent

end IngestKit.Outbox
