import IngestKit.Event.Encode
import IngestKit.Json.Marshal
import IngestKit.Messaging.Delivery
import IngestKit.Messaging.Publisher

/-! `Quarantine.Write`: a poison record as JSON in the quarantine topic, and what a reader of that
topic decodes. -/
namespace IngestKit.Messaging.Quarantine
open Event Json

/-- A nil slice is `none`. -/
structure Header where
  key : Bytes
  value : Option Bytes
  deriving DecidableEq

/-- The fields of a broker record that are kept. -/
structure Source where
  topic : Bytes
  partition : Int32
  offset : Int64
  key : Option Bytes
  headers : Option (List Header)
  value : Option Bytes
  deriving DecidableEq

/-- `QuarantinedRecord`. -/
structure Document extends Source where
  error : Bytes
  failedAt : Time

namespace Name

def topic : Bytes := ascii ['t', 'o', 'p', 'i', 'c']

def partition : Bytes := ascii ['p', 'a', 'r', 't', 'i', 't', 'i', 'o', 'n']

def offset : Bytes := ascii ['o', 'f', 'f', 's', 'e', 't']

def key : Bytes := ascii ['k', 'e', 'y']

def headers : Bytes := ascii ['h', 'e', 'a', 'd', 'e', 'r', 's']

def value : Bytes := ascii ['v', 'a', 'l', 'u', 'e']

def error : Bytes := ascii ['e', 'r', 'r', 'o', 'r']

def failedAt : Bytes := ascii ['f', 'a', 'i', 'l', 'e', 'd', '_', 'a', 't']

/-- `kgo.RecordHeader` has no tags. -/
def headerKey : Bytes := ascii ['K', 'e', 'y']

def headerValue : Bytes := ascii ['V', 'a', 'l', 'u', 'e']

end Name

def headerFields : List (FieldCodec Header) :=
  [⟨⟨Name.headerKey, fun v h => (decodeString v h.key).map fun x => { h with key := x }⟩,
      fun h => .string (marshalString h.key)⟩,
   ⟨⟨Name.headerValue, fun v h => (unmarshalBytes v).map fun x => { h with value := x }⟩,
      fun h => marshalBytes h.value⟩]

def marshalHeader (h : Header) : Value := marshalStruct headerFields h

def unmarshalHeader (v : Value) : Option Header :=
  decodeStruct .ignore (headerFields.map FieldCodec.toFieldSpec) v ⟨[], none⟩

def documentFields : List (FieldCodec Document) :=
  [⟨⟨Name.topic, fun v d => (decodeString v d.topic).map fun x => { d with topic := x }⟩,
      fun d => .string (marshalString d.topic)⟩,
   ⟨⟨Name.partition, fun v d => (unmarshalInt (-2147483648) 2147483647 v d.partition.toInt).map
        fun x => { d with partition := .ofInt x }⟩, fun d => marshalInt d.partition.toInt⟩,
   ⟨⟨Name.offset, fun v d =>
        (unmarshalInt (-9223372036854775808) 9223372036854775807 v d.offset.toInt).map
          fun x => { d with offset := .ofInt x }⟩, fun d => marshalInt d.offset.toInt⟩,
   ⟨⟨Name.key, fun v d => (unmarshalBytes v).map fun x => { d with key := x }⟩,
      fun d => marshalBytes d.key⟩,
   ⟨⟨Name.headers, fun v d => (unmarshalSlice unmarshalHeader v).map fun x => { d with headers := x }⟩,
      fun d => marshalSlice marshalHeader d.headers⟩,
   ⟨⟨Name.value, fun v d => (unmarshalBytes v).map fun x => { d with value := x }⟩,
      fun d => marshalBytes d.value⟩,
   ⟨⟨Name.error, fun v d => (decodeString v d.error).map fun x => { d with error := x }⟩,
      fun d => .string (marshalString d.error)⟩,
   ⟨⟨Name.failedAt, fun v d => (unmarshalTime v d.failedAt).map fun x => { d with failedAt := x }⟩,
      fun d => .string (Str.plain d.failedAt.text)⟩]

def Document.zero : Document := ⟨⟨[], 0, 0, none, none, none⟩, [], .zero⟩

/-- `json.Marshal`; it fails on a time that has no RFC 3339 text. -/
def Document.marshal (d : Document) : Option Bytes :=
  if d.failedAt.Marshals then some (marshalStruct documentFields d).print else none

def Document.unmarshal (raw : Bytes) : Option Document :=
  Json.unmarshal (documentFields.map FieldCodec.toFieldSpec) .zero raw

/-- The record that is handed to the publisher. `cause` is the text of the error. -/
def write (dlqTopic : Bytes) (r : Source) (cause : Bytes) (failedAt : Time) : Option BrokerRecord :=
  let message := if cause.length > 1024 then cause.take 1024 else cause
  (Document.marshal ⟨r, message, failedAt⟩).map fun raw => ⟨dlqTopic, r.key.getD [], raw⟩

/-- The record a consumer polled. -/
def Source.ofRecord (r : Record) : Source where
  topic := r.topic
  partition := .ofNat r.partition
  offset := .ofNat r.offset
  key := some r.key
  headers := some (r.headers.map fun h => ⟨h.1, some h.2⟩)
  value := some r.value

/-- The document of an entry of the quarantine topic. -/
def Document.ofQuarantined (q : QuarantinedRecord) (failedAt : Time) : Document where
  toSource := .ofRecord ⟨q.topic, q.partition, q.offset, q.key, q.headers, q.value⟩
  error := q.error
  failedAt := failedAt

/-- What the delivery model quarantines is what is written here. -/
theorem write_ofRecord (dlqTopic : Bytes) (r : Record) (cause : Error) (failedAt : Time) :
    write dlqTopic (.ofRecord r) (Utf8.encode cause.message.toList) failedAt =
      (Document.ofQuarantined (quarantined r cause) failedAt).marshal.map fun raw =>
        ⟨dlqTopic, r.key, raw⟩ := by
  have htake : ∀ b : Bytes, (if b.length > 1024 then b.take 1024 else b) = b.take 1024 := by
    intro b
    split_ifs with h
    · rfl
    · rw [List.take_of_length_le (by omega)]
  rw [write, htake]
  rfl

def Header.coerced (h : Header) : Header := { h with key := Utf8.coerce h.key }

/-- A record with malformed text replaced. -/
def Source.coerced (r : Source) : Source :=
  { r with
    topic := Utf8.coerce r.topic
    headers := r.headers.map (List.map Header.coerced) }

theorem unmarshalHeader_marshalHeader (h : Header) :
    unmarshalHeader (marshalHeader h) = some h.coerced := by
  rw [unmarshalHeader, marshalHeader, decodeStruct_marshalStruct _ (by decide) (by decide +kernel)]
  simp [headerFields, decodeString, unquote_marshalString, unmarshalBytes_marshalBytes,
    Header.coerced]

theorem decodeStruct_document (d : Document) (hm : d.failedAt.Marshals)
    (hutc : d.failedAt.offset = 0) :
    decodeStruct .ignore (documentFields.map FieldCodec.toFieldSpec)
        (marshalStruct documentFields d)
      .zero = some ⟨d.toSource.coerced, Utf8.coerce d.error, d.failedAt⟩ := by
  have hpart : ∀ old, unmarshalInt (-2147483648) 2147483647 (marshalInt d.partition.toInt) old =
      some d.partition.toInt := by
    have hlow := d.partition.le_toInt
    have hhigh := d.partition.toInt_lt
    exact unmarshalInt_marshalInt (by omega) (by omega)
  have hoffset : ∀ old, unmarshalInt (-9223372036854775808) 9223372036854775807
      (marshalInt d.offset.toInt) old = some d.offset.toInt := by
    have hlow := d.offset.le_toInt
    have hhigh := d.offset.toInt_lt
    exact unmarshalInt_marshalInt (by omega) (by omega)
  have htime : Time.parse (Str.plain d.failedAt.text).body = some d.failedAt := by
    rw [Str.body_plain (plainByte_text _)]
    exact Time.parse_marshalText (if_pos hm) (by rw [hutc]; rfl)
  rw [decodeStruct_marshalStruct _ (by decide) (by decide +kernel)]
  simp [documentFields, decodeString, unquote_marshalString, unmarshalBytes_marshalBytes, hpart,
    hoffset, unmarshalSlice_marshalSlice unmarshalHeader_marshalHeader, unmarshalTime, htime,
    Source.coerced]

private theorem depth_marshalBytes (b : Option Bytes) : (marshalBytes b).depth = 0 := by
  cases b <;> rfl

private theorem depth_headers (hs : Option (List Header)) :
    (marshalSlice marshalHeader hs).depth ≤ 2 := by
  have hheader : ∀ h : Header, (marshalHeader h).depth ≤ 1 := by
    intro h
    apply depth_marshalStruct_le
    simp [headerFields, depth_marshalBytes, Value.depth]
  exact depth_marshalSlice_le (fun h => hheader h) hs

/-- What a reader of the quarantine topic gets. -/
theorem unmarshal_marshal (d : Document) (hm : d.failedAt.Marshals) (hutc : d.failedAt.offset = 0) :
    ∃ raw, d.marshal = some raw ∧
      Document.unmarshal raw = some ⟨d.toSource.coerced, Utf8.coerce d.error, d.failedAt⟩ := by
  refine ⟨_, if_pos hm, ?_⟩
  have hdepth : (marshalStruct documentFields d).depth ≤ 2 + 1 := by
    apply depth_marshalStruct_le
    simp [documentFields, depth_marshalBytes, depth_headers, marshalInt, Value.depth]
  have hparse := parse?_print (hdepth.trans (by decide))
  rw [Document.unmarshal, Json.unmarshal, hparse]
  exact decodeStruct_document d hm hutc

/-- Replacing malformed text changes nothing exactly when there is none. -/
theorem coerced_eq_self_iff (r : Source) : r.coerced = r ↔
    Utf8.valid r.topic = true ∧ ∀ h ∈ r.headers.getD [], Utf8.valid h.key = true := by
  have hheader : ∀ h : Header, h.coerced = h ↔ Utf8.valid h.key = true := by
    intro h
    rw [← Utf8.coerce_eq_self_iff]
    obtain ⟨key, value⟩ := h
    simp [Header.coerced]
  obtain ⟨topic, partition, offset, key, headers, value⟩ := r
  cases headers with
  | none => simp [Source.coerced, Utf8.coerce_eq_self_iff]
  | some hs =>
    have hlist : hs.map Header.coerced = hs ↔ ∀ h ∈ hs, h.coerced = h := by
      have hmap : hs.map Header.coerced = hs.map id ↔ ∀ h ∈ hs, h.coerced = id h :=
        List.map_inj_left
      rwa [List.map_id] at hmap
    simp [Source.coerced, Utf8.coerce_eq_self_iff, hlist, hheader]

/-- The quarantined record gives the source record back exactly when its topic and its header names
are valid UTF-8. -/
theorem quarantine_preserves_iff (dlqTopic : Bytes) (r : Source) (cause : Bytes) (failedAt : Time)
    (hm : failedAt.Marshals) (hutc : failedAt.offset = 0) :
    ∃ rec d, write dlqTopic r cause failedAt = some rec ∧ Document.unmarshal rec.value = some d ∧
      (d.toSource = r ↔
        Utf8.valid r.topic = true ∧ ∀ h ∈ r.headers.getD [], Utf8.valid h.key = true) := by
  obtain ⟨raw, hraw, hread⟩ := unmarshal_marshal
    ⟨r, if cause.length > 1024 then cause.take 1024 else cause, failedAt⟩ hm hutc
  refine ⟨⟨dlqTopic, r.key.getD [], raw⟩, _, ?_, hread, coerced_eq_self_iff r⟩
  rw [write, hraw, Option.map_some]

/-- A record of offset 7 with a header. -/
def traced (name : Bytes) : Source :=
  ⟨ascii ['e'], 0, 7, some [0, 255], some [⟨name, some (ascii ['a'])⟩], none⟩

def failure : Time := ⟨63902822400, 0, 0, Time.zero_nsec_lt⟩

theorem quarantine_preserves_trace :
    ∃ rec d, write [] (traced (ascii ['t'])) (ascii ['x']) failure = some rec ∧
      Document.unmarshal rec.value = some d ∧ d.toSource = traced (ascii ['t']) := by
  obtain ⟨rec, d, hwrite, hread, hiff⟩ := quarantine_preserves_iff [] (traced (ascii ['t']))
    (ascii ['x']) failure (by decide +kernel) rfl
  exact ⟨rec, d, hwrite, hread, hiff.mpr (by decide)⟩

/-- A header name that is not valid UTF-8 comes back as U+FFFD. -/
theorem header_name_is_replaced :
    ∃ rec d, write [] (traced [255]) (ascii ['x']) failure = some rec ∧
      Document.unmarshal rec.value = some d ∧
      d.headers = some [⟨[0xef, 0xbf, 0xbd], some (ascii ['a'])⟩] ∧ d.toSource ≠ traced [255] := by
  obtain ⟨raw, hraw, hread⟩ := unmarshal_marshal ⟨traced [255], ascii ['x'], failure⟩
    (by decide +kernel) rfl
  refine ⟨⟨[], [0, 255], raw⟩, _, ?_, hread, by decide, by decide⟩
  change (Document.marshal ⟨traced [255], ascii ['x'], failure⟩).map _ = _
  rw [hraw]
  rfl

end IngestKit.Messaging.Quarantine
