import IngestKit.Event.Decode
import IngestKit.Json.Python

/-! The HTTP client that backends copy: one serialised request, a bounded number of attempts with
it, and the acknowledgement that ends them. Request identifiers of errors are left out. -/
namespace IngestKit.Checkout
open Json
open Python (Object Loader)

structure IngestError where
  message : String
  status : Option ℕ
  retryable : Bool
  deriving DecidableEq

/-- A key without blanks and control characters. -/
def isKey (key : Bytes) : Bool := key ≠ [] && key.all fun x => 33 ≤ x.toNat && x.toNat ≤ 126

/-- The settings `Client.__init__` keeps, the address and the timeout apart. -/
structure Client where
  key : Bytes
  maxAttempts : ℕ
  printable : isKey key = true
  range : 1 ≤ maxAttempts ∧ maxAttempts ≤ 10

def Client.new (key : Bytes) (maxAttempts : ℕ) : Except IngestError Client :=
  if h : isKey key = true ∧ 1 ≤ maxAttempts ∧ maxAttempts ≤ 10 then
    .ok ⟨key, maxAttempts, h.1, h.2⟩
  else .error ⟨"invalid client configuration", none, false⟩

def isHex (x : UInt8) : Bool := (hexValue x).isSome

/-- `_UUID.fullmatch`: groups of 8, 4, 4, 4 and 12 hexadecimal digits. -/
def isUUIDText (b : Bytes) : Bool :=
  b.length == 36 && (b.take 8).all isHex && b[8]? == some 0x2d &&
    ((b.drop 9).take 4).all isHex && b[13]? == some 0x2d &&
    ((b.drop 14).take 4).all isHex && b[18]? == some 0x2d &&
    ((b.drop 19).take 4).all isHex && b[23]? == some 0x2d && (b.drop 24).all isHex

def lower (b : Bytes) : Bytes :=
  b.map fun x => if 0x41 ≤ x.toNat ∧ x.toNat ≤ 0x5a then x + 0x20 else x

namespace Member

def eventIDs : Bytes := ascii ['e', 'v', 'e', 'n', 't', '_', 'i', 'd', 's']

def status : Bytes := ascii ['s', 't', 'a', 't', 'u', 's']

def requestID : Bytes := ascii ['r', 'e', 'q', 'u', 'e', 's', 't', '_', 'i', 'd']

end Member

def acceptedText : Bytes := ascii ['a', 'c', 'c', 'e', 'p', 't', 'e', 'd']

/-- `event["event_id"]`, if it is the text of a UUID. -/
def idOf : Object → Option Bytes
  | .dict entries =>
    match entries.lookup Event.Name.eventID with
    | some (.str id) => if isUUIDText id then some id else none
    | _ => none
  | _ => none

def invalidEvents : IngestError := ⟨"event serialization or event ID is invalid", none, false⟩

/-- What is written for the events of a call. -/
def content (event : Object) (rest : List Object) (batch : Bool) : Object :=
  if batch then .dict [(Event.Name.events, .list (event :: rest))] else event

/-- What `_send` computes before its first attempt: the identifiers it expects back and the body. -/
def serialise (events : List Object) (batch : Bool) : Except IngestError (List Bytes × Bytes) :=
  match events with
  | [] => .error invalidEvents
  | event :: rest =>
    match (event :: rest).mapM idOf with
    | none => .error invalidEvents
    | some ids =>
      if (content event rest batch).encodable then
        .ok (ids.map lower, (content event rest batch).dumps)
      else .error invalidEvents

/-- What an attempt meets: a certificate that is not trusted, a connection that fails or times out,
or a response. `late` says that the deadline passed while the response was checked. -/
inductive Reply
  | untrusted
  | failed
  | response (status : ℕ) (raw : Bytes) (late : Bool)

def str? : Object → Option Bytes
  | .str text => some text
  | _ => none

/-- The value is the list of these strings. -/
def isStrings (expected : List Bytes) : Option Object → Bool
  | some (.list items) => items.mapM str? == some expected
  | _ => false

def isString (expected : Bytes) : Option Object → Bool
  | some (.str text) => text == expected
  | _ => false

/-- The checks on the body of a 202, of which at most 65537 bytes are read. -/
def acknowledges (J : Loader) (expected : List Bytes) (raw : Bytes) : Bool :=
  if (raw.take 65537).length ≤ 65536 then
    match J.loads (raw.take 65537) with
    | some (.dict ack) =>
      isStrings expected (ack.lookup Member.eventIDs) &&
        isString acceptedText (ack.lookup Member.status)
    | _ => false
  else false

def connectionFailed : IngestError := ⟨"connection failed; delivery uncertain", none, true⟩

def attempt (J : Loader) (expected : List Bytes) : Reply → Except IngestError (List Bytes)
  | .untrusted => .error ⟨"TLS certificate is not trusted", none, false⟩
  | .failed => .error connectionFailed
  | .response status raw late =>
    if status ≠ 202 then
      .error ⟨"HTTP " ++ toString status, some status, status = 429 || 500 ≤ status⟩
    else if acknowledges J expected raw = false then
      .error ⟨"acknowledgement differs; delivery uncertain", some 202, true⟩
    else if late then .error connectionFailed
    else .ok expected

/-- The end of round `k` of the loop in `_send`; `none` goes on with the next round. -/
def afterAttempt (maxAttempts k : ℕ) (result : Except IngestError (List Bytes)) :
    Option (Except IngestError (List Bytes)) :=
  match result with
  | .ok ids => some (.ok ids)
  | .error e => if e.retryable = false then some (.error e)
    else if k + 1 < maxAttempts then none else some (.error e)

end IngestKit.Checkout
