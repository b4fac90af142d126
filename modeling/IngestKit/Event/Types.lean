import IngestKit.Json.Tree
import IngestKit.Time.Rfc3339

/-! The HTTP and broker event contract: limits, records and errors. -/
namespace IngestKit.Event
open Json

def maxEventBytes : ℕ := 256 * 1024

def maxEnvelopeBytes : ℕ := maxEventBytes + 4096

def maxRequestBytes : ℕ := 1024 * 1024

def maxBatchEvents : ℕ := 100

def maxPayloadDepth : ℕ := 64

structure UUID where
  bytes : Bytes
  size : bytes.length = 16
  deriving DecidableEq

namespace UUID

def nil : UUID := ⟨List.replicate 16 0, by decide⟩

def hexPair (b : UInt8) : Bytes :=
  [(HexDigit.ofFin (Fin.ofNat 16 (b.toNat / 16))).byte,
    (HexDigit.ofFin (Fin.ofNat 16 b.toNat)).byte]

def hex (b : Bytes) : Bytes := b.flatMap hexPair

/-- The canonical form `xxxxxxxx-xxxx-xxxx-xxxx-xxxxxxxxxxxx`. -/
def string (u : UUID) : Bytes :=
  hex (u.bytes.take 4) ++ 0x2d :: (hex ((u.bytes.drop 4).take 2) ++
    0x2d :: (hex ((u.bytes.drop 6).take 2) ++ 0x2d :: (hex ((u.bytes.drop 8).take 2) ++
      0x2d :: hex (u.bytes.drop 10))))

/-- The text decoder of the UUID library; it reads the canonical form back. -/
structure Codec where
  unmarshalText : Bytes → Option UUID
  unmarshalText_string : ∀ u : UUID, unmarshalText u.string = some u

def unhex : Bytes → Option Bytes
  | [] => some []
  | [_] => none
  | h :: l :: t =>
    match hexValue h, hexValue l, unhex t with
    | some x, some y, some r => some (UInt8.ofNat (x * 16 + y) :: r)
    | _, _, _ => none

def ofBytes? (b : Bytes) : Option UUID := if h : b.length = 16 then some ⟨b, h⟩ else none

/-- Thirty-six bytes with dashes at 8, 13, 18 and 23. -/
def parseCanonical (b : Bytes) : Option UUID :=
  if b[8]? = some 0x2d ∧ b[13]? = some 0x2d ∧ b[18]? = some 0x2d ∧ b[23]? = some 0x2d then
    (unhex (b.take 8 ++ ((b.drop 9).take 4 ++ ((b.drop 14).take 4 ++ ((b.drop 19).take 4 ++
      (b.drop 24).take 12))))).bind ofBytes?
  else none

/-- The forms with `urn:uuid:`, with braces and without dashes are read as well. -/
def parse (b : Bytes) : Option UUID :=
  if b.length = 36 then parseCanonical b
  else if b.length = 45 then
    if (b.take 9).map (fun x => if 0x41 ≤ x.toNat ∧ x.toNat ≤ 0x5a then x + 0x20 else x) =
      ascii ['u', 'r', 'n', ':', 'u', 'u', 'i', 'd', ':'] then parseCanonical (b.drop 9) else none
  else if b.length = 38 then parseCanonical (b.drop 1)
  else if b.length = 32 then (unhex b).bind ofBytes?
  else none

theorem unhex_hex_append (b t : Bytes) :
    unhex (hex b ++ t) = (unhex t).map (b ++ ·) := by
  induction b with
  | nil => simp [hex]
  | cons x b ih =>
    have hv : ∀ n : Fin 16, hexValue (HexDigit.ofFin n).byte = some n.val := by decide
    have hx : UInt8.ofNat ((Fin.ofNat 16 (x.toNat / 16)).val * 16 + (Fin.ofNat 16 x.toNat).val)
        = x := by
      have hlt := x.toNat_lt
      rw [show (Fin.ofNat 16 (x.toNat / 16)).val * 16 + (Fin.ofNat 16 x.toNat).val = x.toNat by
        simp only [Fin.ofNat]; omega]
      simp
    have hstep : hex (x :: b) ++ t = (HexDigit.ofFin (Fin.ofNat 16 (x.toNat / 16))).byte ::
        (HexDigit.ofFin (Fin.ofNat 16 x.toNat)).byte :: (hex b ++ t) := rfl
    rw [hstep, unhex, hv, hv, ih]
    cases unhex t with
    | none => rfl
    | some r => simp only [Option.map_some, hx, List.cons_append]

theorem length_hex (b : Bytes) : (hex b).length = 2 * b.length := by
  induction b with
  | nil => rfl
  | cons x b ih =>
    have hstep : (hex (x :: b)).length = 2 + (hex b).length := by
      rw [hex, List.flatMap_cons, List.length_append]
      rfl
    rw [hstep, ih, List.length_cons]
    omega

theorem length_string (u : UUID) : u.string.length = 36 := by
  have h := u.size
  simp only [string, List.length_append, List.length_cons, length_hex, List.length_take,
    List.length_drop]
  omega

theorem parseCanonical_string (u : UUID) : parseCanonical u.string = some u := by
  obtain ⟨b, hb⟩ := u
  match b, hb with
  | [b0, b1, b2, b3, b4, b5, b6, b7, b8, b9, b10, b11, b12, b13, b14, b15], hb =>
    have h := unhex_hex_append [b0, b1, b2, b3, b4, b5, b6, b7, b8, b9, b10, b11,
      b12, b13, b14, b15] []
    rw [parseCanonical, if_pos ⟨rfl, rfl, rfl, rfl⟩]
    refine (congrArg (·.bind ofBytes?) h).trans ?_
    rw [unhex, Option.map_some, List.append_nil, Option.bind_some, ofBytes?, dif_pos hb]

theorem string_injective : Function.Injective string := by
  intro u v h
  have hu := parseCanonical_string u
  rw [h, parseCanonical_string] at hu
  exact (Option.some.inj hu).symm

/-- The library decoder. -/
def standard : Codec where
  unmarshalText := parse
  unmarshalText_string u := by rw [parse, if_pos u.length_string, parseCanonical_string]

theorem allAscii_hex (b : Bytes) : AllAscii (hex b) ∧ 0 ∉ hex b := by
  have hd : ∀ n : Fin 16, (HexDigit.ofFin n).byte.toNat < 0x80 ∧ (HexDigit.ofFin n).byte ≠ 0 := by
    decide
  induction b with
  | nil => exact ⟨allAscii_nil, by simp [hex]⟩
  | cons x b ih =>
    have hstep : hex (x :: b) = hexPair x ++ hex b := rfl
    rw [hstep]
    refine ⟨.cons (hd _).1 (.cons (hd _).1 ih.1), ?_⟩
    simp only [hexPair, List.cons_append, List.nil_append, List.mem_cons, not_or]
    exact ⟨fun h => (hd _).2 h.symm, fun h => (hd _).2 h.symm, ih.2⟩

theorem allAscii_string (u : UUID) : AllAscii u.string ∧ 0 ∉ u.string := by
  have happ : ∀ {a b : Bytes}, AllAscii a ∧ (0 : UInt8) ∉ a → AllAscii b ∧ (0 : UInt8) ∉ b →
      AllAscii (a ++ 0x2d :: b) ∧ (0 : UInt8) ∉ a ++ 0x2d :: b := by
    intro a b ha hb
    refine ⟨ha.1.append (.cons (by decide) hb.1), ?_⟩
    simp only [List.mem_append, List.mem_cons, not_or]
    exact ⟨ha.2, by decide, hb.2⟩
  exact happ (allAscii_hex _) (happ (allAscii_hex _) (happ (allAscii_hex _)
    (happ (allAscii_hex _) (allAscii_hex _))))

end UUID

structure Input where
  eventID : UUID
  eventType : Bytes
  occurredAt : Time
  payload : Bytes
  deriving DecidableEq

structure Envelope extends Input where
  tenantID : Bytes
  receivedAt : Time
  deriving DecidableEq

/-- The values a decoder starts from. -/
def Input.zero : Input := ⟨UUID.nil, [], Time.zero, []⟩

def Envelope.zero : Envelope := ⟨Input.zero, [], Time.zero⟩

structure ValidationError where
  message : String
  tooLarge : Bool
  deriving DecidableEq

/-- Errors of this package; `server` and `encoding` are not validation errors. -/
inductive Error
  | validation (e : ValidationError)
  | server (message : String)
  | encoding
  deriving DecidableEq

def Error.message : Error → String
  | .validation e => e.message
  | .server message => message
  | .encoding => "json: error calling MarshalJSON for type time.Time"

def isTooLarge : Error → Bool
  | .validation e => e.tooLarge
  | _ => false

def invalid (message : String) : Error := .validation ⟨message, false⟩

end IngestKit.Event
