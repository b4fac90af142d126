import IngestKit.Text.Utf8
import IngestKit.Text.Digits

/-! Concrete syntax of RFC 8259 texts. Whitespace and literal spellings are kept,
so a tree prints back to exactly one text; every tree is a valid text because
literals are built from classified bytes. -/
namespace IngestKit.Json

/-- Insignificant whitespace. -/
inductive Space
  | space | tab | lf | cr
  deriving DecidableEq

def Space.byte : Space → UInt8
  | .space => 0x20
  | .tab => 0x09
  | .lf => 0x0a
  | .cr => 0x0d

abbrev Blank := List Space

def Blank.print (w : Blank) : Bytes := w.map Space.byte

/-- An integer part has no redundant leading zero; `pos d` starts with `d + 1`. -/
inductive IntPart
  | zero
  | pos (d : Fin 9) (ds : List Digit)
  deriving DecidableEq

def IntPart.digits : IntPart → List Digit
  | .zero => [0]
  | .pos d ds => d.succ :: ds

inductive Sign
  | plus | minus
  deriving DecidableEq

def Sign.byte : Sign → UInt8
  | .plus => 0x2b
  | .minus => 0x2d

structure Exponent where
  upper : Bool
  sign : Option Sign
  first : Digit
  rest : List Digit
  deriving DecidableEq

def Exponent.digits (e : Exponent) : List Digit := e.first :: e.rest

def Exponent.print (e : Exponent) : Bytes :=
  (if e.upper then 0x45 else 0x65) :: (e.sign.elim [] (fun s => [s.byte]) ++ printDigits e.digits)

structure Fraction where
  first : Digit
  rest : List Digit
  deriving DecidableEq

def Fraction.digits (f : Fraction) : List Digit := f.first :: f.rest

def Fraction.print (f : Fraction) : Bytes := 0x2e :: printDigits f.digits

structure Number where
  negative : Bool
  int : IntPart
  frac : Option Fraction
  exp : Option Exponent
  deriving DecidableEq

def Number.print (n : Number) : Bytes :=
  (if n.negative then [0x2d] else []) ++ (printDigits n.int.digits ++
    (n.frac.elim [] Fraction.print ++ n.exp.elim [] Exponent.print))

/-- A byte that may stand for itself inside a string literal. -/
structure RawByte where
  byte : UInt8
  ok : 0x20 ≤ byte.toNat ∧ byte ≠ 0x22 ∧ byte ≠ 0x5c
  deriving DecidableEq

inductive Escape
  | quote | backslash | slash | backspace | formFeed | newline | carriageReturn | tab
  deriving DecidableEq

/-- The byte after the backslash. -/
def Escape.letter : Escape → UInt8
  | .quote => 0x22
  | .backslash => 0x5c
  | .slash => 0x2f
  | .backspace => 0x62
  | .formFeed => 0x66
  | .newline => 0x6e
  | .carriageReturn => 0x72
  | .tab => 0x74

/-- The byte the escape denotes. -/
def Escape.byte : Escape → UInt8
  | .quote => 0x22
  | .backslash => 0x5c
  | .slash => 0x2f
  | .backspace => 0x08
  | .formFeed => 0x0c
  | .newline => 0x0a
  | .carriageReturn => 0x0d
  | .tab => 0x09

def hexValue (b : UInt8) : Option ℕ :=
  if 0x30 ≤ b.toNat ∧ b.toNat ≤ 0x39 then some (b.toNat - 0x30)
  else if 0x61 ≤ b.toNat ∧ b.toNat ≤ 0x66 then some (b.toNat - 0x61 + 10)
  else if 0x41 ≤ b.toNat ∧ b.toNat ≤ 0x46 then some (b.toNat - 0x41 + 10)
  else none

structure HexDigit where
  byte : UInt8
  ok : (hexValue byte).isSome
  deriving DecidableEq

def HexDigit.value (h : HexDigit) : ℕ := (hexValue h.byte).get h.ok

/-- The four digits of a `\u` escape. -/
structure CodeUnit where
  a : HexDigit
  b : HexDigit
  c : HexDigit
  d : HexDigit
  deriving DecidableEq

def CodeUnit.value (u : CodeUnit) : ℕ :=
  ((u.a.value * 16 + u.b.value) * 16 + u.c.value) * 16 + u.d.value

/-- One element of a string literal. -/
inductive Item
  | raw (b : RawByte)
  | esc (e : Escape)
  | uni (u : CodeUnit)
  deriving DecidableEq

def Item.print : Item → Bytes
  | .raw b => [b.byte]
  | .esc e => [0x5c, e.letter]
  | .uni u => [0x5c, 0x75, u.a.byte, u.b.byte, u.c.byte, u.d.byte]

/-- The content of a string literal, without its quotes. -/
abbrev Str := List Item

def Str.body (s : Str) : Bytes := s.flatMap Item.print

@[simp] theorem Str.body_nil : Str.body [] = [] := rfl

@[simp] theorem Str.body_cons (i : Item) (s : Str) : Str.body (i :: s) = i.print ++ Str.body s := rfl

@[simp] theorem Str.body_append (s t : Str) : Str.body (s ++ t) = Str.body s ++ Str.body t := by
  simp [Str.body]

def Str.print (s : Str) : Bytes := 0x22 :: (s.body ++ [0x22])

/-- A member up to its value: blank, name, blank, colon, blank. -/
structure Label where
  pre : Blank
  key : Str
  mid : Blank
  lead : Blank
  deriving DecidableEq

def Label.print (l : Label) : Bytes :=
  l.pre.print ++ (l.key.print ++ (l.mid.print ++ 0x3a :: l.lead.print))

mutual
inductive Value
  | null
  | bool (x : Bool)
  | number (n : Number)
  | string (s : Str)
  | emptyArray (w : Blank)
  | array (es : Elems)
  | emptyObject (w : Blank)
  | object (ms : Members)

/-- A nonempty element list, each element with the blanks around it. -/
inductive Elems
  | one (pre : Blank) (v : Value) (post : Blank)
  | more (pre : Blank) (v : Value) (post : Blank) (rest : Elems)

inductive Members
  | one (l : Label) (v : Value) (post : Blank)
  | more (l : Label) (v : Value) (post : Blank) (rest : Members)
end

mutual
def Value.print : Value → Bytes
  | .null => ascii ['n', 'u', 'l', 'l']
  | .bool true => ascii ['t', 'r', 'u', 'e']
  | .bool false => ascii ['f', 'a', 'l', 's', 'e']
  | .number n => n.print
  | .string s => s.print
  | .emptyArray w => 0x5b :: (w.print ++ [0x5d])
  | .array es => 0x5b :: (es.print ++ [0x5d])
  | .emptyObject w => 0x7b :: (w.print ++ [0x7d])
  | .object ms => 0x7b :: (ms.print ++ [0x7d])

def Elems.print : Elems → Bytes
  | .one pre v post => pre.print ++ (v.print ++ post.print)
  | .more pre v post rest => pre.print ++ (v.print ++ (post.print ++ 0x2c :: rest.print))

def Members.print : Members → Bytes
  | .one l v post => l.print ++ (v.print ++ post.print)
  | .more l v post rest => l.print ++ (v.print ++ (post.print ++ 0x2c :: rest.print))
end

/-- A whole text: one value with the blanks around it. -/
structure Doc where
  pre : Blank
  value : Value
  post : Blank

def Doc.print (d : Doc) : Bytes := d.pre.print ++ (d.value.print ++ d.post.print)

mutual
/-- Nested arrays and objects on the deepest path, the value itself included. -/
def Value.depth : Value → ℕ
  | .emptyArray _ | .emptyObject _ => 1
  | .array es => es.depth + 1
  | .object ms => ms.depth + 1
  | _ => 0

def Elems.depth : Elems → ℕ
  | .one _ v _ => v.depth
  | .more _ v _ rest => max v.depth rest.depth

def Members.depth : Members → ℕ
  | .one _ v _ => v.depth
  | .more _ v _ rest => max v.depth rest.depth
end

mutual
/-- String literals in order, member names included. -/
def Value.strings : Value → List Str
  | .string s => [s]
  | .array es => es.strings
  | .object ms => ms.strings
  | _ => []

def Elems.strings : Elems → List Str
  | .one _ v _ => v.strings
  | .more _ v _ rest => v.strings ++ rest.strings

def Members.strings : Members → List Str
  | .one l v _ => l.key :: v.strings
  | .more l v _ rest => l.key :: (v.strings ++ rest.strings)
end

mutual
/-- Number literals in order. -/
def Value.numbers : Value → List Number
  | .number n => [n]
  | .array es => es.numbers
  | .object ms => ms.numbers
  | _ => []

def Elems.numbers : Elems → List Number
  | .one _ v _ => v.numbers
  | .more _ v _ rest => v.numbers ++ rest.numbers

def Members.numbers : Members → List Number
  | .one _ v _ => v.numbers
  | .more _ v _ rest => v.numbers ++ rest.numbers
end

def Elems.values : Elems → List Value
  | .one _ v _ => [v]
  | .more _ v _ rest => v :: rest.values

def Members.values : Members → List Value
  | .one _ v _ => [v]
  | .more _ v _ rest => v :: rest.values

theorem Members.length_le : ∀ {ms : Members} {v : Value}, v ∈ ms.values →
    v.print.length ≤ ms.print.length
  | .one l w post, v, h => by
    rw [List.mem_singleton.mp h]
    simp only [Members.print, List.length_append]
    omega
  | .more l w post rest, v, h => by
    simp only [Members.print, List.length_append, List.length_cons]
    rcases List.mem_cons.mp h with rfl | h
    · omega
    · have := Members.length_le h
      omega

def Value.isObject : Value → Bool
  | .emptyObject _ | .object _ => true
  | _ => false

end IngestKit.Json
