import IngestKit.Text.Utf8

/-! Standard base64 with padding. The decoder skips line breaks. -/
namespace IngestKit.Base64

abbrev Sextet := Fin 64

def Sextet.byte (n : Sextet) : UInt8 :=
  UInt8.ofNat (if n.val < 26 then 0x41 + n.val else if n.val < 52 then 0x61 + (n.val - 26)
    else if n.val < 62 then 0x30 + (n.val - 52) else if n.val = 62 then 0x2b else 0x2f)

def Sextet.ofByte? (b : UInt8) : Option Sextet :=
  let v := b.toNat
  if 0x41 ≤ v ∧ v ≤ 0x5a then some (Fin.ofNat 64 (v - 0x41))
  else if 0x61 ≤ v ∧ v ≤ 0x7a then some (Fin.ofNat 64 (v - 0x61 + 26))
  else if 0x30 ≤ v ∧ v ≤ 0x39 then some (Fin.ofNat 64 (v - 0x30 + 52))
  else if v = 0x2b then some 62
  else if v = 0x2f then some 63
  else none

theorem Sextet.ofByte?_byte (n : Sextet) : Sextet.ofByte? n.byte = some n := by
  revert n
  decide

/-- The byte is neither padding nor skipped, and it needs no escape in a quoted text. -/
theorem Sextet.byte_plain (n : Sextet) : n.byte ≠ 0x3d ∧ n.byte ≠ 0x0d ∧ n.byte ≠ 0x0a ∧
    0x20 ≤ n.byte.toNat ∧ n.byte.toNat < 0x80 ∧ n.byte ≠ 0x22 ∧ n.byte ≠ 0x5c ∧
    n.byte ≠ 0x3c ∧ n.byte ≠ 0x3e ∧ n.byte ≠ 0x26 := by
  revert n
  decide

def sextet (v : ℕ) : Sextet := Fin.ofNat 64 v

def encode : Bytes → Bytes
  | a :: b :: c :: t =>
    let v := a.toNat * 65536 + b.toNat * 256 + c.toNat
    (sextet (v / 262144)).byte :: (sextet (v / 4096)).byte :: (sextet (v / 64)).byte ::
      (sextet v).byte :: encode t
  | [a, b] =>
    let v := a.toNat * 65536 + b.toNat * 256
    [(sextet (v / 262144)).byte, (sextet (v / 4096)).byte, (sextet (v / 64)).byte, 0x3d]
  | [a] =>
    let v := a.toNat * 65536
    [(sextet (v / 262144)).byte, (sextet (v / 4096)).byte, 0x3d, 0x3d]
  | [] => []

/-- The bytes of a group of four sextets. -/
def unpack (p q r s : Sextet) : UInt8 × UInt8 × UInt8 :=
  let v := p.val * 262144 + q.val * 4096 + r.val * 64 + s.val
  (UInt8.ofNat (v / 65536), UInt8.ofNat (v / 256), UInt8.ofNat v)

/-- Groups of four, the last of which may be padded. -/
def decodeGroups : Bytes → Option Bytes
  | [] => some []
  | p :: q :: r :: s :: t =>
    match Sextet.ofByte? p, Sextet.ofByte? q with
    | some p, some q =>
      if r = 0x3d then
        if s = 0x3d ∧ t = [] then some [(unpack p q 0 0).1] else none
      else
        match Sextet.ofByte? r with
        | none => none
        | some r =>
          if s = 0x3d then
            if t = [] then some [(unpack p q r 0).1, (unpack p q r 0).2.1] else none
          else
            match Sextet.ofByte? s with
            | none => none
            | some s =>
              (decodeGroups t).map fun rest =>
                (unpack p q r s).1 :: (unpack p q r s).2.1 :: (unpack p q r s).2.2 :: rest
    | _, _ => none
  | _ => none

def decode (b : Bytes) : Option Bytes := decodeGroups (b.filter fun x => x ≠ 0x0d ∧ x ≠ 0x0a)

private theorem ofNat_eq {a : UInt8} {v : ℕ} (h : v % 256 = a.toNat) : UInt8.ofNat v = a := by
  apply UInt8.toNat_inj.mp
  rw [UInt8.toNat_ofNat', h]

section Groups
variable (p q r s : Sextet)

private theorem decodeGroups_four (t : Bytes) :
    decodeGroups (p.byte :: q.byte :: r.byte :: s.byte :: t) = (decodeGroups t).map fun rest =>
      (unpack p q r s).1 :: (unpack p q r s).2.1 :: (unpack p q r s).2.2 :: rest := by
  simp only [decodeGroups, Sextet.ofByte?_byte, (Sextet.byte_plain _).1, if_false]

private theorem decodeGroups_three : decodeGroups [p.byte, q.byte, r.byte, 0x3d] =
    some [(unpack p q r 0).1, (unpack p q r 0).2.1] := by
  simp only [decodeGroups, Sextet.ofByte?_byte, (Sextet.byte_plain _).1, if_false, if_true]

private theorem decodeGroups_two :
    decodeGroups [p.byte, q.byte, 0x3d, 0x3d] = some [(unpack p q 0 0).1] := by
  simp only [decodeGroups, Sextet.ofByte?_byte, if_true, and_self]

end Groups

/-- The four sextets of a group give its value back. -/
private theorem unpack_sextet {v : ℕ} (h : v < 16777216) :
    unpack (sextet (v / 262144)) (sextet (v / 4096)) (sextet (v / 64)) (sextet v) =
      (UInt8.ofNat (v / 65536), UInt8.ofNat (v / 256), UInt8.ofNat v) := by
  have hv : v / 262144 % 64 * 262144 + v / 4096 % 64 * 4096 + v / 64 % 64 * 64 + v % 64 = v := by
    omega
  simp only [unpack, sextet, Fin.ofNat, hv]

private theorem sextet_eq_zero {v : ℕ} (h : v % 64 = 0) : sextet v = 0 := Fin.ext h

theorem decodeGroups_encode : ∀ b : Bytes, decodeGroups (encode b) = some b
  | a :: b :: c :: t => by
    have ha := a.toNat_lt
    have hb := b.toNat_lt
    have hc := c.toNat_lt
    rw [encode, decodeGroups_four, decodeGroups_encode t, unpack_sextet (by omega),
      Option.map_some, ofNat_eq (a := a) (by omega), ofNat_eq (a := b) (by omega),
      ofNat_eq (a := c) (by omega)]
  | [a, b] => by
    have ha := a.toNat_lt
    have hb := b.toNat_lt
    rw [encode, decodeGroups_three, ← sextet_eq_zero (v := a.toNat * 65536 + b.toNat * 256)
      (by omega), unpack_sextet (by omega), ofNat_eq (a := a) (by omega),
      ofNat_eq (a := b) (by omega)]
  | [a] => by
    have ha := a.toNat_lt
    rw [encode, decodeGroups_two]
    have hunpack := unpack_sextet (v := a.toNat * 65536) (by omega)
    rw [sextet_eq_zero (v := a.toNat * 65536) (by omega),
      sextet_eq_zero (v := a.toNat * 65536 / 64) (by omega)] at hunpack
    rw [hunpack, ofNat_eq (a := a) (by omega)]
  | [] => rfl

/-- A byte of an encoded text. -/
def TextByte (x : UInt8) : Prop := x = 0x3d ∨ ∃ n : Sextet, x = n.byte

private theorem textByte_byte (n : Sextet) : TextByte n.byte := Or.inr ⟨n, rfl⟩

private theorem textByte_pad : TextByte 0x3d := Or.inl rfl

theorem textByte_encode : ∀ (b : Bytes), ∀ x ∈ encode b, TextByte x
  | a :: b :: c :: t => by
    simp only [encode, List.forall_mem_cons]
    exact ⟨textByte_byte _, textByte_byte _, textByte_byte _, textByte_byte _, textByte_encode t⟩
  | [a, b] => by
    simp only [encode, List.forall_mem_cons]
    exact ⟨textByte_byte _, textByte_byte _, textByte_byte _, textByte_pad, by simp⟩
  | [a] => by
    simp only [encode, List.forall_mem_cons]
    exact ⟨textByte_byte _, textByte_byte _, textByte_pad, textByte_pad, by simp⟩
  | [] => by simp [encode]

theorem decode_encode (b : Bytes) : decode (encode b) = some b := by
  have hskip : (encode b).filter (fun x => x ≠ 0x0d ∧ x ≠ 0x0a) = encode b := by
    apply List.filter_eq_self.mpr
    intro x hx
    rcases textByte_encode b x hx with rfl | ⟨n, rfl⟩
    · decide
    · obtain ⟨-, hcr, hlf, -⟩ := n.byte_plain
      simp [hcr, hlf]
  rw [decode, hskip, decodeGroups_encode]

end IngestKit.Base64
