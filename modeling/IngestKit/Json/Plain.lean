import IngestKit.Json.Tree

/-! Literals made of bytes that stand for themselves. -/
namespace IngestKit.Json

/-- A printable ASCII byte that needs no escape. -/
def PlainByte (b : UInt8) : Prop := 0x20 ≤ b.toNat ∧ b.toNat < 0x80 ∧ b ≠ 0x22 ∧ b ≠ 0x5c

instance (b : UInt8) : Decidable (PlainByte b) := inferInstanceAs (Decidable (_ ∧ _))

def RawByte.ofByte? (b : UInt8) : Option RawByte :=
  if h : 0x20 ≤ b.toNat ∧ b ≠ 0x22 ∧ b ≠ 0x5c then some ⟨b, h⟩ else none

/-- The literal of a text that needs no escape. -/
def Str.plain (b : Bytes) : Str := (b.filterMap RawByte.ofByte?).map .raw

def Label.plain (name : Bytes) : Label := ⟨[], Str.plain name, [], []⟩

theorem Str.body_plain {b : Bytes} (h : ∀ x ∈ b, PlainByte x) : (Str.plain b).body = b := by
  induction b with
  | nil => rfl
  | cons x b ih =>
    obtain ⟨h1, -, h2, h3⟩ := h x (by simp)
    have hx : RawByte.ofByte? x = some ⟨x, h1, h2, h3⟩ := dif_pos ⟨h1, h2, h3⟩
    have hcons : Str.plain (x :: b) = .raw ⟨x, h1, h2, h3⟩ :: Str.plain b := by
      rw [Str.plain, List.filterMap_cons_some hx, List.map_cons, Str.plain]
    rw [hcons, Str.body_cons, ih fun y hy => h y (by simp [hy])]
    rfl

theorem Str.paired_plain (b : Bytes) : (Str.plain b).paired = true := by
  have h := paired_raw_append (b.filterMap RawByte.ofByte?) []
  rw [List.append_nil] at h
  rw [Str.plain, h, Str.paired]

theorem allAscii_of_plain {b : Bytes} (h : ∀ x ∈ b, PlainByte x) : AllAscii b :=
  fun x hx => (h x hx).2.1

theorem valid_of_ascii {b : Bytes} (h : AllAscii b) : Utf8.valid b = true := by
  have hv := valid_ascii_append h []
  rwa [List.append_nil, Utf8.valid_nil] at hv

theorem Str.unquote_plain {b : Bytes} (h : ∀ x ∈ b, PlainByte x) : (Str.plain b).unquote = b := by
  have hr := resolve_raw_append (b.filterMap RawByte.ofByte?) []
  have hb : (b.filterMap RawByte.ofByte?).map RawByte.byte = b := by
    have hbody := Str.body_plain h
    rw [List.map_eq_flatMap]
    simpa [Str.plain, Str.body, List.flatMap_map, Item.print] using hbody
  rw [List.append_nil, hb, Str.resolve, List.append_nil] at hr
  rw [Str.unquote, Str.plain, hr, Utf8.coerce_of_valid (valid_of_ascii (allAscii_of_plain h))]

theorem plainByte_digits (ds : List Digit) : ∀ x ∈ printDigits ds, PlainByte x := by
  intro x hx
  obtain ⟨d, -, rfl⟩ := List.mem_map.mp hx
  exact (by decide : ∀ d : Digit, PlainByte d.byte) d

end IngestKit.Json
