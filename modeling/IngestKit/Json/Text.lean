import IngestKit.Json.Syntax

/-! Meaning of string literals. `Denotes` relates a literal to the Unicode text it
stands for; `unquote` is the lenient decoder, which replaces what has no meaning,
and `quote` is the encoder without HTML escaping. -/
namespace IngestKit.Json

def isHigh (u : ℕ) : Bool := 0xd800 ≤ u && u ≤ 0xdbff

def isLow (u : ℕ) : Bool := 0xdc00 ≤ u && u ≤ 0xdfff

/-- The scalar value of a surrogate pair. -/
def pairValue (hi lo : ℕ) : ℕ := 0x10000 + (hi - 0xd800) * 1024 + (lo - 0xdc00)

/-- A literal and the text it stands for. There is none for malformed UTF-8 and
for unpaired surrogate escapes. -/
inductive Denotes : Str → List Char → Prop
  | nil : Denotes [] []
  | raw {bs : List RawByte} {c : Char} {s : Str} {cs : List Char}
      (h : bs.map RawByte.byte = String.utf8EncodeChar c) (hs : Denotes s cs) :
      Denotes (bs.map Item.raw ++ s) (c :: cs)
  | esc (e : Escape) {s : Str} {cs : List Char} (hs : Denotes s cs) :
      Denotes (.esc e :: s) (Char.ofNat e.byte.toNat :: cs)
  | unit {u : CodeUnit} {s : Str} {cs : List Char} (hh : isHigh u.value = false)
      (hl : isLow u.value = false) (hs : Denotes s cs) :
      Denotes (.uni u :: s) (Char.ofNat u.value :: cs)
  | pair {u w : CodeUnit} {s : Str} {cs : List Char} (hh : isHigh u.value = true)
      (hl : isLow w.value = true) (hs : Denotes s cs) :
      Denotes (.uni u :: .uni w :: s) (Char.ofNat (pairValue u.value w.value) :: cs)

/-- Every `\u` escape is nonzero and surrogates come in pairs. -/
def Str.paired : Str → Bool
  | [] => true
  | .raw _ :: s => paired s
  | .esc _ :: s => paired s
  | .uni u :: s =>
    if u.value = 0 then false
    else if isLow u.value then false
    else if isHigh u.value then
      match s with
      | .uni w :: s => isLow w.value && paired s
      | _ => false
    else paired s

/-- A `\u` escape on its own; an unpaired surrogate becomes U+FFFD. -/
def CodeUnit.bytes (u : CodeUnit) : Bytes :=
  if isHigh u.value || isLow u.value then Utf8.replacement
  else String.utf8EncodeChar (Char.ofNat u.value)

/-- The literal with its escapes replaced by UTF-8. -/
def Str.resolve : Str → Bytes
  | [] => []
  | .raw b :: s => b.byte :: resolve s
  | .esc e :: s => e.byte :: resolve s
  | [.uni u] => u.bytes
  | .uni u :: i :: s =>
    match i with
    | .uni w =>
      if isHigh u.value && isLow w.value then
        String.utf8EncodeChar (Char.ofNat (pairValue u.value w.value)) ++ resolve s
      else u.bytes ++ resolve (i :: s)
    | _ => u.bytes ++ resolve (i :: s)

/-- The decoder's reading of a literal. No escape starts with a continuation
byte, so replacing malformed bytes last is the same as replacing them in place. -/
def Str.unquote (s : Str) : Bytes := Utf8.coerce s.resolve

theorem resolve_raw_append (bs : List RawByte) (s : Str) :
    Str.resolve (bs.map Item.raw ++ s) = bs.map RawByte.byte ++ Str.resolve s := by
  induction bs with
  | nil => rfl
  | cons b bs ih => exact congrArg (b.byte :: ·) ih

theorem paired_raw_append (bs : List RawByte) (s : Str) :
    Str.paired (bs.map Item.raw ++ s) = s.paired := by
  induction bs with
  | nil => rfl
  | cons b bs ih => exact ih

theorem Escape.byte_lt (e : Escape) : 0 < e.byte.toNat ∧ e.byte.toNat < 0x80 := by
  cases e <;> decide

theorem Escape.encodeChar (e : Escape) :
    String.utf8EncodeChar (Char.ofNat e.byte.toNat) = [e.byte] := by
  rw [Utf8.encodeChar_of_lt e.byte_lt.2]
  simp

theorem not_low_of_high {u : ℕ} (h : isHigh u = true) : isLow u = false := by
  simp only [isHigh, isLow, Bool.and_eq_true, decide_eq_true_eq, Bool.and_eq_false_iff,
    decide_eq_false_iff_not] at h ⊢
  omega

theorem resolve_unit {u : CodeUnit} (hh : isHigh u.value = false) (s : Str) :
    Str.resolve (.uni u :: s) = u.bytes ++ Str.resolve s := by
  cases s with
  | nil => simp [Str.resolve]
  | cons i s =>
    cases i <;> simp [Str.resolve, hh]

theorem Denotes.resolve {s : Str} {cs : List Char} (h : Denotes s cs) :
    s.resolve = Utf8.encode cs := by
  induction h with
  | nil => rfl
  | raw hb _ ih => rw [resolve_raw_append, hb, ih, Utf8.encode_cons]
  | esc e _ ih => simp [Str.resolve, ih, e.encodeChar]
  | unit hh hl _ ih => simp [resolve_unit hh, CodeUnit.bytes, hh, hl, ih]
  | pair hh hl _ ih => simp [Str.resolve, hh, hl, ih]

theorem Denotes.unquote {s : Str} {cs : List Char} (h : Denotes s cs) :
    s.unquote = Utf8.encode cs := by
  rw [Str.unquote, h.resolve, Utf8.coerce_of_valid ((Utf8.valid_iff _).mpr ⟨cs, rfl⟩)]

private theorem body_raw (bs : List RawByte) (s : Str) :
    Str.body (bs.map Item.raw ++ s) = bs.map RawByte.byte ++ Str.body s := by
  induction bs with
  | nil => rfl
  | cons b bs ih => simp [Item.print, ih]

private theorem hexByte_lt (h : HexDigit) : h.byte.toNat < 0x80 := by
  have hk := h.ok
  unfold hexValue at hk
  split_ifs at hk <;> first | omega | simp at hk

theorem Item.print_ascii {i : Item} (hi : ∀ b, i ≠ .raw b) : ∀ x ∈ i.print, x.toNat < 0x80 := by
  cases i with
  | raw b => exact absurd rfl (hi b)
  | esc e => cases e <;> decide +kernel
  | uni u =>
    intro x hx
    simp only [Item.print, List.mem_cons, List.not_mem_nil, or_false] at hx
    rcases hx with rfl | rfl | rfl | rfl | rfl | rfl
    · decide
    · decide
    all_goals exact hexByte_lt _

theorem valid_body_cons {i : Item} (hi : ∀ b, i ≠ .raw b) (s : Str) :
    Utf8.valid (Str.body (i :: s)) = Utf8.valid s.body := by
  have key : ∀ l : Bytes, (∀ x ∈ l, x.toNat < 0x80) →
      Utf8.valid (l ++ s.body) = Utf8.valid s.body := by
    intro l hl
    induction l with
    | nil => rfl
    | cons x l ih =>
      rw [List.cons_append, Utf8.valid_ascii_cons _ _ (hl x (by simp)),
        ih fun y hy => hl y (by simp [hy])]
  exact key _ (Item.print_ascii hi)

theorem Denotes.valid_body {s : Str} {cs : List Char} (h : Denotes s cs) :
    Utf8.valid s.body = true := by
  induction h with
  | nil => rfl
  | @raw bs c s cs hb _ ih =>
    have hc : Utf8.valid (String.utf8EncodeChar c) = true := (Utf8.valid_iff _).mpr ⟨[c], by simp⟩
    rw [body_raw, hb, Utf8.valid_append hc, ih]
  | esc e _ ih => rw [valid_body_cons (by simp), ih]
  | unit _ _ _ ih => rw [valid_body_cons (by simp), ih]
  | pair _ _ _ ih => rw [valid_body_cons (by simp), valid_body_cons (by simp), ih]

/-- Bytes above ASCII in a literal's spelling are raw. -/
private theorem raw_of_body_prefix {s : Str} (l : Bytes) {r : Bytes} (hs : s.body = l ++ r)
    (hl : ∀ x ∈ l, 0x80 ≤ x.toNat) :
    ∃ (bs : List RawByte) (s' : Str),
      s = bs.map Item.raw ++ s' ∧ bs.map RawByte.byte = l ∧ s'.body = r := by
  induction l generalizing s with
  | nil => exact ⟨[], s, rfl, rfl, hs⟩
  | cons x l ih =>
    cases s with
    | nil => simp at hs
    | cons i s =>
      have hx := hl x (by simp)
      cases i with
      | raw b =>
        simp only [Str.body_cons, Item.print, List.cons_append, List.cons.injEq] at hs
        obtain ⟨bs, s', rfl, hbs, hr⟩ := ih hs.2 fun y hy => hl y (by simp [hy])
        exact ⟨b :: bs, s', rfl, by simp [hs.1, hbs], hr⟩
      | esc e =>
        simp only [Str.body_cons, Item.print, List.cons_append, List.cons.injEq] at hs
        rw [← hs.1] at hx
        simp at hx
      | uni u =>
        simp only [Str.body_cons, Item.print, List.cons_append, List.cons.injEq] at hs
        rw [← hs.1] at hx
        simp at hx

private theorem encodeChar_high {c : Char} {b : UInt8} {l : Bytes}
    (h : String.utf8EncodeChar c = b :: l) : ∀ x ∈ l, 0x80 ≤ x.toNat := by
  intro x hx
  by_contra hlt
  have hs := Utf8.encodeChar_of_mem_ascii (x := x) (by omega) (by rw [h]; simp [hx])
  rw [h] at hs
  simp only [List.cons.injEq] at hs
  simp [hs.2] at hx

private theorem ofNat_ne_zero {n : ℕ} (h0 : n ≠ 0) (hn : n.isValidChar) :
    Char.ofNat n ≠ Char.ofNat 0 := by
  intro h
  have hv := congrArg (fun c => c.val.toNat) h
  rw [Utf8.val_ofNat hn, Utf8.val_ofNat (Or.inl (by omega))] at hv
  exact h0 hv

private theorem CodeUnit.value_lt (u : CodeUnit) : u.value < 0x10000 := by
  have hx : ∀ h : HexDigit, h.value < 16 := by
    intro h
    obtain ⟨b, hb⟩ := h
    simp only [HexDigit.value, hexValue] at hb ⊢
    split_ifs at hb ⊢ <;> simp at hb ⊢ <;> omega
  have ha := hx u.a
  have hb := hx u.b
  have hc := hx u.c
  have hd := hx u.d
  unfold CodeUnit.value
  omega

/-- The byte-level check is what makes a literal denote text without NUL. -/
theorem denotes_of_paired (s : Str) (hp : s.paired = true) (hv : Utf8.valid s.body = true) :
    ∃ cs, Denotes s cs ∧ Char.ofNat 0 ∉ cs := by
  induction hn : s.length using Nat.strong_induction_on generalizing s with
  | _ n ih =>
    subst hn
    cases s with
    | nil => exact ⟨[], .nil, by simp⟩
    | cons i s =>
      cases i with
      | esc e =>
        rw [valid_body_cons (by simp)] at hv
        obtain ⟨cs, hcs, h0⟩ := ih s.length (by simp) s hp hv rfl
        refine ⟨_, .esc e hcs, ?_⟩
        have hb := e.byte_lt
        simp only [List.mem_cons, not_or]
        exact ⟨(ofNat_ne_zero (by omega) (Or.inl (by omega))).symm, h0⟩
      | uni u =>
        rw [valid_body_cons (by simp)] at hv
        have hlt := u.value_lt
        rw [Str.paired.eq_def] at hp
        dsimp only at hp
        split_ifs at hp with hz hl hh
        · cases s with
          | nil => cases hp
          | cons j s =>
            cases j with
            | raw b => cases hp
            | esc e => cases hp
            | uni w =>
              simp only [Bool.and_eq_true] at hp
              rw [valid_body_cons (by simp)] at hv
              obtain ⟨cs, hcs, h0⟩ := ih s.length (by simp only [List.length_cons]; omega)
                s hp.2 hv rfl
              refine ⟨_, .pair hh hp.1 hcs, ?_⟩
              have hl' := hp.1
              simp only [isHigh, isLow, Bool.and_eq_true, decide_eq_true_eq] at hh hl'
              simp only [List.mem_cons, not_or]
              refine ⟨(ofNat_ne_zero ?_ ?_).symm, h0⟩
              · unfold pairValue
                omega
              · unfold pairValue
                exact Or.inr ⟨by omega, by omega⟩
        · obtain ⟨cs, hcs, h0⟩ := ih s.length (by simp) s hp hv rfl
          have hh' : isHigh u.value = false := by simpa using hh
          have hl' : isLow u.value = false := by simpa using hl
          refine ⟨_, .unit hh' hl' hcs, ?_⟩
          simp only [isHigh, isLow, Bool.and_eq_false_iff, decide_eq_false_iff_not] at hh' hl'
          simp only [List.mem_cons, not_or]
          refine ⟨(ofNat_ne_zero hz ?_).symm, h0⟩
          unfold Nat.isValidChar
          omega
      | raw b =>
        obtain ⟨cs, hcs⟩ := (Utf8.valid_iff _).mp hv
        cases cs with
        | nil => simp [Item.print] at hcs
        | cons c cs =>
          cases he : String.utf8EncodeChar c with
          | nil => exact absurd he (Utf8.encodeChar_ne_nil c)
          | cons x l =>
            simp only [Str.body_cons, Item.print, Utf8.encode_cons, he, List.cons_append,
              List.cons.injEq] at hcs
            obtain ⟨bs, s', rfl, hbs, hr⟩ := raw_of_body_prefix l hcs.2 (encodeChar_high he)
            have hp' : Str.paired s' = true := (paired_raw_append bs s').symm.trans hp
            have hv' : Utf8.valid (Str.body s') = true := (Utf8.valid_iff _).mpr ⟨cs, hr⟩
            obtain ⟨ds, hds, h0⟩ := ih s'.length
              (by simp only [List.length_cons, List.length_append]; omega) s' hp' hv' rfl
            have hraw : (b :: bs).map RawByte.byte = String.utf8EncodeChar c := by
              simp [hbs, he, hcs.1]
            refine ⟨c :: ds, by simpa using Denotes.raw hraw hds, ?_⟩
            simp only [List.mem_cons, not_or]
            refine ⟨?_, h0⟩
            rintro rfl
            rw [Utf8.encodeChar_of_lt (by omega)] at he
            have hx : x = 0 := by simpa using (List.cons.inj he).1.symm
            have hb := b.ok.1
            rw [hcs.1, hx] at hb
            simp at hb

end IngestKit.Json
