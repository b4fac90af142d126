import IngestKit.Json.Text

/-! The string encoder without HTML escaping. Valid text survives encoding and
decoding, and each byte grows to at most six. -/
namespace IngestKit.Json

def HexDigit.ofFin (n : Fin 16) : HexDigit :=
  ⟨UInt8.ofNat (if n.val < 10 then 0x30 + n.val else 0x57 + n.val), by revert n; decide⟩

instance HexDigit.neZero : NeZero 16 := ⟨by decide⟩

def CodeUnit.ofNat (v : ℕ) : CodeUnit :=
  ⟨.ofFin (Fin.ofNat 16 (v / 4096)), .ofFin (Fin.ofNat 16 (v / 256)),
    .ofFin (Fin.ofNat 16 (v / 16)), .ofFin (Fin.ofNat 16 v)⟩

private theorem HexDigit.value_ofFin (n : Fin 16) : (HexDigit.ofFin n).value = n.val := by
  revert n
  decide

theorem CodeUnit.value_ofNat {v : ℕ} (h : v < 0x10000) : (CodeUnit.ofNat v).value = v := by
  simp only [CodeUnit.value, CodeUnit.ofNat, HexDigit.value_ofFin, Fin.ofNat]
  omega

/-- Text bytes of a character that needs no escape can stand in a literal. -/
theorem rawByte_of_mem {c : Char} (h : 0x20 ≤ c.val.toNat ∧ c.val.toNat ≠ 0x22 ∧
    c.val.toNat ≠ 0x5c) {b : UInt8} (hb : b ∈ String.utf8EncodeChar c) :
    0x20 ≤ b.toNat ∧ b ≠ 0x22 ∧ b ≠ 0x5c := by
  by_cases hx : b.toNat < 0x80
  · have he := Utf8.encodeChar_of_mem_ascii hx hb
    have hd := Utf8.decodeRune_encodeChar c []
    rw [he] at hd
    have hv : c.val.toNat = b.toNat := by
      have hc : String.utf8EncodeChar (Char.ofNat b.toNat) = [b] := by
        rw [Utf8.encodeChar_of_lt hx]
        simp
      have hd' := Utf8.decodeRune_encodeChar (Char.ofNat b.toNat) []
      rw [hc] at hd'
      have hcc := (Prod.mk.inj (Option.some.inj (hd.symm.trans hd'))).1
      rw [hcc, Utf8.val_ofNat (Or.inl (by omega))]
    rw [hv] at h
    refine ⟨h.1, ?_, ?_⟩
    · rintro rfl
      exact h.2.1 rfl
    · rintro rfl
      exact h.2.2 rfl
  · refine ⟨by omega, ?_, ?_⟩ <;> rintro rfl <;> exact hx (by decide)

def rawBytes (c : Char) (h : 0x20 ≤ c.val.toNat ∧ c.val.toNat ≠ 0x22 ∧ c.val.toNat ≠ 0x5c) :
    List RawByte :=
  (String.utf8EncodeChar c).attach.map fun b => ⟨b.1, rawByte_of_mem h b.2⟩

/-- The short escape of a control character, where there is one. -/
def shortEscape? (v : ℕ) : Option Escape :=
  if v = 0x22 then some .quote
  else if v = 0x5c then some .backslash
  else if v = 0x08 then some .backspace
  else if v = 0x0c then some .formFeed
  else if v = 0x0a then some .newline
  else if v = 0x0d then some .carriageReturn
  else if v = 0x09 then some .tab
  else none

/-- Controls and the two separators U+2028, U+2029 are escaped numerically. -/
def quoteChar (c : Char) : Str :=
  match shortEscape? c.val.toNat with
  | some e => [.esc e]
  | none =>
    if h : 0x20 ≤ c.val.toNat ∧ c.val.toNat ≠ 0x22 ∧ c.val.toNat ≠ 0x5c then
      if c.val.toNat = 0x2028 ∨ c.val.toNat = 0x2029 then [.uni (.ofNat c.val.toNat)]
      else (rawBytes c h).map .raw
    else [.uni (.ofNat c.val.toNat)]

/-- The content of the literal for arbitrary bytes; malformed ones become U+FFFD. -/
def quote (b : Bytes) : Str :=
  (Utf8.runes b).flatMap fun
    | some c => quoteChar c
    | none => [.uni (.ofNat 0xfffd)]

theorem map_byte_rawBytes (c : Char) (h) :
    (rawBytes c h).map RawByte.byte = String.utf8EncodeChar c := by
  simp [rawBytes, List.map_map, Function.comp_def]

private theorem shortEscape?_eq_some {v : ℕ} {e : Escape} (h : shortEscape? v = some e) :
    e.byte.toNat = v := by
  unfold shortEscape? at h
  split_ifs at h <;> cases h <;> subst v <;> rfl

private theorem ofNat_toNat (c : Char) : Char.ofNat c.val.toNat = c := Char.ofNat_toNat c

/-- What `quoteChar` can produce. -/
theorem quoteChar_cases (c : Char) :
    (∃ e : Escape, quoteChar c = [.esc e] ∧ Char.ofNat e.byte.toNat = c) ∨
    (∃ bs : List RawByte, quoteChar c = bs.map .raw ∧
      bs.map RawByte.byte = String.utf8EncodeChar c) ∨
    (quoteChar c = [.uni (.ofNat c.val.toNat)] ∧
      (c.val.toNat < 0x20 ∨ c.val.toNat = 0x2028 ∨ c.val.toNat = 0x2029)) := by
  unfold quoteChar
  split
  next e he =>
    exact Or.inl ⟨e, rfl, by rw [shortEscape?_eq_some he, ofNat_toNat]⟩
  next hn =>
    split_ifs with h hs
    · exact Or.inr (Or.inr ⟨rfl, Or.inr hs⟩)
    · exact Or.inr (Or.inl ⟨_, rfl, map_byte_rawBytes c h⟩)
    · refine Or.inr (Or.inr ⟨rfl, Or.inl ?_⟩)
      have h22 : c.val.toNat ≠ 0x22 := by
        intro hv
        simp [shortEscape?, hv] at hn
      have h5c : c.val.toNat ≠ 0x5c := by
        intro hv
        simp [shortEscape?, hv] at hn
      by_contra hlt
      exact h ⟨by omega, h22, h5c⟩

theorem denotes_quoteChar (c : Char) {s : Str} {cs : List Char} (hs : Denotes s cs) :
    Denotes (quoteChar c ++ s) (c :: cs) := by
  rcases quoteChar_cases c with ⟨e, hq, he⟩ | ⟨bs, hq, hb⟩ | ⟨hq, hv⟩
  · rw [hq, ← he]
    exact .esc e hs
  · rw [hq]
    exact .raw hb hs
  · have hu := CodeUnit.value_ofNat (v := c.val.toNat) (by omega)
    have h := Denotes.unit (u := .ofNat c.val.toNat)
      (by rw [hu]; simp only [isHigh, Bool.and_eq_false_iff, decide_eq_false_iff_not]; omega)
      (by rw [hu]; simp only [isLow, Bool.and_eq_false_iff, decide_eq_false_iff_not]; omega) hs
    rw [hu, ofNat_toNat] at h
    rw [hq]
    exact h

theorem quote_encode_cons (c : Char) (cs : List Char) :
    quote (Utf8.encode (c :: cs)) = quoteChar c ++ quote (Utf8.encode cs) := by
  simp [quote]

theorem denotes_quote (cs : List Char) : Denotes (quote (Utf8.encode cs)) cs := by
  induction cs with
  | nil => exact .nil
  | cons c cs ih =>
    rw [quote_encode_cons]
    exact denotes_quoteChar c ih

/-- Encoding and then decoding valid text gives it back. -/
theorem unquote_quote {b : Bytes} (h : Utf8.valid b = true) : (quote b).unquote = b := by
  obtain ⟨cs, rfl⟩ := (Utf8.valid_iff b).mp h
  exact (denotes_quote cs).unquote

theorem valid_body_quote {b : Bytes} (h : Utf8.valid b = true) :
    Utf8.valid (quote b).body = true := by
  obtain ⟨cs, rfl⟩ := (Utf8.valid_iff b).mp h
  exact (denotes_quote cs).valid_body

/-- Encoded text without NUL has only nonzero escapes and no surrogates. -/
theorem paired_quote {cs : List Char} (h : Char.ofNat 0 ∉ cs) :
    (quote (Utf8.encode cs)).paired = true := by
  induction cs with
  | nil => rfl
  | cons c cs ih =>
    simp only [List.mem_cons, not_or] at h
    have hs := ih h.2
    rw [quote_encode_cons]
    rcases quoteChar_cases c with ⟨e, hq, -⟩ | ⟨bs, hq, -⟩ | ⟨hq, hv⟩
    · rw [hq]
      exact hs
    · rw [hq, paired_raw_append, hs]
    · have hu := CodeUnit.value_ofNat (v := c.val.toNat) (by omega)
      have hz : c.val.toNat ≠ 0 := by
        intro hz
        apply h.1
        rw [← hz, ofNat_toNat]
      rw [hq, List.singleton_append, Str.paired.eq_def]
      dsimp only
      rw [hu, if_neg hz, if_neg, if_neg, hs]
      · simp only [isHigh, Bool.and_eq_true, decide_eq_true_eq]
        omega
      · simp only [isLow, Bool.and_eq_true, decide_eq_true_eq]
        omega

theorem flatMap_runes_encode (f : Option Char → Str) (cs : List Char) :
    (Utf8.runes (Utf8.encode cs)).flatMap f = cs.flatMap fun c => f (some c) := by
  have hrunes := Utf8.runes_encode_append cs []
  rw [List.append_nil, Utf8.runes_nil, List.append_nil] at hrunes
  rw [hrunes, List.flatMap_map]

/-- If no character takes more than six times its bytes, then no text does. -/
theorem length_flatMap_le {f : Char → Str}
    (h : ∀ c, (Str.body (f c)).length ≤ 6 * (String.utf8EncodeChar c).length) (cs : List Char) :
    (Str.body (cs.flatMap f)).length ≤ 6 * (Utf8.encode cs).length := by
  induction cs with
  | nil => exact Nat.le_refl 0
  | cons c cs ih =>
    have hc := h c
    rw [List.flatMap_cons, Str.body_append, Utf8.encode_cons, List.length_append,
      List.length_append]
    omega

theorem length_raw_le {c : Char} {bs : List RawByte}
    (h : bs.map RawByte.byte = String.utf8EncodeChar c) :
    (Str.body (bs.map Item.raw)).length ≤ 6 * (String.utf8EncodeChar c).length := by
  have hbody : (Str.body (bs.map Item.raw)).length = bs.length := by
    simp [Str.body, List.length_flatMap, List.map_map, Function.comp_def, Item.print]
  rw [hbody, ← h, List.length_map]
  omega

theorem length_unit_le (c : Char) (u : CodeUnit) :
    (Str.body [.uni u]).length ≤ 6 * (String.utf8EncodeChar c).length := by
  have hpos := List.length_pos_of_ne_nil (Utf8.encodeChar_ne_nil c)
  have h6 : (Str.body [.uni u]).length = 6 := rfl
  omega

theorem length_quoteChar_le (c : Char) :
    (Str.body (quoteChar c)).length ≤ 6 * (String.utf8EncodeChar c).length := by
  rcases quoteChar_cases c with ⟨e, hq, -⟩ | ⟨bs, hq, hb⟩ | ⟨hq, -⟩
  · have hpos := List.length_pos_of_ne_nil (Utf8.encodeChar_ne_nil c)
    have h2 : (Str.body [.esc e]).length = 2 := rfl
    rw [hq, h2]
    omega
  · rw [hq]
    exact length_raw_le hb
  · rw [hq]
    exact length_unit_le c _

theorem length_quote {b : Bytes} (h : Utf8.valid b = true) :
    (quote b).body.length ≤ 6 * b.length := by
  obtain ⟨cs, rfl⟩ := (Utf8.valid_iff b).mp h
  rw [quote, flatMap_runes_encode]
  exact length_flatMap_le length_quoteChar_le cs

end IngestKit.Json
