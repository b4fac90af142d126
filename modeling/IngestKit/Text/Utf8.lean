import Mathlib.Data.List.Basic
import Mathlib.Tactic.Linarith
import Mathlib.Tactic.Ring

/-! UTF-8 over byte lists: one-sequence decoding, validity, and replacement of
malformed bytes. Text is a list of Unicode scalar values, so surrogates and
out-of-range code points are unrepresentable. -/
namespace IngestKit

abbrev Bytes := List UInt8

/-- Bytes of an ASCII string, written character by character. -/
def ascii (cs : List Char) : Bytes := cs.map fun c => UInt8.ofNat c.toNat

def joinCommas : List Bytes → Bytes
  | [] => []
  | [b] => b
  | b :: bs => b ++ 0x2c :: joinCommas bs

namespace Utf8

def encode (cs : List Char) : Bytes := cs.flatMap String.utf8EncodeChar

@[simp] theorem encode_nil : encode [] = [] := rfl

@[simp] theorem encode_cons (c : Char) (cs : List Char) :
    encode (c :: cs) = String.utf8EncodeChar c ++ encode cs := rfl

@[simp] theorem encode_append (cs ds : List Char) : encode (cs ++ ds) = encode cs ++ encode ds := by
  simp [encode]

def isTail (b : UInt8) : Bool := 0x80 ≤ b.toNat && b.toNat ≤ 0xbf

/-- The scalar value with the given code, when there is one. -/
def scalar? (lo v : ℕ) : Option Char :=
  if h : lo ≤ v ∧ v.isValidChar then some (Char.ofNatAux v h.2) else none

/-- The first well-formed sequence and what follows it; `none` when the first
byte starts no well-formed sequence. Overlong forms and surrogates are malformed. -/
def decodeRune : Bytes → Option (Char × Bytes)
  | [] => none
  | a :: s =>
    if a.toNat ≤ 0x7f then (scalar? 0 a.toNat).map (·, s)
    else if 0xc0 ≤ a.toNat ∧ a.toNat ≤ 0xdf then
      match s with
      | b :: s =>
        if isTail b then
          (scalar? 0x80 ((a.toNat - 0xc0) * 64 + (b.toNat - 0x80))).map (·, s)
        else none
      | _ => none
    else if 0xe0 ≤ a.toNat ∧ a.toNat ≤ 0xef then
      match s with
      | b :: c :: s =>
        if isTail b && isTail c then
          (scalar? 0x800
            ((a.toNat - 0xe0) * 4096 + (b.toNat - 0x80) * 64 + (c.toNat - 0x80))).map (·, s)
        else none
      | _ => none
    else if 0xf0 ≤ a.toNat ∧ a.toNat ≤ 0xf7 then
      match s with
      | b :: c :: d :: s =>
        if isTail b && isTail c && isTail d then
          (scalar? 0x10000 ((a.toNat - 0xf0) * 262144 + (b.toNat - 0x80) * 4096 +
            (c.toNat - 0x80) * 64 + (d.toNat - 0x80))).map (·, s)
        else none
      | _ => none
    else none

private theorem scalar?_eq_some {lo v : ℕ} {c : Char} (h : scalar? lo v = some c) :
    lo ≤ v ∧ c.val.toNat = v := by
  unfold scalar? at h
  by_cases hv : lo ≤ v ∧ v.isValidChar
  · rw [dif_pos hv] at h
    cases h
    exact ⟨hv.1, rfl⟩
  · rw [dif_neg hv] at h
    cases h

private theorem scalar?_val (lo : ℕ) (c : Char) (h : lo ≤ c.val.toNat) :
    scalar? lo c.val.toNat = some c := by
  rw [scalar?, dif_pos ⟨h, c.valid⟩]
  rfl

private theorem toNat_ofNat_of_lt {n : ℕ} (h : n < 256) : (UInt8.ofNat n).toNat = n := by
  simp [Nat.mod_eq_of_lt h]

private theorem ofNat_eq_of_toNat {a : UInt8} {n : ℕ} (h : a.toNat = n) : UInt8.ofNat n = a := by
  subst h
  simp

theorem val_ofNat {n : ℕ} (h : n.isValidChar) : (Char.ofNat n).val.toNat = n := by
  rw [Char.ofNat, dif_pos h]
  rfl

theorem encodeChar_of_lt {n : ℕ} (h : n < 0x80) :
    String.utf8EncodeChar (Char.ofNat n) = [UInt8.ofNat n] := by
  have hv : (Char.ofNat n).val.toNat = n := val_ofNat (Or.inl (by omega))
  simp only [String.utf8EncodeChar, hv]
  rw [if_pos (by omega)]

theorem val_lt (c : Char) : c.val.toNat < 0x110000 := by
  rcases c.valid with h | h
  · exact lt_trans h (by norm_num)
  · exact h.2

/-- Decoding undoes encoding, whatever follows. -/
theorem decodeRune_encodeChar (c : Char) (s : Bytes) :
    decodeRune (String.utf8EncodeChar c ++ s) = some (c, s) := by
  have hmax := val_lt c
  have hs := fun lo (h : lo ≤ c.val.toNat) => scalar?_val lo c h
  simp only [String.utf8EncodeChar]
  split_ifs with h1 h2 h3
  · have ha : (UInt8.ofNat c.val.toNat).toNat = c.val.toNat := toNat_ofNat_of_lt (by omega)
    simp only [List.cons_append, List.nil_append, decodeRune, ha, h1, if_true, hs 0 (by omega),
      Option.map_some]
  · have ha := toNat_ofNat_of_lt (n := c.val.toNat / 64 % 32 + 192) (by omega)
    have hb := toNat_ofNat_of_lt (n := c.val.toNat % 64 + 128) (by omega)
    have hv : (c.val.toNat / 64 % 32 + 192 - 192) * 64 + (c.val.toNat % 64 + 128 - 128) =
        c.val.toNat := by omega
    simp only [List.cons_append, List.nil_append, decodeRune, isTail, ha, hb, hv]
    rw [if_neg (by omega), if_pos (by omega), if_pos (by simp; omega), hs _ (by omega)]
    rfl
  · have ha := toNat_ofNat_of_lt (n := c.val.toNat / 4096 % 16 + 224) (by omega)
    have hb := toNat_ofNat_of_lt (n := c.val.toNat / 64 % 64 + 128) (by omega)
    have hc := toNat_ofNat_of_lt (n := c.val.toNat % 64 + 128) (by omega)
    have hv : (c.val.toNat / 4096 % 16 + 224 - 224) * 4096 +
        (c.val.toNat / 64 % 64 + 128 - 128) * 64 + (c.val.toNat % 64 + 128 - 128) =
        c.val.toNat := by omega
    simp only [List.cons_append, List.nil_append, decodeRune, isTail, ha, hb, hc, hv]
    rw [if_neg (by omega), if_neg (by omega), if_pos (by omega), if_pos (by simp; omega),
      hs _ (by omega)]
    rfl
  · have ha := toNat_ofNat_of_lt (n := c.val.toNat / 262144 % 8 + 240) (by omega)
    have hb := toNat_ofNat_of_lt (n := c.val.toNat / 4096 % 64 + 128) (by omega)
    have hc := toNat_ofNat_of_lt (n := c.val.toNat / 64 % 64 + 128) (by omega)
    have hd := toNat_ofNat_of_lt (n := c.val.toNat % 64 + 128) (by omega)
    have hv : (c.val.toNat / 262144 % 8 + 240 - 240) * 262144 +
        (c.val.toNat / 4096 % 64 + 128 - 128) * 4096 +
        (c.val.toNat / 64 % 64 + 128 - 128) * 64 + (c.val.toNat % 64 + 128 - 128) =
        c.val.toNat := by omega
    simp only [List.cons_append, List.nil_append, decodeRune, isTail, ha, hb, hc, hd, hv]
    rw [if_neg (by omega), if_neg (by omega), if_neg (by omega), if_pos (by omega),
      if_pos (by simp; omega), hs _ (by omega)]
    rfl

/-- Every sequence that decodes is the encoding of its scalar value. -/
theorem eq_encodeChar_of_decodeRune {b s : Bytes} {c : Char} (h : decodeRune b = some (c, s)) :
    b = String.utf8EncodeChar c ++ s := by
  unfold decodeRune at h
  split at h
  · cases h
  next a s' =>
    split_ifs at h with h1 h2 h3 h4
    · obtain ⟨d, hd, he⟩ := Option.map_eq_some_iff.mp h
      obtain ⟨rfl, rfl⟩ := Prod.mk.inj he
      obtain ⟨-, hv⟩ := scalar?_eq_some hd
      simp only [String.utf8EncodeChar, hv, h1, if_true]
      rw [ofNat_eq_of_toNat rfl]
      rfl
    · split at h
      next b' s' =>
        split_ifs at h with ht
        obtain ⟨d, hd, he⟩ := Option.map_eq_some_iff.mp h
        obtain ⟨rfl, rfl⟩ := Prod.mk.inj he
        obtain ⟨hlo, hv⟩ := scalar?_eq_some hd
        simp only [isTail, Bool.and_eq_true, decide_eq_true_eq] at ht
        simp only [String.utf8EncodeChar, hv]
        rw [if_neg (by omega), if_pos (by omega), ofNat_eq_of_toNat (a := a) (by omega),
          ofNat_eq_of_toNat (a := b') (by omega)]
        rfl
      · cases h
    · split at h
      next b' c' s' =>
        split_ifs at h with ht
        obtain ⟨d, hd, he⟩ := Option.map_eq_some_iff.mp h
        obtain ⟨rfl, rfl⟩ := Prod.mk.inj he
        obtain ⟨hlo, hv⟩ := scalar?_eq_some hd
        simp only [isTail, Bool.and_eq_true, decide_eq_true_eq] at ht
        simp only [String.utf8EncodeChar, hv]
        rw [if_neg (by omega), if_neg (by omega), if_pos (by omega),
          ofNat_eq_of_toNat (a := a) (by omega), ofNat_eq_of_toNat (a := b') (by omega),
          ofNat_eq_of_toNat (a := c') (by omega)]
        rfl
      · cases h
    · split at h
      next b' c' d' s' =>
        split_ifs at h with ht
        obtain ⟨d, hd, he⟩ := Option.map_eq_some_iff.mp h
        obtain ⟨rfl, rfl⟩ := Prod.mk.inj he
        obtain ⟨hlo, hv⟩ := scalar?_eq_some hd
        have hmax := val_lt d
        simp only [isTail, Bool.and_eq_true, decide_eq_true_eq] at ht
        simp only [String.utf8EncodeChar, hv]
        rw [if_neg (by omega), if_neg (by omega), if_neg (by omega),
          ofNat_eq_of_toNat (a := a) (by omega), ofNat_eq_of_toNat (a := b') (by omega),
          ofNat_eq_of_toNat (a := c') (by omega), ofNat_eq_of_toNat (a := d') (by omega)]
        rfl
      · cases h

/-- Scalar values in order, with `none` for each byte that starts no sequence. -/
def runesAux : ℕ → Bytes → List (Option Char)
  | 0, _ => []
  | _ + 1, [] => []
  | n + 1, a :: s =>
    match decodeRune (a :: s) with
    | some (c, s) => some c :: runesAux n s
    | none => none :: runesAux n s

def runes (b : Bytes) : List (Option Char) := runesAux b.length b

/-- Whether the bytes are well-formed UTF-8. -/
def valid (b : Bytes) : Bool := (runes b).all Option.isSome

/-- U+FFFD as UTF-8. -/
def replacement : Bytes := [0xef, 0xbf, 0xbd]

/-- Each malformed byte replaced by U+FFFD. -/
def coerce (b : Bytes) : Bytes :=
  (runes b).flatMap fun
    | some c => String.utf8EncodeChar c
    | none => replacement

theorem encodeChar_ne_nil (c : Char) : String.utf8EncodeChar c ≠ [] := by
  simp only [String.utf8EncodeChar]
  split_ifs <;> simp

private theorem length_lt_of_decodeRune {b s : Bytes} {c : Char}
    (h : decodeRune b = some (c, s)) : s.length < b.length := by
  rw [eq_encodeChar_of_decodeRune h, List.length_append]
  have := List.length_pos_of_ne_nil (encodeChar_ne_nil c)
  omega

private theorem runesAux_eq (n m : ℕ) (b : Bytes) (hn : b.length ≤ n) (hm : b.length ≤ m) :
    runesAux n b = runesAux m b := by
  induction n generalizing m b with
  | zero =>
    have hb : b = [] := List.eq_nil_of_length_eq_zero (by omega)
    subst hb
    cases m <;> rfl
  | succ n ih =>
    cases b with
    | nil => cases m <;> rfl
    | cons a s =>
      cases m with
      | zero => simp at hm
      | succ m =>
        simp only [runesAux]
        cases hd : decodeRune (a :: s) with
        | none =>
          simp only [List.length_cons] at hn hm
          simp only [ih m s (by omega) (by omega)]
        | some r =>
          have hl := length_lt_of_decodeRune (c := r.1) (s := r.2) hd
          simp only [ih m r.2 (by omega) (by omega)]

@[simp] theorem runes_nil : runes [] = [] := rfl

@[simp] theorem runes_encodeChar_append (c : Char) (s : Bytes) :
    runes (String.utf8EncodeChar c ++ s) = some c :: runes s := by
  have hne := encodeChar_ne_nil c
  have hd := decodeRune_encodeChar c s
  unfold runes
  cases hb : String.utf8EncodeChar c ++ s with
  | nil => simp [hne] at hb
  | cons a t =>
    rw [hb] at hd
    have hl := length_lt_of_decodeRune hd
    simp only [List.length_cons] at hl ⊢
    simp only [runesAux, hd]
    rw [runesAux_eq _ s.length s (by omega) le_rfl]

@[simp] theorem runes_encode_append (cs : List Char) (s : Bytes) :
    runes (encode cs ++ s) = cs.map some ++ runes s := by
  induction cs with
  | nil => simp
  | cons c cs ih => simp [List.append_assoc, ih]

theorem exists_of_runes_isSome (n : ℕ) (b : Bytes) (hn : b.length ≤ n)
    (h : (runesAux n b).all Option.isSome) : ∃ cs, b = encode cs := by
  induction n generalizing b with
  | zero => exact ⟨[], List.eq_nil_of_length_eq_zero (by omega)⟩
  | succ n ih =>
    cases b with
    | nil => exact ⟨[], rfl⟩
    | cons a s =>
      simp only [runesAux] at h
      cases hd : decodeRune (a :: s) with
      | none => simp [hd] at h
      | some r =>
        have hl := length_lt_of_decodeRune (c := r.1) (s := r.2) hd
        simp only [hd, List.all_cons, Option.isSome_some, Bool.true_and] at h
        obtain ⟨cs, hcs⟩ := ih r.2 (by omega) h
        exact ⟨r.1 :: cs, by rw [eq_encodeChar_of_decodeRune hd, encode_cons, ← hcs]⟩

/-- Well-formed bytes are exactly the encodings of scalar-value sequences. -/
theorem valid_iff (b : Bytes) : valid b = true ↔ ∃ cs, b = encode cs := by
  constructor
  · exact exists_of_runes_isSome b.length b le_rfl
  · rintro ⟨cs, rfl⟩
    have h := runes_encode_append cs []
    simp only [List.append_nil, runes_nil] at h
    simp [valid, h]

@[simp] theorem valid_nil : valid [] = true := rfl

theorem coerce_of_valid {b : Bytes} (h : valid b = true) : coerce b = b := by
  obtain ⟨cs, rfl⟩ := (valid_iff b).mp h
  have hr := runes_encode_append cs []
  simp only [List.append_nil, runes_nil] at hr
  rw [coerce, hr, List.flatMap_map]
  rfl

/-- The text a decoder that replaces malformed bytes reads. -/
theorem coerce_eq_encode (b : Bytes) :
    coerce b = encode ((runes b).map fun c => c.getD (Char.ofNat 0xfffd)) := by
  rw [coerce, encode, List.flatMap_map]
  congr 1
  funext c
  cases c with
  | none => rfl
  | some c => rfl

theorem coerce_eq_self_iff (b : Bytes) : coerce b = b ↔ valid b = true := by
  constructor
  · intro h
    rw [valid_iff]
    exact ⟨_, h.symm.trans (coerce_eq_encode b)⟩
  · exact coerce_of_valid

theorem valid_append {a b : Bytes} (ha : valid a = true) : valid (a ++ b) = valid b := by
  obtain ⟨cs, rfl⟩ := (valid_iff a).mp ha
  simp [valid, List.all_append]

/-- A byte below 0x80 inside an encoding stands alone. -/
theorem encodeChar_of_mem_ascii {c : Char} {x : UInt8} (hx : x.toNat < 0x80)
    (hm : x ∈ String.utf8EncodeChar c) : String.utf8EncodeChar c = [x] := by
  have hmax := val_lt c
  simp only [String.utf8EncodeChar] at hm ⊢
  split_ifs at hm ⊢ with h1 h2 h3
  · rw [List.mem_singleton.mp hm]
  all_goals
    exfalso
    simp only [List.mem_cons, List.not_mem_nil, or_false] at hm
    rcases hm with rfl | hm
    · rw [toNat_ofNat_of_lt (by omega)] at hx
      omega
  · subst hm
    rw [toNat_ofNat_of_lt (by omega)] at hx
    omega
  · rcases hm with rfl | rfl <;> rw [toNat_ofNat_of_lt (by omega)] at hx <;> omega
  · rcases hm with rfl | rfl | rfl <;> rw [toNat_ofNat_of_lt (by omega)] at hx <;> omega

private theorem valid_of_valid_append_ascii (cs : List Char) (a b : Bytes) (x : UInt8)
    (hx : x.toNat < 0x80) (h : encode cs = a ++ x :: b) : valid a = true ∧ valid b = true := by
  induction cs generalizing a with
  | nil => simp at h
  | cons c cs ih =>
    rw [encode_cons, List.append_eq_append_iff] at h
    rcases h with ⟨r, ha, hr⟩ | ⟨r, hc, hr⟩
    · obtain ⟨hv, hb⟩ := ih r hr
      refine ⟨?_, hb⟩
      have hcv : valid (String.utf8EncodeChar c) = true := (valid_iff _).mpr ⟨[c], by simp⟩
      rw [ha, valid_append hcv, hv]
    · cases r with
      | nil =>
        obtain ⟨hv, hb⟩ := ih [] (by simpa using hr.symm)
        have hcv : valid (String.utf8EncodeChar c) = true := (valid_iff _).mpr ⟨[c], by simp⟩
        rw [List.append_nil] at hc
        exact ⟨hc ▸ hcv, hb⟩
      | cons y r =>
        rw [List.cons_append, List.cons.injEq] at hr
        obtain ⟨rfl, rfl⟩ := hr
        have hm : x ∈ String.utf8EncodeChar c := by rw [hc]; simp
        have he := encodeChar_of_mem_ascii hx hm
        rw [he] at hc
        cases a with
        | nil =>
          simp only [List.nil_append, List.cons.injEq, true_and] at hc
          subst hc
          exact ⟨rfl, (valid_iff _).mpr ⟨cs, rfl⟩⟩
        | cons z a => simp at hc

theorem valid_ascii (x : UInt8) (hx : x.toNat < 0x80) : valid [x] = true := by
  refine (valid_iff _).mpr ⟨[Char.ofNat x.toNat], ?_⟩
  rw [encode_cons, encodeChar_of_lt hx, encode_nil, List.append_nil, ofNat_eq_of_toNat rfl]

/-- An ASCII byte always separates characters. -/
theorem valid_append_ascii (a b : Bytes) (x : UInt8) (hx : x.toNat < 0x80) :
    valid (a ++ x :: b) = (valid a && valid b) := by
  rw [Bool.eq_iff_iff, Bool.and_eq_true]
  constructor
  · intro h
    obtain ⟨cs, hcs⟩ := (valid_iff _).mp h
    exact valid_of_valid_append_ascii cs a b x hx hcs.symm
  · rintro ⟨ha, hb⟩
    rw [valid_append ha, show x :: b = [x] ++ b from rfl, valid_append (valid_ascii x hx), hb]

theorem valid_ascii_cons (x : UInt8) (b : Bytes) (hx : x.toNat < 0x80) :
    valid (x :: b) = valid b := by
  simpa using valid_append_ascii [] b x hx

end Utf8
end IngestKit
