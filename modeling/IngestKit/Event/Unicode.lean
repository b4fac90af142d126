import IngestKit.Json.Tree

/-! Text checks made on the original bytes, before the JSON decoder can replace
malformed UTF-8 and isolated surrogates. -/
namespace IngestKit.Event
open Json

def validText (s : Bytes) : Bool := Utf8.valid s && !s.contains 0

def validTenant (s : Bytes) : Bool := 1 ≤ s.length && s.length ≤ 128 && validText s

def parseUnit (a b c d : UInt8) : Option ℕ := (CodeUnit.ofBytes? a b c d).map CodeUnit.value

/-- The loop of `validUnicodeJSON`, on what is left of the input. -/
def scanUnicode : Bytes → Bool
  | [] => true
  | b :: t =>
    if b ≠ 0x5c then scanUnicode t
    else match t with
      | [] => false
      | c :: t =>
        if c ≠ 0x75 then scanUnicode t
        else match t with
          | p :: q :: r :: s :: t =>
            match parseUnit p q r s with
            | none => false
            | some unit =>
              if unit = 0 then false
              else if isLow unit then false
              else if isHigh unit then
                match t with
                | x :: y :: p :: q :: r :: s :: t =>
                  if x ≠ 0x5c ∨ y ≠ 0x75 then false
                  else match parseUnit p q r s with
                    | none => false
                    | some low => if isLow low then scanUnicode t else false
                | _ => false
              else scanUnicode t
          | _ => false

def validUnicodeJSON (raw : Bytes) : Bool := Utf8.valid raw && scanUnicode raw

theorem scanUnicode_cons {b : UInt8} (h : b ≠ 0x5c) (t : Bytes) :
    scanUnicode (b :: t) = scanUnicode t := by
  rw [scanUnicode.eq_def]
  exact if_pos h

/-- Bytes without a backslash are passed over. -/
theorem scanUnicode_append {a : Bytes} (h : ∀ b ∈ a, b ≠ 0x5c) (t : Bytes) :
    scanUnicode (a ++ t) = scanUnicode t := by
  induction a with
  | nil => rfl
  | cons b a ih =>
    rw [List.cons_append, scanUnicode_cons (h b (by simp)), ih fun x hx => h x (by simp [hx])]

private theorem scanUnicode_esc (e : Escape) (t : Bytes) :
    scanUnicode ((Item.esc e).print ++ t) = scanUnicode t := by
  rw [Item.print, scanUnicode.eq_def]
  exact if_pos e.letter_ne_u

private theorem parseUnit_bytes (u : CodeUnit) :
    parseUnit u.a.byte u.b.byte u.c.byte u.d.byte = some u.value := by
  rw [parseUnit, CodeUnit.ofBytes?_bytes, Option.map_some]

private theorem scanUnicode_uni (u : CodeUnit) (t : Bytes) :
    scanUnicode ((Item.uni u).print ++ t) =
      if u.value = 0 then false
      else if isLow u.value then false
      else if isHigh u.value then
        match t with
        | x :: y :: p :: q :: r :: s :: t =>
          if x ≠ 0x5c ∨ y ≠ 0x75 then false
          else match parseUnit p q r s with
            | none => false
            | some low => if isLow low then scanUnicode t else false
        | _ => false
      else scanUnicode t := by
  rw [Item.print, List.cons_append, scanUnicode.eq_def]
  simp only [ne_eq, not_true_eq_false, if_false, List.cons_append, List.nil_append,
    parseUnit_bytes]
  rfl

private theorem scanUnicode_pair {u w : CodeUnit} (h0 : u.value ≠ 0) (hl : isLow u.value = false)
    (hh : isHigh u.value = true) (t : Bytes) :
    scanUnicode ((Item.uni u).print ++ ((Item.uni w).print ++ t)) =
      (isLow w.value && scanUnicode t) := by
  rw [scanUnicode_uni, if_neg h0, if_neg (by simp [hl]), if_pos hh]
  simp only [Item.print, List.cons_append, List.nil_append, ne_eq, not_true_eq_false, or_self,
    if_false, parseUnit_bytes]
  cases isLow w.value <;> rfl

/-- A high surrogate must be followed by another numeric escape. -/
private theorem scanUnicode_lone {u : CodeUnit} (h0 : u.value ≠ 0) (hl : isLow u.value = false)
    (hh : isHigh u.value = true) {x y : UInt8} (hxy : x ≠ 0x5c ∨ y ≠ 0x75) (t : Bytes) :
    scanUnicode ((Item.uni u).print ++ x :: y :: t) = false := by
  rw [scanUnicode_uni, if_neg h0, if_neg (by simp [hl]), if_pos hh]
  rcases t with _ | ⟨p, _ | ⟨q, _ | ⟨r, _ | ⟨s, t⟩⟩⟩⟩
  all_goals first | rfl | exact if_pos hxy

private theorem scanUnicode_last {u : CodeUnit} (h0 : u.value ≠ 0) (hl : isLow u.value = false)
    (hh : isHigh u.value = true) {x : UInt8} (hx : x ≠ 0x5c) (t : Bytes) :
    scanUnicode ((Item.uni u).print ++ x :: t) = false := by
  cases t with
  | nil =>
    rw [scanUnicode_uni, if_neg h0, if_neg (by simp [hl]), if_pos hh]
  | cons y t => exact scanUnicode_lone h0 hl hh (Or.inl hx) t

/-- Scanning a string literal checks exactly its escapes. -/
theorem scanUnicode_body : ∀ (s : Str) (t : Bytes),
    scanUnicode (s.body ++ 0x22 :: t) = (s.paired && scanUnicode t)
  | [], t => scanUnicode_cons (by decide) t
  | .raw b :: s, t => by
    rw [Str.body_cons, Item.print, List.singleton_append, List.cons_append,
      scanUnicode_cons b.ok.2.2, scanUnicode_body s t, Str.paired]
  | .esc e :: s, t => by
    rw [Str.body_cons, List.append_assoc, scanUnicode_esc, scanUnicode_body s t, Str.paired]
  | .uni u :: s, t => by
    rw [Str.body_cons, List.append_assoc, Str.paired.eq_def]
    dsimp only
    by_cases h0 : u.value = 0
    · rw [scanUnicode_uni, if_pos h0, if_pos h0, Bool.false_and]
    cases hl : isLow u.value with
    | true => simp [scanUnicode_uni, h0, hl]
    | false =>
      cases hh : isHigh u.value with
      | false => simp [scanUnicode_uni, h0, hl, hh, scanUnicode_body s t]
      | true =>
        simp only [h0, if_false, Bool.false_eq_true, if_true]
        cases s with
        | nil => exact scanUnicode_last h0 hl hh (by decide) t
        | cons i s =>
          cases i with
          | raw b => exact scanUnicode_last h0 hl hh b.ok.2.2 _
          | esc e => exact scanUnicode_lone h0 hl hh (Or.inr e.letter_ne_u) _
          | uni w =>
            rw [Str.body_cons, List.append_assoc, scanUnicode_pair h0 hl hh, scanUnicode_body s t,
              Bool.and_assoc]

private theorem blank_ne (w : Blank) : ∀ b ∈ w.print, b ≠ 0x5c := by
  intro b hb
  obtain ⟨s, -, rfl⟩ := List.mem_map.mp hb
  cases s <;> decide

private theorem scanUnicode_str (s : Str) (t : Bytes) :
    scanUnicode (s.print ++ t) = (s.paired && scanUnicode t) := by
  rw [Str.print, List.cons_append, scanUnicode_cons (by decide), List.append_assoc,
    List.singleton_append, scanUnicode_body]

private theorem scanUnicode_label (l : Label) (t : Bytes) :
    scanUnicode (l.print ++ t) = (l.key.paired && scanUnicode t) := by
  rw [Label.print, List.append_assoc, scanUnicode_append (blank_ne _), List.append_assoc,
    scanUnicode_str, List.append_assoc, scanUnicode_append (blank_ne _), List.cons_append,
    scanUnicode_cons (by decide), scanUnicode_append (blank_ne _)]

private theorem digits_ne (ds : List Digit) : ∀ b ∈ printDigits ds, b ≠ 0x5c := by
  intro b hb
  obtain ⟨d, -, rfl⟩ := List.mem_map.mp hb
  exact (by decide : ∀ d : Digit, d.byte ≠ 0x5c) d

private theorem number_ne (n : Number) : ∀ b ∈ n.print, b ≠ 0x5c := by
  obtain ⟨neg, i, f, e⟩ := n
  intro b hb
  simp only [Number.print, List.mem_append] at hb
  rcases hb with hb | hb | hb | hb
  · cases neg
    · cases hb
    · rw [List.mem_singleton.mp hb]
      decide
  · exact digits_ne _ b hb
  · rcases f with _ | f
    · cases hb
    · rcases List.mem_cons.mp hb with rfl | hb
      · decide
      · exact digits_ne _ b hb
  · rcases e with _ | ⟨upper, sign, d, ds⟩
    · cases hb
    · rcases List.mem_cons.mp hb with rfl | hb
      · cases upper <;> simp
      · rcases List.mem_append.mp hb with hb | hb
        · rcases sign with _ | s | s
          · cases hb
          all_goals
            rw [List.mem_singleton.mp hb]
            decide
        · exact digits_ne _ b hb

mutual
/-- Scanning a printed value checks exactly its literals. -/
theorem scanUnicode_value (v : Value) (t : Bytes) :
    scanUnicode (v.print ++ t) = (v.strings.all Str.paired && scanUnicode t) := by
  cases v with
  | null => exact scanUnicode_append (by decide +kernel) t
  | bool x => cases x <;> exact scanUnicode_append (by decide +kernel) t
  | number n =>
    rw [Value.print, scanUnicode_append (number_ne n)]
    simp [Value.strings]
  | string s => simp [Value.print, Value.strings, scanUnicode_str]
  | emptyArray w =>
    rw [Value.print, List.cons_append, scanUnicode_cons (by decide), List.append_assoc,
      scanUnicode_append (blank_ne w), List.singleton_append, scanUnicode_cons (by decide)]
    simp [Value.strings]
  | array es =>
    rw [Value.print, List.cons_append, scanUnicode_cons (by decide), List.append_assoc,
      scanUnicode_elems, List.singleton_append, scanUnicode_cons (by decide), Value.strings]
  | emptyObject w =>
    rw [Value.print, List.cons_append, scanUnicode_cons (by decide), List.append_assoc,
      scanUnicode_append (blank_ne w), List.singleton_append, scanUnicode_cons (by decide)]
    simp [Value.strings]
  | object ms =>
    rw [Value.print, List.cons_append, scanUnicode_cons (by decide), List.append_assoc,
      scanUnicode_members, List.singleton_append, scanUnicode_cons (by decide), Value.strings]

theorem scanUnicode_elems (es : Elems) (t : Bytes) :
    scanUnicode (es.print ++ t) = (es.strings.all Str.paired && scanUnicode t) := by
  cases es with
  | one pre v post =>
    rw [Elems.print, List.append_assoc, scanUnicode_append (blank_ne pre), List.append_assoc,
      scanUnicode_value, scanUnicode_append (blank_ne post), Elems.strings]
  | more pre v post rest =>
    rw [Elems.print, List.append_assoc, scanUnicode_append (blank_ne pre), List.append_assoc,
      scanUnicode_value, List.append_assoc, scanUnicode_append (blank_ne post), List.cons_append,
      scanUnicode_cons (by decide), scanUnicode_elems, Elems.strings, List.all_append,
      Bool.and_assoc]

theorem scanUnicode_members (ms : Members) (t : Bytes) :
    scanUnicode (ms.print ++ t) = (ms.strings.all Str.paired && scanUnicode t) := by
  cases ms with
  | one l v post =>
    rw [Members.print, List.append_assoc, scanUnicode_label, List.append_assoc, scanUnicode_value,
      scanUnicode_append (blank_ne post), Members.strings, List.all_cons, Bool.and_assoc]
  | more l v post rest =>
    rw [Members.print, List.append_assoc, scanUnicode_label, List.append_assoc, scanUnicode_value,
      List.append_assoc, scanUnicode_append (blank_ne post), List.cons_append,
      scanUnicode_cons (by decide), scanUnicode_members, Members.strings, List.all_cons,
      List.all_append, Bool.and_assoc, Bool.and_assoc]
end

/-- A literal that is well-formed UTF-8 and has only paired, nonzero escapes. -/
def goodLiteral (s : Str) : Bool := Utf8.valid s.body && s.paired

theorem validUnicodeJSON_print (v : Value) :
    validUnicodeJSON v.print = v.strings.all goodLiteral := by
  have h := scanUnicode_value v []
  rw [List.append_nil] at h
  rw [validUnicodeJSON, v.valid_print, h]
  simp only [scanUnicode, Bool.and_true]
  induction v.strings with
  | nil => rfl
  | cons s l ih =>
    rw [List.all_cons, List.all_cons, List.all_cons, ← ih, goodLiteral]
    simp only [Bool.and_assoc, Bool.and_left_comm]

theorem scanUnicode_doc (d : Doc) : scanUnicode d.print = d.value.strings.all Str.paired := by
  have hpost := scanUnicode_append (blank_ne d.post) []
  rw [List.append_nil] at hpost
  rw [Doc.print, scanUnicode_append (blank_ne d.pre), scanUnicode_value, hpost, scanUnicode,
    Bool.and_true]

theorem validUnicodeJSON_doc (d : Doc) :
    validUnicodeJSON d.print = d.value.strings.all goodLiteral := by
  have hv := scanUnicode_value d.value []
  rw [List.append_nil, scanUnicode, Bool.and_true] at hv
  rw [← validUnicodeJSON_print, validUnicodeJSON, d.valid_print, scanUnicode_doc, validUnicodeJSON,
    hv]

end IngestKit.Event
