import IngestKit.Json.Syntax

/-! Scanners for blanks, numbers and string literals. Each is the inverse of the
corresponding printer on texts where the literal is followed by a byte that
cannot continue it. -/
namespace IngestKit.Json

def Space.ofByte? (b : UInt8) : Option Space :=
  if b = 0x20 then some .space
  else if b = 0x09 then some .tab
  else if b = 0x0a then some .lf
  else if b = 0x0d then some .cr
  else none

theorem Space.ofByte?_byte (s : Space) : Space.ofByte? s.byte = some s := by
  cases s <;> rfl

theorem Space.eq_byte {b : UInt8} {s : Space} (h : Space.ofByte? b = some s) : b = s.byte := by
  unfold Space.ofByte? at h
  split_ifs at h with h1 h2 h3 h4 <;> cases h <;> assumption

def skipBlank (b : Bytes) : Blank × Bytes := scanWhile Space.ofByte? b

def NoBlank (t : Bytes) : Prop := Stops Space.ofByte? t

theorem skipBlank_sound (b : Bytes) : b = (skipBlank b).1.print ++ (skipBlank b).2 :=
  scanWhile_sound Space.eq_byte b

theorem skipBlank_noBlank (b : Bytes) : NoBlank (skipBlank b).2 := scanWhile_stops b

theorem skipBlank_print (w : Blank) {t : Bytes} (ht : NoBlank t) :
    skipBlank (w.print ++ t) = (w, t) := scanWhile_print Space.ofByte?_byte w ht

@[simp] theorem noBlank_nil : NoBlank [] := stops_nil _

theorem noBlank_cons {b : UInt8} {t : Bytes} : NoBlank (b :: t) ↔ Space.ofByte? b = none :=
  stops_cons _ b t

def scanInt : Bytes → Option (IntPart × Bytes)
  | [] => none
  | b :: t =>
    match Digit.ofByte? b with
    | none => none
    | some d =>
      if h : d = 0 then some (.zero, t)
      else some (.pos (d.pred h) (scanDigits t).1, (scanDigits t).2)

def scanFrac : Bytes → Option (Option Fraction × Bytes)
  | [] => some (none, [])
  | b :: t =>
    if b = 0x2e then (scanDigits1 t).map fun r => (some ⟨r.1, r.2.1⟩, r.2.2)
    else some (none, b :: t)

def scanSign : Bytes → Option Sign × Bytes
  | [] => (none, [])
  | b :: t =>
    if b = 0x2b then (some .plus, t)
    else if b = 0x2d then (some .minus, t)
    else (none, b :: t)

def scanExp : Bytes → Option (Option Exponent × Bytes)
  | [] => some (none, [])
  | b :: t =>
    if b = 0x65 ∨ b = 0x45 then
      (scanDigits1 (scanSign t).2).map fun r =>
        (some ⟨decide (b = 0x45), (scanSign t).1, r.1, r.2.1⟩, r.2.2)
    else some (none, b :: t)

def scanMinus : Bytes → Bool × Bytes
  | [] => (false, [])
  | b :: t => if b = 0x2d then (true, t) else (false, b :: t)

def scanNumber (b : Bytes) : Option (Number × Bytes) := do
  let i ← scanInt (scanMinus b).2
  let f ← scanFrac i.2
  let e ← scanExp f.2
  some (⟨(scanMinus b).1, i.1, f.1, e.1⟩, e.2)

theorem scanInt_sound {b t : Bytes} {i : IntPart} (h : scanInt b = some (i, t)) :
    b = printDigits i.digits ++ t := by
  cases b with
  | nil => cases h
  | cons a s =>
    simp only [scanInt] at h
    cases hd : Digit.ofByte? a with
    | none => simp [hd] at h
    | some d =>
      simp only [hd] at h
      have ha := Digit.eq_byte hd
      split_ifs at h with hz
      · obtain ⟨rfl, rfl⟩ := Prod.mk.inj (Option.some.inj h)
        subst hz
        simp [IntPart.digits, printDigits, ha]
      · obtain ⟨rfl, rfl⟩ := Prod.mk.inj (Option.some.inj h)
        have hs := scanDigits_sound s
        simp only [IntPart.digits, printDigits, List.map_cons, Fin.succ_pred, List.cons_append,
          ← ha, List.cons.injEq, true_and]
        exact hs

theorem scanFrac_sound {b t : Bytes} {f : Option Fraction} (h : scanFrac b = some (f, t)) :
    b = f.elim [] Fraction.print ++ t := by
  cases b with
  | nil =>
    obtain ⟨rfl, rfl⟩ := Prod.mk.inj (Option.some.inj h)
    rfl
  | cons a s =>
    simp only [scanFrac] at h
    split_ifs at h with ha
    · obtain ⟨⟨d, ds, r⟩, hr, he⟩ := Option.map_eq_some_iff.mp h
      obtain ⟨rfl, rfl⟩ := Prod.mk.inj he
      rw [ha, scanDigits1_sound hr]
      rfl
    · obtain ⟨rfl, rfl⟩ := Prod.mk.inj (Option.some.inj h)
      rfl

theorem scanSign_sound (b : Bytes) :
    b = (scanSign b).1.elim [] (fun s => [s.byte]) ++ (scanSign b).2 := by
  cases b with
  | nil => rfl
  | cons a t =>
    simp only [scanSign]
    split_ifs with h1 h2
    · simp [h1, Sign.byte]
    · simp [h2, Sign.byte]
    · rfl

theorem scanExp_sound {b t : Bytes} {e : Option Exponent} (h : scanExp b = some (e, t)) :
    b = e.elim [] Exponent.print ++ t := by
  cases b with
  | nil =>
    obtain ⟨rfl, rfl⟩ := Prod.mk.inj (Option.some.inj h)
    rfl
  | cons a s =>
    simp only [scanExp] at h
    split_ifs at h with ha
    · obtain ⟨⟨d, ds, r⟩, hr, he⟩ := Option.map_eq_some_iff.mp h
      obtain ⟨rfl, rfl⟩ := Prod.mk.inj he
      have hs := scanSign_sound s
      have hd := scanDigits1_sound hr
      have hb : (if decide (a = 0x45) = true then (0x45 : UInt8) else 0x65) = a := by
        rcases ha with rfl | rfl <;> rfl
      simp only [Option.elim_some, Exponent.print, Exponent.digits, hb, List.cons_append,
        List.append_assoc, ← hd, ← hs]
    · obtain ⟨rfl, rfl⟩ := Prod.mk.inj (Option.some.inj h)
      rfl

theorem scanMinus_sound (b : Bytes) :
    b = (if (scanMinus b).1 then [0x2d] else []) ++ (scanMinus b).2 := by
  cases b with
  | nil => rfl
  | cons a t =>
    simp only [scanMinus]
    split_ifs with h <;> simp_all

theorem scanNumber_sound {b t : Bytes} {n : Number} (h : scanNumber b = some (n, t)) :
    b = n.print ++ t := by
  simp only [scanNumber, Option.bind_eq_bind, Option.bind_eq_some_iff] at h
  obtain ⟨⟨i, ti⟩, hi, ⟨f, tf⟩, hf, ⟨e, te⟩, he, hn⟩ := h
  obtain ⟨rfl, rfl⟩ := Prod.mk.inj (Option.some.inj hn)
  have hf' : ti = f.elim [] Fraction.print ++ tf := scanFrac_sound hf
  have he' : tf = e.elim [] Exponent.print ++ te := scanExp_sound he
  have hm := scanMinus_sound b
  rw [scanInt_sound hi, hf', he'] at hm
  simpa only [Number.print, List.append_assoc] using hm

/-- A byte that can extend a number literal. -/
def continuesNumber (b : UInt8) : Bool :=
  (Digit.ofByte? b).isSome || b = 0x2e || b = 0x65 || b = 0x45

def NumberEnds (t : Bytes) : Prop := ∀ b ∈ t.head?, continuesNumber b = false

theorem NumberEnds.stops {t : Bytes} (h : NumberEnds t) : Stops Digit.ofByte? t := by
  intro b hb
  have := h b hb
  simp only [continuesNumber, Bool.or_eq_false_iff, Option.isSome_eq_false_iff,
    Option.isNone_iff_eq_none] at this
  exact this.1.1.1

private theorem stops_exp_print (e : Option Exponent) {t : Bytes} (h : NumberEnds t) :
    Stops Digit.ofByte? (e.elim [] Exponent.print ++ t) := by
  cases e with
  | none => exact h.stops
  | some e =>
    rw [Option.elim_some, Exponent.print, List.cons_append, stops_cons]
    split_ifs <;> rfl

private theorem scanExp_print (e : Option Exponent) {t : Bytes} (h : NumberEnds t) :
    scanExp (e.elim [] Exponent.print ++ t) = some (e, t) := by
  cases e with
  | none =>
    cases t with
    | nil => rfl
    | cons b t =>
      have hb := h b (by simp)
      simp only [continuesNumber, Bool.or_eq_false_iff, decide_eq_false_iff_not] at hb
      simp [scanExp, hb.1.2, hb.2]
  | some e =>
    obtain ⟨upper, sign, d, ds⟩ := e
    have hd := scanDigits1_print d ds h.stops
    have hs : ∀ s : Option Sign, scanSign (s.elim [] (fun s => [s.byte]) ++
        (printDigits (d :: ds) ++ t)) = (s, printDigits (d :: ds) ++ t) := by
      intro s
      rcases s with _ | s | s
      · simp [scanSign, printDigits, Digit.byte_ne_sign d]
      · rfl
      · rfl
    cases upper <;>
      simp [Exponent.print, Exponent.digits, scanExp, List.append_assoc, hs, hd]

private theorem stops_frac_print (f : Option Fraction) (e : Option Exponent) {t : Bytes}
    (h : NumberEnds t) :
    Stops Digit.ofByte? (f.elim [] Fraction.print ++ (e.elim [] Exponent.print ++ t)) := by
  cases f with
  | none => exact stops_exp_print e h
  | some f =>
    rw [Option.elim_some, Fraction.print, List.cons_append, stops_cons]
    rfl

private theorem scanFrac_print (f : Option Fraction) (e : Option Exponent) {t : Bytes}
    (h : NumberEnds t) :
    scanFrac (f.elim [] Fraction.print ++ (e.elim [] Exponent.print ++ t)) =
      some (f, e.elim [] Exponent.print ++ t) := by
  cases f with
  | some f =>
    obtain ⟨d, ds⟩ := f
    have hd := scanDigits1_print d ds (stops_exp_print e h)
    simp [Fraction.print, Fraction.digits, scanFrac, hd]
  | none =>
    cases e with
    | some e =>
      rw [Option.elim_none, List.nil_append, Option.elim_some, Exponent.print, List.cons_append,
        scanFrac, if_neg]
      split_ifs <;> decide
    | none =>
      cases t with
      | nil => rfl
      | cons b t =>
        have hb := h b (by simp)
        simp only [continuesNumber, Bool.or_eq_false_iff, decide_eq_false_iff_not] at hb
        simp [scanFrac, hb.1.1.2]

private theorem scanInt_print (i : IntPart) {t : Bytes} (ht : Stops Digit.ofByte? t) :
    scanInt (printDigits i.digits ++ t) = some (i, t) := by
  cases i with
  | zero => rfl
  | pos d ds =>
    have hne : d.succ ≠ 0 := Fin.succ_ne_zero d
    have hs := scanDigits_print ds ht
    simp only [printDigits] at hs
    simp [IntPart.digits, printDigits, scanInt, Digit.ofByte?_byte, hne, hs]

private theorem scanMinus_print (neg : Bool) (i : IntPart) (t : Bytes) :
    scanMinus ((if neg then [0x2d] else []) ++ (printDigits i.digits ++ t)) =
      (neg, printDigits i.digits ++ t) := by
  cases neg with
  | true => rfl
  | false =>
    cases i with
    | zero => rfl
    | pos d ds => simp [IntPart.digits, printDigits, scanMinus, Digit.byte_ne_sign d.succ]

theorem scanNumber_print (n : Number) {t : Bytes} (ht : NumberEnds t) :
    scanNumber (n.print ++ t) = some (n, t) := by
  obtain ⟨neg, i, f, e⟩ := n
  simp only [Number.print, List.append_assoc, scanNumber, scanMinus_print,
    scanInt_print i (stops_frac_print f e ht), scanFrac_print f e ht, scanExp_print e ht,
    Option.bind_eq_bind, Option.bind_some]

def Escape.ofLetter? (b : UInt8) : Option Escape :=
  if b = 0x22 then some .quote
  else if b = 0x5c then some .backslash
  else if b = 0x2f then some .slash
  else if b = 0x62 then some .backspace
  else if b = 0x66 then some .formFeed
  else if b = 0x6e then some .newline
  else if b = 0x72 then some .carriageReturn
  else if b = 0x74 then some .tab
  else none

def HexDigit.ofByte? (b : UInt8) : Option HexDigit :=
  if h : (hexValue b).isSome then some ⟨b, h⟩ else none

def CodeUnit.ofBytes? (a b c d : UInt8) : Option CodeUnit := do
  let a ← HexDigit.ofByte? a
  let b ← HexDigit.ofByte? b
  let c ← HexDigit.ofByte? c
  let d ← HexDigit.ofByte? d
  some ⟨a, b, c, d⟩

/-- The rest of a string literal after its opening quote. -/
def scanStr : Bytes → Option (Str × Bytes)
  | [] => none
  | b :: t =>
    if b = 0x22 then some ([], t)
    else if b = 0x5c then
      match t with
      | [] => none
      | e :: t =>
        if e = 0x75 then
          match t with
          | p :: q :: r :: s :: t =>
            match CodeUnit.ofBytes? p q r s with
            | some u => (scanStr t).map fun x => (.uni u :: x.1, x.2)
            | none => none
          | _ => none
        else
          match Escape.ofLetter? e with
          | some x => (scanStr t).map fun y => (.esc x :: y.1, y.2)
          | none => none
    else if h : 0x20 ≤ b.toNat ∧ b ≠ 0x22 ∧ b ≠ 0x5c then
      (scanStr t).map fun x => (.raw ⟨b, h⟩ :: x.1, x.2)
    else none

theorem Escape.ofLetter?_letter (e : Escape) : Escape.ofLetter? e.letter = some e := by
  cases e <;> rfl

theorem Escape.eq_letter {b : UInt8} {e : Escape} (h : Escape.ofLetter? b = some e) :
    b = e.letter := by
  unfold Escape.ofLetter? at h
  split_ifs at h <;> cases h <;> assumption

theorem Escape.letter_ne_u (e : Escape) : e.letter ≠ 0x75 := by
  cases e <;> decide

theorem HexDigit.ofByte?_byte (h : HexDigit) : HexDigit.ofByte? h.byte = some h := by
  simp [HexDigit.ofByte?, h.ok]

theorem HexDigit.eq_byte {b : UInt8} {h : HexDigit} (hb : HexDigit.ofByte? b = some h) :
    b = h.byte := by
  unfold HexDigit.ofByte? at hb
  split_ifs at hb
  rw [← Option.some.inj hb]

theorem CodeUnit.ofBytes?_bytes (u : CodeUnit) :
    CodeUnit.ofBytes? u.a.byte u.b.byte u.c.byte u.d.byte = some u := by
  simp [CodeUnit.ofBytes?, HexDigit.ofByte?_byte]

theorem CodeUnit.eq_bytes {p q r s : UInt8} {u : CodeUnit}
    (h : CodeUnit.ofBytes? p q r s = some u) :
    p = u.a.byte ∧ q = u.b.byte ∧ r = u.c.byte ∧ s = u.d.byte := by
  simp only [CodeUnit.ofBytes?, Option.bind_eq_bind, Option.bind_eq_some_iff] at h
  obtain ⟨a, ha, b, hb, c, hc, d, hd, hu⟩ := h
  rw [← Option.some.inj hu]
  exact ⟨HexDigit.eq_byte ha, HexDigit.eq_byte hb, HexDigit.eq_byte hc, HexDigit.eq_byte hd⟩

theorem scanStr_sound {b t : Bytes} {s : Str} (h : scanStr b = some (s, t)) :
    b = s.body ++ 0x22 :: t := by
  fun_induction scanStr b generalizing s t with
  | case1 => cases h
  | case2 r =>
    obtain ⟨rfl, rfl⟩ := Prod.mk.inj (Option.some.inj h)
    rfl
  | case3 => cases h
  | case4 p q r x t' u hu _ ih =>
    obtain ⟨y, hy, he⟩ := Option.map_eq_some_iff.mp h
    obtain ⟨rfl, rfl⟩ := Prod.mk.inj he
    obtain ⟨rfl, rfl, rfl, rfl⟩ := CodeUnit.eq_bytes hu
    simp [Item.print, ih hy]
  | case5 => cases h
  | case6 => cases h
  | case7 e t' he x hx _ ih =>
    obtain ⟨y, hy, heq⟩ := Option.map_eq_some_iff.mp h
    obtain ⟨rfl, rfl⟩ := Prod.mk.inj heq
    simp [Item.print, ih hy, Escape.eq_letter hx]
  | case8 => cases h
  | case9 b' t' h1 h2 hb ih =>
    obtain ⟨y, hy, heq⟩ := Option.map_eq_some_iff.mp h
    obtain ⟨rfl, rfl⟩ := Prod.mk.inj heq
    simp [Item.print, ih hy]
  | case10 => cases h

theorem scanStr_print (s : Str) (t : Bytes) : scanStr (s.body ++ 0x22 :: t) = some (s, t) := by
  induction s with
  | nil =>
    rw [Str.body_nil, List.nil_append, scanStr.eq_def]
    rfl
  | cons i s ih =>
    rw [Str.body_cons, List.append_assoc]
    cases i with
    | raw b =>
      obtain ⟨b, hb⟩ := b
      rw [Item.print, List.singleton_append, scanStr.eq_def]
      simp [hb, ih]
    | esc e =>
      rw [Item.print, List.cons_append, List.singleton_append, scanStr.eq_def]
      simp [Escape.letter_ne_u, Escape.ofLetter?_letter, ih]
    | uni u =>
      simp only [Item.print, List.cons_append, List.nil_append]
      rw [scanStr.eq_def]
      simp [CodeUnit.ofBytes?_bytes, ih]

end IngestKit.Json
