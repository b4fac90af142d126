import IngestKit.Json.Scan

/-! Recursive-descent parsing of whole texts. `parse?` accepts exactly the printed
trees, so the parse of a text is unique and loses nothing. -/
namespace IngestKit.Json

/-- Containers may nest this deep before the scanner refuses the text. -/
def maxNestingDepth : ℕ := 10000

def scanLabel (b : Bytes) : Option (Label × Bytes) :=
  match (skipBlank b).2 with
  | [] => none
  | q :: t =>
    if q = 0x22 then
      match scanStr t with
      | none => none
      | some (k, t) =>
        match (skipBlank t).2 with
        | [] => none
        | c :: r =>
          if c = 0x3a then
            some (⟨(skipBlank b).1, k, (skipBlank t).1, (skipBlank r).1⟩, (skipBlank r).2)
          else none
    else none

def scanLiteral (lit : Bytes) (v : Value) (b : Bytes) : Option (Value × Bytes) :=
  if lit <+: b then some (v, b.drop lit.length) else none

/-- The byte after a container's opening bracket and blanks closes it. -/
def closes (close : UInt8) (t : Bytes) : Option (Blank × Bytes) :=
  match (skipBlank t).2 with
  | [] => none
  | c :: r => if c = close then some ((skipBlank t).1, r) else none

mutual
/-- One value and what follows it. The first argument bounds the remaining bytes. -/
def parseValue : ℕ → Bytes → Option (Value × Bytes)
  | 0, _ => none
  | _ + 1, [] => none
  | n + 1, b :: t =>
    if b = 0x22 then (scanStr t).map fun x => (.string x.1, x.2)
    else if b = 0x5b then
      match closes 0x5d t with
      | some x => some (.emptyArray x.1, x.2)
      | none => (parseElems n t).map fun x => (.array x.1, x.2)
    else if b = 0x7b then
      match closes 0x7d t with
      | some x => some (.emptyObject x.1, x.2)
      | none => (parseMembers n t).map fun x => (.object x.1, x.2)
    else if b = 0x6e then scanLiteral (ascii ['n', 'u', 'l', 'l']) .null (b :: t)
    else if b = 0x74 then scanLiteral (ascii ['t', 'r', 'u', 'e']) (.bool true) (b :: t)
    else if b = 0x66 then scanLiteral (ascii ['f', 'a', 'l', 's', 'e']) (.bool false) (b :: t)
    else (scanNumber (b :: t)).map fun x => (.number x.1, x.2)

/-- Elements through the closing bracket. -/
def parseElems : ℕ → Bytes → Option (Elems × Bytes)
  | 0, _ => none
  | n + 1, b =>
    match parseValue n (skipBlank b).2 with
    | none => none
    | some (v, t) =>
      match (skipBlank t).2 with
      | [] => none
      | c :: r =>
        if c = 0x5d then some (.one (skipBlank b).1 v (skipBlank t).1, r)
        else if c = 0x2c then
          (parseElems n r).map fun x => (.more (skipBlank b).1 v (skipBlank t).1 x.1, x.2)
        else none

/-- Members through the closing brace. -/
def parseMembers : ℕ → Bytes → Option (Members × Bytes)
  | 0, _ => none
  | n + 1, b =>
    match scanLabel b with
    | none => none
    | some (l, s) =>
      match parseValue n s with
      | none => none
      | some (v, t) =>
        match (skipBlank t).2 with
        | [] => none
        | c :: r =>
          if c = 0x7d then some (.one l v (skipBlank t).1, r)
          else if c = 0x2c then
            (parseMembers n r).map fun x => (.more l v (skipBlank t).1 x.1, x.2)
          else none
end

/-- One value with blanks around it and nothing else. -/
def parseDoc (b : Bytes) : Option Doc :=
  match parseValue b.length (skipBlank b).2 with
  | none => none
  | some (v, t) =>
    if (skipBlank t).2 = [] then some ⟨(skipBlank b).1, v, (skipBlank t).1⟩ else none

/-- `parseDoc` under the scanner's nesting limit. -/
def parse? (b : Bytes) : Option Doc :=
  match parseDoc b with
  | some d => if d.value.depth ≤ maxNestingDepth then some d else none
  | none => none

theorem scanLabel_sound {b t : Bytes} {l : Label} (h : scanLabel b = some (l, t)) :
    b = l.print ++ t ∧ NoBlank t := by
  unfold scanLabel at h
  split at h
  · cases h
  next q s hq =>
    split_ifs at h with hquote
    split at h
    · cases h
    next k r hk =>
      split at h
      · cases h
      next c u hc =>
        split_ifs at h with hcolon
        obtain ⟨rfl, rfl⟩ := Prod.mk.inj (Option.some.inj h)
        refine ⟨?_, skipBlank_noBlank u⟩
        have hb := skipBlank_sound b
        have hr := skipBlank_sound r
        have hu := skipBlank_sound u
        rw [hc, hcolon] at hr
        rw [hq, hquote, scanStr_sound hk] at hb
        refine hb.trans ?_
        simp only [Label.print, Str.print, List.append_assoc, List.cons_append, List.nil_append,
          ← hu, ← hr]

theorem scanLiteral_sound {lit b t : Bytes} {v w : Value} (h : scanLiteral lit v b = some (w, t)) :
    w = v ∧ b = lit ++ t := by
  unfold scanLiteral at h
  split_ifs at h with hp
  obtain ⟨rfl, rfl⟩ := Prod.mk.inj (Option.some.inj h)
  obtain ⟨s, rfl⟩ := hp
  simp

theorem closes_sound {c : UInt8} {t r : Bytes} {w : Blank} (h : closes c t = some (w, r)) :
    t = w.print ++ c :: r := by
  unfold closes at h
  split at h
  · cases h
  next d u hd =>
    split_ifs at h with hc
    obtain ⟨rfl, rfl⟩ := Prod.mk.inj (Option.some.inj h)
    have ht := skipBlank_sound t
    rw [hd, hc] at ht
    exact ht

theorem parse_sound (n : ℕ) :
    (∀ {b t : Bytes} {v : Value}, parseValue n b = some (v, t) → b = v.print ++ t) ∧
    (∀ {b t : Bytes} {es : Elems}, parseElems n b = some (es, t) → b = es.print ++ 0x5d :: t) ∧
    (∀ {b t : Bytes} {ms : Members}, parseMembers n b = some (ms, t) →
      b = ms.print ++ 0x7d :: t) := by
  induction n with
  | zero =>
    refine ⟨?_, ?_, ?_⟩ <;> intro b t x h
    · simp [parseValue] at h
    · simp [parseElems] at h
    · simp [parseMembers] at h
  | succ n ih =>
    obtain ⟨ihv, ihe, ihm⟩ := ih
    refine ⟨?_, ?_, ?_⟩
    · intro b t v h
      cases b with
      | nil => simp [parseValue] at h
      | cons a s =>
        simp only [parseValue] at h
        split_ifs at h with h1 h2 h3 h4 h5 h6
        · obtain ⟨⟨k, r⟩, hk, he⟩ := Option.map_eq_some_iff.mp h
          obtain ⟨rfl, rfl⟩ := Prod.mk.inj he
          simp [Value.print, Str.print, h1, scanStr_sound hk]
        · split at h
          next x hx =>
            obtain ⟨rfl, rfl⟩ := Prod.mk.inj (Option.some.inj h)
            simp [Value.print, h2, closes_sound hx]
          next hx =>
            obtain ⟨⟨es, r⟩, hr, he⟩ := Option.map_eq_some_iff.mp h
            obtain ⟨rfl, rfl⟩ := Prod.mk.inj he
            simp [Value.print, h2, ihe hr]
        · split at h
          next x hx =>
            obtain ⟨rfl, rfl⟩ := Prod.mk.inj (Option.some.inj h)
            simp [Value.print, h3, closes_sound hx]
          next hx =>
            obtain ⟨⟨ms, r⟩, hr, he⟩ := Option.map_eq_some_iff.mp h
            obtain ⟨rfl, rfl⟩ := Prod.mk.inj he
            simp [Value.print, h3, ihm hr]
        · obtain ⟨rfl, hb⟩ := scanLiteral_sound h
          rw [hb, Value.print]
        · obtain ⟨rfl, hb⟩ := scanLiteral_sound h
          rw [hb, Value.print]
        · obtain ⟨rfl, hb⟩ := scanLiteral_sound h
          rw [hb, Value.print]
        · obtain ⟨⟨k, r⟩, hk, he⟩ := Option.map_eq_some_iff.mp h
          obtain ⟨rfl, rfl⟩ := Prod.mk.inj he
          rw [scanNumber_sound hk, Value.print]
    · intro b t es h
      have hb := skipBlank_sound b
      simp only [parseElems] at h
      split at h
      · cases h
      next v u hv =>
        have hu := skipBlank_sound u
        rw [ihv hv] at hb
        split at h
        · cases h
        next c r hc =>
          rw [hc] at hu
          split_ifs at h with hclose hcomma
          · obtain ⟨rfl, rfl⟩ := Prod.mk.inj (Option.some.inj h)
            refine hb.trans ?_
            simp only [Elems.print, List.append_assoc, ← hclose, ← hu]
          · obtain ⟨⟨es', r'⟩, hr, he⟩ := Option.map_eq_some_iff.mp h
            obtain ⟨rfl, rfl⟩ := Prod.mk.inj he
            refine hb.trans ?_
            simp only [Elems.print, List.append_assoc, List.cons_append, ← ihe hr, ← hcomma, ← hu]
    · intro b t ms h
      simp only [parseMembers] at h
      split at h
      · cases h
      next l s hl =>
        have hb := (scanLabel_sound hl).1
        split at h
        · cases h
        next v u hv =>
          have hu := skipBlank_sound u
          rw [ihv hv] at hb
          split at h
          · cases h
          next c r hc =>
            rw [hc] at hu
            split_ifs at h with hclose hcomma
            · obtain ⟨rfl, rfl⟩ := Prod.mk.inj (Option.some.inj h)
              refine hb.trans ?_
              simp only [Members.print, List.append_assoc, ← hclose, ← hu]
            · obtain ⟨⟨ms', r'⟩, hr, he⟩ := Option.map_eq_some_iff.mp h
              obtain ⟨rfl, rfl⟩ := Prod.mk.inj he
              refine hb.trans ?_
              simp only [Members.print, List.append_assoc, List.cons_append, ← ihm hr, ← hcomma,
                ← hu]

/-- A byte that can start a value. -/
def startsValue (b : UInt8) : Bool :=
  (Digit.ofByte? b).isSome || b = 0x2d || b = 0x22 || b = 0x5b || b = 0x7b || b = 0x6e ||
    b = 0x74 || b = 0x66

private theorem startsValue_digit (d : Digit) : startsValue d.byte = true := by
  simp [startsValue, Digit.ofByte?_byte]

theorem Number.print_head (n : Number) :
    ∃ c r, n.print = c :: r ∧ (c = 0x2d ∨ ∃ d : Digit, c = d.byte) := by
  obtain ⟨neg, i, f, e⟩ := n
  cases neg with
  | true => exact ⟨0x2d, _, rfl, Or.inl rfl⟩
  | false =>
    cases i with
    | zero => exact ⟨_, _, rfl, Or.inr ⟨0, rfl⟩⟩
    | pos d ds => exact ⟨_, _, rfl, Or.inr ⟨d.succ, rfl⟩⟩

theorem Value.print_head (v : Value) : ∃ c r, v.print = c :: r ∧ startsValue c = true := by
  cases v with
  | number n =>
    obtain ⟨c, r, hn, hc⟩ := n.print_head
    refine ⟨c, r, by rw [Value.print, hn], ?_⟩
    rcases hc with rfl | ⟨d, rfl⟩
    · rfl
    · exact startsValue_digit d
  | bool x => cases x <;> exact ⟨_, _, rfl, rfl⟩
  | _ => exact ⟨_, _, rfl, rfl⟩

private theorem noBlank_of_startsValue {c : UInt8} {t : Bytes} (h : startsValue c = true) :
    NoBlank (c :: t) ∧ c ≠ 0x5d ∧ c ≠ 0x7d := by
  rw [noBlank_cons]
  cases hs : Space.ofByte? c with
  | some s =>
    have hc := Space.eq_byte hs
    subst hc
    cases s <;> cases h
  | none =>
    refine ⟨rfl, ?_, ?_⟩ <;> rintro rfl <;> cases h

theorem Value.noBlank_print (v : Value) (t : Bytes) : NoBlank (v.print ++ t) := by
  obtain ⟨c, r, hv, hc⟩ := v.print_head
  rw [hv]
  exact (noBlank_of_startsValue hc).1

theorem numberEnds_blank (w : Blank) {c : UInt8} (t : Bytes)
    (hc : continuesNumber c = false) : NumberEnds (w.print ++ c :: t) := by
  cases w with
  | nil => simpa [NumberEnds, Blank.print] using hc
  | cons s w => cases s <;> simp [NumberEnds, Blank.print, Space.byte] <;> rfl

theorem Value.length_print_pos (v : Value) : 0 < v.print.length := by
  obtain ⟨c, r, hv, -⟩ := v.print_head
  simp [hv]

theorem scanLabel_print (l : Label) {t : Bytes} (ht : NoBlank t) :
    scanLabel (l.print ++ t) = some (l, t) := by
  obtain ⟨pre, key, mid, lead⟩ := l
  have h1 := fun s => skipBlank_print pre (t := 0x22 :: s) (noBlank_cons.mpr rfl)
  have h2 := fun s => scanStr_print key s
  have h3 := fun s => skipBlank_print mid (t := 0x3a :: s) (noBlank_cons.mpr rfl)
  have h4 := skipBlank_print lead ht
  simp only [scanLabel, Label.print, Str.print, List.append_assoc, List.cons_append,
    List.nil_append, h1, h2, h3, h4, if_true]

theorem closes_print (c : UInt8) (hc : Space.ofByte? c = none) (w : Blank) (t : Bytes) :
    closes c (w.print ++ c :: t) = some (w, t) := by
  have h := skipBlank_print w (t := c :: t) (noBlank_cons.mpr hc)
  simp [closes, h]

private theorem closes_blank_ne {c d : UInt8} (w : Blank) (t : Bytes)
    (hd : Space.ofByte? d = none) (hne : d ≠ c) : closes c (w.print ++ d :: t) = none := by
  have h := skipBlank_print w (t := d :: t) (noBlank_cons.mpr hd)
  simp [closes, h, hne]

private theorem Elems.not_closes (es : Elems) (t : Bytes) :
    closes 0x5d (es.print ++ t) = none := by
  have key : ∀ (pre : Blank) (v : Value) (s : Bytes),
      closes 0x5d (pre.print ++ (v.print ++ s)) = none := by
    intro pre v s
    obtain ⟨c, r, hv, hc⟩ := v.print_head
    obtain ⟨hb, hne, -⟩ := noBlank_of_startsValue (t := r ++ s) hc
    rw [hv, List.cons_append]
    exact closes_blank_ne pre _ (noBlank_cons.mp hb) hne
  cases es <;> simp only [Elems.print, List.append_assoc, key]

private theorem Members.not_closes (ms : Members) (t : Bytes) :
    closes 0x7d (ms.print ++ t) = none := by
  have key : ∀ (l : Label) (s : Bytes), closes 0x7d (l.print ++ s) = none := by
    intro l s
    simp only [Label.print, Str.print, List.append_assoc, List.cons_append]
    exact closes_blank_ne l.pre _ rfl (by decide)
  cases ms <;> simp only [Members.print, List.append_assoc, key]

private theorem scanLiteral_print (lit : Bytes) (v : Value) (t : Bytes) :
    scanLiteral lit v (lit ++ t) = some (v, t) := by
  simp [scanLiteral]

private theorem parseValue_number (m : ℕ) (n : Number) {t : Bytes} (ht : NumberEnds t) :
    parseValue (m + 1) (n.print ++ t) = some (.number n, t) := by
  have hs := scanNumber_print n ht
  obtain ⟨c, r, hn, hc⟩ := n.print_head
  rw [hn, List.cons_append] at hs ⊢
  have hd : ∀ d : Digit, d.byte ≠ 0x22 ∧ d.byte ≠ 0x5b ∧ d.byte ≠ 0x7b ∧ d.byte ≠ 0x6e ∧
      d.byte ≠ 0x74 ∧ d.byte ≠ 0x66 := by decide
  have hne : c ≠ 0x22 ∧ c ≠ 0x5b ∧ c ≠ 0x7b ∧ c ≠ 0x6e ∧ c ≠ 0x74 ∧ c ≠ 0x66 := by
    rcases hc with rfl | ⟨d, rfl⟩
    · decide
    · exact hd d
  simp [parseValue, hne, hs]

mutual
theorem Value.parse_print (v : Value) (n : ℕ) (hn : v.print.length ≤ n) {t : Bytes}
    (ht : NumberEnds t) : parseValue n (v.print ++ t) = some (v, t) := by
  obtain ⟨n, rfl⟩ : ∃ m, n = m + 1 := ⟨n - 1, by have := v.length_print_pos; omega⟩
  cases v with
  | null => exact scanLiteral_print (ascii ['n', 'u', 'l', 'l']) .null t
  | bool x =>
    cases x with
    | true => exact scanLiteral_print (ascii ['t', 'r', 'u', 'e']) (.bool true) t
    | false => exact scanLiteral_print (ascii ['f', 'a', 'l', 's', 'e']) (.bool false) t
  | number k => simpa only [Value.print] using parseValue_number n k ht
  | string s => simp [Value.print, Str.print, parseValue, scanStr_print]
  | emptyArray w => simp [Value.print, parseValue, closes_print 0x5d rfl]
  | array es =>
    simp only [Value.print, List.length_cons, List.length_append, List.length_nil] at hn
    have he := Elems.parse_print es n (by omega) t
    simp [Value.print, parseValue, es.not_closes, he]
  | emptyObject w => simp [Value.print, parseValue, closes_print 0x7d rfl]
  | object ms =>
    simp only [Value.print, List.length_cons, List.length_append, List.length_nil] at hn
    have hm := Members.parse_print ms n (by omega) t
    simp [Value.print, parseValue, ms.not_closes, hm]

theorem Elems.parse_print (es : Elems) (n : ℕ) (hn : es.print.length + 1 ≤ n) (t : Bytes) :
    parseElems n (es.print ++ 0x5d :: t) = some (es, t) := by
  obtain ⟨n, rfl⟩ : ∃ m, n = m + 1 := ⟨n - 1, by omega⟩
  cases es with
  | one pre v post =>
    simp only [Elems.print, List.length_append] at hn
    have hp := fun s => skipBlank_print pre (v.noBlank_print s)
    have hv := Value.parse_print v n (by omega) (numberEnds_blank post t (c := 0x5d) rfl)
    have hq := skipBlank_print post (t := 0x5d :: t) (noBlank_cons.mpr rfl)
    simp only [parseElems, Elems.print, List.append_assoc, hp, hv, hq, if_true]
  | more pre v post rest =>
    have hpos := v.length_print_pos
    simp only [Elems.print, List.length_append, List.length_cons] at hn
    have hp := fun s => skipBlank_print pre (v.noBlank_print s)
    have hv := Value.parse_print v n (by omega)
      (numberEnds_blank post (rest.print ++ 0x5d :: t) (c := 0x2c) rfl)
    have hq := skipBlank_print post (t := 0x2c :: (rest.print ++ 0x5d :: t)) (noBlank_cons.mpr rfl)
    have hr := Elems.parse_print rest n (by omega) t
    simp only [parseElems, Elems.print, List.append_assoc, List.cons_append, hp, hv, hq, hr]
    rfl

theorem Members.parse_print (ms : Members) (n : ℕ) (hn : ms.print.length + 1 ≤ n) (t : Bytes) :
    parseMembers n (ms.print ++ 0x7d :: t) = some (ms, t) := by
  obtain ⟨n, rfl⟩ : ∃ m, n = m + 1 := ⟨n - 1, by omega⟩
  cases ms with
  | one l v post =>
    simp only [Members.print, List.length_append] at hn
    have hp := fun s => scanLabel_print l (v.noBlank_print s)
    have hv := Value.parse_print v n (by omega) (numberEnds_blank post t (c := 0x7d) rfl)
    have hq := skipBlank_print post (t := 0x7d :: t) (noBlank_cons.mpr rfl)
    simp only [parseMembers, Members.print, List.append_assoc, hp, hv, hq, if_true]
  | more l v post rest =>
    have hpos := v.length_print_pos
    simp only [Members.print, List.length_append, List.length_cons] at hn
    have hp := fun s => scanLabel_print l (v.noBlank_print s)
    have hv := Value.parse_print v n (by omega)
      (numberEnds_blank post (rest.print ++ 0x7d :: t) (c := 0x2c) rfl)
    have hq := skipBlank_print post (t := 0x2c :: (rest.print ++ 0x7d :: t)) (noBlank_cons.mpr rfl)
    have hr := Members.parse_print rest n (by omega) t
    simp only [parseMembers, Members.print, List.append_assoc, List.cons_append, hp, hv, hq, hr]
    rfl
end

/-- Parsing succeeds on printed trees and only there. -/
theorem parseDoc_eq_some_iff (b : Bytes) (d : Doc) : parseDoc b = some d ↔ d.print = b := by
  constructor
  · intro h
    unfold parseDoc at h
    split at h
    · cases h
    next v t hv =>
      split_ifs at h with ht
      have hd := Option.some.inj h
      subst hd
      have hb := skipBlank_sound b
      have ht' := skipBlank_sound t
      rw [ht, List.append_nil] at ht'
      rw [(parse_sound _).1 hv] at hb
      rw [Doc.print, ← ht', ← hb]
  · rintro rfl
    obtain ⟨pre, v, post⟩ := d
    have hends : NumberEnds post.print := by
      cases post with
      | nil => simp [NumberEnds, Blank.print]
      | cons s w => cases s <;> simp [NumberEnds, Blank.print, Space.byte] <;> rfl
    have hp := skipBlank_print pre (v.noBlank_print post.print)
    have hv := Value.parse_print v (pre.print ++ (v.print ++ post.print)).length
      (by simp only [List.length_append]; omega) hends
    have hq := skipBlank_print post noBlank_nil
    rw [List.append_nil] at hq
    simp only [parseDoc, Doc.print, hp, hv, hq, if_true]

theorem parse?_eq_some_iff (b : Bytes) (d : Doc) :
    parse? b = some d ↔ d.print = b ∧ d.value.depth ≤ maxNestingDepth := by
  rw [← parseDoc_eq_some_iff]
  unfold parse?
  cases parseDoc b with
  | none => simp
  | some e =>
    simp only [Option.some.injEq]
    split_ifs with h
    · constructor
      · intro he
        have := Option.some.inj he
        subst this
        exact ⟨rfl, h⟩
      · rintro ⟨rfl, -⟩
        rfl
    · constructor
      · intro he
        cases he
      · rintro ⟨rfl, hd⟩
        exact absurd hd h

end IngestKit.Json
