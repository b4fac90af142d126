import IngestKit.Json.Parse
import IngestKit.Json.Quote

/-! Operations on syntax trees: removing insignificant whitespace, the token
stream, and UTF-8 validity of a printed tree as validity of its literals. -/
namespace IngestKit.Json

mutual
/-- The same value without insignificant whitespace. -/
def Value.strip : Value → Value
  | .emptyArray _ => .emptyArray []
  | .array es => .array es.strip
  | .emptyObject _ => .emptyObject []
  | .object ms => .object ms.strip
  | v => v

def Elems.strip : Elems → Elems
  | .one _ v _ => .one [] v.strip []
  | .more _ v _ rest => .more [] v.strip [] rest.strip

def Members.strip : Members → Members
  | .one l v _ => .one ⟨[], l.key, [], []⟩ v.strip []
  | .more l v _ rest => .more ⟨[], l.key, [], []⟩ v.strip [] rest.strip
end

/-- Removal of insignificant whitespace from a text. -/
def compact (b : Bytes) : Option Bytes := (parse? b).map fun d => d.value.strip.print

/-- Tokens of a stream decoder that keeps numbers as written. -/
inductive Token
  | delim (b : UInt8)
  | null
  | bool (x : Bool)
  | number (n : Number)
  | string (s : Str)
  deriving DecidableEq

mutual
def Value.tokens : Value → List Token
  | .null => [.null]
  | .bool x => [.bool x]
  | .number n => [.number n]
  | .string s => [.string s]
  | .emptyArray _ => [.delim 0x5b, .delim 0x5d]
  | .array es => .delim 0x5b :: (es.tokens ++ [.delim 0x5d])
  | .emptyObject _ => [.delim 0x7b, .delim 0x7d]
  | .object ms => .delim 0x7b :: (ms.tokens ++ [.delim 0x7d])

def Elems.tokens : Elems → List Token
  | .one _ v _ => v.tokens
  | .more _ v _ rest => v.tokens ++ rest.tokens

def Members.tokens : Members → List Token
  | .one l v _ => .string l.key :: v.tokens
  | .more l v _ rest => .string l.key :: (v.tokens ++ rest.tokens)
end

mutual
/-- The insignificant whitespace of a value, in order. -/
def Value.blank : Value → Blank
  | .emptyArray w => w
  | .array es => es.blank
  | .emptyObject w => w
  | .object ms => ms.blank
  | _ => []

def Elems.blank : Elems → Blank
  | .one pre v post => pre ++ (v.blank ++ post)
  | .more pre v post rest => pre ++ (v.blank ++ (post ++ rest.blank))

def Members.blank : Members → Blank
  | .one l v post => l.pre ++ (l.mid ++ (l.lead ++ (v.blank ++ post)))
  | .more l v post rest => l.pre ++ (l.mid ++ (l.lead ++ (v.blank ++ (post ++ rest.blank))))
end

mutual
theorem Value.strip_tokens (v : Value) : v.strip.tokens = v.tokens := by
  cases v with
  | array es => simp only [Value.strip, Value.tokens, es.strip_tokens]
  | object ms => simp only [Value.strip, Value.tokens, ms.strip_tokens]
  | _ => simp only [Value.strip, Value.tokens]

theorem Elems.strip_tokens (es : Elems) : es.strip.tokens = es.tokens := by
  cases es with
  | one _ v _ => simp only [Elems.strip, Elems.tokens, v.strip_tokens]
  | more _ v _ rest => simp only [Elems.strip, Elems.tokens, v.strip_tokens, rest.strip_tokens]

theorem Members.strip_tokens (ms : Members) : ms.strip.tokens = ms.tokens := by
  cases ms with
  | one _ v _ => simp only [Members.strip, Members.tokens, v.strip_tokens]
  | more _ v _ rest => simp only [Members.strip, Members.tokens, v.strip_tokens, rest.strip_tokens]
end

mutual
theorem Value.strip_blank (v : Value) : v.strip.blank = [] := by
  cases v with
  | array es => simp only [Value.strip, Value.blank, es.strip_blank]
  | object ms => simp only [Value.strip, Value.blank, ms.strip_blank]
  | _ => simp only [Value.strip, Value.blank]

theorem Elems.strip_blank (es : Elems) : es.strip.blank = [] := by
  cases es with
  | one _ v _ => simp only [Elems.strip, Elems.blank, v.strip_blank, List.append_nil]
  | more _ v _ rest =>
    simp only [Elems.strip, Elems.blank, v.strip_blank, rest.strip_blank, List.append_nil]

theorem Members.strip_blank (ms : Members) : ms.strip.blank = [] := by
  cases ms with
  | one _ v _ => simp only [Members.strip, Members.blank, v.strip_blank, List.append_nil]
  | more _ v _ rest =>
    simp only [Members.strip, Members.blank, v.strip_blank, rest.strip_blank, List.append_nil]
end

mutual
theorem Value.strip_depth (v : Value) : v.strip.depth = v.depth := by
  cases v with
  | array es => simp only [Value.strip, Value.depth, es.strip_depth]
  | object ms => simp only [Value.strip, Value.depth, ms.strip_depth]
  | _ => simp only [Value.strip, Value.depth]

theorem Elems.strip_depth (es : Elems) : es.strip.depth = es.depth := by
  cases es with
  | one _ v _ => simp only [Elems.strip, Elems.depth, v.strip_depth]
  | more _ v _ rest => simp only [Elems.strip, Elems.depth, v.strip_depth, rest.strip_depth]

theorem Members.strip_depth (ms : Members) : ms.strip.depth = ms.depth := by
  cases ms with
  | one _ v _ => simp only [Members.strip, Members.depth, v.strip_depth]
  | more _ v _ rest => simp only [Members.strip, Members.depth, v.strip_depth, rest.strip_depth]
end

theorem parse?_print {v : Value} (h : v.depth ≤ maxNestingDepth) :
    parse? v.print = some ⟨[], v, []⟩ := by
  rw [parse?_eq_some_iff]
  refine ⟨?_, h⟩
  simp [Doc.print, Blank.print]

/-- The second text has the tokens of the first, and no whitespace between them. -/
def Compacted (b c : Bytes) : Prop :=
  ∃ d v, parse? b = some d ∧ parse? c = some ⟨[], v, []⟩ ∧ v.tokens = d.value.tokens ∧ v.blank = []

theorem compacted_of_compact {b c : Bytes} (h : compact b = some c) : Compacted b c := by
  obtain ⟨d, hd, rfl⟩ := Option.map_eq_some_iff.mp h
  have hdepth : d.value.strip.depth ≤ maxNestingDepth := by
    rw [d.value.strip_depth]
    exact ((parse?_eq_some_iff b d).mp hd).2
  exact ⟨d, d.value.strip, hd, parse?_print hdepth, d.value.strip_tokens, d.value.strip_blank⟩

mutual
theorem Value.strip_strings (v : Value) : v.strip.strings = v.strings := by
  cases v with
  | array es => simp only [Value.strip, Value.strings, es.strip_strings]
  | object ms => simp only [Value.strip, Value.strings, ms.strip_strings]
  | _ => simp only [Value.strip, Value.strings]

theorem Elems.strip_strings (es : Elems) : es.strip.strings = es.strings := by
  cases es with
  | one _ v _ => simp only [Elems.strip, Elems.strings, v.strip_strings]
  | more _ v _ rest => simp only [Elems.strip, Elems.strings, v.strip_strings, rest.strip_strings]

theorem Members.strip_strings (ms : Members) : ms.strip.strings = ms.strings := by
  cases ms with
  | one _ v _ => simp only [Members.strip, Members.strings, v.strip_strings]
  | more _ v _ rest =>
    simp only [Members.strip, Members.strings, v.strip_strings, rest.strip_strings]
end

mutual
theorem Value.strip_numbers (v : Value) : v.strip.numbers = v.numbers := by
  cases v with
  | array es => simp only [Value.strip, Value.numbers, es.strip_numbers]
  | object ms => simp only [Value.strip, Value.numbers, ms.strip_numbers]
  | _ => simp only [Value.strip, Value.numbers]

theorem Elems.strip_numbers (es : Elems) : es.strip.numbers = es.numbers := by
  cases es with
  | one _ v _ => simp only [Elems.strip, Elems.numbers, v.strip_numbers]
  | more _ v _ rest => simp only [Elems.strip, Elems.numbers, v.strip_numbers, rest.strip_numbers]

theorem Members.strip_numbers (ms : Members) : ms.strip.numbers = ms.numbers := by
  cases ms with
  | one _ v _ => simp only [Members.strip, Members.numbers, v.strip_numbers]
  | more _ v _ rest =>
    simp only [Members.strip, Members.numbers, v.strip_numbers, rest.strip_numbers]
end

theorem Value.strip_isObject (v : Value) : v.strip.isObject = v.isObject := by
  cases v <;> simp only [Value.strip, Value.isObject]

private theorem length_blank (w : Blank) : (Blank.print w).length = w.length := by
  simp [Blank.print]

mutual
theorem Value.length_strip_le (v : Value) : v.strip.print.length ≤ v.print.length := by
  cases v with
  | array es =>
    have h := es.length_strip_le
    simp only [Value.strip, Value.print, List.length_cons, List.length_append]
    omega
  | object ms =>
    have h := ms.length_strip_le
    simp only [Value.strip, Value.print, List.length_cons, List.length_append]
    omega
  | emptyArray w => simp [Value.strip, Value.print, Blank.print]
  | emptyObject w => simp [Value.strip, Value.print, Blank.print]
  | _ => simp only [Value.strip, le_refl]

theorem Elems.length_strip_le (es : Elems) : es.strip.print.length ≤ es.print.length := by
  cases es with
  | one pre v post =>
    have h := v.length_strip_le
    simp only [Elems.strip, Elems.print, List.length_append, length_blank, List.length_nil]
    omega
  | more pre v post rest =>
    have h := v.length_strip_le
    have hr := rest.length_strip_le
    simp only [Elems.strip, Elems.print, List.length_append, List.length_cons, length_blank,
      List.length_nil]
    omega

theorem Members.length_strip_le (ms : Members) : ms.strip.print.length ≤ ms.print.length := by
  cases ms with
  | one l v post =>
    have h := v.length_strip_le
    simp only [Members.strip, Members.print, Label.print, List.length_append, List.length_cons,
      length_blank, List.length_nil]
    omega
  | more l v post rest =>
    have h := v.length_strip_le
    have hr := rest.length_strip_le
    simp only [Members.strip, Members.print, Label.print, List.length_append, List.length_cons,
      length_blank, List.length_nil]
    omega
end

/-- All bytes below 0x80. -/
def AllAscii (b : Bytes) : Prop := ∀ x ∈ b, x.toNat < 0x80

theorem valid_ascii_append {a : Bytes} (ha : AllAscii a) (b : Bytes) :
    Utf8.valid (a ++ b) = Utf8.valid b := by
  induction a with
  | nil => rfl
  | cons x a ih =>
    rw [List.cons_append, Utf8.valid_ascii_cons _ _ (ha x (by simp)),
      ih fun y hy => ha y (by simp [hy])]

theorem valid_append_ascii {b : Bytes} (hb : AllAscii b) (a : Bytes) :
    Utf8.valid (a ++ b) = Utf8.valid a := by
  cases b with
  | nil => rw [List.append_nil]
  | cons x b =>
    have h := valid_ascii_append (fun y hy => hb y (by simp [hy]) : AllAscii b) []
    rw [List.append_nil, Utf8.valid_nil] at h
    rw [Utf8.valid_append_ascii _ _ _ (hb x (by simp)), h, Bool.and_true]

theorem allAscii_blank (w : Blank) : AllAscii w.print := by
  intro x hx
  obtain ⟨s, -, rfl⟩ := List.mem_map.mp hx
  cases s <;> decide

theorem allAscii_digits (ds : List Digit) : AllAscii (printDigits ds) := by
  intro x hx
  obtain ⟨d, -, rfl⟩ := List.mem_map.mp hx
  exact (by decide : ∀ d : Digit, d.byte.toNat < 0x80) d

theorem AllAscii.append {a b : Bytes} (ha : AllAscii a) (hb : AllAscii b) : AllAscii (a ++ b) := by
  intro x hx
  rcases List.mem_append.mp hx with h | h
  · exact ha x h
  · exact hb x h

theorem AllAscii.cons {x : UInt8} {b : Bytes} (hx : x.toNat < 0x80) (hb : AllAscii b) :
    AllAscii (x :: b) := by
  intro y hy
  rcases List.mem_cons.mp hy with rfl | h
  · exact hx
  · exact hb y h

theorem allAscii_nil : AllAscii [] := by simp [AllAscii]

theorem allAscii_number (n : Number) : AllAscii n.print := by
  obtain ⟨neg, i, f, e⟩ := n
  refine .append ?_ (.append (allAscii_digits _) (.append ?_ ?_))
  · cases neg
    · exact allAscii_nil
    · exact .cons (by decide) allAscii_nil
  · cases f with
    | none => exact allAscii_nil
    | some f => exact .cons (by decide) (allAscii_digits _)
  · cases e with
    | none => exact allAscii_nil
    | some e =>
      obtain ⟨upper, sign, d, ds⟩ := e
      refine .cons (by dsimp only; split_ifs <;> decide) (.append ?_ (allAscii_digits _))
      rcases sign with _ | s | s
      · exact allAscii_nil
      · exact .cons (by decide) allAscii_nil
      · exact .cons (by decide) allAscii_nil

private theorem valid_number (n : Number) : Utf8.valid n.print = true := by
  have h := valid_ascii_append (allAscii_number n) []
  rwa [List.append_nil, Utf8.valid_nil] at h

theorem valid_str_append (s : Str) (t : Bytes) :
    Utf8.valid (s.print ++ t) = (Utf8.valid s.body && Utf8.valid t) := by
  rw [Str.print, List.cons_append, Utf8.valid_ascii_cons _ _ (by decide), List.append_assoc,
    List.singleton_append, Utf8.valid_append_ascii _ _ _ (by decide)]

private theorem valid_label_append (l : Label) (t : Bytes) :
    Utf8.valid (l.print ++ t) = (Utf8.valid l.key.body && Utf8.valid t) := by
  rw [Label.print, List.append_assoc, valid_ascii_append (allAscii_blank _), List.append_assoc,
    valid_str_append, List.append_assoc, valid_ascii_append (allAscii_blank _), List.cons_append,
    Utf8.valid_ascii_cons _ _ (by decide), valid_ascii_append (allAscii_blank _)]

private theorem valid_value_blank (v : Value) (post : Blank) :
    Utf8.valid (v.print ++ post.print) = Utf8.valid v.print :=
  valid_append_ascii (allAscii_blank post) _

private theorem valid_value_comma (v : Value) (post : Blank) (t : Bytes) :
    Utf8.valid (v.print ++ (post.print ++ 0x2c :: t)) = (Utf8.valid v.print && Utf8.valid t) := by
  rw [← List.append_assoc, Utf8.valid_append_ascii _ _ _ (by decide), valid_value_blank]

mutual
/-- A printed tree is well-formed UTF-8 exactly when each of its literals is. -/
theorem Value.valid_print (v : Value) :
    Utf8.valid v.print = v.strings.all fun s => Utf8.valid s.body := by
  cases v with
  | null => rfl
  | bool x => cases x <;> rfl
  | number n => simp only [Value.print, Value.strings, List.all_nil, valid_number]
  | string s =>
    have h := valid_str_append s []
    rw [List.append_nil, Utf8.valid_nil, Bool.and_true] at h
    simp only [Value.print, Value.strings, List.all_cons, List.all_nil, Bool.and_true, h]
  | emptyArray w =>
    rw [Value.print, Utf8.valid_ascii_cons _ _ (by decide), valid_ascii_append (allAscii_blank w)]
    rfl
  | array es =>
    rw [Value.print, Utf8.valid_ascii_cons _ _ (by decide),
      Utf8.valid_append_ascii _ _ _ (by decide), es.valid_print, Utf8.valid_nil, Bool.and_true,
      Value.strings]
  | emptyObject w =>
    rw [Value.print, Utf8.valid_ascii_cons _ _ (by decide), valid_ascii_append (allAscii_blank w)]
    rfl
  | object ms =>
    rw [Value.print, Utf8.valid_ascii_cons _ _ (by decide),
      Utf8.valid_append_ascii _ _ _ (by decide), ms.valid_print, Utf8.valid_nil, Bool.and_true,
      Value.strings]

theorem Elems.valid_print (es : Elems) :
    Utf8.valid es.print = es.strings.all fun s => Utf8.valid s.body := by
  cases es with
  | one pre v post =>
    rw [Elems.print, valid_ascii_append (allAscii_blank pre), valid_value_blank, v.valid_print,
      Elems.strings]
  | more pre v post rest =>
    rw [Elems.print, valid_ascii_append (allAscii_blank pre), valid_value_comma, v.valid_print,
      rest.valid_print, Elems.strings, List.all_append]

theorem Members.valid_print (ms : Members) :
    Utf8.valid ms.print = ms.strings.all fun s => Utf8.valid s.body := by
  cases ms with
  | one l v post =>
    rw [Members.print, valid_label_append, valid_value_blank, v.valid_print, Members.strings,
      List.all_cons]
  | more l v post rest =>
    rw [Members.print, valid_label_append, valid_value_comma, v.valid_print, rest.valid_print,
      Members.strings, List.all_cons, List.all_append]
end

theorem Doc.valid_print (d : Doc) : Utf8.valid d.print = Utf8.valid d.value.print := by
  rw [Doc.print, valid_ascii_append (allAscii_blank _), valid_value_blank]

end IngestKit.Json
