import IngestKit.Event.Number
import IngestKit.Event.Types
import IngestKit.Event.Unicode

/-! Payloads that PostgreSQL can store as JSONB. -/
namespace IngestKit.Event
open Json

/-- The token loop of `validJSONB`, with its depth counter. -/
def checkTokens : List Token → ℤ → Bool
  | [], _ => true
  | .delim b :: ts, depth =>
    if b = 0x7b ∨ b = 0x5b then
      if depth + 1 > maxPayloadDepth then false else checkTokens ts (depth + 1)
    else checkTokens ts (depth - 1)
  | .number n :: ts, depth =>
    if representableNumber n.print then checkTokens ts depth else false
  | _ :: ts, depth => checkTokens ts depth

def validJSONB (raw : Bytes) : Bool :=
  match parse? raw with
  | none => false
  | some d => validUnicodeJSON raw && checkTokens d.value.tokens 0

private theorem checkTokens_close {b : UInt8} (hb : b = 0x5d ∨ b = 0x7d) (ts : List Token)
    (depth : ℤ) : checkTokens (.delim b :: ts) (depth + 1) = checkTokens ts depth := by
  rw [checkTokens, if_neg, add_sub_cancel_right]
  rcases hb with rfl | rfl <;> decide

private theorem checkTokens_open {b : UInt8} (hb : b = 0x5b ∨ b = 0x7b) (ts : List Token)
    (depth : ℤ) : checkTokens (.delim b :: ts) depth =
      (decide (depth + 1 ≤ maxPayloadDepth) && checkTokens ts (depth + 1)) := by
  have hif : b = 0x7b ∨ b = 0x5b := hb.symm
  rw [checkTokens, if_pos hif]
  by_cases h : depth + 1 ≤ maxPayloadDepth
  · rw [if_neg (by omega), decide_eq_true h, Bool.true_and]
  · rw [if_pos (by omega), decide_eq_false h, Bool.false_and]

private theorem checkTokens_scalar {t : Token} (h : ∀ b, t ≠ .delim b) (hn : ∀ n, t ≠ .number n)
    (ts : List Token) (depth : ℤ) : checkTokens (t :: ts) depth = checkTokens ts depth := by
  cases t with
  | delim b => exact absurd rfl (h b)
  | number n => exact absurd rfl (hn n)
  | _ => rfl

private theorem checkTokens_string (s : Str) (ts : List Token) (depth : ℤ) :
    checkTokens (.string s :: ts) depth = checkTokens ts depth :=
  checkTokens_scalar (fun _ h => by cases h) (fun _ h => by cases h) ts depth

private theorem depth_max (depth : ℤ) (m n : ℕ) :
    decide (depth + (max m n : ℕ) ≤ maxPayloadDepth) =
      (decide (depth + m ≤ maxPayloadDepth) && decide (depth + n ≤ maxPayloadDepth)) := by
  rw [← Bool.decide_and]
  congr 1
  simp only [eq_iff_iff]
  omega

private theorem checkTokens_nested {o c : UInt8} (ho : o = 0x5b ∨ o = 0x7b)
    (hc : c = 0x5d ∨ c = 0x7d) {inner ts : List Token} {depth : ℤ} {k : ℕ} {ok : Bool}
    (h : ∀ ts, depth + 1 ≤ maxPayloadDepth → checkTokens (inner ++ ts) (depth + 1) =
      (decide (depth + 1 + k ≤ maxPayloadDepth) && ok && checkTokens ts (depth + 1))) :
    checkTokens (.delim o :: (inner ++ [.delim c]) ++ ts) depth =
      (decide (depth + (k + 1 : ℕ) ≤ maxPayloadDepth) && ok && checkTokens ts depth) := by
  rw [List.cons_append, checkTokens_open ho, List.append_assoc]
  by_cases hle : depth + 1 ≤ maxPayloadDepth
  · rw [h _ hle, List.singleton_append, checkTokens_close hc, decide_eq_true hle, Bool.true_and]
    congr 3
    push_cast
    simp only [eq_iff_iff]
    omega
  · rw [decide_eq_false hle, decide_eq_false (by push_cast; omega)]
    rfl

/-- The numbers a value holds are all representable. -/
def goodNumbers (ns : List Number) : Bool := ns.all fun n => representableNumber n.print

mutual
/-- The loop accepts a value when it does not nest too deep and its numbers are
representable; the counter is then back where it was. -/
theorem checkTokens_value (v : Value) (ts : List Token) (depth : ℤ) (hd : depth ≤ maxPayloadDepth) :
    checkTokens (v.tokens ++ ts) depth = (decide (depth + v.depth ≤ maxPayloadDepth) &&
      goodNumbers v.numbers && checkTokens ts depth) := by
  cases v with
  | number n =>
    simp only [Value.tokens, List.cons_append, List.nil_append, checkTokens, Value.depth,
      Value.numbers, goodNumbers, List.all_cons, List.all_nil, Nat.cast_zero, add_zero, hd,
      decide_true, Bool.true_and, Bool.and_true]
    cases representableNumber n.print <;> rfl
  | emptyArray w =>
    rw [Value.tokens, List.cons_append, checkTokens_open (Or.inl rfl), List.cons_append,
      checkTokens_close (Or.inl rfl)]
    simp [Value.depth, Value.numbers, goodNumbers]
  | emptyObject w =>
    rw [Value.tokens, List.cons_append, checkTokens_open (Or.inr rfl), List.cons_append,
      checkTokens_close (Or.inr rfl)]
    simp [Value.depth, Value.numbers, goodNumbers]
  | array es =>
    exact checkTokens_nested (Or.inl rfl) (Or.inl rfl) fun ts h => checkTokens_elems es ts _ h
  | object ms =>
    exact checkTokens_nested (Or.inr rfl) (Or.inr rfl) fun ts h => checkTokens_members ms ts _ h
  | _ =>
    rw [Value.tokens, List.singleton_append,
      checkTokens_scalar (fun _ h => by cases h) (fun _ h => by cases h)]
    simp [Value.depth, Value.numbers, goodNumbers, hd]

theorem checkTokens_elems (es : Elems) (ts : List Token) (depth : ℤ)
    (hd : depth ≤ maxPayloadDepth) :
    checkTokens (es.tokens ++ ts) depth = (decide (depth + es.depth ≤ maxPayloadDepth) &&
      goodNumbers es.numbers && checkTokens ts depth) := by
  cases es with
  | one pre v post => rw [Elems.tokens, checkTokens_value v _ _ hd, Elems.depth, Elems.numbers]
  | more pre v post rest =>
    rw [Elems.tokens, List.append_assoc, checkTokens_value v _ _ hd,
      checkTokens_elems rest _ _ hd, Elems.depth, Elems.numbers]
    simp only [goodNumbers, List.all_append, depth_max, Bool.and_assoc, Bool.and_left_comm]

theorem checkTokens_members (ms : Members) (ts : List Token) (depth : ℤ)
    (hd : depth ≤ maxPayloadDepth) :
    checkTokens (ms.tokens ++ ts) depth = (decide (depth + ms.depth ≤ maxPayloadDepth) &&
      goodNumbers ms.numbers && checkTokens ts depth) := by
  cases ms with
  | one l v post =>
    rw [Members.tokens, List.cons_append, checkTokens_string, checkTokens_value v _ _ hd,
      Members.depth, Members.numbers]
  | more l v post rest =>
    rw [Members.tokens, List.cons_append, checkTokens_string, List.append_assoc,
      checkTokens_value v _ _ hd, checkTokens_members rest _ _ hd, Members.depth, Members.numbers]
    simp only [goodNumbers, List.all_append, depth_max, Bool.and_assoc, Bool.and_left_comm]
end

/-- What PostgreSQL needs of a value: nesting, numbers and text. -/
def goodValue (v : Value) : Bool :=
  decide (v.depth ≤ maxPayloadDepth) && goodNumbers v.numbers && v.strings.all goodLiteral

theorem validJSONB_iff (raw : Bytes) :
    validJSONB raw = true ↔ ∃ d, parse? raw = some d ∧ goodValue d.value = true := by
  unfold validJSONB
  cases hp : parse? raw with
  | none => simp
  | some d =>
    have hraw := ((parse?_eq_some_iff raw d).mp hp).1
    have ht := checkTokens_value d.value [] 0 (by decide)
    rw [List.append_nil, zero_add] at ht
    simp only [ht, checkTokens, Bool.and_true, Option.some.injEq, exists_eq_left', goodValue,
      ← hraw, validUnicodeJSON_doc, Nat.cast_le]
    rw [Bool.and_comm]

/-- The token loop decides the tree: one JSON text with sound text, at most 64 nested containers and
representable numbers. -/
theorem validJSONB_exact (raw : Bytes) : validJSONB raw = true ↔
    ∃ d : Doc, d.print = raw ∧ validUnicodeJSON raw = true ∧ d.value.depth ≤ 64 ∧
      ∀ n ∈ d.value.numbers, representableNumber n.print = true := by
  rw [validJSONB_iff]
  constructor
  · rintro ⟨d, hparse, hgood⟩
    obtain ⟨rfl, -⟩ := (parse?_eq_some_iff raw d).mp hparse
    simp only [goodValue, goodNumbers, Bool.and_eq_true, decide_eq_true_eq, List.all_eq_true]
      at hgood
    refine ⟨d, rfl, ?_, hgood.1.1, hgood.1.2⟩
    rw [validUnicodeJSON_doc, List.all_eq_true]
    exact hgood.2
  · rintro ⟨d, rfl, htext, hdepth, hnumbers⟩
    have hnest : d.value.depth ≤ maxNestingDepth := le_trans hdepth (by decide)
    refine ⟨d, (parse?_eq_some_iff d.print d).mpr ⟨rfl, hnest⟩, ?_⟩
    rw [validUnicodeJSON_doc] at htext
    simp only [goodValue, goodNumbers, Bool.and_eq_true, decide_eq_true_eq, List.all_eq_true]
    exact ⟨⟨hdepth, hnumbers⟩, List.all_eq_true.mp htext⟩

theorem goodValue_strip (v : Value) : goodValue v.strip = goodValue v := by
  rw [goodValue, v.strip_depth, v.strip_numbers, v.strip_strings, goodValue]

end IngestKit.Event
