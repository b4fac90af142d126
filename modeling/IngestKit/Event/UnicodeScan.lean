import IngestKit.Event.Unicode

/-! The byte scan of `validUnicodeJSON` with its indices, and the escapes it accepts. -/
namespace IngestKit.Event
open Json

/-- How a loop over a slice can go wrong. -/
inductive Fault
  | indexOutOfRange | outOfSteps

/-- `raw[i]`. -/
def index (raw : Bytes) (i : ℕ) : Except Fault UInt8 :=
  match raw[i]? with
  | some b => .ok b
  | none => .error .indexOutOfRange

/-- `raw[i:j]`. -/
def slice (raw : Bytes) (i j : ℕ) : Except Fault Bytes :=
  if i ≤ j ∧ j ≤ raw.length then .ok ((raw.drop i).take (j - i)) else .error .indexOutOfRange

/-- `ParseUint` in base 16 of the four bytes of an escape. -/
def parseEscape : Bytes → Option ℕ
  | [a, b, c, d] => parseUnit a b c d
  | _ => none

/-- The loop of `validUnicodeJSON` from index `i` on, for at most `steps` iterations. -/
def unicodeLoop (raw : Bytes) : ℕ → ℕ → Except Fault Bool
  | 0, _ => .error .outOfSteps
  | steps + 1, i =>
    if raw.length ≤ i then .ok true
    else do
      let b ← index raw i
      if b ≠ 0x5c then unicodeLoop raw steps (i + 1)
      else if raw.length ≤ i + 1 then .ok false
      else
        let c ← index raw (i + 1)
        if c ≠ 0x75 then unicodeLoop raw steps (i + 2)
        else if raw.length ≤ i + 5 then .ok false
        else
          let digits ← slice raw (i + 2) (i + 6)
          match parseEscape digits with
          | none => .ok false
          | some unit =>
            if unit = 0 then .ok false
            else if isLow unit then .ok false
            else if isHigh unit then
              if raw.length ≤ i + 11 then .ok false
              else
                let x ← index raw (i + 6)
                if x ≠ 0x5c then .ok false
                else
                  let y ← index raw (i + 7)
                  if y ≠ 0x75 then .ok false
                  else
                    let digits ← slice raw (i + 8) (i + 12)
                    match parseEscape digits with
                    | none => .ok false
                    | some low => if isLow low then unicodeLoop raw steps (i + 12) else .ok false
            else unicodeLoop raw steps (i + 6)

def validUnicodeJSONIndexed (raw : Bytes) : Except Fault Bool :=
  if Utf8.valid raw then unicodeLoop raw (raw.length + 1) 0 else .ok false

private theorem index_add (raw : Bytes) (i k : ℕ) : index raw (i + k) = index (raw.drop i) k := by
  rw [index, index, List.getElem?_drop]

private theorem slice_add {raw : Bytes} {i : ℕ} (hi : i ≤ raw.length) (j k : ℕ) :
    slice raw (i + j) (i + k) = slice (raw.drop i) j k := by
  rw [slice, slice, List.drop_drop, List.length_drop, Nat.add_sub_add_left]
  exact if_congr (by omega) rfl rfl

private theorem slice_four (pre : Bytes) (p q r s : UInt8) (t : Bytes) :
    slice (pre ++ p :: q :: r :: s :: t) pre.length (pre.length + 4) = .ok [p, q, r, s] := by
  rw [slice, if_pos (by simp)]
  simp

private theorem length_le_add {raw : Bytes} {i : ℕ} (k : ℕ) :
    raw.length ≤ i + k ↔ (raw.drop i).length ≤ k := by
  rw [List.length_drop]
  omega

/-- The loop ends, stays in the slice and computes what the scan of the rest computes. -/
theorem unicodeLoop_eq (raw : Bytes) (steps i : ℕ) (hi : i ≤ raw.length)
    (h : raw.length < steps + i) :
    unicodeLoop raw steps i = .ok (scanUnicode (raw.drop i)) := by
  induction steps generalizing i with
  | zero => omega
  | succ steps ih =>
    have hnext : ∀ k, 0 < k → k ≤ (raw.drop i).length →
        unicodeLoop raw steps (i + k) = .ok (scanUnicode ((raw.drop i).drop k)) := by
      intro k hk hle
      rw [List.length_drop] at hle
      rw [ih (i + k) (by omega) (by omega), List.drop_drop]
    have hfirst : raw.length ≤ i ↔ (raw.drop i).length ≤ 0 := length_le_add 0
    have hindex : index raw i = index (raw.drop i) 0 := index_add raw i 0
    rw [unicodeLoop]
    simp only [hfirst, hindex, length_le_add, index_add, slice_add hi]
    generalize raw.drop i = t at hnext ⊢
    rcases t with _ | ⟨b, t⟩
    · rfl
    rw [if_neg (by simp)]
    change (if b ≠ 0x5c then _ else _) = _
    rw [scanUnicode.eq_def]
    dsimp only
    by_cases hb : b = 0x5c
    · rw [if_neg (not_not.mpr hb), if_neg (not_not.mpr hb)]
      rcases t with _ | ⟨c, t⟩
      · rfl
      rw [if_neg (by simp)]
      change (if c ≠ 0x75 then _ else _) = _
      dsimp only
      by_cases hc : c = 0x75
      · rw [if_neg (not_not.mpr hc), if_neg (not_not.mpr hc)]
        rcases t with _ | ⟨p, _ | ⟨q, _ | ⟨r, _ | ⟨s, t⟩⟩⟩⟩
        · rfl
        · rfl
        · rfl
        · rfl
        rw [if_neg (by simp), show slice (b :: c :: p :: q :: r :: s :: t) 2 6 = .ok [p, q, r, s]
          from slice_four [b, c] p q r s t]
        change (match parseUnit p q r s with | none => _ | some unit => _) = _
        dsimp only
        cases parseUnit p q r s with
        | none => rfl
        | some unit =>
          dsimp only
          by_cases hzero : unit = 0
          · rw [if_pos hzero, if_pos hzero]
          rw [if_neg hzero, if_neg hzero]
          by_cases hlow : isLow unit = true
          · rw [if_pos hlow, if_pos hlow]
          rw [if_neg hlow, if_neg hlow]
          by_cases hhigh : isHigh unit = true
          · rw [if_pos hhigh, if_pos hhigh]
            rcases t with _ | ⟨x, _ | ⟨y, _ | ⟨p', _ | ⟨q', _ | ⟨r', _ | ⟨s', t⟩⟩⟩⟩⟩⟩
            · rfl
            · rfl
            · rfl
            · rfl
            · rfl
            · rfl
            rw [if_neg (by simp)]
            change (if x ≠ 0x5c then _ else if y ≠ 0x75 then _ else _) = _
            dsimp only
            by_cases hx : x = 0x5c
            · rw [if_neg (not_not.mpr hx)]
              by_cases hy : y = 0x75
              · rw [if_neg (not_not.mpr hy), if_neg (by simp [hx, hy]),
                  show slice (b :: c :: p :: q :: r :: s :: x :: y :: p' :: q' :: r' :: s' :: t) 8 12 =
                    .ok [p', q', r', s'] from slice_four [b, c, p, q, r, s, x, y] p' q' r' s' t]
                change (match parseUnit p' q' r' s' with | none => _ | some low => _) = _
                cases parseUnit p' q' r' s' with
                | none => rfl
                | some low =>
                  dsimp only
                  by_cases hpair : isLow low = true
                  · rw [if_pos hpair, if_pos hpair, hnext 12 (by omega) (by simp)]
                    rfl
                  · rw [if_neg hpair, if_neg hpair]
              · rw [if_pos hy, if_pos (Or.inr hy)]
            · rw [if_pos hx, if_pos (Or.inl hx)]
          · rw [if_neg hhigh, if_neg hhigh, hnext 6 (by omega) (by simp)]
            rfl
      · rw [if_pos hc, if_pos hc, hnext 2 (by omega) (by simp)]
        rfl
    · rw [if_pos hb, if_pos hb, hnext 1 (by omega) (by simp)]
      rfl

theorem validUnicodeJSONIndexed_eq (raw : Bytes) :
    validUnicodeJSONIndexed raw = .ok (validUnicodeJSON raw) := by
  rw [validUnicodeJSONIndexed, validUnicodeJSON]
  cases Utf8.valid raw with
  | false => rfl
  | true => exact unicodeLoop_eq raw (raw.length + 1) 0 (Nat.zero_le _) (Nat.lt_succ_self _)

/-- No `\u` escape is zero, each high surrogate is immediately followed by a low one, and each low
surrogate follows a high one. -/
def WellPaired (s : Str) : Prop :=
  ∀ a u b, s = a ++ .uni u :: b → u.value ≠ 0 ∧
    (isHigh u.value = true → ∃ w b', b = .uni w :: b' ∧ isLow w.value = true) ∧
    (isLow u.value = true → ∃ a' w, a = a' ++ [.uni w] ∧ isHigh w.value = true)

private theorem wellPaired_nil : WellPaired [] := by
  intro a u b h
  simp at h

/-- An item that is neither zero nor a surrogate changes nothing. -/
private theorem wellPaired_cons {x : Item} {s : Str} (hx : ∀ u, x = .uni u →
    u.value ≠ 0 ∧ isHigh u.value = false ∧ isLow u.value = false) :
    WellPaired (x :: s) ↔ WellPaired s := by
  constructor
  · intro h a u b hs
    obtain ⟨hzero, hhigh, hlow⟩ := h (x :: a) u b (by rw [hs]; rfl)
    refine ⟨hzero, hhigh, fun hu => ?_⟩
    obtain ⟨a', w, ha, hw⟩ := hlow hu
    cases a' with
    | nil =>
      rw [List.nil_append, List.cons.injEq] at ha
      rw [(hx w ha.1).2.1] at hw
      cases hw
    | cons y a' =>
      rw [List.cons_append, List.cons.injEq] at ha
      exact ⟨a', w, ha.2, hw⟩
  · intro h a u b hs
    cases a with
    | nil =>
      rw [List.nil_append, List.cons.injEq] at hs
      obtain ⟨hzero, hhigh, hlow⟩ := hx u hs.1
      simp [hzero, hhigh, hlow]
    | cons y a =>
      rw [List.cons_append, List.cons.injEq] at hs
      obtain ⟨hzero, hhigh, hlow⟩ := h a u b hs.2
      refine ⟨hzero, hhigh, fun hu => ?_⟩
      obtain ⟨a', w, ha, hw⟩ := hlow hu
      exact ⟨y :: a', w, by rw [ha]; rfl, hw⟩

private theorem value_ne_zero_of_low {u : ℕ} (h : isLow u = true) : u ≠ 0 := by
  rintro rfl
  cases h

/-- A pair in front changes nothing. -/
private theorem wellPaired_pair {u w : CodeUnit} {s : Str} (hu : isHigh u.value = true)
    (hzero : u.value ≠ 0) (hw : isLow w.value = true) :
    WellPaired (.uni u :: .uni w :: s) ↔ WellPaired s := by
  have hwh : isHigh w.value = false := by
    cases hh : isHigh w.value with
    | false => rfl
    | true => rw [not_low_of_high hh] at hw; cases hw
  constructor
  · intro h a v b hs
    obtain ⟨hv, hhigh, hlow⟩ := h (.uni u :: .uni w :: a) v b (by rw [hs]; rfl)
    refine ⟨hv, hhigh, fun hl => ?_⟩
    obtain ⟨a', y, ha, hy⟩ := hlow hl
    rcases a' with _ | ⟨c, _ | ⟨d, a'⟩⟩
    · simp at ha
    · simp only [List.cons_append, List.nil_append, List.cons.injEq, Item.uni.injEq] at ha
      rw [← ha.2.1, hwh] at hy
      cases hy
    · simp only [List.cons_append, List.cons.injEq] at ha
      exact ⟨a', y, ha.2.2, hy⟩
  · intro h a v b hs
    rcases a with _ | ⟨c, _ | ⟨d, a⟩⟩
    · simp only [List.nil_append, List.cons.injEq, Item.uni.injEq] at hs
      obtain ⟨rfl, rfl⟩ := hs
      refine ⟨hzero, fun _ => ⟨w, s, rfl, hw⟩, fun hl => ?_⟩
      rw [not_low_of_high hu] at hl
      cases hl
    · simp only [List.cons_append, List.nil_append, List.cons.injEq, Item.uni.injEq] at hs
      obtain ⟨rfl, rfl, rfl⟩ := hs
      refine ⟨value_ne_zero_of_low hw, fun hh => ?_, fun _ => ⟨[], u, rfl, hu⟩⟩
      rw [hwh] at hh
      cases hh
    · simp only [List.cons_append, List.cons.injEq] at hs
      obtain ⟨rfl, rfl, hs⟩ := hs
      obtain ⟨hv, hhigh, hlow⟩ := h a v b hs
      refine ⟨hv, hhigh, fun hl => ?_⟩
      obtain ⟨a', y, ha, hy⟩ := hlow hl
      exact ⟨.uni u :: .uni w :: a', y, by rw [ha]; rfl, hy⟩

theorem paired_iff : ∀ s : Str, s.paired = true ↔ WellPaired s
  | [] => iff_of_true rfl wellPaired_nil
  | .raw b :: s => by
    rw [Str.paired, paired_iff s, wellPaired_cons fun u h => by cases h]
  | .esc e :: s => by
    rw [Str.paired, paired_iff s, wellPaired_cons fun u h => by cases h]
  | .uni u :: s => by
    rw [Str.paired.eq_def]
    dsimp only
    by_cases hzero : u.value = 0
    · rw [if_pos hzero]
      exact iff_of_false (by simp) fun h => (h [] u s rfl).1 hzero
    rw [if_neg hzero]
    by_cases hlow : isLow u.value = true
    · rw [if_pos hlow]
      refine iff_of_false (by simp) fun h => ?_
      obtain ⟨a', w, ha, -⟩ := (h [] u s rfl).2.2 hlow
      simp at ha
    rw [if_neg hlow]
    by_cases hhigh : isHigh u.value = true
    · rw [if_pos hhigh]
      have hpair : ∀ s' : Str, (∀ w b, s' ≠ .uni w :: b) → ¬ WellPaired (.uni u :: s') := by
        intro s' hs' h
        obtain ⟨w, b, hb, -⟩ := (h [] u s' rfl).2.1 hhigh
        exact hs' w b hb
      cases s with
      | nil => exact iff_of_false (by simp) (hpair _ (by simp))
      | cons i s =>
        cases i with
        | raw b => exact iff_of_false (by simp) (hpair _ (by simp))
        | esc e => exact iff_of_false (by simp) (hpair _ (by simp))
        | uni w =>
          dsimp only
          cases hw : isLow w.value with
          | true => rw [Bool.true_and, paired_iff s, wellPaired_pair hhigh hzero hw]
          | false =>
            refine iff_of_false (by simp) fun h => ?_
            obtain ⟨w', b', hb, hw'⟩ := (h [] u _ rfl).2.1 hhigh
            cases hb
            rw [hw] at hw'
            cases hw'
    · rw [if_neg hhigh, paired_iff s, wellPaired_cons fun v hv => ?_]
      cases hv
      exact ⟨hzero, Bool.eq_false_iff.mpr hhigh, Bool.eq_false_iff.mpr hlow⟩

/-- On every JSON text the check accepts exactly valid UTF-8 with well-paired escapes; on every byte
string it ends without leaving the slice. -/
theorem validUnicodeJSON_exact :
    (∀ d : Doc, validUnicodeJSON d.print = true ↔
      Utf8.valid d.print = true ∧ ∀ s ∈ d.value.strings, WellPaired s) ∧
    ∀ raw : Bytes, validUnicodeJSONIndexed raw = .ok (validUnicodeJSON raw) := by
  refine ⟨fun d => ?_, validUnicodeJSONIndexed_eq⟩
  rw [validUnicodeJSON, scanUnicode_doc, Bool.and_eq_true, List.all_eq_true]
  simp only [paired_iff]

end IngestKit.Event
