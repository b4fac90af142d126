import IngestKit.Event.Number
import IngestKit.Event.Types

/-! The digit arithmetic decides the exact range of PostgreSQL numeric, and its 64-bit sums do not
overflow. -/
namespace IngestKit.Event
open Json

/-- A sum that is kept only if it fits a signed 64-bit integer. -/
def int64 (x : ℤ) : Option ℤ :=
  if -9223372036854775808 ≤ x ∧ x < 9223372036854775808 then some x else none

theorem int64_of_fits {x : ℤ} (h : -9223372036854775808 ≤ x ∧ x < 9223372036854775808) :
    int64 x = some x := if_pos h

/-- `representableNumber` with every sum checked; no result if one overflows. -/
def representableNumber64 (number : Bytes) : Option Bool :=
  let parts := cut isExponent (trimMinus number)
  let s := parts.1
  match parts.2.elim (some 0) parseInt32 with
  | none => some false
  | some exponent => do
    let high ← int64 (131072 + s.length)
    if exponent > high then return false
    let low ← int64 (-16383 - s.length)
    if exponent < low then return false
    let before := (cut isPoint s).1.length
    let fraction := (cut isPoint s).2.elim 0 List.length
    let digits := s.filter fun b => !isPoint b
    let leading := digits.length - (digits.dropWhile (· = 0x30)).length
    let shifted ← int64 (before + exponent)
    let significant ← int64 (shifted - leading)
    let whole := if leading = digits.length then 0 else significant
    let scale ← int64 (fraction - exponent)
    return whole ≤ 131072 && scale ≤ 16383

private theorem length_trimMinus (s : Bytes) : (trimMinus s).length ≤ s.length := by
  cases s with
  | nil => simp [trimMinus]
  | cons b s =>
    rw [trimMinus]
    split_ifs <;> simp

private theorem length_cut (p : UInt8 → Bool) (s : Bytes) :
    (cut p s).1.length + (cut p s).2.elim 0 List.length ≤ s.length := by
  induction s with
  | nil => simp [cut]
  | cons b s ih =>
    rw [cut]
    split_ifs
    · simp
    · simp only [List.length_cons]
      omega

private theorem parseInt32_fits {s : Bytes} {x : ℤ} (h : parseInt32 s = some x) :
    -2147483648 ≤ x ∧ x < 2147483648 := by
  unfold parseInt32 at h
  split at h
  · dsimp only at h
    split_ifs at h
    · cases h
      omega
    · cases h
      omega
  · cases h

theorem representableNumber64_eq {number : Bytes} (h : number.length ≤ maxEnvelopeBytes) :
    representableNumber64 number = some (representableNumber number) := by
  have hlen : number.length ≤ 266240 := h
  have htrim := length_trimMinus number
  have hcut := length_cut isExponent (trimMinus number)
  unfold representableNumber64 representableNumber
  dsimp only
  generalize cut isExponent (trimMinus number) = parts at hcut ⊢
  have hpoint := length_cut isPoint parts.1
  have hdigits := List.length_filter_le (fun b => !isPoint b) parts.1
  cases hread : parts.2.elim (some 0) parseInt32 with
  | none => rfl
  | some exponent =>
    have hfits : -2147483648 ≤ exponent ∧ exponent < 2147483648 := by
      cases hp : parts.2 with
      | none =>
        rw [hp] at hread
        cases hread
        omega
      | some t =>
        rw [hp] at hread
        exact parseInt32_fits hread
    dsimp only
    simp only [Option.bind_eq_bind, Option.pure_def]
    rw [int64_of_fits (by omega), Option.bind_some]
    by_cases hhigh : exponent > 131072 + parts.1.length
    · rw [if_pos hhigh, if_pos (Or.inl hhigh)]
    rw [if_neg hhigh, int64_of_fits (by omega), Option.bind_some]
    by_cases hlow : exponent < -16383 - parts.1.length
    · rw [if_pos hlow, if_pos (Or.inr hlow)]
    rw [if_neg hlow, int64_of_fits (by omega), Option.bind_some, int64_of_fits (by omega),
      Option.bind_some, int64_of_fits (by omega), Option.bind_some,
      if_neg (not_or.mpr ⟨hhigh, hlow⟩)]

/-- The test is exact: a nonzero literal passes if its value has at most 131072 digits before the
point and its written scale is at most 16383; and no sum overflows. -/
theorem representable_exact (n : Number) (hlen : n.print.length ≤ maxEnvelopeBytes) :
    representableNumber64 n.print = some (representableNumber n.print) ∧
    (digitsVal n.digits ≠ 0 →
      (representableNumber n.print = true ↔ |n.value| < 10 ^ 131072 ∧ n.scale ≤ 16383)) ∧
    (digitsVal n.digits = 0 → representableNumber n.print = true → n.scale ≤ 16383) := by
  refine ⟨representableNumber64_eq hlen, fun hvalue => ?_, fun _ h => ?_⟩
  · have hdigits := Number.integerDigits_iff hvalue 131072
    obtain ⟨hleading, -⟩ := le_digitsVal_leading hvalue
    obtain ⟨hlow, hhigh⟩ := length_mantissa n
    have hmax : n.print.length ≤ 266240 := hlen
    have hsum : n.digits.length = n.int.digits.length + n.fractionDigits.length := by
      rw [Number.digits, List.length_append]
    rw [n.abs_value, ← Number.IntegerDigits, hdigits]
    constructor
    · intro h
      obtain ⟨-, -, hwhole, hscale⟩ := (representableNumber_iff n).mp h
      exact ⟨hwhole.resolve_left (by omega), hscale⟩
    · rintro ⟨hwhole, hscale⟩
      have hwritten : (n.fractionDigits.length : ℤ) - n.exponent ≤ 16383 := hscale
      rw [representableNumber_iff]
      exact ⟨⟨by omega, by omega⟩, ⟨by omega, by omega⟩, Or.inr hwhole, hscale⟩
  · exact (integerDigits_of_representable h).2

/-- `-0.05e131073`: the largest exponent its digits allow. -/
def edgeNumber : Number :=
  ⟨true, .zero, some ⟨0, [5]⟩, some ⟨false, none, 1, [3, 1, 0, 7, 3]⟩⟩

theorem representable_exact_edge :
    edgeNumber.print.length ≤ maxEnvelopeBytes ∧ representableNumber edgeNumber.print = true ∧
      |edgeNumber.value| < 10 ^ 131072 ∧ edgeNumber.scale ≤ 16383 := by
  have hlen : edgeNumber.print.length ≤ maxEnvelopeBytes := by decide
  have hpass : representableNumber edgeNumber.print = true := by decide +kernel
  exact ⟨hlen, hpass, ((representable_exact edgeNumber hlen).2.1 (by decide)).mp hpass⟩

end IngestKit.Event
