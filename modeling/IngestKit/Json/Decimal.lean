import IngestKit.Json.Syntax
import Mathlib.Algebra.Order.Field.Power
import Mathlib.Data.Rat.Defs
import Mathlib.Algebra.Order.Field.Rat

/-! The decimal value of a number literal. -/
namespace IngestKit.Json

def Exponent.value (e : Exponent) : ℤ :=
  match e.sign with
  | some .minus => -(digitsVal e.digits : ℤ)
  | _ => digitsVal e.digits

def Number.exponent (n : Number) : ℤ := n.exp.elim 0 Exponent.value

def Number.fractionDigits (n : Number) : List Digit := n.frac.elim [] Fraction.digits

def Number.digits (n : Number) : List Digit := n.int.digits ++ n.fractionDigits

/-- Absolute value. -/
def Number.magnitude (n : Number) : ℚ :=
  digitsVal n.digits * 10 ^ (n.exponent - n.fractionDigits.length)

def Number.value (n : Number) : ℚ := if n.negative then -n.magnitude else n.magnitude

/-- Decimal places after the point once the exponent is applied. -/
def Number.scale (n : Number) : ℤ := n.fractionDigits.length - n.exponent

/-- At most `k` digits before the decimal point. -/
def Number.IntegerDigits (k : ℕ) (n : Number) : Prop := n.magnitude < 10 ^ k

def leadingZeros (ds : List Digit) : ℕ := (ds.takeWhile (· = 0)).length

theorem digitsVal_lt_leading (ds : List Digit) :
    digitsVal ds < 10 ^ (ds.length - leadingZeros ds) := by
  induction ds with
  | nil => simp
  | cons d ds ih =>
    by_cases hd : d = 0
    · subst hd
      have hz : leadingZeros (0 :: ds) = leadingZeros ds + 1 := by simp [leadingZeros]
      rw [digitsVal_cons, hz, List.length_cons, Nat.add_sub_add_right]
      simpa using ih
    · have hz : leadingZeros (d :: ds) = 0 := by simp [leadingZeros, hd]
      rw [hz, Nat.sub_zero]
      exact digitsVal_lt _

theorem digitsVal_of_all_zero {ds : List Digit} (h : leadingZeros ds = ds.length) :
    digitsVal ds = 0 := by
  have hlt := digitsVal_lt_leading ds
  rw [h, Nat.sub_self, pow_zero] at hlt
  omega

theorem Number.magnitude_eq_zero {n : Number} (h : leadingZeros n.digits = n.digits.length) :
    n.magnitude = 0 := by
  rw [Number.magnitude, digitsVal_of_all_zero h, Nat.cast_zero, zero_mul]

theorem le_digitsVal_leading {ds : List Digit} (h : digitsVal ds ≠ 0) :
    leadingZeros ds < ds.length ∧ 10 ^ (ds.length - leadingZeros ds - 1) ≤ digitsVal ds := by
  induction ds with
  | nil => exact absurd rfl h
  | cons d ds ih =>
    by_cases hd : d = 0
    · subst hd
      have hz : leadingZeros (0 :: ds) = leadingZeros ds + 1 := by simp [leadingZeros]
      have hv : digitsVal (0 :: ds) = digitsVal ds := by simp [digitsVal_cons]
      rw [hv] at h ⊢
      rw [hz, List.length_cons, Nat.add_sub_add_right]
      exact ⟨Nat.succ_lt_succ (ih h).1, (ih h).2⟩
    · have hz : leadingZeros (d :: ds) = 0 := by simp [leadingZeros, hd]
      have hpos : 1 ≤ d.val := Nat.one_le_iff_ne_zero.mpr fun h0 => hd (Fin.ext h0)
      rw [hz, List.length_cons, Nat.sub_zero, Nat.add_sub_cancel, digitsVal_cons]
      refine ⟨Nat.succ_pos _, ?_⟩
      calc 10 ^ ds.length = 1 * 10 ^ ds.length := (one_mul _).symm
        _ ≤ d.val * 10 ^ ds.length := Nat.mul_le_mul_right _ hpos
        _ ≤ d.val * 10 ^ ds.length + digitsVal ds := Nat.le_add_right _ _

theorem Number.abs_value (n : Number) : |n.value| = n.magnitude := by
  have hpos : 0 ≤ n.magnitude := by
    rw [Number.magnitude]
    positivity
  rw [Number.value]
  split_ifs
  · rw [abs_neg, abs_of_nonneg hpos]
  · rw [abs_of_nonneg hpos]

/-- Digits before the point, less leading zeros, shifted by the exponent. -/
theorem Number.magnitude_lt (n : Number) :
    n.magnitude < 10 ^ (n.int.digits.length + n.exponent - leadingZeros n.digits : ℤ) := by
  have hlt := digitsVal_lt_leading n.digits
  have hle : leadingZeros n.digits ≤ n.digits.length := (List.takeWhile_sublist _).length_le
  have hlen : n.digits.length = n.int.digits.length + n.fractionDigits.length := by
    rw [Number.digits, List.length_append]
  have hcast : (digitsVal n.digits : ℚ) < 10 ^
      ((n.digits.length - leadingZeros n.digits : ℕ) : ℤ) := by
    rw [zpow_natCast]
    exact_mod_cast hlt
  calc n.magnitude
      < 10 ^ ((n.digits.length - leadingZeros n.digits : ℕ) : ℤ) *
          10 ^ (n.exponent - n.fractionDigits.length) :=
        mul_lt_mul_of_pos_right hcast (by positivity)
    _ = 10 ^ (n.int.digits.length + n.exponent - leadingZeros n.digits : ℤ) := by
        rw [← zpow_add₀ (by norm_num)]
        congr 1
        omega

/-- A number that is not zero has no fewer digits than that. -/
theorem Number.le_magnitude {n : Number} (h : digitsVal n.digits ≠ 0) :
    10 ^ (n.int.digits.length + n.exponent - leadingZeros n.digits - 1 : ℤ) ≤ n.magnitude := by
  obtain ⟨hlt, hle⟩ := le_digitsVal_leading h
  have hlen : n.digits.length = n.int.digits.length + n.fractionDigits.length := by
    rw [Number.digits, List.length_append]
  have hcast : (10 : ℚ) ^ ((n.digits.length - leadingZeros n.digits - 1 : ℕ) : ℤ) ≤
      digitsVal n.digits := by
    rw [zpow_natCast]
    exact_mod_cast hle
  calc (10 : ℚ) ^ (n.int.digits.length + n.exponent - leadingZeros n.digits - 1 : ℤ)
      = 10 ^ ((n.digits.length - leadingZeros n.digits - 1 : ℕ) : ℤ) *
          10 ^ (n.exponent - n.fractionDigits.length) := by
        rw [← zpow_add₀ (by norm_num)]
        congr 1
        omega
    _ ≤ n.magnitude := mul_le_mul_of_nonneg_right hcast (by positivity)

theorem Number.integerDigits_of_le {n : Number} {k : ℕ}
    (h : leadingZeros n.digits = n.digits.length ∨
      (n.int.digits.length + n.exponent - leadingZeros n.digits : ℤ) ≤ k) :
    n.IntegerDigits k := by
  unfold Number.IntegerDigits
  rcases h with h | h
  · rw [Number.magnitude_eq_zero h]
    positivity
  · have hp := zpow_le_zpow_right₀ (by norm_num : (1 : ℚ) ≤ 10) h
    rw [zpow_natCast] at hp
    exact lt_of_lt_of_le n.magnitude_lt hp

/-- For a number that is not zero the digits decide. -/
theorem Number.integerDigits_iff {n : Number} (h : digitsVal n.digits ≠ 0) (k : ℕ) :
    n.IntegerDigits k ↔ (n.int.digits.length + n.exponent - leadingZeros n.digits : ℤ) ≤ k := by
  constructor
  · intro hlt
    have hpow := lt_of_le_of_lt (Number.le_magnitude h) hlt
    rw [← zpow_natCast, zpow_lt_zpow_iff_right₀ (by norm_num)] at hpow
    omega
  · intro hle
    exact Number.integerDigits_of_le (Or.inr hle)

end IngestKit.Json
