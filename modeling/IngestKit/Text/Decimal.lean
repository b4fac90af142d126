import IngestKit.Text.Digits
import Mathlib.Data.Nat.Digits.Defs

/-! Decimal text of numbers. -/
namespace IngestKit

def decimal (n : ℕ) : Bytes := ascii (Nat.toDigits 10 n)

def decimalInt (n : ℤ) : Bytes := if 0 ≤ n then decimal n.toNat else 0x2d :: decimal n.natAbs

private theorem digitChar_byte (d : Digit) : ascii [Nat.digitChar d.val] = [d.byte] := by
  revert d
  decide

/-- The text is the digits of the number. -/
theorem decimal_eq_printDigits (n : ℕ) :
    ∃ d ds, decimal n = printDigits (d :: ds) ∧ digitsVal (d :: ds) = n := by
  induction n using Nat.strong_induction_on with
  | _ n ih =>
    by_cases hn : n < 10
    · refine ⟨⟨n, hn⟩, [], ?_, by simp [digitsVal_cons]⟩
      rw [decimal, Nat.toDigits_of_lt_base hn]
      exact digitChar_byte ⟨n, hn⟩
    · obtain ⟨d, ds, hdec, hval⟩ := ih (n / 10) (by omega)
      have hlast := digitChar_byte ⟨n % 10, by omega⟩
      refine ⟨d, ds ++ [⟨n % 10, by omega⟩], ?_, ?_⟩
      · rw [decimal] at hdec
        rw [decimal, Nat.toDigits_of_base_le (by decide) (by omega), ascii, List.map_append]
        rw [ascii] at hdec hlast
        rw [hdec, hlast]
        simp [printDigits]
      · rw [← List.cons_append, digitsVal_append_singleton, hval]
        dsimp only
        omega

/-- A number is read back from its text. -/
theorem scanDigits1_decimal (n : ℕ) {t : Bytes} (ht : Stops Digit.ofByte? t) :
    ∃ d ds, scanDigits1 (decimal n ++ t) = some (d, ds, t) ∧ digitsVal (d :: ds) = n := by
  obtain ⟨d, ds, hdec, hval⟩ := decimal_eq_printDigits n
  exact ⟨d, ds, by rw [hdec, scanDigits1_print d ds ht], hval⟩

theorem decimal_append_inj {m n : ℕ} {t u : Bytes} (ht : Stops Digit.ofByte? t)
    (hu : Stops Digit.ofByte? u) (h : decimal m ++ t = decimal n ++ u) : m = n ∧ t = u := by
  obtain ⟨d, ds, hm, hval⟩ := scanDigits1_decimal m ht
  obtain ⟨e, es, hn, hval'⟩ := scanDigits1_decimal n hu
  rw [h, hn] at hm
  cases hm
  exact ⟨hval.symm.trans hval', rfl⟩

theorem dash_not_mem_decimal (n : ℕ) : 0x2d ∉ decimal n := by
  obtain ⟨d, ds, hdec, -⟩ := decimal_eq_printDigits n
  rw [hdec, printDigits, List.mem_map]
  rintro ⟨e, -, he⟩
  exact e.byte_ne_sign.2 he

end IngestKit
