import IngestKit.Json.Decimal
import IngestKit.Json.Tree

/-! The digit arithmetic that keeps payload numbers within PostgreSQL numeric:
131072 digits before the point and 16383 after it. -/
namespace IngestKit.Event
open Json

def trimMinus : Bytes → Bytes
  | [] => []
  | b :: s => if b = 0x2d then s else b :: s

/-- The text before the first byte that satisfies `p`, and the text after it. -/
def cut (p : UInt8 → Bool) : Bytes → Bytes × Option Bytes
  | [] => ([], none)
  | b :: s => if p b then ([], some s) else (b :: (cut p s).1, (cut p s).2)

def isExponent (b : UInt8) : Bool := b = 0x65 || b = 0x45

def isPoint (b : UInt8) : Bool := b = 0x2e

/-- A signed decimal integer that fits 32 bits. -/
def parseInt32 (s : Bytes) : Option ℤ :=
  match scanDigits1 (scanSign s).2 with
  | some (d, ds, []) =>
    let n := digitsVal (d :: ds)
    if (scanSign s).1 = some .minus then if n ≤ 2147483648 then some (-(n : ℤ)) else none
    else if n < 2147483648 then some (n : ℤ) else none
  | _ => none

def representableNumber (number : Bytes) : Bool :=
  let parts := cut isExponent (trimMinus number)
  let s := parts.1
  match parts.2.elim (some 0) parseInt32 with
  | none => false
  | some exponent =>
    if exponent > 131072 + s.length ∨ exponent < -16383 - s.length then false
    else
      let before := (cut isPoint s).1.length
      let fraction := (cut isPoint s).2.elim 0 List.length
      let digits := s.filter fun b => !isPoint b
      let leading := digits.length - (digits.dropWhile (· = 0x30)).length
      let whole : ℤ := if leading = digits.length then 0 else before + exponent - leading
      let scale : ℤ := fraction - exponent
      whole ≤ 131072 && scale ≤ 16383

private theorem trimMinus_print (n : Number) : trimMinus n.print =
    printDigits n.int.digits ++ (n.frac.elim [] Fraction.print ++
      n.exp.elim [] Exponent.print) := by
  have hd : ∃ d ds, n.int.digits = d :: ds := by
    cases n.int with
    | zero => exact ⟨0, [], rfl⟩
    | pos d ds => exact ⟨d.succ, ds, rfl⟩
  obtain ⟨d, ds, hd⟩ := hd
  rw [Number.print]
  split_ifs with hneg
  · simp [trimMinus]
  · simp [trimMinus, hd, printDigits, d.byte_ne_sign.2]

private theorem cut_append {p : UInt8 → Bool} {a : Bytes} (h : ∀ b ∈ a, p b = false) (t : Bytes) :
    cut p (a ++ t) = (a ++ (cut p t).1, (cut p t).2) := by
  induction a with
  | nil => rfl
  | cons b a ih =>
    simp [cut, h b (by simp), ih fun x hx => h x (by simp [hx])]

private theorem digit_class {ds : List Digit} : ∀ b ∈ printDigits ds,
    isExponent b = false ∧ isPoint b = false := by
  intro b hb
  obtain ⟨d, -, rfl⟩ := List.mem_map.mp hb
  exact (by decide : ∀ d : Digit, isExponent d.byte = false ∧ isPoint d.byte = false) d

private theorem cut_exponent (n : Number) : cut isExponent (trimMinus n.print) =
    (printDigits n.int.digits ++ n.frac.elim [] Fraction.print,
      n.exp.map fun e => e.sign.elim [] (fun s => [s.byte]) ++ printDigits e.digits) := by
  have hf : ∀ b ∈ n.frac.elim [] Fraction.print, isExponent b = false := by
    cases n.frac with
    | none => simp
    | some f =>
      intro b hb
      rcases List.mem_cons.mp hb with rfl | hb
      · rfl
      · exact (digit_class b hb).1
  rw [trimMinus_print, cut_append fun b hb => (digit_class b hb).1, cut_append hf]
  cases n.exp with
  | none => simp [cut]
  | some e =>
    have he : isExponent (if e.upper then 0x45 else 0x65) = true := by cases e.upper <;> rfl
    simp [Exponent.print, cut, he]

private theorem cut_point (n : Number) :
    cut isPoint (printDigits n.int.digits ++ n.frac.elim [] Fraction.print) =
      (printDigits n.int.digits, n.frac.map fun f => printDigits f.digits) := by
  rw [cut_append fun b hb => (digit_class b hb).2]
  cases n.frac with
  | none => simp [cut]
  | some f => simp [cut, Fraction.print, show isPoint 0x2e = true from rfl]

private theorem scanSign_digits (sign : Option Sign) (d : Digit) (t : Bytes) :
    scanSign (sign.elim [] (fun s => [s.byte]) ++ d.byte :: t) = (sign, d.byte :: t) := by
  rcases sign with _ | s | s
  · simp [scanSign, d.byte_ne_sign.1, d.byte_ne_sign.2]
  · rfl
  · rfl

/-- An exponent is read when it fits 32 bits. -/
private theorem parseInt32_print (e : Exponent) :
    parseInt32 (e.sign.elim [] (fun s => [s.byte]) ++ printDigits e.digits) =
      if -2147483648 ≤ e.value ∧ e.value < 2147483648 then some e.value else none := by
  have hs := scanSign_digits e.sign e.first (printDigits e.rest)
  have hd := scanDigits1_print e.first e.rest (stops_nil Digit.ofByte?)
  rw [List.append_nil] at hd
  unfold parseInt32 Exponent.value
  simp only [Exponent.digits, printDigits, List.map_cons] at hs hd ⊢
  simp only [hs, hd]
  rcases hsign : e.sign with _ | s | s
  · simp only [reduceCtorEq, if_false]
    exact if_congr (by omega) rfl rfl
  · simp only [Option.some.injEq, reduceCtorEq, if_false]
    exact if_congr (by omega) rfl rfl
  · simp only [if_true]
    exact if_congr (by omega) rfl rfl

private theorem filter_digits (n : Number) :
    (printDigits n.int.digits ++ n.frac.elim [] Fraction.print).filter (fun b => !isPoint b) =
      printDigits n.digits := by
  have hd : ∀ ds : List Digit, (printDigits ds).filter (fun b => !isPoint b) = printDigits ds :=
    fun ds => List.filter_eq_self.mpr fun b hb => by rw [(digit_class b hb).2]; rfl
  rw [List.filter_append, hd, Number.digits, Number.fractionDigits]
  cases n.frac with
  | none => simp
  | some f =>
    have hf := hd f.digits
    simp only [printDigits] at hf
    simp [Fraction.print, show isPoint 0x2e = true from rfl, printDigits, hf]

private theorem dropWhile_zero (ds : List Digit) :
    ((printDigits ds).dropWhile (· = 0x30)).length + leadingZeros ds = ds.length := by
  induction ds with
  | nil => rfl
  | cons d ds ih =>
    have hz : d.byte = 0x30 ↔ d = 0 := (by decide : ∀ d : Digit, d.byte = 0x30 ↔ d = 0) d
    simp only [printDigits] at ih
    by_cases hd : d = 0
    · have hb := hz.mpr hd
      simp only [printDigits, List.map_cons, leadingZeros, List.takeWhile_cons, hd, decide_true,
        if_true, List.length_cons]
      simp only [hd] at hb
      simp only [hb, List.dropWhile_cons, decide_true, if_true]
      simp only [leadingZeros] at ih
      omega
    · have hb : ¬d.byte = 0x30 := fun h => hd (hz.mp h)
      simp [printDigits, leadingZeros, hd, hb]

/-- The mantissa of a literal: its digits and its point. -/
def mantissa (n : Number) : Bytes := printDigits n.int.digits ++ n.frac.elim [] Fraction.print

theorem length_mantissa (n : Number) : n.digits.length ≤ (mantissa n).length ∧
    (mantissa n).length ≤ n.print.length := by
  rw [mantissa, Number.print, Number.digits, Number.fractionDigits]
  constructor
  · cases n.frac <;> simp [printDigits, Fraction.print]
  · simp only [List.length_append]
    omega

private theorem readExponent (n : Number) : (n.exp.map fun e =>
    e.sign.elim [] (fun s => [s.byte]) ++ printDigits e.digits).elim (some 0) parseInt32 =
      if -2147483648 ≤ n.exponent ∧ n.exponent < 2147483648 then some n.exponent else none := by
  rw [Number.exponent]
  cases n.exp with
  | none => rfl
  | some e => exact parseInt32_print e

/-- What the digit arithmetic decides about a literal. -/
theorem representableNumber_iff (n : Number) : representableNumber n.print = true ↔
    (-2147483648 ≤ n.exponent ∧ n.exponent < 2147483648) ∧
    (n.exponent ≤ 131072 + (mantissa n).length ∧ -16383 - (mantissa n).length ≤ n.exponent) ∧
    (leadingZeros n.digits = n.digits.length ∨
      (n.int.digits.length + n.exponent - leadingZeros n.digits : ℤ) ≤ 131072) ∧
    n.scale ≤ 16383 := by
  have hlen : (n.frac.map fun f => printDigits f.digits).elim 0 List.length =
      n.fractionDigits.length := by
    rw [Number.fractionDigits]
    cases n.frac <;> simp [printDigits]
  have hzero := dropWhile_zero n.digits
  have hint : (printDigits n.int.digits).length = n.int.digits.length := by simp [printDigits]
  have hdig : (printDigits n.digits).length = n.digits.length := by simp [printDigits]
  have hsub : n.digits.length - ((printDigits n.digits).dropWhile (· = 0x30)).length =
      leadingZeros n.digits := by omega
  unfold representableNumber
  simp only [cut_exponent, cut_point, filter_digits, readExponent, hlen, hint, hdig, hsub]
  rw [← mantissa]
  by_cases hfits : -2147483648 ≤ n.exponent ∧ n.exponent < 2147483648
  · rw [if_pos hfits]
    dsimp only
    by_cases hcut : n.exponent > 131072 + (mantissa n).length ∨
        n.exponent < -16383 - (mantissa n).length
    · rw [if_pos hcut]
      simp only [Bool.false_eq_true, false_iff]
      rintro ⟨-, hrange, -⟩
      omega
    · rw [if_neg hcut, Bool.and_eq_true, decide_eq_true_eq, decide_eq_true_eq, ← Number.scale]
      rw [not_or, not_lt, not_lt] at hcut
      simp only [hfits, hcut, and_self, true_and]
      by_cases hall : leadingZeros n.digits = n.digits.length
      · simp [hall]
      · simp [hall]
  · rw [if_neg hfits]
    simp only [Bool.false_eq_true, hfits, false_and]

/-- A number that passes fits PostgreSQL numeric. -/
theorem integerDigits_of_representable {n : Number} (h : representableNumber n.print = true) :
    n.IntegerDigits 131072 ∧ n.scale ≤ 16383 := by
  obtain ⟨-, -, hwhole, hscale⟩ := (representableNumber_iff n).mp h
  exact ⟨Number.integerDigits_of_le (by exact_mod_cast hwhole), hscale⟩

end IngestKit.Event
