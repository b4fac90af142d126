import IngestKit.Text.Utf8
import Mathlib.Data.List.Induction

/-! Scanning of bytes, and decimal digits as bytes: scanning, printing and value. -/
namespace IngestKit

abbrev Digit := Fin 10

instance Digit.neZero : NeZero 10 := ⟨by decide⟩

def Digit.byte (d : Digit) : UInt8 := UInt8.ofNat (0x30 + d.val)

def printDigits (ds : List Digit) : Bytes := ds.map Digit.byte

def Digit.ofByte? (b : UInt8) : Option Digit :=
  if h : 0x30 ≤ b.toNat ∧ b.toNat ≤ 0x39 then some ⟨b.toNat - 0x30, by omega⟩ else none

theorem Digit.ofByte?_byte (d : Digit) : Digit.ofByte? d.byte = some d := by
  revert d
  decide

theorem Digit.eq_byte {b : UInt8} {d : Digit} (h : Digit.ofByte? b = some d) : b = d.byte := by
  unfold Digit.ofByte? at h
  split_ifs at h with hb
  have hd := Option.some.inj h
  subst hd
  rw [Digit.byte, show 0x30 + (b.toNat - 0x30) = b.toNat by omega]
  simp

theorem Digit.byte_ne_sign (d : Digit) : d.byte ≠ 0x2b ∧ d.byte ≠ 0x2d := by
  revert d
  decide

def scanByte (c : UInt8) : Bytes → Option Bytes
  | [] => none
  | b :: t => if b = c then some t else none

theorem scanByte_cons (c : UInt8) (t : Bytes) : scanByte c (c :: t) = some t := by
  simp [scanByte]

section ScanWhile
variable {α : Type} (f : UInt8 → Option α)

/-- The longest run of bytes that `f` classifies, and what follows it. -/
def scanWhile : Bytes → List α × Bytes
  | [] => ([], [])
  | b :: t =>
    match f b with
    | some a => (a :: (scanWhile t).1, (scanWhile t).2)
    | none => ([], b :: t)

/-- The text does not start with a byte that `f` classifies. -/
def Stops (t : Bytes) : Prop := ∀ b ∈ t.head?, f b = none

@[simp] theorem stops_nil : Stops f [] := by simp [Stops]

@[simp] theorem stops_cons (b : UInt8) (t : Bytes) : Stops f (b :: t) ↔ f b = none := by
  simp [Stops]

variable {f}

theorem scanWhile_stops (b : Bytes) : Stops f (scanWhile f b).2 := by
  induction b with
  | nil => simp [scanWhile]
  | cons a t ih =>
    simp only [scanWhile]
    cases ha : f a with
    | none => simpa using ha
    | some x => exact ih

theorem scanWhile_sound {g : α → UInt8} (hg : ∀ {b a}, f b = some a → b = g a) (b : Bytes) :
    b = (scanWhile f b).1.map g ++ (scanWhile f b).2 := by
  induction b with
  | nil => rfl
  | cons a t ih =>
    simp only [scanWhile]
    cases ha : f a with
    | none => rfl
    | some x => simp only [List.map_cons, List.cons_append, ← ih, ← hg ha]

theorem scanWhile_print {g : α → UInt8} (hf : ∀ a, f (g a) = some a) (as : List α) {t : Bytes}
    (ht : Stops f t) : scanWhile f (as.map g ++ t) = (as, t) := by
  induction as with
  | nil =>
    cases t with
    | nil => rfl
    | cons b t =>
      rw [stops_cons] at ht
      simp [scanWhile, ht]
  | cons a as ih => simp [scanWhile, hf, ih]

end ScanWhile

def scanDigits (b : Bytes) : List Digit × Bytes := scanWhile Digit.ofByte? b

theorem scanDigits_sound (b : Bytes) : b = printDigits (scanDigits b).1 ++ (scanDigits b).2 :=
  scanWhile_sound Digit.eq_byte b

theorem scanDigits_print (ds : List Digit) {t : Bytes} (ht : Stops Digit.ofByte? t) :
    scanDigits (printDigits ds ++ t) = (ds, t) := scanWhile_print Digit.ofByte?_byte ds ht

/-- At least one digit. -/
def scanDigits1 : Bytes → Option (Digit × List Digit × Bytes)
  | [] => none
  | b :: t => (Digit.ofByte? b).map fun d => (d, (scanDigits t).1, (scanDigits t).2)

theorem scanDigits1_sound {b t : Bytes} {d : Digit} {ds : List Digit}
    (h : scanDigits1 b = some (d, ds, t)) : b = printDigits (d :: ds) ++ t := by
  cases b with
  | nil => cases h
  | cons a s =>
    obtain ⟨x, hx, he⟩ := Option.map_eq_some_iff.mp h
    simp only [Prod.mk.injEq] at he
    obtain ⟨rfl, rfl, rfl⟩ := he
    have hs := scanDigits_sound s
    simp only [printDigits, List.map_cons, List.cons_append, ← Digit.eq_byte hx, List.cons.injEq,
      true_and]
    exact hs

theorem scanDigits1_print (d : Digit) (ds : List Digit) {t : Bytes} (ht : Stops Digit.ofByte? t) :
    scanDigits1 (printDigits (d :: ds) ++ t) = some (d, ds, t) := by
  have h := scanDigits_print ds ht
  simp only [printDigits] at h
  simp [scanDigits1, printDigits, Digit.ofByte?_byte, h]

/-- Decimal value, most significant digit first. -/
def digitsVal (ds : List Digit) : ℕ := ds.foldl (fun n d => n * 10 + d.val) 0

/-- The last `w` decimal digits of `n`, zero padded. -/
def fixedDigits : ℕ → ℕ → List Digit
  | 0, _ => []
  | w + 1, n => fixedDigits w (n / 10) ++ [Fin.ofNat 10 n]

@[simp] theorem length_fixedDigits (w n : ℕ) : (fixedDigits w n).length = w := by
  induction w generalizing n with
  | zero => rfl
  | succ w ih => simp [fixedDigits, ih]

@[simp] theorem digitsVal_nil : digitsVal [] = 0 := rfl

@[simp] theorem digitsVal_append_singleton (ds : List Digit) (d : Digit) :
    digitsVal (ds ++ [d]) = digitsVal ds * 10 + d.val := by
  simp [digitsVal]

theorem digitsVal_append (ds es : List Digit) :
    digitsVal (ds ++ es) = digitsVal ds * 10 ^ es.length + digitsVal es := by
  induction es using List.reverseRecOn with
  | nil => simp
  | append_singleton es e ih =>
    rw [← List.append_assoc, digitsVal_append_singleton, digitsVal_append_singleton, ih,
      List.length_append, List.length_singleton, pow_succ]
    ring

theorem digitsVal_cons (d : Digit) (ds : List Digit) :
    digitsVal (d :: ds) = d.val * 10 ^ ds.length + digitsVal ds := by
  have h := digitsVal_append [d] ds
  simpa [digitsVal] using h

theorem digitsVal_lt (ds : List Digit) : digitsVal ds < 10 ^ ds.length := by
  induction ds using List.reverseRecOn with
  | nil => simp
  | append_singleton ds d ih =>
    rw [digitsVal_append_singleton, List.length_append, List.length_singleton, pow_succ]
    have := d.isLt
    omega

theorem digitsVal_fixedDigits (w n : ℕ) (h : n < 10 ^ w) : digitsVal (fixedDigits w n) = n := by
  induction w generalizing n with
  | zero =>
    rw [pow_zero] at h
    simp only [fixedDigits, digitsVal_nil]
    omega
  | succ w ih =>
    rw [pow_succ] at h
    rw [fixedDigits, digitsVal_append_singleton, ih (n / 10) (by omega)]
    simp only [Fin.ofNat]
    omega

@[simp] theorem digitsVal_replicate_zero (k : ℕ) :
    digitsVal (List.replicate k (0 : Digit)) = 0 := by
  induction k with
  | zero => rfl
  | succ k ih => rw [List.replicate_succ', digitsVal_append_singleton, ih]; rfl

/-- Exactly `k` digits. -/
def takeDigits : ℕ → Bytes → Option (List Digit × Bytes)
  | 0, b => some ([], b)
  | _ + 1, [] => none
  | k + 1, b :: t =>
    match Digit.ofByte? b with
    | some d => (takeDigits k t).map fun r => (d :: r.1, r.2)
    | none => none

theorem takeDigits_print (ds : List Digit) (t : Bytes) :
    takeDigits ds.length (printDigits ds ++ t) = some (ds, t) := by
  induction ds with
  | nil => rfl
  | cons d ds ih =>
    simp only [printDigits] at ih
    simp [takeDigits, printDigits, Digit.ofByte?_byte, ih]

theorem takeDigits_length {k : ℕ} {b t : Bytes} {ds : List Digit}
    (h : takeDigits k b = some (ds, t)) : ds.length = k := by
  induction k generalizing b ds with
  | zero =>
    obtain ⟨rfl, -⟩ := Prod.mk.inj (Option.some.inj h)
    rfl
  | succ k ih =>
    cases b with
    | nil => cases h
    | cons a s =>
      simp only [takeDigits] at h
      cases ha : Digit.ofByte? a with
      | none => simp [ha] at h
      | some d =>
        simp only [ha] at h
        obtain ⟨r, hr, he⟩ := Option.map_eq_some_iff.mp h
        obtain ⟨rfl, rfl⟩ := Prod.mk.inj he
        simp [ih hr]

theorem takeDigits_fixed (w n : ℕ) (t : Bytes) :
    takeDigits w (printDigits (fixedDigits w n) ++ t) = some (fixedDigits w n, t) := by
  have h := takeDigits_print (fixedDigits w n) t
  rwa [length_fixedDigits] at h

end IngestKit
