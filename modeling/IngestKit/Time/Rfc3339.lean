import IngestKit.Text.Digits
import IngestKit.Time.Calendar
import Mathlib.Data.List.DropRight

/-! Instants with a zone offset, read from and written as RFC 3339 text. The reader
is lenient: one-digit hours, a comma before the fraction, zone hours up to 24 and
zone minutes up to 60. The writer refuses years outside 0..9999 and zone hours
above 23. -/
namespace IngestKit

/-- Seconds since 1 January of year 1 UTC, nanoseconds, and the offset of the zone
the instant is shown in. -/
structure Time where
  sec : ℤ
  nsec : ℕ
  offset : ℤ
  nsec_lt : nsec < 1000000000
  deriving DecidableEq

namespace Time

theorem zero_nsec_lt : 0 < 1000000000 := by decide

def zero : Time := ⟨0, 0, 0, zero_nsec_lt⟩

def isZero (t : Time) : Bool := t.sec = 0 && t.nsec = 0

def utc (t : Time) : Time := { t with offset := 0 }

def date (t : Time) : Date := Date.ofDays ((t.sec + t.offset) / 86400)

/-- Second of the day, as shown in the zone. -/
def clock (t : Time) : ℕ := ((t.sec + t.offset) % 86400).toNat

section Reading

def scanNum (w : ℕ) (b : Bytes) : Option (ℕ × Bytes) :=
  (takeDigits w b).map fun r => (digitsVal r.1, r.2)

/-- Two digits, or one where no second digit follows. -/
def scanHour (b : Bytes) : Option (ℕ × Bytes) :=
  match scanNum 2 b with
  | some r => some r
  | none => scanNum 1 b

def scanDate (b : Bytes) : Option (Date × Bytes) := do
  let (y, b) ← scanNum 4 b
  let b ← scanByte 0x2d b
  let (m, b) ← scanNum 2 b
  let b ← scanByte 0x2d b
  let (d, b) ← scanNum 2 b
  if Date.Valid ⟨y, m, d⟩ then some (⟨y, m, d⟩, b) else none

def scanClock (b : Bytes) : Option (ℕ × Bytes) := do
  let (h, b) ← scanHour b
  let b ← scanByte 0x3a b
  let (m, b) ← scanNum 2 b
  let b ← scanByte 0x3a b
  let (s, b) ← scanNum 2 b
  if h < 24 ∧ m < 60 ∧ s < 60 then some ((h * 60 + m) * 60 + s, b) else none

/-- Nanoseconds of a fraction; digits after the ninth are dropped. -/
def nanos (ds : List Digit) : ℕ := digitsVal (ds.take 9) * 10 ^ (9 - ds.length)

theorem nanos_lt (ds : List Digit) : nanos ds < 1000000000 := by
  have h := digitsVal_lt (ds.take 9)
  rw [List.length_take] at h
  rcases le_total 9 ds.length with hl | hl
  · rw [min_eq_left hl] at h
    rw [nanos, Nat.sub_eq_zero_of_le hl, pow_zero, mul_one]
    exact h
  · rw [min_eq_right hl] at h
    have hp := Nat.mul_lt_mul_of_pos_right h (show 0 < 10 ^ (9 - ds.length) by positivity)
    rw [← pow_add, Nat.add_sub_cancel' hl] at hp
    exact hp

def scanFraction : Bytes → {n : ℕ // n < 1000000000} × Bytes
  | [] => (⟨0, by decide⟩, [])
  | c :: t =>
    if c = 0x2e ∨ c = 0x2c then
      match scanDigits1 t with
      | some (d, ds, r) => (⟨nanos (d :: ds), nanos_lt _⟩, r)
      | none => (⟨0, by decide⟩, c :: t)
    else (⟨0, by decide⟩, c :: t)

/-- The zone, which ends the text. -/
def scanZone (b : Bytes) : Option ℤ :=
  if b = [0x5a] then some 0
  else match b with
    | [] => none
    | sign :: b => do
      let (h, b) ← scanNum 2 b
      let b ← scanByte 0x3a b
      let (m, b) ← scanNum 2 b
      if b = [] ∧ h ≤ 24 ∧ m ≤ 60 then
        if sign = 0x2b then some (((h * 60 + m) * 60 : ℕ) : ℤ)
        else if sign = 0x2d then some (-(((h * 60 + m) * 60 : ℕ) : ℤ))
        else none
      else none

def parse (b : Bytes) : Option Time := do
  let (d, b) ← scanDate b
  let b ← scanByte 0x54 b
  let (c, b) ← scanClock b
  let f := scanFraction b
  let off ← scanZone f.2
  some ⟨d.days * 86400 + c - off, f.1.1, off, f.1.2⟩

end Reading

section Writing

def num (w n : ℕ) : Bytes := printDigits (fixedDigits w n)

/-- The offset in whole minutes, rounded towards zero. -/
def zoneMinutes (offset : ℤ) : ℤ := offset.tdiv 60

def zoneHour (offset : ℤ) : ℕ := (zoneMinutes offset).natAbs / 60

def zoneText (offset : ℤ) : Bytes :=
  if offset = 0 then [0x5a]
  else (if zoneMinutes offset < 0 then 0x2d else 0x2b) ::
    (num 2 (zoneHour offset) ++ 0x3a :: num 2 ((zoneMinutes offset).natAbs % 60))

def trimZeros (ds : List Digit) : List Digit := ds.rdropWhile (· = 0)

def fractionText (nsec : ℕ) : Bytes :=
  if nsec = 0 then [] else 0x2e :: printDigits (trimZeros (fixedDigits 9 nsec))

def dateText (d : Date) : Bytes :=
  num 4 d.year.toNat ++ 0x2d :: (num 2 d.month ++ 0x2d :: num 2 d.day)

def clockText (c : ℕ) : Bytes :=
  num 2 (c / 3600) ++ 0x3a :: (num 2 (c / 60 % 60) ++ 0x3a :: num 2 (c % 60))

def text (t : Time) : Bytes :=
  dateText t.date ++ 0x54 :: (clockText t.clock ++ (fractionText t.nsec ++ zoneText t.offset))

def Marshals (t : Time) : Prop :=
  0 ≤ t.date.year ∧ t.date.year ≤ 9999 ∧ zoneHour t.offset < 24

instance (t : Time) : Decidable t.Marshals := inferInstanceAs (Decidable (_ ∧ _))

def marshalText (t : Time) : Option Bytes := if t.Marshals then some t.text else none

end Writing

section Parsed

private theorem scanNum_lt {w n : ℕ} {b r : Bytes} (h : scanNum w b = some (n, r)) :
    n < 10 ^ w := by
  obtain ⟨⟨ds, t⟩, hd, he⟩ := Option.map_eq_some_iff.mp h
  obtain ⟨rfl, -⟩ := Prod.mk.inj he
  have hv := digitsVal_lt ds
  rwa [takeDigits_length hd] at hv

private theorem scanDate_spec {b r : Bytes} {d : Date} (h : scanDate b = some (d, r)) :
    d.Valid ∧ 0 ≤ d.year ∧ d.year ≤ 9999 := by
  simp only [scanDate, Option.bind_eq_bind, Option.bind_eq_some_iff, Prod.exists] at h
  obtain ⟨y, b₁, hy, -, -, m, b₂, -, -, -, k, b₃, -, h⟩ := h
  split_ifs at h with hv
  obtain ⟨rfl, -⟩ := Prod.mk.inj (Option.some.inj h)
  have hlt := scanNum_lt hy
  exact ⟨hv, Int.natCast_nonneg y, by simp only; omega⟩

private theorem scanClock_lt {b r : Bytes} {c : ℕ} (h : scanClock b = some (c, r)) :
    c < 86400 := by
  simp only [scanClock, Option.bind_eq_bind, Option.bind_eq_some_iff, Prod.exists] at h
  obtain ⟨hh, b₁, -, -, -, m, b₂, -, -, -, s, b₃, -, h⟩ := h
  split_ifs at h with hv
  obtain ⟨rfl, -⟩ := Prod.mk.inj (Option.some.inj h)
  omega

private theorem scanZone_spec {b : Bytes} {off : ℤ} (h : scanZone b = some off) :
    off % 60 = 0 ∧ -90000 ≤ off ∧ off ≤ 90000 := by
  unfold scanZone at h
  split_ifs at h with hz
  · have := Option.some.inj h
    omega
  · cases b with
    | nil => cases h
    | cons sign b =>
      simp only [Option.bind_eq_bind, Option.bind_eq_some_iff, Prod.exists] at h
      obtain ⟨hh, b₁, -, -, -, m, b₂, -, h⟩ := h
      split_ifs at h with hv hp hm <;> have := Option.some.inj h <;> omega

/-- What reading a timestamp guarantees. -/
theorem parse_spec {b : Bytes} {t : Time} (h : parse b = some t) :
    (∃ d : Date, d.Valid ∧ 0 ≤ d.year ∧ d.year ≤ 9999 ∧ ∃ c : ℕ, c < 86400 ∧
      t.sec + t.offset = d.days * 86400 + c) ∧
    t.offset % 60 = 0 ∧ -90000 ≤ t.offset ∧ t.offset ≤ 90000 := by
  simp only [parse, Option.bind_eq_bind, Option.bind_eq_some_iff, Prod.exists] at h
  obtain ⟨d, b₁, hd, b₂, -, c, b₃, hc, off, hz, h⟩ := h
  have ht := Option.some.inj h
  subst ht
  obtain ⟨hv, hy0, hy1⟩ := scanDate_spec hd
  exact ⟨⟨d, hv, hy0, hy1, c, scanClock_lt hc, by simp only; omega⟩, scanZone_spec hz⟩

/-- A timestamp that was read shows a year of four digits in its own zone. -/
theorem year_of_parse {b : Bytes} {t : Time} (h : parse b = some t) :
    0 ≤ t.date.year ∧ t.date.year ≤ 9999 := by
  obtain ⟨⟨d, hv, hy0, hy1, c, hc, hs⟩, -⟩ := parse_spec h
  have hdays : (t.sec + t.offset) / 86400 = d.days := by omega
  have hy : t.date.year = d.year :=
    year_eq_of_days (Date.ofDays_valid _) hv ((Date.days_ofDays _).trans hdays)
  omega

theorem marshals_of_parse {b : Bytes} {t : Time} (h : parse b = some t) :
    t.Marshals ↔ zoneHour t.offset < 24 := by
  obtain ⟨hy0, hy1⟩ := year_of_parse h
  simp only [Marshals, hy0, hy1, true_and]

/-- The first and the last second of years `y` to `z`, in UTC. -/
def WithinYears (y z : ℤ) (t : Time) : Prop :=
  daysBeforeYear y * 86400 ≤ t.sec ∧ t.sec < daysBeforeYear (z + 1) * 86400

theorem withinYears_of_parse {b : Bytes} {t : Time} (h : parse b = some t) :
    WithinYears (-1) 10000 t := by
  obtain ⟨⟨d, hv, hy0, hy1, c, hc, hs⟩, -, ho0, ho1⟩ := parse_spec h
  have hb := Date.days_bounds hv
  have h0 := daysBeforeYear_mono hy0
  have h1 := daysBeforeYear_mono (show d.year + 1 ≤ 10000 by omega)
  have e0 : daysBeforeYear 0 = -366 := by decide
  have e1 : daysBeforeYear 10000 = 3652059 := by decide
  have e2 : daysBeforeYear (-1) = -731 := by decide
  have e3 : daysBeforeYear (10000 + 1) = 3652425 := by decide
  simp only [WithinYears, e2, e3]
  omega

end Parsed

section RoundTrip

theorem scanNum_num {w n : ℕ} (h : n < 10 ^ w) (t : Bytes) :
    scanNum w (num w n ++ t) = some (n, t) := by
  simp only [scanNum, num, takeDigits_fixed, Option.map_some, digitsVal_fixedDigits w n h]

theorem scanDate_text {d : Date} (hv : d.Valid) (h0 : 0 ≤ d.year) (h1 : d.year ≤ 9999)
    (t : Bytes) : scanDate (dateText d ++ t) = some (d, t) := by
  obtain ⟨y, m, k⟩ := d
  have hm : m < 100 := by have := hv.2.1; simp only at this; omega
  have hk : k < 100 := by
    have hb : ∀ (leap : Bool) (m : ℕ), m < 13 → daysIn leap m ≤ 31 := by decide
    have := hb (isLeap y) m (by have := hv.2.1; simp only at this; omega)
    have hd := hv.2.2.2
    simp only at hd
    omega
  have hy : ((y.toNat : ℕ) : ℤ) = y := Int.toNat_of_nonneg h0
  simp only at h1
  have hy4 : y.toNat < 10 ^ 4 := by omega
  simp only [scanDate, dateText, List.append_assoc, List.cons_append, scanNum_num hy4,
    scanNum_num (w := 2) hm, scanNum_num (w := 2) hk, scanByte_cons, Option.bind_eq_bind,
    Option.bind_some, hy, if_pos hv]

theorem scanClock_text {c : ℕ} (h : c < 86400) (t : Bytes) :
    scanClock (clockText c ++ t) = some (c, t) := by
  have h1 : c / 3600 < 10 ^ 2 := by omega
  have h2 : c / 60 % 60 < 10 ^ 2 := by omega
  have h3 : c % 60 < 10 ^ 2 := by omega
  have hsum : (c / 3600 * 60 + c / 60 % 60) * 60 + c % 60 = c := by omega
  simp only [scanClock, scanHour, clockText, List.append_assoc, List.cons_append, scanNum_num h1,
    scanNum_num h2, scanNum_num h3, scanByte_cons, Option.bind_eq_bind, Option.bind_some, hsum]
  rw [if_pos (by omega)]

private theorem zoneText_head (off : ℤ) :
    ∃ c r, zoneText off = c :: r ∧ Digit.ofByte? c = none ∧ c ≠ 0x2e ∧ c ≠ 0x2c := by
  unfold zoneText
  split_ifs
  · exact ⟨_, _, rfl, by decide, by decide, by decide⟩
  · exact ⟨_, _, rfl, by decide, by decide, by decide⟩
  · exact ⟨_, _, rfl, by decide, by decide, by decide⟩

private theorem trimZeros_spec (ds : List Digit) :
    ∃ k, ds = trimZeros ds ++ List.replicate k 0 := by
  induction ds using List.reverseRecOn with
  | nil => exact ⟨0, rfl⟩
  | append_singleton ds d ih =>
    by_cases hd : d = 0
    · subst hd
      obtain ⟨k, hk⟩ := ih
      refine ⟨k + 1, ?_⟩
      rw [trimZeros, List.rdropWhile_concat_pos _ _ _ (by simp), List.replicate_succ',
        ← List.append_assoc, ← trimZeros, ← hk]
    · exact ⟨0, by rw [trimZeros, List.rdropWhile_concat_neg _ _ _ (by simpa using hd)]; simp⟩

private theorem nanos_trimZeros {n : ℕ} (h : n < 1000000000) :
    nanos (trimZeros (fixedDigits 9 n)) = n := by
  obtain ⟨k, hk⟩ := trimZeros_spec (fixedDigits 9 n)
  have hl := congrArg List.length hk
  have hv := congrArg digitsVal hk
  rw [length_fixedDigits, List.length_append, List.length_replicate] at hl
  rw [digitsVal_fixedDigits 9 n h, digitsVal_append, digitsVal_replicate_zero,
    List.length_replicate, add_zero] at hv
  rw [nanos, List.take_of_length_le (by omega),
    show 9 - (trimZeros (fixedDigits 9 n)).length = k by omega, ← hv]

private theorem scanFraction_text {n : ℕ} (h : n < 1000000000) (off : ℤ) :
    scanFraction (fractionText n ++ zoneText off) = (⟨n, h⟩, zoneText off) := by
  obtain ⟨c, r, hz, hd, h1, h2⟩ := zoneText_head off
  unfold fractionText
  split_ifs with hn
  · subst hn
    simp [hz, scanFraction, h1, h2]
  · have hv := nanos_trimZeros h
    cases hds : trimZeros (fixedDigits 9 n) with
    | nil =>
      rw [hds] at hv
      exact absurd hv.symm (by simpa [nanos] using hn)
    | cons d ds =>
      have hs := scanDigits1_print d ds (t := zoneText off) (by rw [hz]; simpa using hd)
      rw [hds] at hv
      simp [scanFraction, hs, hv]

private theorem zoneMinutes_cases (off : ℤ) :
    (0 ≤ off ∧ zoneMinutes off = off / 60) ∨ (off < 0 ∧ zoneMinutes off = -(-off / 60)) := by
  rcases lt_or_ge off 0 with h | h
  · refine Or.inr ⟨h, ?_⟩
    rw [← Int.tdiv_eq_ediv_of_nonneg (by omega), Int.neg_tdiv, neg_neg, zoneMinutes]
  · exact Or.inl ⟨h, Int.tdiv_eq_ediv_of_nonneg h⟩

private theorem scanZone_text {off : ℤ} (hm : off % 60 = 0) (hz : zoneHour off < 24) :
    scanZone (zoneText off) = some off := by
  unfold zoneText
  split_ifs with h0 hneg
  · subst h0
    rfl
  all_goals
    have h1 : zoneHour off < 10 ^ 2 := by omega
    have h2 : (zoneMinutes off).natAbs % 60 < 10 ^ 2 := by omega
    have hs := scanNum_num h2 []
    rw [List.append_nil] at hs
    simp only [scanZone, List.cons.injEq, (by decide : ¬(0x2d : UInt8) = 0x5a),
      (by decide : ¬(0x2b : UInt8) = 0x5a), (by decide : ¬(0x2d : UInt8) = 0x2b), false_and,
      if_false, if_true, scanNum_num h1, scanByte_cons, hs, Option.bind_eq_bind, Option.bind_some,
      true_and]
    rw [if_pos (by omega)]
    have hc := zoneMinutes_cases off
    simp only [zoneHour]
    congr 1
    omega

/-- Writing and reading back gives the same instant in the same zone. -/
theorem parse_marshalText {t : Time} {b : Bytes} (h : t.marshalText = some b)
    (hm : t.offset % 60 = 0) : parse b = some t := by
  unfold marshalText at h
  split_ifs at h with hok
  have hb := Option.some.inj h
  subst hb
  obtain ⟨hy0, hy1, hz⟩ := hok
  have hc : t.clock < 86400 := by simp only [clock]; omega
  simp only [parse, text, scanDate_text (Date.ofDays_valid _) hy0 hy1, scanByte_cons,
    scanClock_text hc, scanFraction_text t.nsec_lt, scanZone_text hm hz, Option.bind_eq_bind,
    Option.bind_some, Option.some.injEq, date]
  obtain ⟨sec, nsec, off, hlt⟩ := t
  have hd := Date.days_ofDays ((sec + off) / 86400)
  simp only [clock, mk.injEq, and_true, hd]
  omega

theorem length_num (w n : ℕ) : (num w n).length = w := by simp [num, printDigits]

theorem length_text_le (t : Time) : t.text.length ≤ 35 := by
  have hf : (fractionText t.nsec).length ≤ 10 := by
    unfold fractionText
    split_ifs
    · simp
    · obtain ⟨k, hk⟩ := trimZeros_spec (fixedDigits 9 t.nsec)
      have hl := congrArg List.length hk
      rw [length_fixedDigits, List.length_append, List.length_replicate] at hl
      simp only [List.length_cons, printDigits, List.length_map]
      omega
  have hz : (zoneText t.offset).length ≤ 6 := by
    unfold zoneText
    split_ifs <;> simp [length_num]
  simp only [text, dateText, clockText, List.length_append, List.length_cons, length_num]
  omega

end RoundTrip

end Time

end IngestKit
