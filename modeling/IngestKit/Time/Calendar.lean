import Mathlib.Tactic.Linarith
import Mathlib.Data.Int.Order.Basic

/-! Proleptic Gregorian calendar. Day zero is 1 January of year 1; years may be
zero or negative. -/
namespace IngestKit.Time

def isLeap (y : ℤ) : Bool := y % 4 = 0 && (y % 100 ≠ 0 || y % 400 = 0)

/-- Days of the year before month `m`, counted from 1. -/
def daysBeforeMonth (leap : Bool) (m : ℕ) : ℕ :=
  let extra := if leap then 1 else 0
  if m ≤ 1 then 0
  else if m = 2 then 31
  else if m = 3 then 59 + extra
  else if m = 4 then 90 + extra
  else if m = 5 then 120 + extra
  else if m = 6 then 151 + extra
  else if m = 7 then 181 + extra
  else if m = 8 then 212 + extra
  else if m = 9 then 243 + extra
  else if m = 10 then 273 + extra
  else if m = 11 then 304 + extra
  else if m = 12 then 334 + extra
  else 365 + extra

def daysIn (leap : Bool) (m : ℕ) : ℕ := daysBeforeMonth leap (m + 1) - daysBeforeMonth leap m

def daysBeforeYear (y : ℤ) : ℤ := 365 * (y - 1) + (y - 1) / 4 - (y - 1) / 100 + (y - 1) / 400

structure Date where
  year : ℤ
  month : ℕ
  day : ℕ
  deriving DecidableEq

def Date.Valid (d : Date) : Prop :=
  1 ≤ d.month ∧ d.month ≤ 12 ∧ 1 ≤ d.day ∧ d.day ≤ daysIn (isLeap d.year) d.month

instance (d : Date) : Decidable d.Valid := inferInstanceAs (Decidable (_ ∧ _))

/-- Days since day zero. -/
def Date.days (d : Date) : ℤ :=
  daysBeforeYear d.year + daysBeforeMonth (isLeap d.year) d.month + (d.day - 1)

/-- The month holding a zero-based day of the year. -/
def monthOf (leap : Bool) (yday : ℕ) : ℕ :=
  let extra := if leap then 1 else 0
  if yday < 31 then 1
  else if yday < 59 + extra then 2
  else if yday < 90 + extra then 3
  else if yday < 120 + extra then 4
  else if yday < 151 + extra then 5
  else if yday < 181 + extra then 6
  else if yday < 212 + extra then 7
  else if yday < 243 + extra then 8
  else if yday < 273 + extra then 9
  else if yday < 304 + extra then 10
  else if yday < 334 + extra then 11
  else 12

/-- Completed centuries of a 400-year cycle; its last day belongs to the fourth. -/
def centuryOf (r : ℤ) : ℤ := r / 36524 - r / 36524 / 4

/-- Completed years of a 4-year cycle; its last day belongs to the fourth. -/
def yearOf4 (r : ℤ) : ℤ := r / 365 - r / 365 / 4

/-- Cut off cycles of 400, 100, 4 and 1 years in turn. -/
def yearAndDay (n : ℤ) : ℤ × ℤ :=
  let a := n / 146097
  let r := n % 146097
  let b := centuryOf r
  let r := r - 36524 * b
  let c := r / 1461
  let r := r - 1461 * c
  let e := yearOf4 r
  (400 * a + 100 * b + 4 * c + e + 1, r - 365 * e)

def Date.ofDays (n : ℤ) : Date :=
  let yd := yearAndDay n
  let leap := isLeap yd.1
  let m := monthOf leap yd.2.toNat
  ⟨yd.1, m, yd.2.toNat - daysBeforeMonth leap m + 1⟩

private theorem isLeap_cycle {a b c e : ℤ} (hb : 0 ≤ b ∧ b ≤ 3) (hc : 0 ≤ c ∧ c ≤ 24)
    (he : 0 ≤ e ∧ e ≤ 3) :
    isLeap (400 * a + 100 * b + 4 * c + e + 1) = true ↔ e = 3 ∧ (c ≠ 24 ∨ b = 3) := by
  simp only [isLeap, Bool.and_eq_true, Bool.or_eq_true, decide_eq_true_eq]
  omega

private theorem daysBeforeYear_cycle {a b c e : ℤ} (hb : 0 ≤ b ∧ b ≤ 3) (hc : 0 ≤ c ∧ c ≤ 24)
    (he : 0 ≤ e ∧ e ≤ 3) :
    daysBeforeYear (400 * a + 100 * b + 4 * c + e + 1) =
      146097 * a + 36524 * b + 1461 * c + 365 * e := by
  simp only [daysBeforeYear]
  omega

private theorem yearAndDay_spec (n : ℤ) :
    daysBeforeYear (yearAndDay n).1 + (yearAndDay n).2 = n ∧ 0 ≤ (yearAndDay n).2 ∧
      (yearAndDay n).2 < 365 + if isLeap (yearAndDay n).1 then 1 else 0 := by
  obtain ⟨a, ha⟩ : ∃ a, a = n / 146097 := ⟨_, rfl⟩
  obtain ⟨r, hr⟩ : ∃ r, r = n % 146097 := ⟨_, rfl⟩
  obtain ⟨b, hb⟩ : ∃ b, b = centuryOf r := ⟨_, rfl⟩
  obtain ⟨c, hc⟩ : ∃ c, c = (r - 36524 * b) / 1461 := ⟨_, rfl⟩
  obtain ⟨t, ht⟩ : ∃ t, t = r - 36524 * b - 1461 * c := ⟨_, rfl⟩
  obtain ⟨e, he⟩ : ∃ e, e = yearOf4 t := ⟨_, rfl⟩
  have hpair : yearAndDay n = (400 * a + 100 * b + 4 * c + e + 1, t - 365 * e) := by
    subst he ht hc hb hr ha
    rfl
  simp only [centuryOf] at hb
  simp only [yearOf4] at he
  have hr0 : 0 ≤ r ∧ r < 146097 := by omega
  have hb0 : 0 ≤ b ∧ b ≤ 3 := by omega
  have hs0 : 0 ≤ r - 36524 * b ∧ (r - 36524 * b < 36524 ∨ b = 3 ∧ r - 36524 * b = 36524) := by
    omega
  have hc0 : 0 ≤ c ∧ c ≤ 24 := by omega
  have ht0 : 0 ≤ t ∧ t < 1461 ∧ (c = 24 → b ≠ 3 → t < 1460) := by omega
  have he0 : 0 ≤ e ∧ e ≤ 3 := by omega
  have hd0 : 0 ≤ t - 365 * e ∧ (t - 365 * e < 365 ∨ e = 3 ∧ t = 1460) := by omega
  have hleap := isLeap_cycle (a := a) hb0 hc0 he0
  rw [hpair]
  refine ⟨?_, hd0.1, ?_⟩
  · rw [daysBeforeYear_cycle hb0 hc0 he0]
    omega
  · change t - 365 * e < 365 + if isLeap (400 * a + 100 * b + 4 * c + e + 1) = true then 1 else 0
    split_ifs with hl
    · omega
    · rw [hleap] at hl
      omega

private theorem monthOf_spec : ∀ (leap : Bool) (yday : ℕ), yday < 366 →
    (yday < 365 + if leap then 1 else 0) →
      1 ≤ monthOf leap yday ∧ monthOf leap yday ≤ 12 ∧
        daysBeforeMonth leap (monthOf leap yday) ≤ yday ∧
        yday < daysBeforeMonth leap (monthOf leap yday + 1) := by
  decide +kernel

private theorem ofDays_month (n : ℤ) :
    let yd := yearAndDay n
    let m := monthOf (isLeap yd.1) yd.2.toNat
    1 ≤ m ∧ m ≤ 12 ∧ daysBeforeMonth (isLeap yd.1) m ≤ yd.2.toNat ∧
      yd.2.toNat < daysBeforeMonth (isLeap yd.1) (m + 1) := by
  obtain ⟨-, h0, hlt⟩ := yearAndDay_spec n
  refine monthOf_spec _ _ ?_ ?_
  · split_ifs at hlt <;> omega
  · split_ifs at hlt ⊢ <;> omega

theorem Date.ofDays_valid (n : ℤ) : (Date.ofDays n).Valid := by
  obtain ⟨hm1, hm2, hlo, hhi⟩ := ofDays_month n
  refine ⟨hm1, hm2, by simp [Date.ofDays], ?_⟩
  simp only [Date.ofDays, daysIn]
  omega

theorem Date.days_ofDays (n : ℤ) : (Date.ofDays n).days = n := by
  obtain ⟨hn, h0, -⟩ := yearAndDay_spec n
  obtain ⟨-, -, hlo, -⟩ := ofDays_month n
  simp only [Date.days, Date.ofDays]
  omega

private theorem daysBeforeYear_succ (y : ℤ) :
    daysBeforeYear (y + 1) = daysBeforeYear y + 365 + if isLeap y then 1 else 0 := by
  have h4 : y / 4 = (y - 1) / 4 + if y % 4 = 0 then 1 else 0 := by split_ifs <;> omega
  have h100 : y / 100 = (y - 1) / 100 + if y % 100 = 0 then 1 else 0 := by split_ifs <;> omega
  have h400 : y / 400 = (y - 1) / 400 + if y % 400 = 0 then 1 else 0 := by split_ifs <;> omega
  have h1 : y % 100 = 0 → y % 4 = 0 := by omega
  have h2 : y % 400 = 0 → y % 100 = 0 := by omega
  simp only [daysBeforeYear, isLeap, add_sub_cancel_right, h4, h100, h400, Bool.and_eq_true,
    Bool.or_eq_true, decide_eq_true_eq]
  split_ifs <;> omega

private theorem month_end : ∀ (leap : Bool) (m : ℕ), m < 13 → 1 ≤ m →
    daysBeforeMonth leap m + daysIn leap m ≤ 365 + if leap then 1 else 0 := by
  decide

/-- Every valid date lies inside its year. -/
theorem Date.days_bounds {d : Date} (h : d.Valid) :
    daysBeforeYear d.year ≤ d.days ∧ d.days < daysBeforeYear (d.year + 1) := by
  obtain ⟨hm1, hm2, hd1, hd2⟩ := h
  have hyear := daysBeforeYear_succ d.year
  have hmonth := month_end (isLeap d.year) d.month (by omega) hm1
  simp only [Date.days]
  split_ifs at hyear hmonth <;> omega

theorem daysBeforeYear_mono {y z : ℤ} (h : y ≤ z) : daysBeforeYear y ≤ daysBeforeYear z := by
  simp only [daysBeforeYear]
  omega

theorem year_eq_of_days {d e : Date} (hd : d.Valid) (he : e.Valid) (h : d.days = e.days) :
    d.year = e.year := by
  obtain ⟨hd1, hd2⟩ := Date.days_bounds hd
  obtain ⟨he1, he2⟩ := Date.days_bounds he
  by_contra hne
  rcases lt_or_gt_of_ne hne with hlt | hgt
  · have := daysBeforeYear_mono (show d.year + 1 ≤ e.year by omega)
    omega
  · have := daysBeforeYear_mono (show e.year + 1 ≤ d.year by omega)
    omega

end IngestKit.Time
