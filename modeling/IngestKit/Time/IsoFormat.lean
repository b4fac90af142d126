import IngestKit.Time.Rfc3339

/-! `datetime.isoformat` of Python for moments in UTC, read back as RFC 3339. -/
namespace IngestKit.Time

/-- A moment that `datetime.now(timezone.utc)` returns: whole microseconds in the years from 1970 to
9999. -/
structure IsUtcNow (t : Time) : Prop where
  utc : t.offset = 0
  micros : t.nsec % 1000 = 0
  first : 1970 ≤ t.date.year
  last : t.date.year ≤ 9999

instance (t : Time) : Decidable t.IsUtcNow :=
  decidable_of_iff (t.offset = 0 ∧ t.nsec % 1000 = 0 ∧ 1970 ≤ t.date.year ∧ t.date.year ≤ 9999)
    ⟨fun h => ⟨h.1, h.2.1, h.2.2.1, h.2.2.2⟩, fun h => ⟨h.utc, h.micros, h.first, h.last⟩⟩

theorem isZero_of_isUtcNow {t : Time} (h : t.IsUtcNow) : t.isZero = false := by
  have hfirst := h.first
  rw [isZero, Bool.and_eq_false_iff]
  refine Or.inl (decide_eq_false fun hsec => ?_)
  have hdays : (t.sec + t.offset) / 86400 = 0 := by
    rw [hsec, h.utc]
    rfl
  have hyear : (Date.ofDays 0).year = 1 := by decide
  rw [date, hdays, hyear] at hfirst
  omega

/-- Six digits, or nothing at a full second. -/
def microText (us : ℕ) : Bytes := if us = 0 then [] else 0x2e :: num 6 us

/-- The zone `+00:00`. -/
def utcText : Bytes := ascii ['+', '0', '0', ':', '0', '0']

def isoformat (t : Time) : Bytes :=
  dateText t.date ++ 0x54 :: (clockText t.clock ++ (microText (t.nsec / 1000) ++ utcText))

theorem scanFraction_microText {us : ℕ} (h : us < 1000000) :
    scanFraction (microText us ++ utcText) = (⟨us * 1000, by omega⟩, utcText) := by
  unfold microText
  split_ifs with hus
  · subst hus
    rfl
  · have hdigits : num 6 us ++ utcText = printDigits (fixedDigits 6 us) ++ utcText := rfl
    cases hds : fixedDigits 6 us with
    | nil =>
      have hlength := congrArg List.length hds
      rw [length_fixedDigits] at hlength
      cases hlength
    | cons d ds =>
      have hlength := congrArg List.length hds
      have hvalue := digitsVal_fixedDigits 6 us h
      rw [length_fixedDigits, List.length_cons] at hlength
      rw [hds] at hdigits hvalue
      have hstops : Stops Digit.ofByte? utcText := by
        rintro b ⟨⟩
        decide
      have hscan := scanDigits1_print d ds hstops
      have hnanos : nanos (d :: ds) = us * 1000 := by
        rw [nanos, List.take_of_length_le (by rw [List.length_cons]; omega), hvalue,
          List.length_cons, ← hlength]
        norm_num
      simp only [List.cons_append, scanFraction, hdigits, hscan, hnanos, true_or, if_true]

theorem parse_isoformat {t : Time} (h : t.IsUtcNow) : parse t.isoformat = some t := by
  obtain ⟨sec, nsec, off, hlt⟩ := t
  obtain ⟨hutc, hmicros, hfirst, hlast⟩ := h
  dsimp only at hutc hmicros
  subst hutc
  have hclock : clock ⟨sec, nsec, 0, hlt⟩ < 86400 := by
    simp only [clock]
    omega
  have hmicro : nsec / 1000 < 1000000 := by omega
  have hnsec : nsec / 1000 * 1000 = nsec := by omega
  have hzone : scanZone utcText = some 0 := by decide
  have hdays := Date.days_ofDays ((sec + 0) / 86400)
  have hdate := scanDate_text (d := date ⟨sec, nsec, 0, hlt⟩) (Date.ofDays_valid _) (by omega) hlast
  simp only [parse, isoformat, hdate, scanByte_cons, scanClock_text hclock,
    scanFraction_microText hmicro, hzone, Option.bind_eq_bind, Option.bind_some,
    Option.some.injEq, mk.injEq, hnsec, and_true]
  simp only [date, clock, hdays]
  omega

theorem length_isoformat_le (t : Time) : t.isoformat.length ≤ 32 := by
  have hmicro : (microText (t.nsec / 1000)).length ≤ 7 := by
    unfold microText
    split_ifs
    · exact Nat.zero_le _
    · rw [List.length_cons, length_num]
  have hzone : utcText.length = 6 := rfl
  simp only [isoformat, dateText, clockText, List.length_append, List.length_cons, length_num,
    hzone]
  omega

end IngestKit.Time
