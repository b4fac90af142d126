import IngestKit.Benchmark.Cases
import IngestKit.Benchmark.Errors

/-! The verdict of `RunStudy` on one measured case. -/
namespace IngestKit.Benchmark
open Event

/-- The status of a case in the journal; `none` is the empty string of an absent entry. -/
inductive CaseStatus
  | none | pending | running | complete | limited | failed | incomplete
  deriving DecidableEq

inductive ErrorClass
  | none | measurementFailed | observationFailed | interrupted
  deriving DecidableEq

def doneCase (s : CaseStatus) : Bool := s = .complete ∨ s = .limited

/-- The value of a sum or product of 64-bit integers. -/
def wrap64 (x : ℤ) : ℤ := (x + 9223372036854775808) % 18446744073709551616 - 9223372036854775808

/-- `DatabaseReport.Validate`, from the runs whose method and repetition are in `seen` on. -/
def validateDatabaseRuns (repetitions : ℤ) (seen : List (Method × ℤ)) :
    List DatabaseRun → Option GoError
  | [] => none
  | v :: runs =>
    if v.method = .unknown ∨ v.repetition < 1 ∨ repetitions < v.repetition ∨
        (v.method, v.repetition) ∈ seen ∨ v.correct = false ∨ v.elapsedNS ≤ 0 ∨ v.submitted ≤ 0 ∨
        v.inserted < 0 ∨ v.duplicates < 0 ∨ wrap64 (v.inserted + v.duplicates) ≠ v.submitted then
      some (.text "incorrect or incomplete database run")
    else validateDatabaseRuns repetitions ((v.method, v.repetition) :: seen) runs

def DatabaseReport.validate (r : DatabaseReport) : Option GoError :=
  if r.repetitions < 3 ∨ r.runs.length ≠ wrap64 (3 * r.repetitions) then
    some (.text "report requires every method/repetition")
  else validateDatabaseRuns r.repetitions [] r.runs

/-- The loop over the runs of a pipeline or recovery report. `seen` are the repetitions before. -/
def validateRuns (repetitions : ℕ) (message : String) (seen : List ℕ) :
    List (Bool × ℕ) → Option GoError
  | [] =>
    if seen.length = repetitions then none
    else some (.text "not every measured repetition was retained")
  | (correct, rep) :: runs =>
    if correct = false ∨ rep < 1 ∨ repetitions < rep ∨ rep ∈ seen then some (.text message)
    else validateRuns repetitions message (rep :: seen) runs

def validateStudyRepetitions (c : Case) : Report → Option GoError
  | .none => some (.text "unknown study report type")
  | .database r =>
    match r.validate with
    | some err => some err
    | none =>
      if r.repetitions ≠ c.repetitions then some (.text "database repetition controls differ")
      else none
  | .pipeline r =>
    validateRuns c.repetitions "missing, duplicate or incorrect pipeline repetition" []
      (r.runs.map fun v => (v.correct, v.repetition))
  | .recovery r =>
    validateRuns c.repetitions "missing, duplicate or incorrect recovery repetition" []
      (r.runs.map fun v => (v.correct, v.repetition))

def completedRepetitions : Report → List ℤ
  | .none => []
  | .database r =>
    let reps := (r.runs.filter (·.correct)).map (·.repetition)
    (reps.dedup.filter fun rep => reps.count rep = 3).insertionSort (· ≤ ·)
  | .pipeline r =>
    ((r.runs.filter (·.correct)).map fun v => (v.repetition : ℤ)).insertionSort (· ≤ ·)
  | .recovery r =>
    ((r.runs.filter (·.correct)).map fun v => (v.repetition : ℤ)).insertionSort (· ≤ ·)

/-- A requested fault that was injected more than 250 milliseconds late. -/
def FaultEvent.late (f : FaultEvent) : Bool :=
  (ascii ['_', 'r', 'e', 'q', 'u', 'e', 's', 't', 'e', 'd']).isSuffixOf f.action &&
    milliseconds 250 < f.elapsedNS - f.plannedNS

def studyOutcome : Report → CaseStatus
  | .pipeline r => if r.runs.any (·.outcome = .limited) then .limited else .complete
  | .recovery r =>
    if r.runs.any fun v => v.pipeline.any (·.outcome = .limited) || v.faults.any FaultEvent.late then
      .limited
    else .complete
  | _ => .complete

def verifiedObservationOnly (c : Case) (report : Report) (err : Option GoError) : Bool :=
  match report with
  | .pipeline r =>
    observationOnly err && r.runs.length == c.repetitions &&
      r.runs.all fun v => v.correct && v.deliveryStatus == .passed
  | _ => false

/-- What `RunStudy` records of a measurement. It ends with an error if `fails`. -/
structure Verdict where
  status : CaseStatus
  errorClass : ErrorClass
  completedRepetitions : List ℤ
  fails : Bool

/-- `interrupted` says whether the context is found done when the error is classified. -/
def verdict (c : Case) (report : Report) (err : Option GoError) (interrupted : Bool) : Verdict :=
  let err := if err.isNone || verifiedObservationOnly c report err then
      GoError.join [err, validateStudyRepetitions c report]
    else err
  let observationLimited := verifiedObservationOnly c report err
  { status :=
      if err.isNone then studyOutcome report
      else if interrupted then .incomplete
      else if observationLimited then .limited
      else .failed
    errorClass :=
      if err.isNone then .none
      else if interrupted then .interrupted
      else if observationLimited then .observationFailed
      else .measurementFailed
    completedRepetitions := completedRepetitions report
    fails := err.isSome && !observationLimited }

section Specs

/-- A list of runs that passes has each repetition once. -/
theorem count_of_validateRuns {repetitions : ℕ} {message : String} {runs : List (Bool × ℕ)}
    {seen : List ℕ} (hseen : seen.Nodup) (hrange : ∀ k ∈ seen, 1 ≤ k ∧ k ≤ repetitions)
    (h : validateRuns repetitions message seen runs = none) :
    (∀ v ∈ runs, v.1 = true) ∧
      ∀ k, (seen ++ runs.map Prod.snd).count k = if 1 ≤ k ∧ k ≤ repetitions then 1 else 0 := by
  induction runs generalizing seen with
  | nil =>
    rw [validateRuns] at h
    split_ifs at h with hlength
    refine ⟨by simp, fun k => ?_⟩
    rw [List.map_nil, List.append_nil]
    split_ifs with hk
    · have hsub : seen ⊆ (List.range repetitions).map (· + 1) := by
        intro k hk
        obtain ⟨hlow, hhigh⟩ := hrange k hk
        exact List.mem_map.mpr ⟨k - 1, List.mem_range.mpr (by omega), by omega⟩
      have hperm : seen.Perm ((List.range repetitions).map (· + 1)) :=
        (List.subperm_of_subset hseen hsub).perm_of_length_le (by simp [hlength])
      have hmem : k ∈ seen := by
        rw [hperm.mem_iff, List.mem_map]
        exact ⟨k - 1, List.mem_range.mpr (by omega), by omega⟩
      exact List.count_eq_one_of_mem hseen hmem
    · exact List.count_eq_zero_of_not_mem fun hmem => hk (hrange k hmem)
  | cons v runs ih =>
    obtain ⟨correct, rep⟩ := v
    rw [validateRuns] at h
    split_ifs at h with hbad
    simp only [not_or, Bool.not_eq_false, not_lt] at hbad
    obtain ⟨hcorrect, hlow, hhigh, hfresh⟩ := hbad
    obtain ⟨hall, hcount⟩ := ih (hseen.cons hfresh) (by
      intro k hk
      rcases List.mem_cons.mp hk with rfl | hk
      · exact ⟨hlow, hhigh⟩
      · exact hrange k hk) h
    refine ⟨List.forall_mem_cons.mpr ⟨hcorrect, hall⟩, fun k => ?_⟩
    rw [← hcount k, List.map_cons]
    exact (List.perm_middle.count_eq k)

theorem validateRuns_not_observation {repetitions : ℕ} {message : String} {runs : List (Bool × ℕ)}
    {seen : List ℕ} {err : GoError} (h : validateRuns repetitions message seen runs = some err) :
    err.observationOnly = false := by
  induction runs generalizing seen with
  | nil =>
    rw [validateRuns] at h
    split_ifs at h
    cases h
    rfl
  | cons v runs ih =>
    rw [validateRuns] at h
    split_ifs at h
    · cases h
      rfl
    · exact ih h

/-- A pipeline report whose error stays a verified observation error passed the check of its
repetitions: that check's own error is of another kind. -/
theorem validated_of_verified {c : Case} {report : Report} {err : Option GoError}
    (h : verifiedObservationOnly c report
      (GoError.join [err, validateStudyRepetitions c report]) = true) :
    validateStudyRepetitions c report = none := by
  cases report with
  | pipeline r =>
    simp only [verifiedObservationOnly, Bool.and_eq_true] at h
    cases hv : validateStudyRepetitions c (.pipeline r) with
    | none => rfl
    | some verr =>
      rw [hv] at h
      obtain ⟨joined, hjoined⟩ : ∃ joined, GoError.join [err, some verr] = some joined := by
        rw [← Option.isSome_iff_exists, Option.isSome_iff_ne_none, Ne, GoError.join_eq_none_iff]
        simp
      have honly : joined.observationOnly = true := by
        simpa [observationOnly, hjoined] using h.1.1
      have hpart := (GoError.observationOnly_join hjoined).mp honly verr (by simp)
      rw [validateRuns_not_observation hv] at hpart
      cases hpart
  | none => cases h
  | database r => cases h
  | recovery r => cases h

/-- A case that is recorded as done passed the check of its repetitions, and its error is absent or
a verified observation error. -/
theorem verdict_done {c : Case} {report : Report} {err : Option GoError} {interrupted : Bool}
    (h : doneCase (verdict c report err interrupted).status = true) :
    validateStudyRepetitions c report = none ∧
      (err = none ∨ verifiedObservationOnly c report err = true) := by
  by_cases hcond : (err.isNone || verifiedObservationOnly c report err) = true
  · have herr : err = none ∨ verifiedObservationOnly c report err = true := by
      simpa [Option.isNone_iff_eq_none] using hcond
    refine ⟨?_, herr⟩
    simp only [verdict, if_pos hcond] at h
    split_ifs at h with hnone hinterrupted hlimited
    · rw [Option.isNone_iff_eq_none, GoError.join_eq_none_iff] at hnone
      exact hnone _ (by simp)
    · cases h
    · exact validated_of_verified hlimited
    · cases h
  · rw [Bool.not_eq_true, Bool.or_eq_false_iff] at hcond
    simp only [verdict, hcond.1, hcond.2, Bool.or_self, Bool.false_eq_true, if_false] at h
    split_ifs at h <;> cases h

end Specs

end IngestKit.Benchmark
