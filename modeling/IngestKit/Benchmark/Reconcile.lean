import IngestKit.Benchmark.Errors
import IngestKit.Benchmark.Report
import Mathlib.Data.List.Dedup

/-! Reconciliation of a run's ID sets, and the final query that is independent of the
observer. -/
namespace IngestKit.Benchmark
open Event

/-- Functions of the platforms both languages run on: the SHA-256 digest, the version 5 UUID of a
name in the OID space, deep equality of two JSON payloads, and the number of events a rate and a
duration offer, which is rounded in floating point. -/
structure Platform where
  sha256 : Bytes → Bytes
  uuid5 : Bytes → UUID
  samePayload : Bytes → Bytes → Bool
  offered : ℕ → ℕ → ℕ

/-- The keys of the map; its order is never used. -/
def uniqueIDs (ids : List UUID) : List UUID := ids.dedup

def joinLines : List Bytes → Bytes
  | [] => []
  | [l] => l
  | l :: ls => l ++ 0x0a :: joinLines ls

/-- Digest of the sorted unique IDs, one on each line, without a final newline. -/
def idHash (P : Platform) (ids : List UUID) : Bytes :=
  UUID.hex (P.sha256 (joinLines (((uniqueIDs ids).map UUID.string).insertionSort (· ≤ ·))))

namespace PipelineRun

def ids (r : PipelineRun) : SetName → List UUID
  | .attempted => r.attemptedIDs
  | .accepted => r.acceptedIDs
  | .ambiguous => r.ambiguousIDs
  | .stored => r.storedIDs

/-- The first half of `Reconcile`: digests, counts, rates and correctness. -/
def count (P : Platform) (r : PipelineRun) : PipelineRun :=
  let accepted := uniqueIDs r.acceptedIDs
  let stored := uniqueIDs r.storedIDs
  let missing := (accepted.filter (· ∉ r.storedIDs)).length
  let unexpected := (stored.filter fun id => id ∉ r.attemptedIDs ∧ id ∉ r.acceptedIDs).length
  let duplicateRows := r.storedIDs.length - stored.length
  { r with
    idSetSHA256 := fun name => idHash P (r.ids name)
    missing := missing
    unexpected := unexpected
    ambiguousPersisted := (stored.filter (· ∈ r.ambiguousIDs)).length
    duplicateRows := duplicateRows
    accepted := accepted.length
    persisted := stored.length
    verifiedCompletionEPS :=
      if 0 < r.totalNS then stored.length * 1000000000 / r.totalNS else r.verifiedCompletionEPS
    acceptedEPS :=
      if 0 < r.windowNS then r.acceptedInWindow * 1000000000 / r.windowNS else r.acceptedEPS
    visibilitySampleCount := r.visibilityNS.length
    correct := missing = 0 ∧ unexpected = 0 ∧ duplicateRows = 0 ∧ r.contentMismatch = 0 ∧
      0 < r.totalNS }

/-- Load that was not offered, accepted and acknowledged inside the window. -/
def shortfall (r : PipelineRun) : ℕ :=
  r.generatorMissed + r.lateSchedules + r.rejected + r.ambiguous + r.attemptedAfterWindow +
    r.acceptedAfterWindow

def reasons (r : PipelineRun) : List LimitReason :=
  ([(r.generatorMissed, LimitReason.generatorMissedEvents), (r.lateSchedules, .lateSchedules),
    (r.rejected, .httpRejections), (r.ambiguous, .ambiguousDelivery),
    (r.attemptedAfterWindow, .requestQueueTail), (r.acceptedAfterWindow, .lateAcknowledgements),
    (r.observerLatePolls, .observerPollDelays), (r.observerOutages, .observerUnavailable)].filter
      fun limit => 0 < limit.1).map Prod.snd ++
  ((if r.observationStatus = .failed then [.observerFailed] else []) ++
    ((if r.observationStatus = .partialView then [.partialObservation] else []) ++
      (if 0 < r.observerSlowQueries then [.observerQueryDelays] else [])))

/-- The second half of `Reconcile`: status labels. -/
def label (r : PipelineRun) : PipelineRun :=
  { r with
    ambiguousUnobserved := (uniqueIDs r.ambiguousIDs).length - r.ambiguousPersisted
    limitReasons := r.reasons
    loadStatus :=
      if r.loadStatus = .aborted then .aborted else if 0 < r.shortfall then .limited else .met
    deliveryStatus := if r.deliveryStatus = .none then .notRun else r.deliveryStatus
    observationStatus := if r.observationStatus = .none then .notRun else r.observationStatus
    visibilityMetric := if r.observationStatus = .complete then r.visibilityMetric else none
    outcome :=
      if r.correct = false ∨ r.loadStatus = .aborted then .failed
      else if r.reasons = [] then .complete else .limited }

def reconcile (P : Platform) (r : PipelineRun) : PipelineRun × Option GoError :=
  let r := (r.count P).label
  (r, if r.correct then none else
    some (.text ("reconciliation: " ++ toString r.missing ++ " missing, " ++
      toString r.unexpected ++ " unexpected, " ++ toString r.duplicateRows ++
      " duplicate stored rows")))

end PipelineRun

structure PipelineVerification where
  storedIDs : List UUID := []
  missing : ℕ := 0
  unexpected : ℕ := 0
  contentMismatch : ℕ := 0

/-- A row of the final query. -/
structure StoredRow where
  id : UUID
  eventType : Bytes
  occurredAt : Time
  payload : Bytes
  deriving DecidableEq

/-- The rows a query delivered, and the error that ended it early. -/
structure QueryResult where
  rows : List StoredRow
  err : Option GoError

def expectedEvents (expected : List Envelope) (id : UUID) : Option Envelope :=
  expected.find? (·.eventID = id)

def sameContent (P : Platform) (row : StoredRow) (e : Envelope) : Bool :=
  P.samePayload row.payload e.payload && row.eventType == e.eventType &&
    row.occurredAt.sec == e.occurredAt.sec && row.occurredAt.nsec == e.occurredAt.nsec

/-- The row has a planned ID and its planned content. -/
def asPlanned (P : Platform) (expected : List Envelope) (row : StoredRow) : Bool :=
  (expectedEvents expected row.id).any (sameContent P row)

def verifyRow (P : Platform) (expected : List Envelope) (v : PipelineVerification)
    (row : StoredRow) : PipelineVerification :=
  let v := { v with storedIDs := v.storedIDs ++ [row.id] }
  match expectedEvents expected row.id with
  | none => { v with unexpected := v.unexpected + 1 }
  | some e =>
    if sameContent P row e then v else { v with contentMismatch := v.contentMismatch + 1 }

/-- `verifySelectedRows` on what the query delivered. -/
def verifySelectedRows (P : Platform) (expected : List Envelope) (required : List UUID)
    (q : QueryResult) : PipelineVerification × Option GoError :=
  let v := q.rows.foldl (verifyRow P expected) {}
  match q.err with
  | some e => (v, some e)
  | none =>
    let v := { v with missing := (required.filter (· ∉ v.storedIDs)).length }
    (v, if 0 < v.missing + v.unexpected + v.contentMismatch then
      some (.text "independent pipeline ID/content verification failed") else none)

def finalizePipelineVerification (P : Platform) (r : PipelineRun) (verified : PipelineVerification)
    (verifyErr : Option GoError) : PipelineRun × Option GoError :=
  let (r, reconcileErr) :=
    { r with storedIDs := verified.storedIDs, contentMismatch := verified.contentMismatch }.reconcile
      P
  (if verifyErr.isSome ∨ reconcileErr.isSome then
    { r with deliveryStatus := .failed, correct := false, outcome := .failed }
  else { r with deliveryStatus := .passed }, GoError.join [verifyErr, reconcileErr])

section Specs
variable {P : Platform}

/-- Exactly when `Reconcile` finds a run correct. -/
theorem PipelineRun.correct_reconcile_iff (r : PipelineRun) :
    (r.reconcile P).1.correct = true ↔ r.acceptedIDs ⊆ r.storedIDs ∧
      (∀ id ∈ r.storedIDs, id ∈ r.attemptedIDs ∨ id ∈ r.acceptedIDs) ∧ r.storedIDs.Nodup ∧
      r.contentMismatch = 0 ∧ 0 < r.totalNS := by
  have hmissing : ((uniqueIDs r.acceptedIDs).filter (· ∉ r.storedIDs)).length = 0 ↔
      r.acceptedIDs ⊆ r.storedIDs := by
    simp [uniqueIDs, List.filter_eq_nil_iff, List.subset_def]
  have hunexpected : ((uniqueIDs r.storedIDs).filter fun id =>
      id ∉ r.attemptedIDs ∧ id ∉ r.acceptedIDs).length = 0 ↔
        ∀ id ∈ r.storedIDs, id ∈ r.attemptedIDs ∨ id ∈ r.acceptedIDs := by
    simp [uniqueIDs, List.filter_eq_nil_iff, or_iff_not_imp_left]
  have hduplicate : r.storedIDs.length - (uniqueIDs r.storedIDs).length = 0 ↔
      r.storedIDs.Nodup := by
    have hle : (uniqueIDs r.storedIDs).length ≤ r.storedIDs.length :=
      (List.dedup_sublist _).length_le
    constructor
    · intro h
      have heq := (List.dedup_sublist r.storedIDs).eq_of_length (by
        change (uniqueIDs r.storedIDs).length = _
        omega)
      exact heq ▸ List.nodup_dedup _
    · intro h
      rw [uniqueIDs, h.dedup, Nat.sub_self]
  change decide _ = true ↔ _
  rw [decide_eq_true_iff, hmissing, hunexpected, hduplicate]

theorem PipelineRun.reconcile_error_iff (r : PipelineRun) :
    (r.reconcile P).2 = none ↔ (r.reconcile P).1.correct = true := by
  unfold PipelineRun.reconcile
  dsimp only
  split_ifs with h <;> simp [h]

/-- The fields the limit reasons depend on. -/
def PipelineRun.limits (r : PipelineRun) :=
  (r.generatorMissed, r.lateSchedules, r.rejected, r.ambiguous, r.attemptedAfterWindow,
    r.acceptedAfterWindow, r.observerLatePolls, r.observerOutages, r.observationStatus,
    r.observerSlowQueries)

theorem PipelineRun.reasons_congr {r r' : PipelineRun} (h : r.limits = r'.limits) :
    r.reasons = r'.reasons := by
  simp only [limits, Prod.mk.injEq] at h
  obtain ⟨h1, h2, h3, h4, h5, h6, h7, h8, h9, h10⟩ := h
  simp only [reasons, h1, h2, h3, h4, h5, h6, h7, h8, h9, h10]

/-- Exactly when a run has no limit to report. -/
theorem PipelineRun.reasons_eq_nil_iff (r : PipelineRun) : r.reasons = [] ↔
    r.shortfall = 0 ∧ r.observerLatePolls = 0 ∧ r.observerOutages = 0 ∧
      r.observationStatus ≠ .failed ∧ r.observationStatus ≠ .partialView ∧
      r.observerSlowQueries = 0 := by
  simp only [reasons, List.append_eq_nil_iff, List.map_eq_nil_iff,
    List.filter_eq_nil_iff, shortfall]
  simp
  tauto

theorem storedIDs_foldl_verifyRow (expected : List Envelope) (rows : List StoredRow)
    (v : PipelineVerification) :
    (rows.foldl (verifyRow P expected) v).storedIDs = v.storedIDs ++ rows.map (·.id) := by
  induction rows generalizing v with
  | nil => simp
  | cons row rows ih =>
    have hone : (verifyRow P expected v row).storedIDs = v.storedIDs ++ [row.id] := by
      unfold verifyRow
      dsimp only
      split
      · rfl
      · split_ifs <;> rfl
    rw [List.foldl_cons, ih, hone]
    simp

/-- The final query's IDs are kept as they were delivered. -/
theorem storedIDs_verifySelectedRows (expected : List Envelope) (required : List UUID)
    (q : QueryResult) :
    (verifySelectedRows P expected required q).1.storedIDs = q.rows.map (·.id) := by
  unfold verifySelectedRows
  dsimp only
  split <;> simp [storedIDs_foldl_verifyRow]

/-- Every row that is not as planned is counted once. -/
theorem counts_foldl_verifyRow (expected : List Envelope) (rows : List StoredRow)
    (v : PipelineVerification) :
    (rows.foldl (verifyRow P expected) v).unexpected +
        (rows.foldl (verifyRow P expected) v).contentMismatch =
      v.unexpected + v.contentMismatch + (rows.filter (!asPlanned P expected ·)).length := by
  induction rows generalizing v with
  | nil => rfl
  | cons row rows ih =>
    have hone : (verifyRow P expected v row).unexpected +
        (verifyRow P expected v row).contentMismatch =
          v.unexpected + v.contentMismatch + if asPlanned P expected row then 0 else 1 := by
      unfold verifyRow asPlanned
      dsimp only
      cases expectedEvents expected row.id with
      | none => simp; omega
      | some e => by_cases hsame : sameContent P row e = true <;> simp [hsame]; omega
    rw [List.foldl_cons, ih, hone]
    cases hrow : asPlanned P expected row with
    | true => simp [hrow]
    | false =>
      simp only [List.filter_cons, hrow, Bool.not_false, if_true, List.length_cons,
        Bool.false_eq_true, if_false]
      omega

/-- Without an error every row is as planned, and none of the required IDs is missing. -/
theorem verifySelectedRows_ok {expected : List Envelope} {required : List UUID} {q : QueryResult}
    (h : (verifySelectedRows P expected required q).2 = none) :
    q.err = none ∧ (verifySelectedRows P expected required q).1.contentMismatch = 0 ∧
      ∀ row ∈ q.rows, asPlanned P expected row = true := by
  have hcounts := counts_foldl_verifyRow (P := P) expected q.rows {}
  unfold verifySelectedRows at h ⊢
  dsimp only at h ⊢
  cases hq : q.err with
  | some e => simp [hq] at h
  | none =>
    simp only [hq] at h ⊢
    split_ifs at h with hpos
    refine ⟨trivial, by omega, ?_⟩
    have hnil : q.rows.filter (!asPlanned P expected ·) = [] := by
      rw [← List.length_eq_zero_iff]
      omega
    simpa [List.filter_eq_nil_iff] using hnil

end Specs

end IngestKit.Benchmark
