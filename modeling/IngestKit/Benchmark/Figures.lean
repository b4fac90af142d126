import IngestKit.Benchmark.Recorded

/-! The figures of a run whose delivery was verified, in terms of the final accounting. -/
namespace IngestKit.Benchmark
open Event

/-- `r` was recorded at `now` from the accounting `l`, with `stored` the IDs of the final query
`closeErr` the error of closing the observer and `e` the error of the repetition. -/
structure Figures (P : Platform) (l : Loop) (started now : ℤ) (closeErr : Option GoError)
    (stored : List UUID) (r : PipelineRun) (e : Option GoError) : Prop where
  requests : r.requestSamples = l.run.requestSamples ∧ r.ackNS = l.run.ackNS ∧
    r.attempted = l.run.attempted ∧ r.ambiguous = l.run.ambiguous ∧ r.rejected = l.run.rejected ∧
    r.attemptedInWindow = l.run.attemptedInWindow ∧
    r.attemptedAfterWindow = l.run.attemptedAfterWindow ∧
    r.acceptedInWindow = l.run.acceptedInWindow ∧ r.acceptedAfterWindow = l.run.acceptedAfterWindow
  schedule : r.planned = l.run.planned ∧ r.generatorMissed = l.run.generatorMissed ∧
    r.lateSchedules = l.run.lateSchedules ∧ r.repetition = l.run.repetition
  sets : r.attemptedIDs = l.run.attemptedIDs ∧ r.acceptedIDs = l.run.acceptedIDs ∧
    r.ambiguousIDs = l.run.ambiguousIDs ∧ r.storedIDs = stored
  counts : r.accepted = (uniqueIDs l.run.acceptedIDs).length ∧
    r.persisted = (uniqueIDs stored).length ∧ r.missing = 0 ∧ r.unexpected = 0 ∧
    r.duplicateRows = 0 ∧ r.contentMismatch = 0 ∧ r.ambiguousUnobserved =
      (uniqueIDs l.run.ambiguousIDs).length -
        ((uniqueIDs stored).filter (· ∈ l.run.ambiguousIDs)).length
  hashes : ∀ name, r.idSetSHA256 name = idHash P (r.ids name)
  correct : r.correct = true
  delivered : l.run.acceptedIDs ⊆ stored ∧
    (∀ id ∈ stored, id ∈ l.run.attemptedIDs ∨ id ∈ l.run.acceptedIDs) ∧ stored.Nodup
  times : r.windowNS = l.run.windowNS ∧ r.totalNS = now - started ∧ 0 < r.totalNS ∧
    r.drainNS = max 0 (now - started - l.run.windowNS)
  rates : r.verifiedCompletionEPS = (uniqueIDs stored).length * 1000000000 / r.totalNS ∧
    (0 < l.run.windowNS → r.acceptedEPS = l.run.acceptedInWindow * 1000000000 / l.run.windowNS)
  visibility : r.visibilityNS = l.run.visibilityNS ∧
    r.visibilitySampleCount = l.run.visibilityNS.length ∧ r.observedEvents = l.seen.length ∧
    r.ack = percentiles l.run.ackNS
  observer : r.observerSlowQueries = l.run.observerSlowQueries ∧
    r.observerLatePolls = l.run.observerLatePolls ∧ r.observerOutages = l.run.observerOutages
  observationStatus : r.observationStatus =
    if closeErr.isSome then .failed else l.observationStatus
  visibilityMetric : l.run.visibilityMetric = none → r.visibilityMetric =
    if r.observationStatus = .complete ∧ l.run.visibilityNS ≠ [] then
      some (percentiles l.run.visibilityNS)
    else none
  deliveryStatus : r.deliveryStatus = .passed
  backlog : ∃ last : BacklogSample, r.backlog = l.reconstructBacklog started ++ [last] ∧
    last.elapsedNS = r.totalNS ∧ last.accepted = r.accepted ∧ last.visible = r.persisted ∧
    last.finalVerification = true
  loadStatus : r.loadStatus = if l.run.loadStatus = .aborted then .aborted else
    if 0 < l.run.shortfall then .limited else .met
  outcome : (∀ err ∈ e, err.observationOnly = true) → r.loadStatus ≠ .aborted →
    r.outcome = if r.reasons = [] then .complete else .limited

theorem observationStatus_ne_none (l : Loop) : l.observationStatus ≠ .none := by
  unfold Loop.observationStatus
  split_ifs <;> simp

/-- What a passed delivery says about the final verification. -/
theorem finalize_passed {P : Platform} {r : PipelineRun} {verified : PipelineVerification}
    {verifyErr : Option GoError}
    (h : (finalizePipelineVerification P r verified verifyErr).1.deliveryStatus = .passed) :
    let m := PipelineRun.reconcile P { r with
      storedIDs := verified.storedIDs, contentMismatch := verified.contentMismatch }
    verifyErr = none ∧ m.1.correct = true ∧
      finalizePipelineVerification P r verified verifyErr =
        ({ m.1 with deliveryStatus := .passed }, none) := by
  have hiff := PipelineRun.reconcile_error_iff (P := P) { r with
    storedIDs := verified.storedIDs, contentMismatch := verified.contentMismatch }
  unfold finalizePipelineVerification at h ⊢
  dsimp only at h ⊢
  generalize PipelineRun.reconcile P { r with
    storedIDs := verified.storedIDs, contentMismatch := verified.contentMismatch } = m at h hiff ⊢
  obtain ⟨m, reconcileErr⟩ := m
  cases verifyErr with
  | some e => simp at h
  | none =>
    cases reconcileErr with
    | some e => simp at h
    | none => exact ⟨rfl, hiff.mp rfl, by simp [GoError.join]⟩

theorem finalize_of_no_error {P : Platform} {r : PipelineRun} {verified : PipelineVerification}
    {verifyErr : Option GoError}
    (h : (finalizePipelineVerification P r verified verifyErr).2 = none) :
    (finalizePipelineVerification P r verified verifyErr).1.deliveryStatus = .passed := by
  unfold finalizePipelineVerification at h ⊢
  dsimp only at h ⊢
  rw [GoError.join_eq_none_iff] at h
  rw [if_neg]
  simp only [not_or, Option.not_isSome_iff_eq_none]
  exact ⟨h _ List.mem_cons_self, h _ (List.mem_cons_of_mem _ List.mem_cons_self)⟩

namespace Sample

theorem finish_eq (r : PipelineRun) (verified : Bool) (closeErr result : Option GoError) :
    finish r verified closeErr result = { r with
      backlog := r.backlog ++ [finalSample r verified]
      observationStatus := if closeErr.isSome then .failed else r.observationStatus
      visibilityMetric := if closeErr.isSome then none else r.visibilityMetric
      outcome := if result.any fun e => !e.observationOnly then .failed
        else if closeErr.isSome then .limited else r.outcome } := by
  unfold finish
  dsimp only
  split_ifs <;> rfl

/-- The run of a repetition whose final query verified the rows `stored`. -/
def passedRun (P : Platform) (x : Setup) (now since : ℤ) (r : PipelineRun) (stored : List UUID)
    (closeErr result : Option GoError) : PipelineRun :=
  let r := { timed x now since r with storedIDs := stored, contentMismatch := 0 }
  finish { (r.reconcile P).1 with deliveryStatus := .passed } true closeErr result

/-- A passed delivery: the query ended well, its rows reconcile, and no error is added but the
observer's. -/
theorem closeRun_passed {P : Platform} {x : Setup} {now since : ℤ} {r₁ r : PipelineRun}
    {e₁ e closeErr : Option GoError} {q : QueryResult}
    (h : closeRun P x now since r₁ e₁ closeErr q = (r, e)) (hp : r.deliveryStatus = .passed) :
    (verifySelectedRows P x.expected r₁.acceptedIDs q).2 = none ∧
      (PipelineRun.reconcile P { timed x now since r₁ with
        storedIDs := q.rows.map (·.id), contentMismatch := 0 }).1.correct = true ∧
      e = GoError.join [e₁, closeErr.map .observation, none] ∧
      r = passedRun P x now since r₁ (q.rows.map (·.id)) closeErr e := by
  unfold closeRun at h
  dsimp only at h
  rw [Prod.mk.injEq] at h
  obtain ⟨hr, he⟩ := h
  have hpassed : (finalizePipelineVerification P (timed x now since r₁)
      (verifySelectedRows P x.expected r₁.acceptedIDs q).1
      (verifySelectedRows P x.expected r₁.acceptedIDs q).2).1.deliveryStatus = .passed := by
    rw [← hr, finish_eq] at hp
    exact hp
  obtain ⟨hv, hcorrect, heq⟩ := finalize_passed hpassed
  obtain ⟨-, hcontent, -⟩ := verifySelectedRows_ok hv
  rw [storedIDs_verifySelectedRows, hcontent] at hcorrect heq
  rw [heq, hv] at hr
  rw [heq] at he
  exact ⟨hv, hcorrect, he.symm, he ▸ hr.symm⟩

section PassedRun
variable {P : Platform} {x : Setup} {now since : ℤ} {r : PipelineRun} {stored : List UUID}
  {closeErr result : Option GoError}

theorem observationStatus_passedRun (h : r.observationStatus ≠ .none) :
    (passedRun P x now since r stored closeErr result).observationStatus =
      if closeErr.isSome then .failed else r.observationStatus := by
  unfold passedRun
  rw [finish_eq]
  change (if closeErr.isSome then _
    else if r.observationStatus = .none then .notRun else r.observationStatus) = _
  rw [if_neg h]

theorem visibilityMetric_passedRun :
    (passedRun P x now since r stored closeErr result).visibilityMetric =
      if closeErr.isSome then none
      else if r.observationStatus = .complete then r.visibilityMetric else none := by
  unfold passedRun
  rw [finish_eq]
  rfl

theorem loadStatus_passedRun : (passedRun P x now since r stored closeErr result).loadStatus =
    if r.loadStatus = .aborted then .aborted
    else if 0 < r.shortfall then .limited else .met := by
  unfold passedRun
  rw [finish_eq]
  rfl

theorem outcome_passedRun (h : r.observationStatus ≠ .none) (hload : r.loadStatus ≠ .aborted)
    (hcorrect : (passedRun P x now since r stored closeErr result).correct = true)
    (hresult : ∀ err ∈ result, err.observationOnly = true) :
    (passedRun P x now since r stored closeErr result).outcome =
      if (passedRun P x now since r stored closeErr result).reasons = [] then .complete
      else .limited := by
  have hstatus : (passedRun P x now since r stored closeErr result).observationStatus = _ :=
    observationStatus_passedRun h
  have hany : (result.any fun e => !e.observationOnly) = false := by
    cases result with
    | none => rfl
    | some err => simpa using hresult err rfl
  generalize hf : passedRun P x now since r stored closeErr result = f at hstatus hcorrect ⊢
  unfold passedRun at hf
  rw [finish_eq, hany] at hf
  cases closeErr with
  | some err =>
    have hne : f.reasons ≠ [] := fun he => (f.reasons_eq_nil_iff.mp he).2.2.2.1 hstatus
    rw [if_neg hne, ← hf]
    rfl
  | none =>
    have hreasons : f.reasons = r.reasons := by
      apply PipelineRun.reasons_congr
      rw [PipelineRun.limits, hstatus, ← hf]
      rfl
    rw [hreasons]
    rw [← hf] at hcorrect ⊢
    refine if_neg ?_
    rintro (hwrong | haborted)
    · exact Bool.false_ne_true (hwrong.symm.trans hcorrect)
    · exact hload haborted

end PassedRun

end Sample

private theorem ite_ite_and {α : Type} (p q : Prop) [Decidable p] [Decidable q] (a b : α) :
    (if p then if p ∧ q then a else b else b) = if p ∧ q then a else b := by
  by_cases hp : p
  · rw [if_pos hp]
  · rw [if_neg hp, if_neg fun h => hp h.1]

theorem figures_of_closeRun {P : Platform} {x : Setup} {l : Loop} {now since t : ℤ}
    {r₀ r : PipelineRun} {e₀ e closeErr : Option GoError} {q : QueryResult}
    {connections : ConnectionSnapshot} {queries : ℕ} (hc : Concluded P x l t r₀ e₀)
    (h : Sample.closeRun P x now since
      { r₀ with connections := connections, observerQueries := queries } e₀ closeErr q = (r, e))
    (hp : r.deliveryStatus = .passed) :
    Figures P l x.started now closeErr (q.rows.map (·.id)) r e := by
  obtain ⟨-, hcorrect, -, rfl⟩ := Sample.closeRun_passed h hp
  have hr₀ : r₀ = ((l.summarize x.started x.windowEnd t).count P).label :=
    (congrArg Prod.fst hc.eq).symm
  have hstatus : r₀.observationStatus = l.observationStatus := by
    rw [hr₀]
    exact if_neg (observationStatus_ne_none l)
  have hmetric : l.run.visibilityMetric = none → r₀.visibilityMetric =
      if l.observationStatus = .complete ∧ l.run.visibilityNS ≠ [] then
        some (percentiles l.run.visibilityNS) else none := by
    intro hm
    rw [hr₀]
    change (if l.observationStatus = .complete then
      if l.observationStatus = .complete ∧ l.run.visibilityNS ≠ [] then
        some (percentiles l.run.visibilityNS) else l.run.visibilityMetric else none) = _
    rw [hm, ite_ite_and]
  have hload : r₀.loadStatus = if l.run.loadStatus = .aborted then .aborted
      else if 0 < l.run.shortfall then .limited else .met := hr₀ ▸ rfl
  have hshortfall : r₀.shortfall = l.run.shortfall := hr₀ ▸ rfl
  obtain ⟨hdelivered, hknown, hnodup, -, hpos⟩ := (PipelineRun.correct_reconcile_iff _).mp hcorrect
  have hcounts := of_decide_eq_true hcorrect
  have hfinal : (Sample.passedRun P x now since
      { r₀ with connections := connections, observerQueries := queries } (q.rows.map (·.id))
        closeErr e).observationStatus =
          if closeErr.isSome then .failed else l.observationStatus := by
    rw [← hstatus]
    exact Sample.observationStatus_passedRun (hstatus ▸ observationStatus_ne_none l)
  have hloadStatus : (Sample.passedRun P x now since
      { r₀ with connections := connections, observerQueries := queries } (q.rows.map (·.id))
        closeErr e).loadStatus = r₀.loadStatus := by
    rw [Sample.loadStatus_passedRun]
    change (if r₀.loadStatus = .aborted then LoadStatus.aborted
      else if 0 < r₀.shortfall then .limited else .met) = r₀.loadStatus
    rw [hshortfall, hload]
    by_cases ha : l.run.loadStatus = .aborted
    · rw [if_pos ha, if_pos rfl]
    · have hne : (if 0 < l.run.shortfall then LoadStatus.limited else .met) ≠ .aborted := by
        split_ifs <;> simp
      rw [if_neg ha, if_neg hne]
  constructor
  case delivered =>
    subst hr₀
    exact ⟨hdelivered, hknown, hnodup⟩
  case observationStatus => exact hfinal
  case visibilityMetric =>
    intro hm
    rw [hfinal, Sample.visibilityMetric_passedRun]
    change (if closeErr.isSome then _
      else if r₀.observationStatus = .complete then r₀.visibilityMetric else none) = _
    rw [hstatus, hmetric hm, ite_ite_and]
    cases closeErr with
    | none => rfl
    | some err => rfl
  case loadStatus => exact hloadStatus.trans hload
  case outcome =>
    intro herr haborted
    exact Sample.outcome_passedRun (hstatus ▸ observationStatus_ne_none l)
      (hloadStatus ▸ haborted) (by unfold Sample.passedRun; rw [Sample.finish_eq]; exact hcorrect)
      herr
  all_goals
    subst hr₀
    unfold Sample.passedRun
    rw [Sample.finish_eq]
  case requests => exact ⟨rfl, rfl, rfl, rfl, rfl, rfl, rfl, rfl, rfl⟩
  case schedule => exact ⟨rfl, rfl, rfl, rfl⟩
  case sets => exact ⟨rfl, rfl, rfl, rfl⟩
  case counts => exact ⟨rfl, rfl, hcounts.1, hcounts.2.1, hcounts.2.2.1, rfl, rfl⟩
  case hashes =>
    intro name
    cases name <;> rfl
  case correct => exact hcorrect
  case times => exact ⟨rfl, rfl, hpos, rfl⟩
  case rates => exact ⟨if_pos hpos, fun hw => if_pos hw⟩
  case visibility => exact ⟨rfl, rfl, rfl, rfl⟩
  case observer => exact ⟨rfl, rfl, rfl⟩
  case backlog => exact ⟨_, rfl, rfl, rfl, rfl, rfl⟩

end IngestKit.Benchmark
