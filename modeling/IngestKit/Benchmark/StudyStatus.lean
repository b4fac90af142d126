import IngestKit.Benchmark.StudySafety

/-! When a study is recorded as complete. Its status is decided from the error that `RunStudy`
returns, and a cancelled case whose only errors are those of the observer returns none. -/
namespace IngestKit.Benchmark
open Event

def Finished (registry : List Case) (j : StudyJournal) : Prop :=
  ∀ c ∈ registry, doneCase (j.progress c.id).status = true

/-- What is recorded as complete has every case done. -/
structure Disk.Complete (registry : List Case) (d : Disk) : Prop where
  journal : ∀ j, d.journal = some j → j.status = .complete → Finished registry j
  index : ∀ i, d.index = some i → i.status = .complete → ∀ r ∈ i.cases, doneCase r.status = true

/-- Some case is still to be run. -/
def Unfinished (j : StudyJournal) (rest : List Case) : Prop :=
  ∃ c ∈ rest, doneCase (j.progress c.id).status = false

/-- If the action ends a measurement of a cancelled study with errors of the observer alone, then
the study has another case to run. -/
def Study.Continues (st : Study) (a : StudyAction) : Prop :=
  ∀ s c rest report err, st.session = some s → s.pc = .measure c rest →
    a = .step (.measured report err) → s.canceled = true →
    verifiedObservationOnly c report err = true → validateStudyRepetitions c report = none →
    Unfinished s.journal rest

theorem doneCase_studyOutcome (report : Report) : doneCase (studyOutcome report) = true := by
  cases report <;> simp only [studyOutcome] <;> first | rfl | (split_ifs <;> rfl)

/-- A case that does not end the study is done, or was cancelled with errors of the observer
alone. -/
theorem verdict_continues {c : Case} {report : Report} {err : Option GoError} {interrupted : Bool}
    (h : (verdict c report err interrupted).fails = false) :
    doneCase (verdict c report err interrupted).status = true ∨
      interrupted = true ∧ verifiedObservationOnly c report err = true ∧
        validateStudyRepetitions c report = none := by
  by_cases hcond : (err.isNone || verifiedObservationOnly c report err) = true
  · simp only [verdict, if_pos hcond] at h ⊢
    cases hjoin : GoError.join [err, validateStudyRepetitions c report] with
    | none =>
      left
      simpa using doneCase_studyOutcome report
    | some e =>
      rw [hjoin] at h
      have hlimited : verifiedObservationOnly c report (some e) = true := by simpa using h
      cases interrupted with
      | false => simp [hlimited, doneCase]
      | true =>
        right
        have hvalid : validateStudyRepetitions c report = none :=
          validated_of_verified (by rw [hjoin]; exact hlimited)
        refine ⟨rfl, ?_, hvalid⟩
        cases err with
        | none =>
          rw [hvalid] at hjoin
          cases hjoin
        | some e => simpa using hcond
  · rw [Bool.not_eq_true, Bool.or_eq_false_iff] at hcond
    simp only [verdict, hcond.1, hcond.2, Bool.or_self, Bool.false_eq_true, if_false] at h
    rw [← Option.not_isSome, Bool.not_eq_false'] at hcond
    rw [hcond.1] at h
    cases h

/-- The cases that the loop has passed are done, or it will find the study cancelled. -/
def Covered (registry : List Case) (s : StudySession) (rest : List Case) : Prop :=
  (∀ c ∈ registry, doneCase (s.journal.progress c.id).status = true ∨ c ∈ rest) ∨
    s.canceled = true ∧ Unfinished s.journal rest

/-- The same while one case runs. -/
def Running (registry : List Case) (s : StudySession) (c : Case) (rest : List Case) : Prop :=
  ∀ e ∈ registry, doneCase (s.journal.progress e.id).status = true ∨ e ∈ rest ∨ e.id = c.id

namespace StudySession

/-- What each step says of the status that is written at last. -/
def Honest (registry : List Case) (s : StudySession) : StudyPc → Prop
  | .create | .writeBound | .manifest | .writeManifest | .client => s.journal.status ≠ .complete
  | .loop rest => s.journal.status ≠ .complete ∧ Covered registry s rest
  | .writeRunning c rest | .measure c rest =>
    s.journal.status ≠ .complete ∧ Running registry s c rest
  | .capture c rest _ v => s.journal.status ≠ .complete ∧ Running registry s c rest ∧
      (v.fails = false → doneCase v.status = true ∨
        s.canceled = true ∧ Unfinished s.journal rest)
  | .writeCase rest fails | .writeIndex rest fails =>
    s.journal.status ≠ .complete ∧ (fails = false → Covered registry s rest)
  | .resources failed | .restore failed | .finish failed =>
    failed = false → Finished registry s.journal
  | .writeFinal _ | .writeFinalIndex _ =>
    s.journal.status = .complete → Finished registry s.journal
  | .prepare | .bind | .returned _ => True

variable {registry : List Case} {d d' : Disk} {s s' : StudySession} {a : StudyAnswer}

theorem complete_persist (hd : d.Complete registry)
    (hj : s.journal.status = .complete → Finished registry s.journal) {next failed : StudyPc}
    (hs : s.persist d next failed a = some (d', s')) (hnext : s.Honest registry next)
    (hfailed : s.Honest registry failed) : d'.Complete registry ∧ s'.Honest registry s'.pc := by
  have hwritten : ({ d with journal := some s.journal } : Disk).Complete registry := by
    refine ⟨fun j hj' => ?_, hd.index⟩
    cases hj'
    exact hj
  cases a with
  | ok =>
    cases hs
    exact ⟨hwritten, hnext⟩
  | failed =>
    cases hs
    exact ⟨hd, hfailed⟩
  | late =>
    cases hs
    exact ⟨hwritten, hfailed⟩
  | fingerprints | measured => cases hs

theorem complete_publish (hd : d.Complete registry) {status : StudyStatus}
    (hj : status = .complete → Finished registry s.journal) {next failed : StudyPc}
    (hs : s.publish registry d status next failed a = some (d', s'))
    (hnext : s.Honest registry next) (hfailed : s.Honest registry failed) :
    d'.Complete registry ∧ s'.Honest registry s'.pc := by
  have hwritten : ({ d with index := some (studyIndex s.journal registry status) } :
      Disk).Complete registry := by
    refine ⟨hd.journal, fun i hi hstatus r hr => ?_⟩
    cases hi
    obtain ⟨c, hc, rfl⟩ := List.mem_map.mp hr
    exact hj hstatus c hc
  cases a with
  | ok =>
    cases hs
    exact ⟨hwritten, hnext⟩
  | failed =>
    cases hs
    exact ⟨hd, hfailed⟩
  | late =>
    cases hs
    exact ⟨hwritten, hfailed⟩
  | fingerprints | measured => cases hs

theorem honest_failed : s.Honest registry (.resources true) := fun h => by cases h

/-- Files are not part of what is recorded as complete. -/
private theorem complete_create (hd : d.Complete registry) {path : OutputPath} {f : File}
    (h : d.create path f = some d') : d'.Complete registry := by
  unfold Disk.create at h
  split at h <;> cases h
  exact ⟨hd.journal, hd.index⟩

private theorem honest_nextCase {rest : List Case} (h : s.Honest registry (.loop rest)) :
    (s.nextCase rest).Honest registry (s.nextCase rest).pc := by
  obtain ⟨hstatus, hcovered⟩ := h
  cases rest with
  | nil =>
    intro _ c hc
    rcases hcovered with hall | ⟨-, c', hc', -⟩
    · exact (hall c hc).resolve_right List.not_mem_nil
    · cases hc'
  | cons c rest =>
    unfold nextCase
    dsimp only
    split_ifs with hdone hcanceled
    · refine ⟨hstatus, ?_⟩
      rcases hcovered with hall | ⟨hcanceled, c', hc', hnot⟩
      · left
        intro e he
        rcases hall e he with hdone' | hmem
        · exact Or.inl hdone'
        · rcases List.mem_cons.mp hmem with rfl | hmem
          · exact Or.inl hdone
          · exact Or.inr hmem
      · right
        refine ⟨hcanceled, c', ?_, hnot⟩
        rcases List.mem_cons.mp hc' with rfl | hmem
        · change doneCase (s.journal.progress c'.id).status = false at hnot
          rw [hnot] at hdone
          cases hdone
        · exact hmem
    · exact honest_failed
    · refine ⟨hstatus, fun e he => ?_⟩
      have hall := hcovered.resolve_right fun hc => hcanceled hc.1
      dsimp only
      by_cases hid : e.id = c.id
      · exact Or.inr (Or.inr hid)
      · rw [StudyJournal.progress_setProgress_of_ne _ _ hid]
        refine (hall e he).imp_right fun hmem => Or.inl ?_
        rcases List.mem_cons.mp hmem with rfl | hmem
        · exact absurd rfl hid
        · exact hmem

private theorem honest_captured {c : Case} {rest : List Case} {report : Report} {v : Verdict}
    (h : s.Honest registry (.capture c rest report v)) (hf : v.fails = false) :
    Covered registry { s with journal := s.captured c v, pc := .writeCase rest v.fails } rest := by
  obtain ⟨-, hrunning, hv⟩ := h
  have hself : ((s.captured c v).progress c.id).status = v.status := by
    rw [captured, StudyJournal.progress_setProgress_self]
  have hother : ∀ id, id ≠ c.id → (s.captured c v).progress id = s.journal.progress id := by
    intro id hid
    rw [captured, StudyJournal.progress_setProgress_of_ne _ _ hid]
  by_cases hdone : doneCase v.status = true
  · left
    intro e he
    dsimp only
    by_cases hid : e.id = c.id
    · rw [hid, hself]
      exact Or.inl hdone
    · rw [hother e.id hid]
      refine (hrunning e he).imp_right fun hmem => ?_
      exact hmem.resolve_right hid
  · right
    obtain ⟨hcanceled, c', hc', hnot⟩ := (hv hf).resolve_left hdone
    refine ⟨hcanceled, c', hc', ?_⟩
    dsimp only
    by_cases hid : c'.id = c.id
    · rw [hid, hself]
      simpa using hdone
    · rw [hother c'.id hid]
      exact hnot

theorem Honest.step (hd : d.Complete registry) (h : s.Honest registry s.pc)
    (hc : ∀ c rest report err, s.pc = .measure c rest → a = .measured report err →
      s.canceled = true → verifiedObservationOnly c report err = true →
      validateStudyRepetitions c report = none → Unfinished s.journal rest)
    (hs : s.step registry d a = some (d', s')) :
    d'.Complete registry ∧ s'.Honest registry s'.pc := by
  unfold StudySession.step at hs
  cases hpc : s.pc <;> rw [hpc] at h hs
  case create => exact complete_persist hd (fun hj => absurd hj h) hs trivial trivial
  case prepare => cases a <;> cases hs <;> exact ⟨hd, trivial⟩
  case bind =>
    cases a with
    | fingerprints images config =>
      dsimp only at hs
      split_ifs at hs
      cases hs
      refine ⟨hd, ?_⟩
      unfold StudySession.bind
      dsimp only
      split_ifs
      · exact honest_failed
      · exact fun hstatus => by cases hstatus
    | failed =>
      cases hs
      exact ⟨hd, honest_failed⟩
    | ok | late | measured => cases hs
  case writeBound => exact complete_persist hd (fun hj => absurd hj h) hs h honest_failed
  case manifest =>
    cases a with
    | ok =>
      dsimp only at hs
      split at hs <;> cases hs
      · next hcreate => exact ⟨complete_create hd hcreate, h⟩
      · exact ⟨hd, honest_failed⟩
    | failed =>
      cases hs
      exact ⟨hd, honest_failed⟩
    | late | fingerprints | measured => cases hs
  case writeManifest => exact complete_persist hd (fun hj => absurd hj h) hs h honest_failed
  case client =>
    cases a <;> cases hs
    · exact ⟨hd, h, Or.inl fun c hc => Or.inr hc⟩
    · exact ⟨hd, honest_failed⟩
  case loop rest =>
    cases a <;> cases hs
    exact ⟨hd, honest_nextCase h⟩
  case writeRunning c rest => exact complete_persist hd (fun hj => absurd hj h.1) hs h honest_failed
  case measure c rest =>
    cases a <;> cases hs
    · exact ⟨hd, honest_failed⟩
    · next report err =>
      refine ⟨hd, h.1, h.2, fun hf => ?_⟩
      refine (verdict_continues hf).imp_right fun hlimited => ?_
      obtain ⟨hcanceled, hverified, hvalid⟩ := hlimited
      exact ⟨hcanceled, hc c rest report err hpc rfl hcanceled hverified hvalid⟩
  case capture c rest report v =>
    cases a with
    | ok =>
      dsimp only at hs
      split at hs <;> cases hs
      · next hcreate => exact ⟨complete_create hd hcreate, h.1, honest_captured h⟩
      · exact ⟨hd, honest_failed⟩
    | failed =>
      cases hs
      exact ⟨hd, honest_failed⟩
    | late | fingerprints | measured => cases hs
  case writeCase rest fails =>
    exact complete_persist hd (fun hj => absurd hj h.1) hs h honest_failed
  case writeIndex rest fails =>
    refine complete_publish hd (fun hj => by cases hj) hs ?_ honest_failed
    cases fails with
    | true => exact honest_failed
    | false => exact ⟨h.1, h.2 rfl⟩
  case resources failed =>
    dsimp only at hs
    split_ifs at hs
    · cases a with
      | ok =>
        dsimp only at hs
        split at hs <;> cases hs
        · next hcreate => exact ⟨complete_create hd hcreate, h⟩
        · exact ⟨hd, fun hf => by cases hf⟩
      | failed =>
        cases hs
        exact ⟨hd, fun hf => by cases hf⟩
      | late | fingerprints | measured => cases hs
    · cases hs
      exact ⟨hd, h⟩
  case restore failed =>
    cases a <;> cases hs
    · exact ⟨hd, h⟩
    · exact ⟨hd, fun hf => by cases hf⟩
  case finish failed =>
    cases a <;> cases hs <;> refine ⟨hd, ?_⟩ <;> split_ifs
    · intro hstatus
      cases failed with
      | false => exact h rfl
      | true =>
        simp only [finalStatus] at hstatus
        split_ifs at hstatus
    · trivial
    · intro hstatus
      simp only [finalStatus] at hstatus
      split_ifs at hstatus
    · trivial
  case writeFinal failed => exact complete_persist hd h hs h h
  case writeFinalIndex failed => exact complete_publish hd h hs trivial trivial
  case returned failed => cases a <;> cases hs

end StudySession

namespace Study
variable {registry : List Case} {st st' : Study}

structure Honest (registry : List Case) (st : Study) : Prop where
  disk : st.disk.Complete registry
  session : ∀ s, st.session = some s → s.Honest registry s.pc

theorem honest_start : start.Honest registry where
  disk := ⟨by simp [start], by simp [start]⟩
  session := by simp [start]

private theorem honest_cancel {s : StudySession} {pc : StudyPc} (h : s.Honest registry pc) :
    ({ s with canceled := true } : StudySession).Honest registry pc := by
  have hcovered : ∀ rest, Covered registry s rest →
      Covered registry { s with canceled := true } rest :=
    fun rest hc => hc.imp_right fun hright => ⟨rfl, hright.2⟩
  cases pc with
  | loop rest => exact ⟨h.1, hcovered rest h.2⟩
  | capture c rest report v =>
    exact ⟨h.1, h.2.1, fun hf => (h.2.2 hf).imp_right fun hright => ⟨rfl, hright.2⟩⟩
  | writeCase rest fails | writeIndex rest fails => exact ⟨h.1, fun hf => hcovered rest (h.2 hf)⟩
  | _ => exact h

theorem Honest.step (h : st.Honest registry) {a : StudyAction} (hc : st.Continues a)
    (hs : st.step registry a = some st') : st'.Honest registry := by
  cases moves_of_step hs with
  | fresh hidle hjournal hindex hfiles =>
    refine ⟨h.disk, fun s hs => ?_⟩
    cases hs
    intro hstatus
    cases hstatus
  | resume hidle hj hresumable =>
    refine ⟨h.disk, fun s hs => ?_⟩
    cases hs
    trivial
  | cancel hsession =>
    refine ⟨h.disk, fun s' hs' => ?_⟩
    cases hs'
    exact honest_cancel (h.session _ hsession)
  | crash => exact ⟨h.disk, by simp⟩
  | step hsession hstep =>
    obtain ⟨hd', hs'⟩ := StudySession.Honest.step h.disk (h.session _ hsession)
      (fun c rest report err hpc ha => hc _ c rest report err hsession hpc (by rw [ha])) hstep
    refine ⟨hd', fun t ht => ?_⟩
    cases ht
    exact hs'

end Study

/-- If no cancelled case with errors of the observer alone is the last one to run, then a study
that is recorded as complete has every case done. -/
theorem complete_study_is_finished (registry : List Case) (as : List StudyAction) (st : Study)
    (h : Transition.execute (Study.step registry) .start as = some st)
    (hc : ∀ a x b u, as = a ++ x :: b →
      Transition.execute (Study.step registry) .start a = some u → u.Continues x) :
    (∀ j, st.disk.journal = some j → j.status = .complete →
      ∀ c ∈ registry, doneCase (j.progress c.id).status = true) ∧
    ∀ i, st.disk.index = some i → i.status = .complete →
      ∀ r ∈ i.cases, doneCase r.status = true := by
  have hhonest := Transition.execute_invariant_when (P := fun st => st.Honest registry)
    Study.honest_start (fun _ _ _ hi hcont hs => hi.step hcont hs) h hc
  exact ⟨hhonest.disk.journal, hhonest.disk.index⟩

def soloPipeline : Case := { pipelineBase with id := ascii ['p'] }

/-- Three repetitions, all correct. -/
def soloReport : Report :=
  .pipeline ⟨[1, 2, 3].map fun rep =>
    { repetition := rep, correct := true, deliveryStatus := .passed }⟩

def untilReturned : List StudyAction := List.replicate 9 (.step .ok)

/-- The observer fails in the only case, and the study is cancelled before the error is looked
at. -/
def canceledLast : List StudyAction :=
  ([.fresh soloIdentity [6], .step .ok] : List StudyAction) ++ untilMeasured ++
    ([.cancel, .step (.measured soloReport (some (.observation (.text "query failed"))))] :
      List StudyAction) ++ untilReturned

theorem canceled_study_is_complete : ∃ st ∈ Transition.execute (Study.step [soloPipeline]) .start
      canceledLast, (∃ j ∈ st.disk.journal, j.status = .complete ∧
        (j.progress soloPipeline.id).status = .incomplete) ∧
      ∃ i ∈ st.disk.index, i.status = .complete := by
  decide +kernel

/-- `Continues` as a check of one action. -/
def Study.continuing (st : Study) : StudyAction → Bool
  | .step (.measured report err) =>
    match st.session with
    | some s =>
      match s.pc with
      | .measure c rest =>
        !(s.canceled && verifiedObservationOnly c report err &&
          (validateStudyRepetitions c report).isNone) ||
          rest.any fun c => !doneCase (s.journal.progress c.id).status
      | _ => true
    | none => true
  | _ => true

theorem Study.continues_of_continuing {st : Study} {a : StudyAction}
    (h : st.continuing a = true) : st.Continues a := by
  intro s c rest report err hs hpc ha hcanceled hverified hvalid
  subst ha
  simp only [continuing, hs, hpc, hcanceled, hverified, hvalid] at h
  simpa [Unfinished] using h

def nextPipeline : Case := { pipelineBase with id := ascii ['q'] }

/-- The observer fails in the first of two cases, and the study is cancelled before the error is
looked at; the resumed study measures both. -/
def canceledFirst : List StudyAction :=
  ([.fresh soloIdentity [6], .step .ok] : List StudyAction) ++ untilMeasured ++
    ([.cancel, .step (.measured soloReport (some (.observation (.text "query failed"))))] :
      List StudyAction) ++ untilReturned ++
    (.resume soloIdentity :: untilMeasured) ++
    ([.step (.measured soloReport none), .step .ok, .step .ok, .step .ok, .step .ok, .step .ok,
      .step (.measured soloReport none)] : List StudyAction) ++ untilReturned

theorem complete_study_is_finished_resumed : ∃ st j,
    Transition.execute (Study.step [soloPipeline, nextPipeline]) .start canceledFirst = some st ∧
    st.disk.journal = some j ∧ j.status = .complete ∧
    (j.progress soloPipeline.id).history.map (·.status) = [.incomplete, .complete] ∧
    doneCase (j.progress soloPipeline.id).status = true ∧
    doneCase (j.progress nextPipeline.id).status = true := by
  have hrun : ∃ st ∈ Transition.execute (Study.step [soloPipeline, nextPipeline]) .start
      canceledFirst, ∃ j ∈ st.disk.journal, j.status = .complete ∧
        (j.progress soloPipeline.id).history.map (·.status) = [.incomplete, .complete] := by
    decide +kernel
  have hsteps : Transition.allSteps (Study.step [soloPipeline, nextPipeline]) Study.continuing
      .start canceledFirst = true := by
    decide +kernel
  obtain ⟨st, hst, j, hj, hstatus, hhistory⟩ := hrun
  have hfinished := complete_study_is_finished [soloPipeline, nextPipeline] canceledFirst st hst
    fun a x b u heq hu =>
      Study.continues_of_continuing (Transition.allowed_of_allSteps hsteps heq hu)
  have hdone := hfinished.1 j hj hstatus
  exact ⟨st, j, hst, hj, hstatus, hhistory, hdone soloPipeline (by simp),
    hdone nextPipeline (by simp)⟩

end IngestKit.Benchmark
