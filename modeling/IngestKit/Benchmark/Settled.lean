import IngestKit.Benchmark.Figures

/-! A recorded repetition has no request and no observation under way: its accounting is that of
every reply and every returned row. -/
namespace IngestKit.Benchmark
open Event Transition

/-- The accounting `l` of a finished repetition, whose replies were read in the order `vs`. -/
structure Settled (x : Setup) (trace : List Action) (now : ℤ) (vs : List SendResult) (l : Loop) :
    Prop where
  recorded : Recorded x vs l
  good : ∀ v ∈ vs, v.Good x now
  nodup : (vs.flatMap (·.ids)).Nodup
  planned : vs.flatMap (·.ids) ⊆ x.ids
  total : (vs.flatMap (·.ids)).length + l.run.generatorMissed = x.ids.length
  acknowledged : (∃ v ∈ vs, v.accepted = true) ↔ Acknowledged trace
  observed : Observed (returnedRows trace) l
  timeline : Timeline x now l []
  status : l.run.loadStatus = if l.result.isSome then .aborted else .none
  fixed : Fixed x l.run
  seen : l.result = none → l.observationError = none → l.run.acceptedIDs ⊆ l.seen

section Recorded
variable {P : Platform} {x : Setup} {trace : List Action} {s : Sample} {r : PipelineRun}
  {e : Option GoError}

/-- Once every worker has exited, no reply is on its way. -/
theorem underway_eq_zero (hw : ∀ w ∈ s.workers, w = .exited) (hresults : s.results = [])
    (hjobs : s.jobs = []) : s.underway = 0 ∧ s.replies = 0 := by
  have hids : (s.workers.map fun w => (↑w.ids : Multiset UUID)).sum = 0 := by
    apply List.sum_eq_zero
    intro m hm
    obtain ⟨w, hmem, rfl⟩ := List.mem_map.mp hm
    rw [hw w hmem]
    rfl
  have hreplies : (s.workers.map fun w => (↑w.replies : Multiset SendResult)).sum = 0 := by
    apply List.sum_eq_zero
    intro m hm
    obtain ⟨w, hmem, rfl⟩ := List.mem_map.mp hm
    rw [hw w hmem]
    rfl
  constructor
  · rw [Sample.underway, hids, hresults, hjobs]
    rfl
  · rw [Sample.replies, hreplies, hresults]
    rfl

/-- After the accounting loop nothing is on its way any more. -/
theorem quiescent_of_past (h : Inv P x trace s) (hp : s.phase.past = true) :
    s.underway = 0 ∧ s.replies = 0 := by
  obtain ⟨vs, hload⟩ := h.load
  obtain ⟨-, hdone, -, -⟩ := h.control.past hp
  obtain ⟨hclosed, hresults⟩ := h.control.workers hdone
  have hexited := hload.closed hclosed
  have hworker : Worker.exited ∈ s.workers := by
    have hpos : 0 < s.workers.length := hload.length_workers ▸ x.valid.2.1
    have hmem := List.getElem_mem hpos
    rwa [hexited _ hmem] at hmem
  exact underway_eq_zero hexited hresults (hload.exited hworker).1

/-- The recorded requests then hold every planned ID that was not missed, once. -/
theorem Load.accounted {vs : List SendResult} (hids : x.ids.Nodup) (h : Load x trace vs s)
    (hctl : Control x s) (hp : s.phase.past = true) (hunderway : s.underway = 0) :
    (vs.flatMap (·.ids)).Nodup ∧ vs.flatMap (·.ids) ⊆ x.ids ∧
      (vs.flatMap (·.ids)).length + s.loop.run.generatorMissed = x.ids.length := by
  obtain ⟨-, -, hmissed, hscheduler⟩ := hctl.past hp
  have hwithin := h.within
  rw [hunderway, add_zero, Multiset.coe_le] at hwithin
  obtain ⟨taken, hperm, hsub⟩ := hwithin.trans (List.take_sublist _ _).subperm
  have hconserved := h.conserved
  rw [hunderway, Multiset.card_zero, if_pos hscheduler, ← hmissed] at hconserved
  exact ⟨hperm.nodup_iff.mp (hids.sublist hsub), fun _ hid => hsub.subset (hperm.symm.subset hid),
    hconserved⟩

theorem settled_of_inv (hids : x.ids.Nodup) (h : Inv P x trace s) (hp : s.phase = .recorded r e) :
    ∃ vs, Settled x trace s.now vs s.loop := by
  have hpast : s.phase.past = true := by rw [hp]; rfl
  obtain ⟨vs, hload⟩ := h.load
  obtain ⟨rows, hobs⟩ := h.observing
  obtain ⟨hunderway, hreplies⟩ := quiescent_of_past h hpast
  obtain ⟨hnodup, hplanned, htotal⟩ := hload.accounted hids h.control hpast hunderway
  have hfinal := h.final
  simp only [Final, hp] at hfinal
  obtain ⟨hphase, hunread, -⟩ := hfinal
  have hrest : s.unread = [] := by rw [Sample.unread, hphase, hunread]; rfl
  refine ⟨vs, hload.recorded, ?_, hnodup, hplanned, htotal, ?_, ?_, ?_, h.control.status,
    h.control.fixed, ?_⟩
  · intro v hv
    exact hload.replies_good v (by simpa [hreplies] using hv)
  · simpa [hreplies] using hload.acknowledged
  · have hreturned := hobs.returned
    rw [hrest, List.flatMap_nil, List.append_nil] at hreturned
    exact hreturned ▸ hobs.observed
  · exact hrest ▸ hobs.timeline
  · intro hresult herr id hid
    have hunseen := h.control.settled (by rw [hp]; rfl) hresult herr
    rw [hload.recorded.acceptedIDs, ← keys_acknowledgements, ← hload.recorded.acceptedAt,
      List.mem_map] at hid
    obtain ⟨p, hpmem, rfl⟩ := hid
    simpa using List.any_eq_false.mp hunseen p hpmem

/-- A finished repetition whose delivery was verified at instant `now`. -/
structure Verified (P : Platform) (x : Setup) (trace : List Action) (r : PipelineRun)
    (e : Option GoError) (vs : List SendResult) (l : Loop) (now : ℤ) (closeErr : Option GoError)
    (stored : List UUID) : Prop where
  settled : ∃ later, Settled x trace later vs l
  figures : Figures P l x.started now closeErr stored r e
  seen : l.seen ⊆ stored
  accepted : ∀ p ∈ l.acceptedAt, p.2 ≤ now
  backlog : ∀ b ∈ l.run.backlog, b.elapsedNS ≤ now - x.started
  window : r.loadStatus ≠ .aborted → x.windowEnd ≤ now
  errors : r.loadStatus ≠ .aborted → ∀ err ∈ e, err.observationOnly = true

/-- Without an observation error the accounting reconciles by itself. -/
theorem reconcile_summarize {later t : ℤ} {vs : List SendResult} {l : Loop} {stored : List UUID}
    (h : Settled x trace later vs l) (hresult : l.result = none)
    (herr : l.observationError = none) (hseen : l.seen ⊆ stored)
    (hstored : ∀ id ∈ stored, id ∈ l.run.attemptedIDs ∨ id ∈ l.run.acceptedIDs)
    (hwindow : x.windowEnd ≤ t) :
    ((l.summarize x.started x.windowEnd t).reconcile P).2 = none := by
  rw [PipelineRun.reconcile_error_iff, PipelineRun.correct_reconcile_iff]
  have hduration : 0 < x.config.duration := x.valid.2.2.2.1
  refine ⟨?_, ?_, ?_, h.fixed.contentMismatch, ?_⟩
  · change l.run.acceptedIDs ⊆ l.run.storedIDs
    rw [h.observed.stored]
    exact h.seen hresult herr
  · change ∀ id ∈ l.run.storedIDs, _
    rw [h.observed.stored]
    exact fun id hid => hstored id (hseen hid)
  · change l.run.storedIDs.Nodup
    rw [h.observed.stored]
    exact h.observed.nodup
  · change 0 < t - x.started
    unfold Setup.windowEnd at hwindow
    omega

theorem recordedRun_eq_some (h : Sample.recordedRun P x trace = some (r, e)) :
    ∃ s, execute (Sample.step P x) (.start x) trace = some s ∧ s.phase = .recorded r e := by
  obtain ⟨s, hs, hp⟩ := Option.bind_eq_some_iff.mp h
  refine ⟨s, hs, ?_⟩
  unfold Phase.result at hp
  split at hp
  · next hphase =>
    cases hp
    exact hphase
  · cases hp

theorem verified_of_recordedRun (hids : x.ids.Nodup)
    (h : Sample.recordedRun P x trace = some (r, e)) (hd : r.deliveryStatus = .passed) :
    ∃ vs l now closeErr stored, Verified P x trace r e vs l now closeErr stored := by
  obtain ⟨s, h, hp⟩ := recordedRun_eq_some h
  have hinv := inv_of_execute h
  obtain ⟨vs, hsettled⟩ := settled_of_inv hids hinv hp
  have hfinal := hinv.final
  simp only [Final, hp] at hfinal
  obtain ⟨-, -, rows, err, -, hfound, now, since, r₁, e₁,
    closeErr, hsince, hsampled, hclose⟩ := hfinal
  obtain ⟨t, r₀, connections, queries, ht, hconcluded, rfl⟩ := hsampled
  have hfigures := figures_of_closeRun hconcluded hclose hd
  obtain ⟨hverify, -, he, -⟩ := Sample.closeRun_passed hclose hd
  obtain ⟨herr, -⟩ := verifySelectedRows_ok hverify
  have hseen : s.loop.seen ⊆ (rows.map TableRow.toStoredRow).map (·.id) := by
    intro id hid
    obtain ⟨row, hrow, rfl⟩ := hfound herr id hid
    rw [List.map_map]
    exact List.mem_map_of_mem hrow
  have hresult : r.loadStatus ≠ .aborted → s.loop.result = none := by
    intro hne
    rw [hfigures.loadStatus, hsettled.status] at hne
    cases hres : s.loop.result with
    | none => rfl
    | some err => simp [hres] at hne
  refine ⟨vs, s.loop, now, closeErr, _, ⟨_, hsettled⟩, hfigures, hseen, ?_, ?_, ?_, ?_⟩
  · intro p hp
    exact (hconcluded.accepted p hp).trans (ht.trans hsince)
  · intro b hb
    have := hconcluded.backlog b hb
    omega
  · intro hne
    exact (hconcluded.window (hresult hne)).trans (ht.trans hsince)
  · intro hne err herr
    rw [he] at herr
    rw [GoError.observationOnly_join herr]
    have hwindow := hconcluded.window (hresult hne)
    have hsample : ∀ err ∈ e₁, GoError.observationOnly err = true := by
      have heq := congrArg Prod.snd hconcluded.eq
      unfold Loop.conclude at heq
      dsimp only at heq
      rw [← heq, hresult hne]
      cases hobs : s.loop.observationError with
      | some cause =>
        intro err herr
        rw [GoError.observationOnly_join herr]
        simp [GoError.observationOnly]
      | none =>
        have hstored := hfigures.delivered.2.1
        rw [reconcile_summarize hsettled (hresult hne) hobs hseen hstored hwindow]
        simp [GoError.join, List.reduceOption]
    intro y hy
    simp only [List.mem_cons, List.not_mem_nil, or_false, reduceCtorEq] at hy
    rcases hy with hy | hy
    · exact hsample y hy.symm
    · obtain ⟨cause, -, rfl⟩ := Option.map_eq_some_iff.mp hy.symm
      rfl

/-- The rows of the final query contain every acknowledged event, only attempted events, no ID
twice and only planned contents. -/
structure Delivered (P : Platform) (expected : List Envelope) (r : PipelineRun)
    (rows : List StoredRow) : Prop where
  storedIDs : r.storedIDs = rows.map (·.id)
  accepted : r.acceptedIDs ⊆ r.storedIDs
  attempted : r.storedIDs ⊆ r.attemptedIDs
  nodup : r.storedIDs.Nodup
  content : ∀ row ∈ rows, asPlanned P expected row = true
  status : r.deliveryStatus = .passed

/-- A repetition that recorded a run made one final query. -/
theorem finalQueries_of_mem (h : execute (Sample.step P x) (.start x) trace = some s)
    (hp : s.phase = .recorded r e) {rows : List TableRow} {err : Option GoError}
    (hmem : Action.verify rows err ∈ trace) : finalQueries trace = [(rows, err)] := by
  have hlength := length_finalQueries h
  rw [hp] at hlength
  obtain ⟨q, hq⟩ := List.length_eq_one_iff.mp hlength
  have hquery : (rows, err) ∈ finalQueries trace :=
    List.mem_filterMap.mpr ⟨Action.verify rows err, hmem, rfl⟩
  rw [hq, List.mem_singleton] at hquery
  rw [hq, hquery]

/-- The final query behind a passed delivery. -/
theorem delivered_of_recordedRun (h : Sample.recordedRun P x trace = some (r, e))
    (hd : r.deliveryStatus = .passed) : ∃ rows, finalQueries trace = [(rows, none)] ∧
      Delivered P x.expected r (rows.map TableRow.toStoredRow) := by
  obtain ⟨s, h, hp⟩ := recordedRun_eq_some h
  have hinv := inv_of_execute h
  obtain ⟨vs, hload⟩ := hinv.load
  have hfinal := hinv.final
  simp only [Final, hp] at hfinal
  obtain ⟨-, -, rows, err, hqueried, -, now, since, r₁, e₁, closeErr, -, hsampled, hclose⟩ := hfinal
  obtain ⟨t, r₀, connections, queries, -, hconcluded, rfl⟩ := hsampled
  have hfigures := figures_of_closeRun hconcluded hclose hd
  obtain ⟨hverify, -⟩ := Sample.closeRun_passed hclose hd
  obtain ⟨rfl, -, hcontent⟩ := verifySelectedRows_ok hverify
  obtain ⟨hattempted, haccepted, -, hstored⟩ := hfigures.sets
  have hsub : r.acceptedIDs ⊆ r.attemptedIDs := by
    rw [haccepted, hattempted, hload.recorded.acceptedIDs, hload.recorded.attemptedIDs]
    exact (List.filter_sublist.flatMap _).subset
  obtain ⟨hdelivered, hknown, hnodup⟩ := hfigures.delivered
  rw [← haccepted, ← hattempted, ← hstored] at hknown
  rw [← haccepted, ← hstored] at hdelivered
  refine ⟨rows, finalQueries_of_mem h hp hqueried, hstored, hdelivered, ?_, hstored ▸ hnodup,
    hcontent, hd⟩
  intro id hid
  exact (hknown id hid).elim (fun h => h) fun h => hsub h

/-- A repetition without an error verified its delivery. -/
theorem passed_of_recordedRun (h : Sample.recordedRun P x trace = some (r, none)) :
    r.deliveryStatus = .passed := by
  obtain ⟨s, h, hp⟩ := recordedRun_eq_some h
  have hfinal := (inv_of_execute h).final
  simp only [Final, hp] at hfinal
  obtain ⟨-, -, rows, err, -, -, now, since, r₁, e₁, closeErr, -, -, hclose⟩ := hfinal
  unfold Sample.closeRun at hclose
  dsimp only at hclose
  rw [Prod.mk.injEq, GoError.join_eq_none_iff] at hclose
  obtain ⟨hr, he⟩ := hclose
  have hnone := he _ (List.mem_cons_of_mem _ (List.mem_cons_of_mem _ List.mem_cons_self))
  rw [← hr, Sample.finish_eq]
  exact finalize_of_no_error hnone

end Recorded

end IngestKit.Benchmark
