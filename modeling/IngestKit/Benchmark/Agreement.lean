import IngestKit.Benchmark.Backlog
import IngestKit.Benchmark.Cases
import IngestKit.Benchmark.Recomputed
import IngestKit.Benchmark.Settled

/-! The auditor agrees with a verified run: each of its checks passes, apart from those on empty
sample lists. -/
namespace IngestKit.Benchmark
open Event

/-- `x` is a repetition of the pipeline case `c`. -/
structure Repeats (P : Platform) (c : Case) (space : Bytes) (seed : ℤ) (x : Setup) : Prop where
  config : x.config = pipelineCaseConfig c seed space
  named : space ≠ []
  expected : workload P ⟨space, c.payloadProfile.orVaried, seed + x.repetition,
    P.offered c.rate c.window, c.payloadBytes, 0⟩ = .ok x.expected
  count : c.count = P.offered c.rate c.window

theorem Repeats.ids {P : Platform} {c : Case} {space : Bytes} {seed : ℤ} {x : Setup}
    (h : Repeats P c space seed x) : x.ids = plan P space (seed + x.repetition) c.count := by
  rw [h.count]
  exact ids_workload h.expected h.named rfl

theorem Repeats.length {P : Platform} {c : Case} {space : Bytes} {seed : ℤ} {x : Setup}
    (h : Repeats P c space seed x) : x.ids.length = c.count := by
  rw [h.ids, plan, List.length_map, List.length_range]

namespace Verified
variable {P : Platform} {x : Setup} {trace : List Action} {r : PipelineRun} {e : Option GoError}
  {vs : List SendResult} {l : Loop} {now : ℤ} {closeErr : Option GoError} {stored : List UUID}

theorem attemptedIDs (h : Verified P x trace r e vs l now closeErr stored) :
    r.attemptedIDs = vs.flatMap (·.ids) := by
  obtain ⟨later, hs⟩ := h.settled
  rw [h.figures.sets.1, hs.recorded.attemptedIDs]

theorem acceptedIDs (h : Verified P x trace r e vs l now closeErr stored) :
    r.acceptedIDs = (vs.filter (·.accepted)).flatMap (·.ids) := by
  obtain ⟨later, hs⟩ := h.settled
  rw [h.figures.sets.2.1, hs.recorded.acceptedIDs]

theorem ambiguousIDs (h : Verified P x trace r e vs l now closeErr stored) :
    r.ambiguousIDs = (vs.filter fun v => !v.accepted && v.ambiguous).flatMap (·.ids) := by
  obtain ⟨later, hs⟩ := h.settled
  rw [h.figures.sets.2.2.1, hs.recorded.ambiguousIDs]

theorem filter_subset (h : Verified P x trace r e vs l now closeErr stored)
    (p : SendResult → Bool) :
    (vs.filter p).flatMap (·.ids) ⊆ r.attemptedIDs := by
  rw [h.attemptedIDs]
  exact (List.filter_sublist.flatMap _).subset

theorem stored_subset (h : Verified P x trace r e vs l now closeErr stored) :
    stored ⊆ r.attemptedIDs := by
  intro id hid
  rcases h.figures.delivered.2.1 id hid with ha | ha
  · rwa [h.figures.sets.1]
  · rw [← h.figures.sets.2.1, h.acceptedIDs] at ha
    exact h.filter_subset _ ha

theorem nodup (h : Verified P x trace r e vs l now closeErr stored) : r.attemptedIDs.Nodup := by
  obtain ⟨later, hs⟩ := h.settled
  rw [h.attemptedIDs]
  exact hs.nodup

theorem nodup_filter (h : Verified P x trace r e vs l now closeErr stored)
    (p : SendResult → Bool) : ((vs.filter p).flatMap (·.ids)).Nodup := by
  obtain ⟨later, hs⟩ := h.settled
  exact hs.nodup.sublist (List.filter_sublist.flatMap _)

/-- Every recorded ID is planned. -/
theorem ids_subset (h : Verified P x trace r e vs l now closeErr stored) (name : SetName) :
    r.ids name ⊆ x.ids := by
  obtain ⟨later, hs⟩ := h.settled
  have hattempted : r.attemptedIDs ⊆ x.ids := h.attemptedIDs ▸ hs.planned
  cases name with
  | attempted => exact hattempted
  | accepted =>
    change r.acceptedIDs ⊆ x.ids
    rw [h.acceptedIDs]
    exact List.Subset.trans (h.filter_subset _) hattempted
  | ambiguous =>
    change r.ambiguousIDs ⊆ x.ids
    rw [h.ambiguousIDs]
    exact List.Subset.trans (h.filter_subset _) hattempted
  | stored =>
    change r.storedIDs ⊆ x.ids
    rw [h.figures.sets.2.2.2]
    exact List.Subset.trans h.stored_subset hattempted

theorem audit_populations (h : Verified P x trace r e vs l now closeErr stored)
    {c : Case} {space : Bytes} {seed : ℤ} (hc : Repeats P c space seed x) :
    Audit.populations P (population P c r space seed) = .ok r.ids := by
  obtain ⟨later, hs⟩ := h.settled
  have hrep : r.repetition = x.repetition := h.figures.schedule.2.2.2.trans hs.fixed.repetition
  rw [populations_population, hrep, ← hc.ids]
  congr 1
  funext name
  have hin : (r.ids name).filter (· ∈ x.ids) = r.ids name := by
    rw [List.filter_eq_self]
    intro id hid
    simpa using h.ids_subset name hid
  have hout : (r.ids name).filter (· ∉ x.ids) = [] := by
    rw [List.filter_eq_nil_iff]
    intro id hid
    simpa using h.ids_subset name hid
  rw [hin, hout, List.append_nil]

/-- The attempted events are the accepted, the ambiguous and the rejected ones. -/
theorem classified (h : Verified P x trace r e vs l now closeErr stored) :
    r.attempted = r.attemptedIDs.length ∧ r.accepted = r.acceptedIDs.length ∧
      r.attempted = r.accepted + r.ambiguous + r.rejected := by
  obtain ⟨later, hs⟩ := h.settled
  obtain ⟨-, -, hattempted, hambiguous, hrejected, -⟩ := h.figures.requests
  have haccepted : r.accepted = r.acceptedIDs.length := by
    rw [h.figures.counts.1, ← h.figures.sets.2.1, h.acceptedIDs, uniqueIDs,
      (h.nodup_filter _).dedup]
  refine ⟨?_, haccepted, ?_⟩
  · rw [hattempted, hs.recorded.attempted, h.attemptedIDs]
  · rw [hattempted, hambiguous, hrejected, haccepted, h.figures.sets.2.1]
    exact hs.recorded.classified

theorem audit_sets (h : Verified P x trace r e vs l now closeErr stored) {c : Case} {space : Bytes}
    {seed : ℤ} (hc : Repeats P c space seed x) : Audit.sets P r c r.ids = .ok () := by
  obtain ⟨later, hs⟩ := h.settled
  obtain ⟨hattempted, haccepted, hclassified⟩ := h.classified
  obtain ⟨-, hpersisted, hmissing, hunexpected, hduplicates, hcontent, -⟩ := h.figures.counts
  have hstored : r.storedIDs = stored := h.figures.sets.2.2.2
  have hdisjoint : ∀ id ∈ r.acceptedIDs, id ∉ r.ambiguousIDs := by
    rw [h.figures.sets.2.1, h.figures.sets.2.2.1]
    exact hs.recorded.disjoint hs.nodup
  have hplanned : r.planned = c.count := by
    rw [h.figures.schedule.1, hs.fixed.planned, hc.length]
  have htotal : c.count = r.attempted + r.generatorMissed := by
    rw [hattempted, h.attemptedIDs, h.figures.schedule.2.1, hs.total, hc.length]
  have hsubset : r.acceptedIDs ⊆ r.storedIDs := by
    rw [h.figures.sets.2.1, hstored]
    exact h.figures.delivered.1
  have hknown : r.storedIDs ⊆ r.attemptedIDs := hstored ▸ h.stored_subset
  have hacceptedSub : r.acceptedIDs ⊆ r.attemptedIDs := h.acceptedIDs ▸ h.filter_subset _
  have hambiguousSub : r.ambiguousIDs ⊆ r.attemptedIDs := h.ambiguousIDs ▸ h.filter_subset _
  have hunique : r.persisted = r.storedIDs.length := by
    rw [hpersisted, hstored, uniqueIDs, h.figures.delivered.2.2.dedup]
  unfold Audit.sets
  simp only [Audit.unit_bind_eq_ok, Audit.forM_check_eq_ok, Audit.check_eq_ok, Bool.and_eq_true,
    beq_iff_eq, List.all_eq_true, decide_eq_true_eq]
  refine ⟨⟨⟨⟨⟨h.figures.correct, hmissing⟩, hunexpected⟩, hduplicates⟩, hcontent⟩, ?_, ?_, ?_, ?_,
    ?_, ?_, ?_⟩
  · intro name _
    rw [audit_idHash, h.figures.hashes]
  · exact ⟨fun _ hid => hacceptedSub hid, fun _ hid => hambiguousSub hid⟩
  · exact fun id hid => hdisjoint id hid
  · exact ⟨fun _ hid => hsubset hid, fun _ hid => hknown hid⟩
  · exact ⟨hplanned, htotal⟩
  · exact ⟨hattempted, hattempted ▸ hclassified⟩
  · exact ⟨haccepted, hunique⟩

theorem requestSamples (h : Verified P x trace r e vs l now closeErr stored) :
    r.requestSamples = vs.map (Loop.point x.started) := by
  obtain ⟨later, hs⟩ := h.settled
  rw [h.figures.requests.1, hs.recorded.requestSamples]

theorem ackNS (h : Verified P x trace r e vs l now closeErr stored) :
    r.ackNS = (vs.filter (·.accepted)).map (·.elapsedNS) := by
  obtain ⟨later, hs⟩ := h.settled
  rw [h.figures.requests.2.1, hs.recorded.ackNS]

theorem windowNS (h : Verified P x trace r e vs l now closeErr stored) :
    r.windowNS = x.config.duration := by
  obtain ⟨later, hs⟩ := h.settled
  rw [h.figures.times.1, hs.fixed.windowNS]

theorem audit_requests (h : Verified P x trace r e vs l now closeErr stored)
    {c : Case} {space : Bytes} {seed : ℤ} (hc : Repeats P c space seed x) :
    Audit.requests c r.ids r.requestSamples = .ok () := by
  obtain ⟨later, hs⟩ := h.settled
  have hbatch : c.batchSize = x.config.batchSize := by rw [hc.config]; rfl
  have hambiguous : vs.filter (·.ambiguous) = vs.filter fun v => !v.accepted && v.ambiguous := by
    refine List.filter_congr fun v hv => ?_
    have hexclusive := (hs.good v hv).exclusive
    cases ha : v.accepted <;> simp_all
  have hfold := foldlM_request r.attemptedIDs hbatch vs hs.good {} h.attemptedIDs
  rw [h.requestSamples, Audit.requests, Audit.bind_eq_ok]
  refine ⟨_, hfold, ?_⟩
  rw [Audit.check_eq_ok]
  simp [PipelineRun.ids, h.attemptedIDs, h.acceptedIDs, h.ambiguousIDs, hambiguous]

/-- The window checks pass exactly when some request was acknowledged. -/
theorem audit_window (h : Verified P x trace r e vs l now closeErr stored) :
    Audit.window r r.ids r.requestSamples = .ok () ↔ ∃ v ∈ vs, v.accepted = true := by
  obtain ⟨later, hs⟩ := h.settled
  obtain ⟨-, -, -, -, -, hattemptIn, hattemptAfter, hacceptIn, hacceptAfter⟩ :=
    h.figures.requests
  have hend : x.started + r.windowNS = x.windowEnd := by rw [h.windowNS]; rfl
  have hsamples : ((vs.map (Loop.point x.started)).filter (·.accepted)).map (·.elapsedNS) =
      r.ackNS := by
    rw [h.ackNS, List.filter_map, List.map_map]
    rfl
  obtain ⟨hattempted, haccepted⟩ := hs.recorded.windows
  have hslice : (Audit.slice r.ackNS == some r.ackNS) = true ↔ ∃ v ∈ vs, v.accepted = true := by
    rw [beq_iff_eq, Audit.slice_eq_some, h.ackNS]
    simp [List.filter_eq_nil_iff]
  unfold Audit.window
  rw [h.requestSamples, acknowledgedBy_map_point, startedBy_map_point, hend, hsamples]
  simp only [Audit.check_bind_eq_ok, Audit.check_eq_ok, hslice, Bool.and_eq_true, beq_iff_eq]
  refine ⟨fun hw => hw.2.2, fun hw => ⟨⟨?_, ?_⟩, ⟨?_, ?_⟩, hw⟩⟩
  · rw [hacceptIn, hs.recorded.acceptedInWindow]
  · rw [hattemptIn, hs.recorded.attemptedInWindow]
  · rw [hacceptAfter, PipelineRun.ids, h.figures.sets.2.1, ← haccepted,
      hs.recorded.acceptedInWindow]
    omega
  · rw [hattemptAfter, PipelineRun.ids, h.attemptedIDs, ← hs.recorded.attempted, ← hattempted,
      hs.recorded.attemptedInWindow]
    omega

theorem observationStatus_ne (h : Verified P x trace r e vs l now closeErr stored) :
    r.observationStatus ≠ .none := by
  rw [h.figures.observationStatus]
  split_ifs
  · simp
  · exact observationStatus_ne_none l

/-- A complete observation measured every row it saw. -/
theorem complete (h : Verified P x trace r e vs l now closeErr stored)
    (hc : r.observationStatus = .complete) : r.visibilityNS.length = r.observedEvents := by
  obtain ⟨later, hs⟩ := h.settled
  rw [h.figures.observationStatus] at hc
  split_ifs at hc
  have herr : l.observationError = none := by
    unfold Loop.observationStatus at hc
    split_ifs at hc with hfailed
    rw [not_or] at hfailed
    exact Option.not_isSome_iff_eq_none.mp hfailed.1
  rw [h.figures.visibility.1, h.figures.visibility.2.2.1, hs.observed.sampled herr]

/-- The visibility checks pass exactly when some row was measured. -/
theorem audit_visibility (h : Verified P x trace r e vs l now closeErr stored) :
    Audit.visibility r = .ok () ↔ r.visibilityNS ≠ [] := by
  obtain ⟨later, hs⟩ := h.settled
  obtain ⟨hvisibility, hcount, hobserved, -⟩ := h.figures.visibility
  have hmetric := h.figures.visibilityMetric hs.fixed.visibilityMetric
  have hstatus := h.observationStatus_ne
  have hle : r.visibilityNS.length ≤ r.observedEvents := by
    rw [hvisibility, hobserved]
    exact hs.observed.sampled_le
  unfold Audit.visibility
  rw [Audit.list_slice_bind_eq_ok]
  refine and_iff_left_of_imp fun hne => ?_
  have hnone : r.observationStatus ≠ .complete → r.visibilityMetric = none := by
    intro hc
    rw [hmetric, if_neg fun hm => hc hm.1]
  rw [Audit.check_bind_eq_ok, Audit.check_bind_eq_ok]
  refine ⟨?_, ?_, ?_⟩
  · rw [Bool.and_eq_true, beq_iff_eq, decide_eq_true_eq]
    exact ⟨hcount.trans (by rw [hvisibility]), hle⟩
  · simpa using hstatus
  · by_cases hc : r.observationStatus = .complete
    · simp only [hc, hne, ne_eq, not_true_eq_false, or_self, if_true, if_false, h.complete hc,
        h.figures.deliveryStatus, Audit.check_bind_eq_ok, Audit.check_eq_ok, beq_self_eq_true,
        and_self]
    · simp only [hc, ne_eq, not_false_eq_true, true_or, if_true, if_false, hnone hc,
        h.figures.deliveryStatus, Audit.check_bind_eq_ok, Audit.check_eq_ok, beq_self_eq_true,
        Option.isNone_none, and_self]

theorem audit_latencies (h : Verified P x trace r e vs l now closeErr stored)
    (hacks : r.ackNS ≠ []) (hmeasured : r.visibilityNS ≠ []) : Audit.latencies r = .ok () := by
  obtain ⟨later, hs⟩ := h.settled
  obtain ⟨hvisibility, -, -, hack⟩ := h.figures.visibility
  have hmetric := h.figures.visibilityMetric hs.fixed.visibilityMetric
  have hackList : r.ackNS = l.run.ackNS := h.figures.requests.2.1
  have hnonneg : ∀ ns ∈ r.ackNS, 0 ≤ ns := by
    rw [hackList, hs.recorded.ackNS]
    intro ns hns
    obtain ⟨v, hv, rfl⟩ := List.mem_map.mp hns
    have hgood := hs.good v (List.mem_filter.mp hv).1
    have hordered := hgood.ordered
    rw [hgood.elapsed]
    omega
  have hvisible : ∀ ns ∈ r.visibilityNS, 0 ≤ ns := hvisibility ▸ hs.observed.nonneg
  unfold Audit.latencies
  rw [Audit.list_slice_bind_eq_ok, Audit.check_bind_eq_ok, Audit.unit_bind_eq_ok,
    Audit.list_slice_bind_eq_ok, Audit.check_bind_eq_ok, hack, ← hackList]
  refine ⟨hacks, by simpa using hnonneg, latency_percentiles hacks, hmeasured,
    by simpa using hvisible, ?_⟩
  split_ifs with hc
  · rw [hmetric, if_pos ⟨hc.1, hvisibility ▸ hmeasured⟩, ← hvisibility]
    exact latency_percentiles hmeasured
  · rfl

/-- IDs that stayed unknown: ambiguous and not stored. -/
theorem unobserved (h : Verified P x trace r e vs l now closeErr stored) :
    (r.ambiguousIDs.dedup.filter (· ∉ r.storedIDs)).length = r.ambiguousUnobserved := by
  have hperm : (r.ambiguousIDs.dedup.filter (· ∈ r.storedIDs)).Perm
      (r.storedIDs.dedup.filter (· ∈ r.ambiguousIDs)) := by
    rw [List.perm_ext_iff_of_nodup ((List.nodup_dedup _).filter _) ((List.nodup_dedup _).filter _)]
    intro id
    simp only [List.mem_filter, List.mem_dedup, decide_eq_true_eq]
    exact and_comm
  have hsplit := List.length_eq_length_filter_add (fun id => decide (id ∈ r.storedIDs))
    (l := r.ambiguousIDs.dedup)
  simp only [← decide_not] at hsplit
  rw [h.figures.counts.2.2.2.2.2.2, ← h.figures.sets.2.2.1, ← h.figures.sets.2.2.2]
  unfold uniqueIDs
  rw [← hperm.length_eq, hsplit]
  omega

theorem audit_rates (h : Verified P x trace r e vs l now closeErr stored)
    (hload : r.loadStatus ≠ .aborted) : Audit.rates r r.ids r.requestSamples = .ok () := by
  obtain ⟨later, hs⟩ := h.settled
  obtain ⟨hwindow, htotal, hpos, hdrain⟩ := h.figures.times
  have hduration : 0 < x.config.duration := x.valid.2.2.2.1
  have hwindowNS := h.windowNS
  have hend := h.window hload
  have hlate : r.windowNS ≤ r.totalNS := by
    rw [hwindowNS, htotal]
    unfold Setup.windowEnd at hend
    omega
  have hwindowPos : (0 : ℚ) < r.windowNS := by
    exact_mod_cast hwindowNS ▸ Int.natCast_pos.mpr hduration
  have htotalPos : (0 : ℚ) < r.totalNS := by exact_mod_cast hpos
  have hinside : Audit.acknowledgedBy r.windowNS r.requestSamples = r.acceptedInWindow := by
    rw [h.requestSamples, acknowledgedBy_map_point, hwindowNS]
    exact (h.figures.requests.2.2.2.2.2.2.2.1.trans hs.recorded.acceptedInWindow).symm
  have hstored : r.storedIDs.length = (uniqueIDs stored).length := by
    rw [h.figures.sets.2.2.2, uniqueIDs, h.figures.delivered.2.2.dedup]
  unfold Audit.rates
  rw [Audit.check_bind_eq_ok, Audit.divide, if_neg hwindowPos.ne', Audit.divide,
    if_neg htotalPos.ne', Audit.ok_bind, Audit.check_bind_eq_ok, Audit.ok_bind,
    Audit.check_bind_eq_ok, Audit.check_eq_ok]
  refine ⟨?_, ?_, ?_, ?_⟩
  · simp only [Bool.and_eq_true, decide_eq_true_eq, beq_iff_eq]
    refine ⟨hlate, ?_⟩
    rw [hdrain, ← htotal, ← hwindow]
    omega
  · have hpositive : 0 < l.run.windowNS := by exact_mod_cast hwindow ▸ hwindowPos
    rw [hinside, beq_iff_eq, h.figures.rates.2 hpositive, hwindow,
      h.figures.requests.2.2.2.2.2.2.2.1]
  · rw [beq_iff_eq, h.figures.rates.1, ← hstored]
    rfl
  · rw [beq_iff_eq]
    exact h.unobserved

theorem acknowledgedBy_eq (h : Verified P x trace r e vs l now closeErr stored) (ns : ℤ) :
    Audit.acknowledgedBy ns r.requestSamples =
      (l.acceptedAt.filter fun p => p.2 ≤ x.started + ns).length := by
  obtain ⟨later, hs⟩ := h.settled
  rw [h.requestSamples, acknowledgedBy_map_point, hs.recorded.acceptedAt,
    acknowledgements_of_nodup hs.nodup, length_filter_finishes]

theorem seen_le (h : Verified P x trace r e vs l now closeErr stored) :
    l.seen.length ≤ r.persisted := by
  obtain ⟨later, hs⟩ := h.settled
  rw [h.figures.counts.2.1, uniqueIDs, h.figures.delivered.2.2.dedup]
  exact (List.subperm_of_subset hs.observed.nodup h.seen).length_le

theorem audit_backlog (h : Verified P x trace r e vs l now closeErr stored) :
    Audit.backlog r r.requestSamples = .ok () := by
  obtain ⟨later, hs⟩ := h.settled
  obtain ⟨last, hbacklog, hlastTime, hlastAccepted, hlastVisible, hlastFinal⟩ := h.figures.backlog
  have hordered := hs.timeline.ordered
  have hbounded := hs.timeline.bounded
  rw [List.map_nil, List.append_nil] at hordered hbounded
  have hmap := reconstructBacklog_eq_map x.started hordered
  have htimes : (l.reconstructBacklog x.started).map (·.elapsedNS) =
      l.run.backlog.map (·.elapsedNS) := by
    rw [hmap, List.map_map]
    rfl
  have hvisibles : (l.reconstructBacklog x.started).map (·.visible) =
      l.run.backlog.map (·.visible) := by
    rw [hmap, List.map_map]
    rfl
  have hseen := h.seen_le
  have hok : ∀ b ∈ r.backlog, SampleOk r r.requestSamples b := by
    rw [hbacklog, hmap]
    intro b hb
    rcases List.mem_append.mp hb with hb | hb
    · obtain ⟨s, hs', rfl⟩ := List.mem_map.mp hb
      have hvisible := hs.timeline.visible_le s hs'
      refine ⟨?_, hvisible.trans hseen, ?_, ?_⟩
      · rw [h.figures.times.2.1]
        exact h.backlog s hs'
      · change if s.finalVerification then _ else s.visible ≤ r.observedEvents
        rw [hs.timeline.observing s hs', if_neg (by simp), h.figures.visibility.2.2.1]
        exact hvisible
      · rw [accepted_passed, h.acknowledgedBy_eq]
        rfl
    · rw [List.mem_singleton.mp hb]
      refine ⟨hlastTime.le, hlastVisible.le, ?_, ?_⟩
      · rw [hlastFinal, if_pos rfl, hlastVisible]
      · have hall : l.acceptedAt.filter (fun p => p.2 ≤ x.started + r.totalNS) = l.acceptedAt := by
          rw [List.filter_eq_self]
          intro p hp
          have := h.accepted p hp
          rw [h.figures.times.2.1, decide_eq_true_eq]
          omega
        have hlength : l.acceptedAt.length = r.acceptedIDs.length := by
          rw [h.acceptedIDs, hs.recorded.acceptedAt, acknowledgements_of_nodup hs.nodup,
            List.length_flatMap, List.length_flatMap]
          simp
        rw [hlastAccepted, hlastTime, h.acknowledgedBy_eq, h.classified.2.1, hall, hlength]
  have htime : (0 :: r.backlog.map (·.elapsedNS)).Pairwise (· ≤ ·) := by
    rw [hbacklog, List.map_append, List.map_singleton, hlastTime, htimes, List.pairwise_cons,
      List.pairwise_append]
    have hpos := h.figures.times.2.2.1
    refine ⟨?_, hordered, List.pairwise_singleton _ _, ?_⟩
    · intro ns hns
      rcases List.mem_append.mp hns with hns | hns
      · exact (hbounded ns hns).1
      · rw [List.mem_singleton.mp hns]
        omega
    · intro ns hns last' hlast'
      obtain ⟨b, hb, rfl⟩ := List.mem_map.mp hns
      rw [List.mem_singleton.mp hlast', h.figures.times.2.1]
      exact h.backlog b hb
  have hvisible : (0 :: r.backlog.map (·.visible)).Pairwise (· ≤ ·) := by
    rw [hbacklog, List.map_append, List.map_singleton, hlastVisible, hvisibles, List.pairwise_cons,
      List.pairwise_append]
    refine ⟨fun _ _ => Nat.zero_le _, hs.timeline.visible, List.pairwise_singleton _ _, ?_⟩
    intro n hn last' hlast'
    obtain ⟨b, hb, rfl⟩ := List.mem_map.mp hn
    rw [List.mem_singleton.mp hlast']
    exact (hs.timeline.visible_le b hb).trans hseen
  have hne : r.backlog ≠ [] := by
    rw [hbacklog]
    simp
  obtain ⟨k', hfold⟩ := foldlM_sample hok (k := {}) htime hvisible
  unfold Audit.backlog
  rw [Audit.list_slice_bind_eq_ok]
  exact ⟨hne, by rw [hfold]; rfl⟩

theorem audit_labels (h : Verified P x trace r e vs l now closeErr stored)
    (hload : r.loadStatus ≠ .aborted) : Audit.labels r = .ok () := by
  have hstatus := h.figures.loadStatus
  have houtcome := h.figures.outcome (h.errors hload) hload
  have hshortfall : r.shortfall = l.run.shortfall := by
    obtain ⟨-, -, -, hambiguous, hrejected, -, hattemptAfter, -, hacceptAfter⟩ := h.figures.requests
    obtain ⟨-, hmissed, hlate, -⟩ := h.figures.schedule
    simp only [PipelineRun.shortfall, hambiguous, hrejected, hattemptAfter, hacceptAfter, hmissed,
      hlate]
  have hlimited : Audit.loadLimited r = decide (0 < r.shortfall) := by
    rw [Bool.eq_iff_iff, decide_eq_true_iff]
    simp only [Audit.loadLimited, PipelineRun.shortfall, List.any_cons, List.any_nil, Bool.or_false,
      Bool.or_eq_true, decide_eq_true_eq]
    omega
  unfold Audit.labels
  rw [Audit.check_bind_eq_ok, Audit.check_eq_ok, beq_iff_eq, beq_iff_eq, hlimited, houtcome]
  constructor
  · rw [hstatus] at hload ⊢
    split_ifs at hload ⊢ <;> simp_all
  · have hiff : (r.observationStatus == .failed || r.observationStatus == .partialView ||
        decide (0 < r.observerSlowQueries) || decide (0 < r.shortfall) ||
          r.observerLatePolls != 0 || r.observerOutages != 0) = true ↔ r.reasons ≠ [] := by
      rw [Ne, r.reasons_eq_nil_iff]
      simp only [Bool.or_eq_true, beq_iff_eq, decide_eq_true_eq, bne_iff_ne, Nat.pos_iff_ne_zero,
        ne_eq, not_and_or, not_not]
      exact iff_of_eq (by ac_rfl)
    by_cases hr : r.reasons = []
    · rw [if_pos hr, if_neg fun hl => hiff.mp hl hr]
    · rw [if_neg hr, if_pos (hiff.mpr hr)]

/-- Some request was acknowledged exactly when the recorded samples say so. -/
theorem acknowledged_iff (h : Verified P x trace r e vs l now closeErr stored) :
    (∃ v ∈ vs, v.accepted = true) ↔ Acknowledged trace := by
  obtain ⟨later, hs⟩ := h.settled
  exact hs.acknowledged

theorem measured_iff (h : Verified P x trace r e vs l now closeErr stored) :
    r.visibilityNS ≠ [] ↔ Measured (returnedRows trace) := by
  obtain ⟨later, hs⟩ := h.settled
  rw [h.figures.visibility.1]
  exact hs.observed.measured

/-- Of everything the auditor recomputes, only empty sample lists can differ. -/
theorem audit_pipeline (h : Verified P x trace r e vs l now closeErr stored) {c : Case}
    {space : Bytes} {seed : ℤ} (hc : Repeats P c space seed x) (hload : r.loadStatus ≠ .aborted)
    (htransport : Audit.transport r.connections c r.requestSamples = .ok ()) :
    Audit.pipeline P r (population P c r space seed) c = .ok () ↔
      Acknowledged trace ∧ Measured (returnedRows trace) := by
  have hwindow := h.audit_window
  have hvisibility := h.audit_visibility
  rw [h.acknowledged_iff] at hwindow
  rw [h.measured_iff] at hvisibility
  unfold Audit.pipeline
  rw [h.audit_populations hc, Audit.ok_bind, Audit.unit_bind_eq_ok, Audit.list_slice_bind_eq_ok,
    Audit.unit_bind_eq_ok, Audit.unit_bind_eq_ok, Audit.unit_bind_eq_ok, Audit.unit_bind_eq_ok,
    Audit.unit_bind_eq_ok, Audit.unit_bind_eq_ok, Audit.unit_bind_eq_ok, hwindow, hvisibility]
  constructor
  · rintro ⟨-, -, -, -, hack, hmeasured, -⟩
    exact ⟨hack, hmeasured⟩
  · rintro ⟨hack, hmeasured⟩
    obtain ⟨v, hv, haccepted⟩ := h.acknowledged_iff.mpr hack
    have hsamples : r.requestSamples ≠ [] := by
      rw [h.requestSamples]
      simpa using List.ne_nil_of_mem hv
    have hacks : r.ackNS ≠ [] := by
      rw [h.ackNS]
      exact List.ne_nil_of_mem (List.mem_map_of_mem (List.mem_filter.mpr ⟨hv, haccepted⟩))
    exact ⟨h.audit_sets hc, hsamples, h.audit_requests hc, htransport, hack, hmeasured,
      h.audit_latencies hacks (h.measured_iff.mpr hmeasured), h.audit_rates hload, h.audit_backlog,
      h.audit_labels hload⟩

end Verified

end IngestKit.Benchmark
