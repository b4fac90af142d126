import IngestKit.Benchmark.Evidence
import IngestKit.Benchmark.Load
import Mathlib.Data.List.Pairwise

/-! The auditor's loops, run on the samples that a run records. -/
namespace IngestKit.Benchmark
open Event

section Lists
variable {α β : Type*}

theorem length_flatMap_filter_add (p : α → Bool) (f : α → List β) (l : List α) :
    ((l.filter p).flatMap f).length + ((l.filter (!p ·)).flatMap f).length =
      (l.flatMap f).length := by
  induction l with
  | nil => rfl
  | cons a l ih =>
    cases ha : p a <;> simp only [List.filter_cons, ha, Bool.not_true, Bool.not_false, if_true,
      List.flatMap_cons, List.length_append, Bool.false_eq_true, if_false] <;> omega

theorem disjoint_flatMap_filter {p q : α → Bool} (f : α → List β) {l : List α}
    (h : (l.flatMap f).Nodup) (hpq : ∀ a ∈ l, p a = true → q a = false) :
    ∀ b ∈ (l.filter p).flatMap f, b ∉ (l.filter q).flatMap f := by
  have hsymm : Std.Symm (Function.onFun List.Disjoint f) := ⟨fun _ _ h => h.symm⟩
  intro b hp hq
  obtain ⟨a, ha, hba⟩ := List.mem_flatMap.mp hp
  obtain ⟨a', ha', hba'⟩ := List.mem_flatMap.mp hq
  rw [List.mem_filter] at ha ha'
  have heq : a = a' := by
    by_contra hne
    exact (List.nodup_flatMap.mp h).2.forall ha.1 ha'.1 hne hba hba'
  rw [← heq, hpq a ha.1 ha.2] at ha'
  exact Bool.false_ne_true ha'.2

end Lists

namespace Recorded
variable {x : Setup} {vs : List SendResult} {l : Loop}

/-- The attempted events are the accepted, the ambiguous and the rejected ones. -/
theorem classified (h : Recorded x vs l) :
    l.run.attempted = l.run.acceptedIDs.length + l.run.ambiguous + l.run.rejected := by
  have hambiguous : l.run.ambiguous =
      (((vs.filter (!·.accepted)).filter (·.ambiguous)).flatMap (·.ids)).length := by
    rw [h.ambiguous, h.ambiguousIDs, List.filter_filter]
    simp only [Bool.and_comm]
  have hrejected : l.run.rejected =
      (((vs.filter (!·.accepted)).filter (!·.ambiguous)).flatMap (·.ids)).length := by
    rw [h.rejected, List.filter_filter]
    simp only [Bool.and_comm]
  have hfirst := length_flatMap_filter_add (·.accepted) (·.ids) vs
  have hsecond := length_flatMap_filter_add (·.ambiguous) (·.ids) (vs.filter (!·.accepted))
  rw [h.attempted, h.acceptedIDs, hambiguous, hrejected]
  omega

/-- The window's end cuts the attempted and the accepted events in two. -/
theorem windows (h : Recorded x vs l) :
    l.run.attemptedInWindow + l.run.attemptedAfterWindow = l.run.attempted ∧
      l.run.acceptedInWindow + l.run.acceptedAfterWindow = l.run.acceptedIDs.length := by
  have haccepted := length_flatMap_filter_add (fun v : SendResult => v.finished ≤ x.windowEnd)
    (·.ids) (vs.filter (·.accepted))
  have hattempted := length_flatMap_filter_add (fun v : SendResult => v.started ≤ x.windowEnd)
    (·.ids) vs
  have hlate : ∀ t : ℤ, (!decide (t ≤ x.windowEnd)) = decide (x.windowEnd < t) := by
    intro t
    rw [← decide_not, decide_eq_decide, not_le]
  simp only [hlate] at haccepted hattempted
  rw [h.attemptedInWindow, h.attemptedAfterWindow, h.attempted, h.acceptedInWindow,
    h.acceptedAfterWindow, h.acceptedIDs]
  exact ⟨hattempted, haccepted⟩

theorem disjoint (h : Recorded x vs l) (hnodup : (vs.flatMap (·.ids)).Nodup) :
    ∀ id ∈ l.run.acceptedIDs, id ∉ l.run.ambiguousIDs := by
  rw [h.acceptedIDs, h.ambiguousIDs]
  refine disjoint_flatMap_filter _ hnodup fun v _ hv => ?_
  simp [hv]

end Recorded

section Requests
variable {x : Setup} {later : ℤ} {c : Case} {attempted : List UUID}

/-- One request sample cuts its own IDs off the attempted ones. -/
theorem request_point {v : SendResult} (hv : v.Good x later)
    (hbatch : c.batchSize = x.config.batchSize)
    {k : Audit.Cursor} {rest : List UUID} (hrest : attempted.drop k.cursor = v.ids ++ rest) :
    Audit.request c attempted k (Loop.point x.started v) =
      .ok ⟨k.cursor + v.ids.length, if v.accepted then k.acked ++ v.ids else k.acked,
        if v.ambiguous then k.unknown ++ v.ids else k.unknown⟩ := by
  have hsize := hv.sized
  have hstarted := hv.started
  have hordered := hv.ordered
  have helapsed := hv.elapsed
  have htake : (attempted.drop k.cursor).take v.ids.length = v.ids := by
    rw [hrest, List.take_left]
  unfold Audit.request Loop.point
  dsimp only
  rw [htake]
  simp only [Audit.check_bind_eq_ok, Bool.and_eq_true, decide_eq_true_eq, beq_iff_eq]
  exact ⟨⟨hsize.1, hbatch ▸ hsize.2⟩, ⟨by omega, by omega⟩, by omega, rfl⟩

theorem foldlM_request (attempted : List UUID)
    (hbatch : c.batchSize = x.config.batchSize) (vs : List SendResult)
    (hgood : ∀ v ∈ vs, v.Good x later) (k : Audit.Cursor)
    (hrest : attempted.drop k.cursor = vs.flatMap (·.ids)) :
    (vs.map (Loop.point x.started)).foldlM (Audit.request c attempted) k =
      .ok ⟨k.cursor + (vs.flatMap (·.ids)).length,
        k.acked ++ (vs.filter (·.accepted)).flatMap (·.ids),
        k.unknown ++ (vs.filter (·.ambiguous)).flatMap (·.ids)⟩ := by
  induction vs generalizing k with
  | nil => simp [pure, Except.pure]
  | cons v vs ih =>
    have hstep := request_point (hgood v (by simp)) hbatch hrest
    rw [List.map_cons, List.foldlM_cons, Audit.bind_eq_ok]
    refine ⟨_, hstep, ?_⟩
    rw [ih (fun v hv => hgood v (by simp [hv]))]
    · cases ha : v.accepted <;> cases hb : v.ambiguous <;>
        simp [ha, hb, add_assoc]
    · rw [← List.drop_drop, hrest]
      simp

theorem acknowledgedBy_map_point (ns : ℤ) (vs : List SendResult) :
    Audit.acknowledgedBy ns (vs.map (Loop.point x.started)) =
      (((vs.filter (·.accepted)).filter fun v => v.finished ≤ x.started + ns).flatMap
        (·.ids)).length := by
  have hcond : ∀ v : SendResult, v.finished - x.started ≤ ns ↔ v.finished ≤ x.started + ns :=
    fun v => by omega
  rw [Audit.acknowledgedBy, List.filter_map, List.map_map, List.length_flatMap, List.filter_filter]
  simp only [Function.comp_def, Loop.point, hcond, Bool.and_comm]

theorem startedBy_map_point (ns : ℤ) (vs : List SendResult) :
    Audit.startedBy ns (vs.map (Loop.point x.started)) =
      ((vs.filter fun v => v.started ≤ x.started + ns).flatMap (·.ids)).length := by
  have hcond : ∀ v : SendResult, v.started - x.started ≤ ns ↔ v.started ≤ x.started + ns :=
    fun v => by omega
  rw [Audit.startedBy, List.filter_map, List.map_map, List.length_flatMap]
  simp only [Function.comp_def, Loop.point, hcond]

end Requests

section Quantiles
variable {values : List ℤ}

theorem percentile_eq_ok {num den : ℕ} (h : nearestRank num den values.length < values.length) :
    Audit.percentile values num den =
      .ok ((values.insertionSort (· ≤ ·)).getD (nearestRank num den values.length) 0) := by
  have hne : values ≠ [] := List.ne_nil_of_length_pos (Nat.zero_lt_of_lt h)
  have hlt : nearestRank num den values.length < (values.insertionSort (· ≤ ·)).length := by
    rwa [List.length_insertionSort]
  rw [Audit.percentile, if_neg hne, List.getD_eq_getElem?_getD, List.getElem?_eq_getElem hlt]
  rfl

/-- Both sides take the same sample for each quantile. -/
theorem latency_percentiles (h : values ≠ []) :
    Audit.latency values (some (percentiles values)) = .ok () := by
  have hpos : 0 < values.length := List.length_pos_iff.mpr h
  have h50 : Audit.percentile values 1 2 = _ := percentile_eq_ok (by unfold nearestRank; omega)
  have h95 : Audit.percentile values 19 20 = _ := percentile_eq_ok (by unfold nearestRank; omega)
  have h99 : Audit.percentile values 99 100 = _ := percentile_eq_ok (by unfold nearestRank; omega)
  have hsorted : values.insertionSort (· ≤ ·) ≠ [] := by
    rwa [← List.length_pos_iff, List.length_insertionSort]
  rw [percentiles, if_neg hsorted, List.length_insertionSort]
  simp only [Audit.latency, List.forM, h50, h95, h99, Audit.ok_bind, Audit.check, beq_self_eq_true,
    if_true]
  rfl

end Quantiles

/-- What the auditor checks of one sample, apart from its place in the list. -/
structure SampleOk (run : PipelineRun) (qs : List RequestObservation) (b : BacklogSample) :
    Prop where
  time : b.elapsedNS ≤ run.totalNS
  visible : b.visible ≤ run.persisted
  population : if b.finalVerification then b.visible = run.persisted
    else b.visible ≤ run.observedEvents
  accepted : b.accepted = Audit.acknowledgedBy b.elapsedNS qs

theorem foldlM_sample {run : PipelineRun} {qs : List RequestObservation}
    {samples : List BacklogSample} (hok : ∀ b ∈ samples, SampleOk run qs b) {k : Audit.Previous}
    (htime : (k.time :: samples.map (·.elapsedNS)).Pairwise (· ≤ ·))
    (hvisible : (k.visible :: samples.map (·.visible)).Pairwise (· ≤ ·)) :
    ∃ k', samples.foldlM (Audit.sample run qs) k = .ok k' := by
  induction samples generalizing k with
  | nil => exact ⟨k, rfl⟩
  | cons b samples ih =>
    have hb := hok b (by simp)
    rw [List.map_cons, List.pairwise_cons] at htime hvisible
    have hstep : Audit.sample run qs k b = .ok ⟨b.visible, b.elapsedNS⟩ := by
      have hpop := hb.population
      have hprevTime : k.time ≤ b.elapsedNS := htime.1 _ (by simp)
      have hprevVisible : k.visible ≤ b.visible := hvisible.1 _ (by simp)
      unfold Audit.sample
      cases hf : b.finalVerification with
      | true =>
        rw [hf, if_pos rfl] at hpop
        simp only [if_true, Audit.check_bind_eq_ok, Bool.and_eq_true, decide_eq_true_eq, beq_iff_eq]
        exact ⟨⟨hprevTime, hb.time⟩, ⟨hprevVisible, hb.visible⟩, hpop, hb.accepted, rfl⟩
      | false =>
        rw [hf, if_neg (by simp)] at hpop
        simp only [Bool.false_eq_true, if_false, Audit.check_bind_eq_ok, Bool.and_eq_true,
          decide_eq_true_eq, beq_iff_eq]
        exact ⟨⟨hprevTime, hb.time⟩, ⟨hprevVisible, hb.visible⟩, hpop, hb.accepted, rfl⟩
    obtain ⟨k', hk'⟩ := ih (fun b hb => hok b (by simp [hb]))
      (k := ⟨b.visible, b.elapsedNS⟩) htime.2
      hvisible.2
    exact ⟨k', by rw [List.foldlM_cons, hstep]; exact hk'⟩

theorem length_filter_finishes (l : List SendResult) (t : ℤ) :
    ((l.flatMap fun v => v.ids.map fun id => (id, v.finished)).filter fun p => p.2 ≤ t).length =
      ((l.filter fun v => v.finished ≤ t).flatMap (·.ids)).length := by
  induction l with
  | nil => rfl
  | cons v l ih =>
    rw [List.flatMap_cons, List.filter_append, List.length_append, ih, List.filter_map]
    by_cases hv : v.finished ≤ t
    · simp [hv, Function.comp_def]
    · simp [hv, Function.comp_def]

end IngestKit.Benchmark
