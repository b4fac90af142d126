import IngestKit.Benchmark.Accounting
import Mathlib.Data.List.Sort

/-! The backlog timeline: the two-pointer pass counts, for each sample, what happened up to it. -/
namespace IngestKit.Benchmark
open Event

section Sorted
variable {α κ : Type*} [LinearOrder κ]

theorem takeWhile_eq_filter {k : α → κ} {l : List α} (h : l.Pairwise (k · ≤ k ·)) (t : κ) :
    l.takeWhile (k · ≤ t) = l.filter (k · ≤ t) := by
  induction l with
  | nil => rfl
  | cons a l ih =>
    rw [List.pairwise_cons] at h
    by_cases ha : k a ≤ t
    · rw [List.takeWhile_cons_of_pos (by simpa using ha),
      List.filter_cons_of_pos (by simpa using ha),
        ih h.2]
    · have hnil : l.filter (k · ≤ t) = [] := by
        rw [List.filter_eq_nil_iff]
        intro b hb
        have hab := h.1 b hb
        simpa using lt_of_lt_of_le (not_le.mp ha) hab
      rw [List.takeWhile_cons_of_neg (by simpa using ha),
        List.filter_cons_of_neg (by simpa using ha),
        hnil]

/-- What one sample passed, a later one has passed too. -/
theorem filter_eq_takeWhile_append {k : α → κ} (l : List α) {t u : κ} (h : t ≤ u) :
    l.filter (k · ≤ u) =
      l.takeWhile (k · ≤ t) ++ (l.dropWhile (k · ≤ t)).filter (k · ≤ u) := by
  have hall : (l.takeWhile (k · ≤ t)).filter (k · ≤ u) = l.takeWhile (k · ≤ t) := by
    rw [List.filter_eq_self]
    intro a ha
    have hat := List.mem_takeWhile_imp ha
    simp only [decide_eq_true_eq] at hat ⊢
    exact hat.trans h
  conv_lhs => rw [← List.takeWhile_append_dropWhile (p := fun a => decide (k a ≤ t)) (l := l)]
  rw [List.filter_append, hall]

end Sorted

/-- The samples with their counts stated directly. -/
def passed (started : ℤ) (fi : ℕ) (pending : ℤ) (finishes : List ℤ) (changes : List PendingChange)
    (s : BacklogSample) : BacklogSample :=
  { s with
    accepted := fi + (finishes.filter (· ≤ started + s.elapsedNS)).length
    pendingAcknowledged := pending +
      ((changes.filter (·.time ≤ started + s.elapsedNS)).map PendingChange.delta).sum }

theorem sweep_eq_map (started : ℤ) (fi : ℕ) (pending : ℤ) {finishes : List ℤ}
    {changes : List PendingChange} {samples : List BacklogSample}
    (hfinishes : finishes.Pairwise (· ≤ ·)) (hchanges : changes.Pairwise (·.time ≤ ·.time))
    (hsamples : (samples.map (·.elapsedNS)).Pairwise (· ≤ ·)) :
    sweep started fi pending finishes changes samples =
      samples.map (passed started fi pending finishes changes) := by
  induction samples generalizing fi pending finishes changes with
  | nil => rfl
  | cons s samples ih =>
    rw [List.map_cons, List.pairwise_cons] at hsamples
    have hf := takeWhile_eq_filter (k := id) hfinishes (started + s.elapsedNS)
    have hc := takeWhile_eq_filter hchanges (started + s.elapsedNS)
    simp only [id] at hf
    rw [sweep, List.map_cons]
    rw [ih _ _ (hfinishes.sublist (List.dropWhile_sublist _))
      (hchanges.sublist (List.dropWhile_sublist _)) hsamples.2]
    refine congrArg₂ List.cons ?_ (List.map_congr_left fun u hu => ?_)
    · rw [hf, hc]
      rfl
    · have hle : started + s.elapsedNS ≤ started + u.elapsedNS := by
        have := hsamples.1 _ (List.mem_map_of_mem hu)
        omega
      have huf := filter_eq_takeWhile_append (k := id) finishes hle
      have huc := filter_eq_takeWhile_append (k := PendingChange.time) changes hle
      simp only [id] at huf
      simp only [passed, huf, huc, List.length_append, List.map_append, List.sum_append]
      rw [add_assoc, add_assoc]

/-- The reconstructed timeline counts the acknowledgements up to each sample. -/
theorem reconstructBacklog_eq_map (started : ℤ) {l : Loop}
    (h : (l.run.backlog.map (·.elapsedNS)).Pairwise (· ≤ ·)) :
    l.reconstructBacklog started = l.run.backlog.map
      (passed started 0 0 ((l.acceptedAt.map Prod.snd).insertionSort (· ≤ ·))
        ((pendingChanges l.acceptedAt l.observedAt).insertionSort (·.time ≤ ·.time))) := by
  refine sweep_eq_map started 0 0 (List.pairwise_insertionSort _ _) ?_ h
  have htotal : Std.Total fun a b : PendingChange => a.time ≤ b.time := ⟨fun a b => le_total _ _⟩
  have htrans : IsTrans PendingChange fun a b => a.time ≤ b.time := ⟨fun _ _ _ => le_trans⟩
  exact List.pairwise_insertionSort _ _

theorem accepted_passed (started pending : ℤ) (acceptedAt : List (UUID × ℤ))
    (changes : List PendingChange) (s : BacklogSample) :
    (passed started 0 pending ((acceptedAt.map Prod.snd).insertionSort (· ≤ ·))
      changes s).accepted =
      (acceptedAt.filter fun p => p.2 ≤ started + s.elapsedNS).length := by
  have hperm := ((acceptedAt.map Prod.snd).perm_insertionSort (· ≤ ·)).filter
    fun t => t ≤ started + s.elapsedNS
  simp only [passed, hperm.length_eq, List.filter_map, List.length_map, zero_add]
  rfl

end IngestKit.Benchmark
