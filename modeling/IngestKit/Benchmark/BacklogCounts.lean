import IngestKit.Benchmark.Backlog
import Mathlib.Algebra.BigOperators.Group.List.Basic
import Mathlib.Data.Finset.Card
import Mathlib.Data.Finset.Filter

/-! The backlog timeline counts sets of IDs: the acknowledged ones and those of them that are still
unobserved. -/
namespace IngestKit.Benchmark
open Event

section Sets
variable (acceptedAt observedAt : List (UUID × ℤ)) (t : ℤ)

/-- The IDs acknowledged at or before `t`. -/
def acknowledgedIDs : Finset UUID := ((acceptedAt.filter (·.2 ≤ t)).map Prod.fst).toFinset

/-- The IDs acknowledged at or before `t` that have no observation at or before `t`. -/
def pendingIDs : Finset UUID :=
  (acknowledgedIDs acceptedAt t).filter fun id => ∀ o ∈ observedAt.lookup id, t < o

theorem card_pendingIDs_le : (pendingIDs acceptedAt observedAt t).card ≤
    (acknowledgedIDs acceptedAt t).card := Finset.card_filter_le _ _

variable {acceptedAt}

theorem card_acknowledgedIDs (h : (acceptedAt.map Prod.fst).Nodup) :
    (acknowledgedIDs acceptedAt t).card = (acceptedAt.filter (·.2 ≤ t)).length := by
  have hnodup : ((acceptedAt.filter (·.2 ≤ t)).map Prod.fst).Nodup :=
    h.sublist (List.filter_sublist.map _)
  rw [acknowledgedIDs, List.toFinset_card_of_nodup hnodup, List.length_map]

theorem card_pendingIDs (h : (acceptedAt.map Prod.fst).Nodup) :
    (pendingIDs acceptedAt observedAt t).card = (acceptedAt.filter fun p =>
      p.2 ≤ t ∧ ∀ o ∈ observedAt.lookup p.1, t < o).length := by
  have hfilter : pendingIDs acceptedAt observedAt t = ((acceptedAt.filter fun p =>
      p.2 ≤ t ∧ ∀ o ∈ observedAt.lookup p.1, t < o).map Prod.fst).toFinset := by
    ext id
    simp only [pendingIDs, acknowledgedIDs, Finset.mem_filter, List.mem_toFinset, List.mem_map,
      List.mem_filter, decide_eq_true_eq]
    constructor
    · rintro ⟨⟨p, ⟨hp, ht⟩, rfl⟩, ho⟩
      exact ⟨p, ⟨hp, ht, ho⟩, rfl⟩
    · rintro ⟨p, ⟨hp, ht, ho⟩, rfl⟩
      exact ⟨⟨p, ⟨hp, ht⟩, rfl⟩, ho⟩
  have hnodup : ((acceptedAt.filter fun p =>
      p.2 ≤ t ∧ ∀ o ∈ observedAt.lookup p.1, t < o).map Prod.fst).Nodup :=
    h.sublist (List.filter_sublist.map _)
  rw [hfilter, List.toFinset_card_of_nodup hnodup, List.length_map]

end Sets

section Changes
variable (acceptedAt observedAt : List (UUID × ℤ)) (t : ℤ)

/-- What one acknowledgement has added to the pending population by `t`: the two changes of an
event that was observed after its acknowledgement cancel from the observation on. -/
theorem sum_changes_entry (p : UUID × ℤ) :
    (((pendingChanges [p] observedAt).filter (·.time ≤ t)).map PendingChange.delta).sum =
      if p.2 ≤ t ∧ ∀ o ∈ observedAt.lookup p.1, t < o then 1 else 0 := by
  rw [pendingChanges, List.flatMap_singleton]
  cases observedAt.lookup p.1 with
  | none => by_cases hp : p.2 ≤ t <;> simp [hp]
  | some o =>
    rcases le_or_gt o p.2 with ho | ho
    · have hnever : ¬(p.2 ≤ t ∧ t < o) := by omega
      simp [ho.not_gt, hnever]
    · rcases lt_or_ge t p.2 with hp | hp
      · simp [ho, hp.not_ge, (hp.trans ho).not_ge]
      · rcases lt_or_ge t o with hto | hto
        · simp [ho, hp, hto, hto.not_ge]
        · simp [ho, hp, hto, hto.not_gt]

theorem sum_pendingChanges :
    (((pendingChanges acceptedAt observedAt).filter (·.time ≤ t)).map PendingChange.delta).sum =
      ((acceptedAt.filter fun p => p.2 ≤ t ∧ ∀ o ∈ observedAt.lookup p.1, t < o).length : ℤ) := by
  induction acceptedAt with
  | nil => rfl
  | cons p acceptedAt ih =>
    have hcons : pendingChanges (p :: acceptedAt) observedAt =
        pendingChanges [p] observedAt ++ pendingChanges acceptedAt observedAt := by
      simp only [pendingChanges, List.flatMap_cons, List.flatMap_nil, List.append_nil]
    rw [hcons, List.filter_append, List.map_append, List.sum_append, ih, sum_changes_entry]
    by_cases hp : p.2 ≤ t ∧ ∀ o ∈ observedAt.lookup p.1, t < o
    · rw [if_pos hp, List.filter_cons_of_pos (by rwa [decide_eq_true_eq]), List.length_cons]
      omega
    · rw [if_neg hp, List.filter_cons_of_neg (by rwa [decide_eq_true_eq]), zero_add]

end Changes

/-- A sample with the sizes of the two sets at its time. -/
def counted (started : ℤ) (acceptedAt observedAt : List (UUID × ℤ)) (s : BacklogSample) :
    BacklogSample :=
  { s with
    accepted := (acknowledgedIDs acceptedAt (started + s.elapsedNS)).card
    pendingAcknowledged := (pendingIDs acceptedAt observedAt (started + s.elapsedNS)).card }

section Sweep
variable {started : ℤ} {acceptedAt observedAt : List (UUID × ℤ)} {finishes : List ℤ}
  {changes : List PendingChange} {samples : List BacklogSample}

/-- Only the multisets of both event lists matter. -/
theorem passed_eq_counted (hkeys : (acceptedAt.map Prod.fst).Nodup)
    (hfinishes : finishes.Perm (acceptedAt.map Prod.snd))
    (hchanges : changes.Perm (pendingChanges acceptedAt observedAt)) (s : BacklogSample) :
    passed started 0 0 finishes changes s = counted started acceptedAt observedAt s := by
  have hf : (finishes.filter (· ≤ started + s.elapsedNS)).length =
      (acceptedAt.filter (·.2 ≤ started + s.elapsedNS)).length := by
    rw [(hfinishes.filter _).length_eq, List.filter_map, List.length_map]
    rfl
  have hc := ((hchanges.filter (·.time ≤ started + s.elapsedNS)).map PendingChange.delta).sum_eq
  rw [sum_pendingChanges] at hc
  rw [passed, counted, hf, hc, card_acknowledgedIDs _ hkeys, card_pendingIDs _ _ hkeys, zero_add,
    zero_add]

/-- The two-pointer pass over any sorted orders of the finishes and of the changes counts, for each
sample, the acknowledged IDs and those of them without an observation. -/
theorem sweep_counts_ids (hkeys : (acceptedAt.map Prod.fst).Nodup)
    (hfinishes : finishes.Perm (acceptedAt.map Prod.snd)) (hsorted : finishes.Pairwise (· ≤ ·))
    (hchanges : changes.Perm (pendingChanges acceptedAt observedAt))
    (hordered : changes.Pairwise (·.time ≤ ·.time))
    (hsamples : (samples.map (·.elapsedNS)).Pairwise (· ≤ ·)) :
    sweep started 0 0 finishes changes samples =
        samples.map (counted started acceptedAt observedAt) ∧
      ∀ s ∈ sweep started 0 0 finishes changes samples,
        0 ≤ s.pendingAcknowledged ∧ s.pendingAcknowledged ≤ s.accepted := by
  have heq : sweep started 0 0 finishes changes samples =
      samples.map (counted started acceptedAt observedAt) := by
    rw [sweep_eq_map started 0 0 hsorted hordered hsamples]
    exact List.map_congr_left fun s _ => passed_eq_counted hkeys hfinishes hchanges s
  refine ⟨heq, fun s hs => ?_⟩
  rw [heq, List.mem_map] at hs
  obtain ⟨s, -, rfl⟩ := hs
  have hle := card_pendingIDs_le acceptedAt observedAt (started + s.elapsedNS)
  simp only [counted]
  omega

def firstAccepted : UUID := ⟨List.replicate 16 1, by decide⟩

def secondAccepted : UUID := ⟨List.replicate 16 2, by decide⟩

def thirdAccepted : UUID := ⟨List.replicate 16 3, by decide⟩

def lastAccepted : UUID := ⟨List.replicate 16 4, by decide⟩

def fourAccepted : List (UUID × ℤ) :=
  [(lastAccepted, 30), (firstAccepted, 10), (thirdAccepted, 20), (secondAccepted, 20)]

/-- The second event is seen before its acknowledgement, the last one never. -/
def threeObserved : List (UUID × ℤ) :=
  [(secondAccepted, 15), (firstAccepted, 20), (thirdAccepted, 30)]

/-- Four events and five polls; at 20 one event is observed as another is acknowledged. -/
theorem sweep_counts_ids_fourEvents :
    let polls : List BacklogSample := [⟨0, true, false, 5, 0, 0⟩, ⟨0, true, false, 10, 0, 0⟩,
      ⟨0, true, false, 20, 0, 2⟩, ⟨0, false, false, 20, 0, 2⟩, ⟨0, true, false, 40, 0, 3⟩]
    let finishes : List ℤ := [10, 20, 20, 30]
    let changes : List PendingChange := [⟨10, 1⟩, ⟨20, -1⟩, ⟨20, 1⟩, ⟨30, -1⟩, ⟨30, 1⟩]
    (sweep 0 0 0 finishes changes polls).map (fun s => (s.accepted, s.pendingAcknowledged)) =
        [(0, 0), (1, 1), (3, 1), (3, 1), (4, 1)] ∧
      sweep 0 0 0 finishes changes polls = polls.map (counted 0 fourAccepted threeObserved) ∧
      ∀ s ∈ sweep 0 0 0 finishes changes polls,
        0 ≤ s.pendingAcknowledged ∧ s.pendingAcknowledged ≤ s.accepted := by
  intro polls finishes changes
  have hcounts := @sweep_counts_ids 0 fourAccepted threeObserved finishes changes polls
    (by decide) (by decide) (by decide) (by decide) (by decide) (by decide)
  exact ⟨by decide, hcounts⟩

end Sweep

/-- The reconstructed timeline of a sample whose polls came in the order of their times. -/
theorem reconstructBacklog_eq_counted (started : ℤ) {l : Loop}
    (hkeys : (l.acceptedAt.map Prod.fst).Nodup)
    (h : (l.run.backlog.map (·.elapsedNS)).Pairwise (· ≤ ·)) :
    l.reconstructBacklog started =
      l.run.backlog.map (counted started l.acceptedAt l.observedAt) := by
  rw [reconstructBacklog_eq_map started h]
  exact List.map_congr_left fun s _ =>
    passed_eq_counted hkeys (List.perm_insertionSort _ _) (List.perm_insertionSort _ _) s

end IngestKit.Benchmark
