import IngestKit.Benchmark.Sample
import Mathlib.Data.List.Flatten

/-! What the main loop records of the replies it reads. -/
namespace IngestKit.Benchmark
open Event

/-- A request's IDs are a nonempty batch. -/
def Sized (x : Setup) (job : List UUID) : Prop := 0 < job.length ∧ job.length ≤ x.config.batchSize

/-- What holds of every reply once its worker has read the clock. -/
structure SendResult.Good (x : Setup) (now : ℤ) (v : SendResult) : Prop where
  sized : Sized x v.ids
  started : x.started ≤ v.started
  ordered : v.started ≤ v.finished
  finished : v.finished ≤ now
  elapsed : v.elapsedNS = v.finished - v.started
  exclusive : v.accepted = true → v.ambiguous = false

theorem SendResult.Good.mono {x : Setup} {now now' : ℤ} {v : SendResult} (h : v.Good x now)
    (hle : now ≤ now') : v.Good x now' := { h with finished := h.finished.trans hle }

theorem send_exclusive (job : List UUID) (r : Reply) (h : (send job r).accepted = true) :
    (send job r).ambiguous = false := by
  unfold send at h ⊢
  split
  · simp at h
  · simp at h
  · split_ifs at h ⊢ <;> simp_all

theorem send_accepted (job : List UUID) (r : Reply) :
    (send job r).accepted = true ↔ r = .answered 202 (some job) := by
  unfold send
  split
  · simp
  · simp
  · split_ifs <;> simp_all

/-- The map of acknowledgement times after these replies: the last one of an ID wins. -/
def acknowledgements (vs : List SendResult) : List (UUID × ℤ) :=
  (vs.filter (·.accepted)).foldl (fun m v => v.ids.foldl (fun m id => assign m id v.finished) m) []

/-- The figures of the main loop that come from replies, as functions of the replies read. -/
structure Recorded (x : Setup) (vs : List SendResult) (l : Loop) : Prop where
  requestSamples : l.run.requestSamples = vs.map (Loop.point x.started)
  attemptedIDs : l.run.attemptedIDs = vs.flatMap (·.ids)
  attempted : l.run.attempted = (vs.flatMap (·.ids)).length
  attemptedAfterWindow : l.run.attemptedAfterWindow =
    ((vs.filter fun v => x.windowEnd < v.started).flatMap (·.ids)).length
  attemptedInWindow : l.run.attemptedInWindow =
    ((vs.filter fun v => v.started ≤ x.windowEnd).flatMap (·.ids)).length
  acceptedAfterWindow : l.run.acceptedAfterWindow =
    (((vs.filter (·.accepted)).filter fun v => x.windowEnd < v.finished).flatMap (·.ids)).length
  acceptedInWindow : l.run.acceptedInWindow =
    (((vs.filter (·.accepted)).filter fun v => v.finished ≤ x.windowEnd).flatMap (·.ids)).length
  acceptedIDs : l.run.acceptedIDs = (vs.filter (·.accepted)).flatMap (·.ids)
  ackNS : l.run.ackNS = (vs.filter (·.accepted)).map (·.elapsedNS)
  acceptedAt : l.acceptedAt = acknowledgements vs
  ambiguousIDs : l.run.ambiguousIDs =
    (vs.filter fun v => !v.accepted && v.ambiguous).flatMap (·.ids)
  ambiguous : l.run.ambiguous = l.run.ambiguousIDs.length
  rejected : l.run.rejected =
    ((vs.filter fun v => !v.accepted && !v.ambiguous).flatMap (·.ids)).length

/-- The part of the main loop that replies change. -/
def Loop.requests (l : Loop) :=
  (l.run.requestSamples, l.run.attemptedIDs, l.run.attempted, l.run.attemptedAfterWindow,
    l.run.attemptedInWindow, l.run.acceptedAfterWindow, l.run.acceptedInWindow, l.run.acceptedIDs,
    l.run.ackNS, l.acceptedAt, l.run.ambiguousIDs, l.run.ambiguous, l.run.rejected)

theorem Recorded.congr {x : Setup} {vs : List SendResult} {l l' : Loop} (h : Recorded x vs l)
    (he : l'.requests = l.requests) : Recorded x vs l' := by
  simp only [Loop.requests, Prod.mk.injEq] at he
  obtain ⟨e1, e2, e3, e4, e5, e6, e7, e8, e9, e10, e11, e12, e13⟩ := he
  exact ⟨e1 ▸ h.requestSamples, e2 ▸ h.attemptedIDs, e3 ▸ h.attempted, e4 ▸ h.attemptedAfterWindow,
    e5 ▸ h.attemptedInWindow, e6 ▸ h.acceptedAfterWindow, e7 ▸ h.acceptedInWindow,
    e8 ▸ h.acceptedIDs, e9 ▸ h.ackNS, e10 ▸ h.acceptedAt, e11 ▸ h.ambiguousIDs,
    e11 ▸ e12 ▸ h.ambiguous, e13 ▸ h.rejected⟩

theorem mem_assign {m : List (UUID × ℤ)} {id : UUID} {t : ℤ} {p : UUID × ℤ}
    (h : p ∈ assign m id t) : p ∈ m ∨ p = (id, t) := by
  unfold assign at h
  split_ifs at h
  · obtain ⟨q, hq, rfl⟩ := List.mem_map.mp h
    split_ifs
    · exact Or.inr rfl
    · exact Or.inl hq
  · simpa using h

theorem keys_assign (m : List (UUID × ℤ)) (id : UUID) (t : ℤ) (k : UUID) :
    k ∈ (assign m id t).map Prod.fst ↔ k ∈ m.map Prod.fst ∨ k = id := by
  unfold assign
  split_ifs with hid
  · have hkeys : (m.map fun p => if p.1 = id then (id, t) else p).map Prod.fst =
        m.map Prod.fst := by
      rw [List.map_map]
      refine List.map_congr_left fun p _ => ?_
      simp only [Function.comp_apply]
      split_ifs with hp
      · exact hp.symm
      · rfl
    rw [hkeys]
    exact ⟨Or.inl, fun h => h.elim (fun h => h) fun h => h ▸ hid⟩
  · simp

theorem keys_foldl_assign (t : ℤ) (ids : List UUID) (m : List (UUID × ℤ)) (k : UUID) :
    k ∈ (ids.foldl (fun m id => assign m id t) m).map Prod.fst ↔ k ∈ m.map Prod.fst ∨ k ∈ ids := by
  induction ids generalizing m with
  | nil => simp
  | cons id ids ih => rw [List.foldl_cons, ih, keys_assign, List.mem_cons, or_assoc]

theorem mem_foldl_assign {t : ℤ} {ids : List UUID} {m : List (UUID × ℤ)} {p : UUID × ℤ}
    (h : p ∈ ids.foldl (fun m id => assign m id t) m) : p ∈ m ∨ p.2 = t := by
  induction ids generalizing m with
  | nil => exact Or.inl h
  | cons id ids ih =>
    rcases ih h with h | h
    · exact (mem_assign h).imp_right fun e => by rw [e]
    · exact Or.inr h

theorem foldl_assign (t : ℤ) (ids : List UUID) (m : List (UUID × ℤ))
    (h : (m.map Prod.fst ++ ids).Nodup) :
    ids.foldl (fun m id => assign m id t) m = m ++ ids.map fun id => (id, t) := by
  induction ids generalizing m with
  | nil => simp
  | cons id ids ih =>
    have hid : id ∉ m.map Prod.fst := by
      intro hm
      exact (List.nodup_append.mp h).2.2 id hm id (by simp) rfl
    rw [List.foldl_cons, assign, if_neg hid, ih]
    · simp
    · simpa using h

theorem acknowledgements_snoc (vs : List SendResult) (v : SendResult) :
    acknowledgements (vs ++ [v]) =
      if v.accepted then v.ids.foldl (fun m id => assign m id v.finished) (acknowledgements vs)
      else acknowledgements vs := by
  unfold acknowledgements
  cases ha : v.accepted <;> simp [ha]

theorem keys_acknowledgements (vs : List SendResult) (id : UUID) :
    id ∈ (acknowledgements vs).map Prod.fst ↔ id ∈ (vs.filter (·.accepted)).flatMap (·.ids) := by
  induction vs using List.reverseRecOn with
  | nil => rfl
  | append_singleton vs v ih =>
    rw [acknowledgements_snoc]
    cases ha : v.accepted with
    | true => rw [if_pos rfl, keys_foldl_assign, ih]; simp [ha]
    | false => simpa [ha] using ih

theorem mem_acknowledgements {vs : List SendResult} {p : UUID × ℤ} (h : p ∈ acknowledgements vs) :
    ∃ v ∈ vs, p.2 = v.finished := by
  induction vs using List.reverseRecOn with
  | nil => cases h
  | append_singleton vs v ih =>
    rw [acknowledgements_snoc] at h
    have hold : p ∈ acknowledgements vs → ∃ u ∈ vs ++ [v], p.2 = u.finished := by
      intro h
      obtain ⟨u, hu, he⟩ := ih h
      exact ⟨u, by simp [hu], he⟩
    split_ifs at h
    · rcases mem_foldl_assign h with h | h
      · exact hold h
      · exact ⟨v, by simp, h⟩
    · exact hold h

/-- Distinct IDs keep their own times. -/
theorem acknowledgements_of_nodup {vs : List SendResult} (h : (vs.flatMap (·.ids)).Nodup) :
    acknowledgements vs =
      (vs.filter (·.accepted)).flatMap fun v => v.ids.map fun id => (id, v.finished) := by
  induction vs using List.reverseRecOn with
  | nil => rfl
  | append_singleton vs v ih =>
    rw [List.flatMap_append, List.flatMap_singleton] at h
    have hvs := ih (List.nodup_append.mp h).1
    rw [acknowledgements_snoc]
    cases ha : v.accepted with
    | false => simpa [ha] using hvs
    | true =>
      rw [if_pos rfl, foldl_assign, hvs]
      · simp [ha]
      · rw [hvs, List.map_flatMap]
        simp only [List.map_map, Function.comp_def, List.map_id']
        exact h.sublist (List.Sublist.append_right (List.filter_sublist.flatMap _) _)

/-- The fields every reply changes. -/
private theorem Recorded.attempt {x : Setup} {vs : List SendResult} {l : Loop}
    (h : Recorded x vs l) (v : SendResult) :
    let r := Loop.recordAttempt x.started x.windowEnd v l.run
    r.requestSamples = (vs ++ [v]).map (Loop.point x.started) ∧
      r.attemptedIDs = (vs ++ [v]).flatMap (·.ids) ∧
      r.attempted = ((vs ++ [v]).flatMap (·.ids)).length ∧
      r.attemptedAfterWindow =
        (((vs ++ [v]).filter fun v => x.windowEnd < v.started).flatMap (·.ids)).length ∧
      r.attemptedInWindow =
        (((vs ++ [v]).filter fun v => v.started ≤ x.windowEnd).flatMap (·.ids)).length := by
  refine ⟨?_, ?_, ?_, ?_, ?_⟩
  · simp [Loop.recordAttempt, h.requestSamples]
  · simp [Loop.recordAttempt, h.attemptedIDs]
  · simp [Loop.recordAttempt, h.attempted]
  · by_cases hs : x.windowEnd < v.started <;>
      simp [Loop.recordAttempt, h.attemptedAfterWindow, hs]
  · rcases lt_or_ge x.windowEnd v.started with hs | hs
    · simp [Loop.recordAttempt, h.attemptedInWindow, hs, hs.not_ge]
    · simp [Loop.recordAttempt, h.attemptedInWindow, hs, hs.not_gt]

theorem Recorded.record {x : Setup} {vs : List SendResult} {l : Loop} (h : Recorded x vs l)
    (v : SendResult) : Recorded x (vs ++ [v]) (l.recordRequest x.started x.windowEnd v) := by
  obtain ⟨a1, a2, a3, a4, a5⟩ := h.attempt v
  unfold Loop.recordRequest
  cases ha : v.accepted with
  | true =>
    refine ⟨a1, a2, a3, a4, a5, ?_, ?_, ?_, ?_, ?_, ?_, h.ambiguous, ?_⟩
    · by_cases hf : x.windowEnd < v.finished <;>
        simp [Loop.recordAttempt, h.acceptedAfterWindow, ha, hf]
    · rcases lt_or_ge x.windowEnd v.finished with hf | hf
      · simp [Loop.recordAttempt, h.acceptedInWindow, ha, hf, hf.not_ge]
      · simp [Loop.recordAttempt, h.acceptedInWindow, ha, hf, hf.not_gt]
    · simp [Loop.recordAttempt, h.acceptedIDs, ha]
    · simp [Loop.recordAttempt, h.ackNS, ha]
    · rw [acknowledgements_snoc, if_pos ha, ← h.acceptedAt]
      rfl
    · simp [Loop.recordAttempt, h.ambiguousIDs, ha]
    · simp [Loop.recordAttempt, h.rejected, ha]
  | false =>
    cases hb : v.ambiguous with
    | true =>
      refine ⟨a1, a2, a3, a4, a5, ?_, ?_, ?_, ?_, ?_, ?_, ?_, ?_⟩
      · simpa [ha, Loop.recordAttempt] using h.acceptedAfterWindow
      · simpa [ha, Loop.recordAttempt] using h.acceptedInWindow
      · simpa [ha, Loop.recordAttempt] using h.acceptedIDs
      · simpa [ha, Loop.recordAttempt] using h.ackNS
      · simpa [acknowledgements_snoc, ha] using h.acceptedAt
      · simp [Loop.recordAttempt, h.ambiguousIDs, ha, hb]
      · simp [Loop.recordAttempt, h.ambiguous]
      · simp [Loop.recordAttempt, h.rejected, ha, hb]
    | false =>
      refine ⟨a1, a2, a3, a4, a5, ?_, ?_, ?_, ?_, ?_, ?_, h.ambiguous, ?_⟩
      · simpa [ha, Loop.recordAttempt] using h.acceptedAfterWindow
      · simpa [ha, Loop.recordAttempt] using h.acceptedInWindow
      · simpa [ha, Loop.recordAttempt] using h.acceptedIDs
      · simpa [ha, Loop.recordAttempt] using h.ackNS
      · simpa [acknowledgements_snoc, ha] using h.acceptedAt
      · simpa [ha, hb, Loop.recordAttempt] using h.ambiguousIDs
      · simp [Loop.recordAttempt, h.rejected, ha, hb]

end IngestKit.Benchmark
