import Mathlib.Data.List.Forall2
import Mathlib.Data.List.Nodup

/-! A keyed table that keeps the row it has: insertion of a row whose key is taken
does nothing. -/
namespace IngestKit.Replay

variable {ρ κ : Type*} [DecidableEq κ] (key : ρ → κ)

def insertNew (t : List ρ) (r : ρ) : List ρ :=
  if t.any (fun s => key s = key r) then t else t ++ [r]

def insertAll (t rs : List ρ) : List ρ := rs.foldl (insertNew key) t

theorem insertAll_append (t rs ss : List ρ) :
    insertAll key t (rs ++ ss) = insertAll key (insertAll key t rs) ss := List.foldl_append

theorem mem_insertNew {t : List ρ} {r s : ρ} (h : s ∈ t) : s ∈ insertNew key t r := by
  unfold insertNew
  split_ifs
  · exact h
  · exact List.mem_append_left _ h

/-- No row is removed or changed. -/
theorem mem_insertAll {t rs : List ρ} {s : ρ} (h : s ∈ t) : s ∈ insertAll key t rs := by
  induction rs generalizing t with
  | nil => exact h
  | cons r rs ih => exact ih (mem_insertNew key h)

/-- No row is made up. -/
theorem mem_of_mem_insertAll {t rs : List ρ} {s : ρ} (h : s ∈ insertAll key t rs) :
    s ∈ t ∨ s ∈ rs := by
  induction rs generalizing t with
  | nil => exact Or.inl h
  | cons r rs ih =>
    rcases ih h with hnew | hrest
    · unfold insertNew at hnew
      split_ifs at hnew
      · exact Or.inl hnew
      · rcases List.mem_append.mp hnew with hold | hone
        · exact Or.inl hold
        · exact Or.inr (List.mem_cons.mpr (Or.inl (List.mem_singleton.mp hone)))
    · exact Or.inr (List.mem_cons_of_mem r hrest)

theorem find?_insertNew (t : List ρ) (r : ρ) (k : κ) :
    (insertNew key t r).find? (fun s => key s = k) = (t ++ [r]).find? fun s => key s = k := by
  unfold insertNew
  split_ifs with h
  · obtain ⟨s, hs, hk⟩ := List.any_eq_true.mp h
    rw [List.find?_append]
    by_cases hr : key r = k
    · have hsome : (t.find? fun s => key s = k).isSome := by
        rw [List.find?_isSome]
        exact ⟨s, hs, by simpa [hr] using hk⟩
      rw [Option.or_of_isSome hsome]
    · simp [hr]
  · rfl

/-- The row under a key is the first one offered. -/
theorem find?_insertAll (t rs : List ρ) (k : κ) :
    (insertAll key t rs).find? (fun s => key s = k) = (t ++ rs).find? fun s => key s = k := by
  induction rs generalizing t with
  | nil => rw [List.append_nil]; rfl
  | cons r rs ih =>
    have h := ih (insertNew key t r)
    rw [List.find?_append, find?_insertNew, ← List.find?_append, List.append_assoc] at h
    exact h

theorem nodup_insertNew {t : List ρ} (h : (t.map key).Nodup) (r : ρ) :
    ((insertNew key t r).map key).Nodup := by
  unfold insertNew
  split_ifs with hr
  · exact h
  · rw [List.map_append, List.map_singleton, List.nodup_append]
    refine ⟨h, List.nodup_singleton _, ?_⟩
    intro a ha b hb hab
    rw [List.mem_singleton] at hb
    obtain ⟨s, hs, rfl⟩ := List.mem_map.mp ha
    exact hr (List.any_eq_true.mpr ⟨s, hs, by simpa using hab.trans hb⟩)

/-- Keys stay unique. -/
theorem nodup_insertAll {t : List ρ} (h : (t.map key).Nodup) (rs : List ρ) :
    ((insertAll key t rs).map key).Nodup := by
  induction rs generalizing t with
  | nil => exact h
  | cons r rs ih => exact ih (nodup_insertNew key h r)

theorem find?_of_mem {t : List ρ} (h : (t.map key).Nodup) {r : ρ} (hr : r ∈ t) :
    t.find? (fun s => key s = key r) = some r := by
  induction t with
  | nil => cases hr
  | cons s t ih =>
    rw [List.map_cons, List.nodup_cons] at h
    rcases List.mem_cons.mp hr with rfl | hm
    · simp
    · have hne : key s ≠ key r := fun he => h.1 (he ▸ List.mem_map_of_mem hm)
      rw [List.find?_cons_of_neg (by simpa using hne)]
      exact ih h.2 hm

theorem prefix_insertAll (t rs : List ρ) : t <+: insertAll key t rs := by
  induction rs generalizing t with
  | nil => exact List.prefix_refl t
  | cons r rs ih =>
    refine List.IsPrefix.trans ?_ (ih (insertNew key t r))
    unfold insertNew
    split_ifs
    · exact List.prefix_refl t
    · exact List.prefix_append t [r]

theorem length_insertAll_le (t rs : List ρ) :
    (insertAll key t rs).length ≤ t.length + rs.length := by
  induction rs generalizing t with
  | nil => exact Nat.le_refl _
  | cons r rs ih =>
    refine Nat.le_trans (ih (insertNew key t r)) ?_
    unfold insertNew
    split_ifs
    · simp only [List.length_cons]
      omega
    · simp only [List.length_append, List.length_cons, List.length_nil]
      omega

/-- Every offered key is present afterwards. -/
theorem key_mem_insertAll (t : List ρ) {rs : List ρ} {r : ρ} (hr : r ∈ rs) :
    ∃ s ∈ insertAll key t rs, key s = key r := by
  have hsome : ((t ++ rs).find? fun s => key s = key r).isSome := by
    rw [List.find?_isSome]
    exact ⟨r, List.mem_append_right _ hr, by simp⟩
  rw [← find?_insertAll] at hsome
  obtain ⟨s, hs⟩ := Option.isSome_iff_exists.mp hsome
  exact ⟨s, List.mem_of_find?_eq_some hs, by simpa using List.find?_some hs⟩

section Pairs

theorem exists_of_mem_left {α β : Type*} {R : α → β → Prop} {l : List α} {m : List β}
    (h : List.Forall₂ R l m) {a : α} (ha : a ∈ l) : ∃ b ∈ m, R a b := by
  induction h with
  | nil => cases ha
  | @cons x y l m hxy _ ih =>
    rcases List.mem_cons.mp ha with rfl | ha
    · exact ⟨y, List.mem_cons_self, hxy⟩
    · obtain ⟨b, hb, hR⟩ := ih ha
      exact ⟨b, List.mem_cons_of_mem y hb, hR⟩

end Pairs

end IngestKit.Replay
