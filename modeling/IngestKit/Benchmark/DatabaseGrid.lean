import IngestKit.Benchmark.Verdict
import Mathlib.Data.List.ProdSigma

/-! A database report that passes its check: one correct run for each method and repetition, unless
three times the number of repetitions leaves the range of the integers. -/
namespace IngestKit.Benchmark

def methods : List Method := [.insert, .batchInsert, .copyMerge]

/-- The value of a 64-bit integer. -/
def Fits (x : ℤ) : Prop := -9223372036854775808 ≤ x ∧ x < 9223372036854775808

instance (x : ℤ) : Decidable (Fits x) := inferInstanceAs (Decidable (_ ∧ _))

def DatabaseRun.Fits (v : DatabaseRun) : Prop :=
  IngestKit.Benchmark.Fits v.repetition ∧ IngestKit.Benchmark.Fits v.submitted ∧
    IngestKit.Benchmark.Fits v.inserted ∧ IngestKit.Benchmark.Fits v.duplicates

def DatabaseRun.key (v : DatabaseRun) : Method × ℤ := (v.method, v.repetition)

/-- What the check asks of one run, besides that its key is new. -/
structure DatabaseRun.Good (repetitions : ℤ) (v : DatabaseRun) : Prop where
  method : v.method ∈ methods
  low : 1 ≤ v.repetition
  high : v.repetition ≤ repetitions
  correct : v.correct = true
  elapsed : 0 < v.elapsedNS
  submitted : 0 < v.submitted
  inserted : 0 ≤ v.inserted
  duplicates : 0 ≤ v.duplicates
  sum : wrap64 (v.inserted + v.duplicates) = v.submitted

section Validate
variable {repetitions : ℤ} {runs : List DatabaseRun}

theorem mem_methods (m : Method) : m ∈ methods ↔ m ≠ .unknown := by
  cases m <;> decide

theorem validateDatabaseRuns_eq_none {seen : List (Method × ℤ)} :
    validateDatabaseRuns repetitions seen runs = none ↔
      (∀ v ∈ runs, v.Good repetitions) ∧ (runs.map DatabaseRun.key).Nodup ∧
        ∀ v ∈ runs, v.key ∉ seen := by
  induction runs generalizing seen with
  | nil => simp [validateDatabaseRuns]
  | cons v runs ih =>
    rw [validateDatabaseRuns]
    split_ifs with hbad
    · refine ⟨fun h => (by cases h), fun ⟨hgood, _, hfresh⟩ => ?_⟩
      obtain ⟨h1, h2, h3, h4, h5, h6, h7, h8, h9⟩ := hgood v List.mem_cons_self
      rw [mem_methods] at h1
      have hkey : (v.method, v.repetition) ∉ seen := hfresh v List.mem_cons_self
      rcases hbad with hb | hb | hb | hb | hb | hb | hb | hb | hb | hb
      · exact absurd hb h1
      · omega
      · omega
      · exact absurd hb hkey
      · rw [h4] at hb
        cases hb
      · omega
      · omega
      · omega
      · omega
      · exact absurd h9 hb
    · simp only [not_or, not_lt, not_le, Bool.not_eq_false, not_not] at hbad
      obtain ⟨h1, h2, h3, h4, h5, h6, h7, h8, h9, h10⟩ := hbad
      have hv : v.Good repetitions :=
        ⟨(mem_methods _).mpr h1, h2, h3, h5, h6, h7, h8, h9, h10⟩
      rw [ih, List.map_cons, List.nodup_cons, List.forall_mem_cons, List.forall_mem_cons]
      constructor
      · rintro ⟨hgood, hnodup, hfresh⟩
        refine ⟨⟨hv, hgood⟩, ⟨fun hmem => ?_, hnodup⟩, h4, fun u hu hseen => ?_⟩
        · obtain ⟨u, hu, hkey⟩ := List.mem_map.mp hmem
          exact hfresh u hu (hkey ▸ List.mem_cons_self)
        · exact hfresh u hu (List.mem_cons_of_mem _ hseen)
      · rintro ⟨⟨-, hgood⟩, ⟨hnew, hnodup⟩, -, hfresh⟩
        refine ⟨hgood, hnodup, fun u hu hseen => ?_⟩
        rcases List.mem_cons.mp hseen with hkey | hseen
        · exact hnew (List.mem_map.mpr ⟨u, hu, hkey⟩)
        · exact hfresh u hu hseen

theorem validate_eq_none (r : DatabaseReport) : r.validate = none ↔
    3 ≤ r.repetitions ∧ r.runs.length = wrap64 (3 * r.repetitions) ∧
      (∀ v ∈ r.runs, v.Good r.repetitions) ∧ (r.runs.map DatabaseRun.key).Nodup := by
  rw [DatabaseReport.validate]
  split_ifs with hcount
  · refine ⟨fun h => (by cases h), fun ⟨h1, h2, _⟩ => ?_⟩
    rcases hcount with hc | hc
    · omega
    · exact absurd h2 hc
  · rw [not_or, not_lt, not_not] at hcount
    rw [validateDatabaseRuns_eq_none]
    simp [hcount.1, hcount.2]

end Validate

/-- The repetitions from 1 on. -/
def repetitionsUpTo (n : ℤ) : List ℤ := (List.range n.toNat).map fun i : ℕ => (i : ℤ) + 1

/-- Exactly one correct run, with consistent counts, for each method and repetition. -/
structure DatabaseReport.Grid (r : DatabaseReport) : Prop where
  once : ∀ m ∈ methods, ∀ k, 1 ≤ k → k ≤ r.repetitions →
    ∃ v, r.runs.filter (fun v => v.method = m ∧ v.repetition = k) = [v] ∧ v.correct = true ∧
      0 ≤ v.inserted ∧ 0 ≤ v.duplicates ∧ v.inserted + v.duplicates = v.submitted
  completed : completedRepetitions (.database r) = repetitionsUpTo r.repetitions

section Grid
variable {r : DatabaseReport}

theorem mem_repetitionsUpTo {n k : ℤ} : k ∈ repetitionsUpTo n ↔ 1 ≤ k ∧ k ≤ n := by
  rw [repetitionsUpTo, List.mem_map]
  constructor
  · rintro ⟨i, hi, rfl⟩
    rw [List.mem_range] at hi
    omega
  · rintro ⟨hlow, hhigh⟩
    exact ⟨(k - 1).toNat, List.mem_range.mpr (by omega), by omega⟩

theorem pairwise_repetitionsUpTo (n : ℤ) : (repetitionsUpTo n).Pairwise (· < ·) := by
  rw [repetitionsUpTo, List.pairwise_map]
  refine List.pairwise_lt_range.imp fun h => ?_
  omega

theorem nodup_repetitionsUpTo (n : ℤ) : (repetitionsUpTo n).Nodup :=
  (pairwise_repetitionsUpTo n).imp ne_of_lt

/-- As many runs as there are keys fill the grid. -/
theorem keys_perm (hgood : ∀ v ∈ r.runs, v.Good r.repetitions)
    (hnodup : (r.runs.map DatabaseRun.key).Nodup)
    (hlength : (r.runs.length : ℤ) = 3 * r.repetitions) :
    (r.runs.map DatabaseRun.key).Perm (methods ×ˢ repetitionsUpTo r.repetitions) := by
  have hsub : r.runs.map DatabaseRun.key ⊆ methods ×ˢ repetitionsUpTo r.repetitions := by
    intro k hk
    obtain ⟨v, hv, rfl⟩ := List.mem_map.mp hk
    have hg := hgood v hv
    exact List.mem_product.mpr ⟨hg.method, mem_repetitionsUpTo.mpr ⟨hg.low, hg.high⟩⟩
  refine (List.subperm_of_subset hnodup hsub).perm_of_length_le ?_
  rw [List.length_product, List.length_map, repetitionsUpTo, List.length_map, List.length_range]
  change 3 * _ ≤ _
  omega

/-- Among keys that fill the grid, each one has its own run. -/
theorem run_of_key {m : Method} {k : ℤ} (hm : m ∈ methods) (hlow : 1 ≤ k)
    (hhigh : k ≤ r.repetitions)
    (hkeys : (r.runs.map DatabaseRun.key).Perm (methods ×ˢ repetitionsUpTo r.repetitions)) :
    ∃ v ∈ r.runs, r.runs.filter (fun v => v.method = m ∧ v.repetition = k) = [v] := by
  have hnodup : (methods ×ˢ repetitionsUpTo r.repetitions).Nodup :=
    List.Nodup.product (by decide) (nodup_repetitionsUpTo _)
  have hmem : (m, k) ∈ methods ×ˢ repetitionsUpTo r.repetitions :=
    List.mem_product.mpr ⟨hm, mem_repetitionsUpTo.mpr ⟨hlow, hhigh⟩⟩
  have hone : (r.runs.filter fun v => v.method = m ∧ v.repetition = k).length = 1 := by
    have hcount := (hkeys.count_eq (m, k)).trans (List.count_eq_one_of_mem hnodup hmem)
    rw [List.count, List.countP_map, List.countP_eq_length_filter] at hcount
    rw [← hcount]
    refine congrArg List.length (List.filter_congr fun v _ => ?_)
    rw [Bool.eq_iff_iff, decide_eq_true_eq]
    simp [DatabaseRun.key, Prod.ext_iff]
  obtain ⟨v, hv⟩ := List.length_eq_one_iff.mp hone
  exact ⟨v, List.mem_of_mem_filter (hv ▸ List.mem_singleton_self v), hv⟩

theorem completed_of_keys (hgood : ∀ v ∈ r.runs, v.Good r.repetitions)
    (hkeys : (r.runs.map DatabaseRun.key).Perm (methods ×ˢ repetitionsUpTo r.repetitions)) :
    completedRepetitions (.database r) = repetitionsUpTo r.repetitions := by
  have hall : r.runs.filter (·.correct) = r.runs :=
    List.filter_eq_self.mpr fun v hv => (hgood v hv).correct
  have hreps : (r.runs.map (·.repetition)).Perm (repetitionsUpTo r.repetitions ++
      (repetitionsUpTo r.repetitions ++ repetitionsUpTo r.repetitions)) := by
    have hsnd := hkeys.map Prod.snd
    rw [List.map_map] at hsnd
    simpa [methods, List.product_cons, Function.comp_def, DatabaseRun.key] using hsnd
  have hcount : ∀ k, (r.runs.map (·.repetition)).count k = 3 ↔
      k ∈ repetitionsUpTo r.repetitions := by
    intro k
    rw [hreps.count_eq, List.count_append, List.count_append,
      (nodup_repetitionsUpTo r.repetitions).count]
    split_ifs with hk <;> simp [hk]
  have hmem : ∀ k, k ∈ (r.runs.map (·.repetition)).dedup.filter (fun k =>
      (r.runs.map (·.repetition)).count k = 3) ↔ k ∈ repetitionsUpTo r.repetitions := by
    intro k
    rw [List.mem_filter, List.mem_dedup, decide_eq_true_eq, hcount, hreps.mem_iff]
    simp
  rw [completedRepetitions, hall]
  refine List.Perm.eq_of_pairwise' (r := (· ≤ ·)) (List.pairwise_insertionSort _ _)
    ((pairwise_repetitionsUpTo _).imp le_of_lt) ?_
  refine (List.perm_insertionSort _ _).trans ?_
  exact (List.perm_ext_iff_of_nodup ((List.nodup_dedup _).filter _)
    (nodup_repetitionsUpTo _)).mpr hmem

/-- Sums of 64-bit counts that wrap are negative. -/
theorem DatabaseRun.Good.sum_eq {repetitions : ℤ} {v : DatabaseRun} (h : v.Good repetitions)
    (hfits : v.Fits) : v.inserted + v.duplicates = v.submitted := by
  obtain ⟨-, -, ⟨-, hi⟩, -, hd⟩ := hfits
  have hsum := h.sum
  have h1 := h.inserted
  have h2 := h.duplicates
  have h3 := h.submitted
  unfold wrap64 at hsum
  omega

/-- A valid report whose number of runs did not wrap is a complete grid. -/
theorem grid_of_validate (hfits : ∀ v ∈ r.runs, v.Fits) (hvalid : r.validate = none)
    (hwrap : wrap64 (3 * r.repetitions) = 3 * r.repetitions) : r.Grid := by
  obtain ⟨-, hlength, hgood, hnodup⟩ := (validate_eq_none r).mp hvalid
  have hkeys := keys_perm hgood hnodup (hlength.trans hwrap)
  refine ⟨fun m hm k hlow hhigh => ?_, completed_of_keys hgood hkeys⟩
  obtain ⟨v, hv, hfilter⟩ := run_of_key hm hlow hhigh hkeys
  have hg := hgood v hv
  exact ⟨v, hfilter, hg.correct, hg.inserted, hg.duplicates, hg.sum_eq (hfits v hv)⟩

/-- A run of the first method that inserted one event. -/
def insertRun (k : ℤ) : DatabaseRun := ⟨.insert, k, 1, 1, 0, 1, [], true⟩

theorem fits_insertRun {k : ℤ} (h : Fits k) : (insertRun k).Fits := by
  have hone : Fits 1 := by decide
  have hzero : Fits 0 := by decide
  exact ⟨h, hone, hone, hzero⟩

theorem good_insertRun {repetitions k : ℤ} (hlow : 1 ≤ k) (hhigh : k ≤ repetitions) :
    (insertRun k).Good repetitions where
  method := List.mem_cons_self
  low := hlow
  high := hhigh
  correct := rfl
  elapsed := Int.one_pos
  submitted := Int.one_pos
  inserted := Int.one_nonneg
  duplicates := le_rfl
  sum := rfl

/-- If the number of runs wraps to `n`, then `n` runs of one method pass. -/
theorem validate_insertRuns {R : ℤ} (hR : 3 ≤ R) {n : ℤ} (hn : wrap64 (3 * R) = n) (hpos : 0 ≤ n)
    (hle : n ≤ R) : (DatabaseReport.mk R ((repetitionsUpTo n).map insertRun)).validate = none := by
  refine (validate_eq_none _).mpr ⟨hR, ?_, ?_, ?_⟩
  · change (((repetitionsUpTo n).map insertRun).length : ℤ) = wrap64 (3 * R)
    rw [hn, List.length_map, repetitionsUpTo, List.length_map, List.length_range]
    omega
  · intro v hv
    obtain ⟨k, hk, rfl⟩ := List.mem_map.mp hv
    obtain ⟨hlow, hhigh⟩ := mem_repetitionsUpTo.mp hk
    exact good_insertRun hlow (hhigh.trans hle)
  · change (((repetitionsUpTo n).map insertRun).map DatabaseRun.key).Nodup
    rw [List.map_map]
    refine (nodup_repetitionsUpTo n).map fun a b hab => ?_
    exact congrArg Prod.snd hab

/-- Runs of one method are no grid. -/
theorem not_grid_insertRuns {R : ℤ} (hR : 3 ≤ R) (ks : List ℤ) :
    ¬(DatabaseReport.mk R (ks.map insertRun)).Grid := by
  intro h
  obtain ⟨v, hv, -⟩ := h.once .copyMerge (by decide) 1 le_rfl (show (1 : ℤ) ≤ R by omega)
  have hmem : v ∈ (ks.map insertRun).filter fun v => v.method = .copyMerge ∧ v.repetition = 1 := by
    rw [hv]
    exact List.mem_singleton_self v
  rw [List.mem_filter, List.mem_map] at hmem
  obtain ⟨⟨k, -, rfl⟩, hmethod⟩ := hmem
  simp [insertRun] at hmethod

/-- For every number of repetitions, all reports that pass the check are complete grids exactly if
three times that number does not wrap to another count of runs. -/
theorem valid_database_report_is_grid_iff {R : ℤ} (hR : Fits R) :
    (∀ runs : List DatabaseRun, (∀ v ∈ runs, v.Fits) →
      (DatabaseReport.mk R runs).validate = none → (DatabaseReport.mk R runs).Grid) ↔
      R < 3 ∨ wrap64 (3 * R) = 3 * R ∨ wrap64 (3 * R) < 0 := by
  constructor
  · intro hall
    by_contra hcond
    simp only [not_or, not_lt] at hcond
    obtain ⟨hthree, hne, hpos⟩ := hcond
    have hle : wrap64 (3 * R) ≤ R := by
      unfold Fits at hR
      unfold wrap64 at hne ⊢
      omega
    refine not_grid_insertRuns hthree _ (hall _ ?_ (validate_insertRuns hthree rfl hpos hle))
    intro v hv
    obtain ⟨k, hk, rfl⟩ := List.mem_map.mp hv
    obtain ⟨hlow, hhigh⟩ := mem_repetitionsUpTo.mp hk
    unfold Fits at hR
    exact fits_insertRun ⟨by omega, by omega⟩
  · intro hcond runs hfits hvalid
    obtain ⟨hthree, hlength, -⟩ := (validate_eq_none _).mp hvalid
    dsimp only at hthree hlength
    refine grid_of_validate hfits hvalid ?_
    rcases hcond with hc | hc | hc
    · omega
    · exact hc
    · omega

theorem valid_database_report_is_grid_iff_three :
    Fits 3 ∧ ∀ runs : List DatabaseRun, (∀ v ∈ runs, v.Fits) →
      (DatabaseReport.mk 3 runs).validate = none → (DatabaseReport.mk 3 runs).Grid :=
  ⟨by decide, (valid_database_report_is_grid_iff (by decide)).mpr (Or.inr (Or.inl rfl))⟩

/-- Three times this number of repetitions wraps to two runs. -/
theorem two_runs_pass_as_grid :
    let r : DatabaseReport := ⟨6148914691236517206, [insertRun 1, insertRun 2]⟩
    Fits r.repetitions ∧ (∀ v ∈ r.runs, v.Fits) ∧ r.validate = none ∧
      (∀ k, r.runs.filter (fun v => v.method = .copyMerge ∧ v.repetition = k) = []) ∧
      completedRepetitions (.database r) = [] := by
  refine ⟨by decide, ?_, by decide, fun k => ?_, by decide⟩
  · simp only [List.forall_mem_cons]
    exact ⟨fits_insertRun (by decide), fits_insertRun (by decide), by simp⟩
  · simp [insertRun]

end Grid

end IngestKit.Benchmark
