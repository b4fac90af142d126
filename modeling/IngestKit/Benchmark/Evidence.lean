import IngestKit.Benchmark.Audit

/-! What the auditor reads back from the evidence: the checks as propositions, the population of
each set, and the digest of a set. -/
namespace IngestKit.Benchmark
open Event

namespace Audit

theorem bind_eq_ok {α β : Type} {m : Except PyError α} {f : α → Except PyError β} {b : β} :
    (m >>= f) = .ok b ↔ ∃ a, m = .ok a ∧ f a = .ok b := by
  cases m with
  | error e =>
    refine ⟨fun h => ?_, fun ⟨_, h, _⟩ => ?_⟩
    · cases h
    · cases h
  | ok a =>
    constructor
    · intro h
      exact ⟨a, rfl, h⟩
    · rintro ⟨a', h, hf⟩
      cases h
      exact hf

theorem ok_bind {α β : Type} (a : α) (f : α → Except PyError β) : (Except.ok a >>= f) = f a := rfl

theorem check_eq_ok {c : Bool} {message : String} : check c message = .ok () ↔ c = true := by
  cases c <;> simp [check]

theorem check_bind_eq_ok {α : Type} {c : Bool} {message : String} {f : Unit → Except PyError α}
    {a : α} : (check c message >>= f) = .ok a ↔ c = true ∧ f () = .ok a := by
  rw [bind_eq_ok]
  constructor
  · rintro ⟨⟨⟩, hc, hf⟩
    exact ⟨check_eq_ok.mp hc, hf⟩
  · rintro ⟨hc, hf⟩
    exact ⟨(), check_eq_ok.mpr hc, hf⟩

theorem unit_bind_eq_ok {α : Type} {m : Except PyError Unit} {f : Unit → Except PyError α} {a : α} :
    (m >>= f) = .ok a ↔ m = .ok () ∧ f () = .ok a := by
  rw [bind_eq_ok]
  exact ⟨fun ⟨⟨⟩, h⟩ => h, fun h => ⟨(), h⟩⟩

theorem slice_eq_some {α : Type} {l m : List α} : slice l = some m ↔ l ≠ [] ∧ m = l := by
  cases l with
  | nil => simp [slice]
  | cons a l => simp [slice, eq_comm]

theorem list_slice_eq_ok {α : Type} {l m : List α} :
    list (slice l) = .ok m ↔ l ≠ [] ∧ m = l := by
  cases l with
  | nil => simp [list, slice]
  | cons a l => simp [list, slice, eq_comm]

theorem list_slice_bind_eq_ok {α β : Type} {l : List α} {f : List α → Except PyError β} {b : β} :
    (list (slice l) >>= f) = .ok b ↔ l ≠ [] ∧ f l = .ok b := by
  simp only [bind_eq_ok, list_slice_eq_ok]
  exact ⟨fun ⟨_, ⟨hne, he⟩, hf⟩ => ⟨hne, he ▸ hf⟩, fun ⟨hne, hf⟩ => ⟨l, ⟨hne, rfl⟩, hf⟩⟩

theorem forM_check_eq_ok {α : Type} {l : List α} {p : α → Bool} {message : String} :
    (l.forM fun a => check (p a) message) = .ok () ↔ ∀ a ∈ l, p a = true := by
  induction l with
  | nil => simp [pure, Except.pure]
  | cons a l ih =>
    change (check (p a) message >>= fun _ => l.forM fun a => check (p a) message) = .ok () ↔ _
    rw [check_bind_eq_ok, ih, List.forall_mem_cons]

end Audit

section Population
variable {P : Platform} {space : Bytes} {seed : ℤ} {count : ℕ} {id : UUID}

/-- The planned IDs, in order. -/
def plan (P : Platform) (space : Bytes) (seed : ℤ) (count : ℕ) : List UUID :=
  (List.range count).map fun i => P.uuid5 (eventName space seed i)

theorem planIndex_eq_some {i : ℕ} (h : planIndex P space seed count id = some i) :
    (plan P space seed count)[i]? = some id := by
  have hp := List.find?_some h
  have hm := List.mem_of_find?_eq_some h
  simp only [List.mem_reverse, List.mem_range] at hm
  simp only [decide_eq_true_eq] at hp
  simp [plan, hm, hp]

theorem planIndex_eq_none : planIndex P space seed count id = none ↔
    id ∉ plan P space seed count := by
  simp [planIndex, plan, List.find?_eq_none]

theorem planIndex_lt {i : ℕ} (h : planIndex P space seed count id = some i) : i < count := by
  have hm := List.mem_of_find?_eq_some h
  simpa using hm

/-- What the auditor regenerates of a set: its planned IDs in order, then the others. -/
theorem populations_population (c : Case) (r : PipelineRun) :
    Audit.populations P (population P c r space seed) = .ok fun name =>
      (r.ids name).filter (· ∈ plan P space (seed + r.repetition) c.count) ++
        (r.ids name).filter (· ∉ plan P space (seed + r.repetition) c.count) := by
  unfold Audit.populations population
  dsimp only
  rw [Audit.unit_bind_eq_ok, Audit.forM_check_eq_ok]
  constructor
  · intro name _
    simp only [List.length_map, List.length_range, List.all_eq_true, List.mem_filterMap,
      decide_eq_true_eq]
    rintro i ⟨id, -, hi⟩
    exact planIndex_lt hi
  · congr 1
    funext name
    congr 1
    · change (((r.ids name).filterMap _).filterMap
        fun i => (plan P space (seed + r.repetition) c.count)[i]?) = _
      induction r.ids name with
      | nil => rfl
      | cons id ids ih =>
        cases hi : planIndex P space (seed + r.repetition) c.count id with
        | none =>
          rw [List.filterMap_cons_none hi, ih,
            List.filter_cons_of_neg (by simpa using planIndex_eq_none.mp hi)]
        | some i =>
          have hget := planIndex_eq_some hi
          rw [List.filterMap_cons_some hi, List.filterMap_cons_some hget, ih,
            List.filter_cons_of_pos (by simpa using List.mem_of_getElem? hget)]
    · refine List.filter_congr fun id _ => ?_
      rw [Bool.eq_iff_iff, Option.isNone_iff_eq_none, planIndex_eq_none, decide_eq_true_iff]

end Population

/-- Both sides digest the same text: distinct IDs have distinct texts. -/
theorem audit_idHash (P : Platform) (ids : List UUID) : Audit.idHash P ids = idHash P ids := by
  rw [Audit.idHash, idHash, uniqueIDs, List.dedup_map_of_injective UUID.string_injective]

end IngestKit.Benchmark
