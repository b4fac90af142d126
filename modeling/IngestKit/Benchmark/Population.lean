import IngestKit.Benchmark.Conservation
import IngestKit.Benchmark.Verdict
import IngestKit.Json.Dict
import Mathlib.Data.List.Forall2

/-! The population evidence as the study writes it to JSON and as the Python auditor reads it. A
Python string is its UTF-8 text here. -/
namespace IngestKit.Benchmark
open Event Json

def SetName.text : SetName → Bytes
  | .attempted => ascii ['a', 't', 't', 'e', 'm', 'p', 't', 'e', 'd']
  | .accepted => ascii ['a', 'c', 'c', 'e', 'p', 't', 'e', 'd']
  | .ambiguous => ascii ['a', 'm', 'b', 'i', 'g', 'u', 'o', 'u', 's']
  | .stored => ascii ['s', 't', 'o', 'r', 'e', 'd']

namespace Member

def repetition : Bytes := ascii ['R', 'e', 'p', 'e', 't', 'i', 't', 'i', 'o', 'n']

def count : Bytes := ascii ['C', 'o', 'u', 'n', 't']

def space : Bytes := ascii ['N', 'a', 'm', 'e', 's', 'p', 'a', 'c', 'e']

def seed : Bytes := ascii ['S', 'e', 'e', 'd']

def indices : Bytes := ascii ['I', 'n', 'd', 'i', 'c', 'e', 's']

def explicit : Bytes := ascii ['E', 'x', 'p', 'l', 'i', 'c', 'i', 't']

def extra : Bytes := ascii ['E', 'x', 't', 'r', 'a']

end Member

/-- `populations` of a pipeline report. The seed of a repetition is an int64 and may wrap. -/
def populations (P : Platform) (c : Case) (report : PipelineReport) (space : Bytes) (seed : ℤ) :
    List PopulationEvidence :=
  report.runs.map fun run =>
    population P c run space (wrap64 (seed + run.repetition) - run.repetition)

namespace PopulationEvidence

def marshalIndices (g : PopulationEvidence) (name : SetName) : Value :=
  marshalSlice (fun i : ℕ => marshalInt i) (some (g.indices name))

def marshalExtra (g : PopulationEvidence) (name : SetName) : Value :=
  marshalSlice (fun id : UUID => .string (marshalString id.string)) (some (g.extra name))

/-- Only a set with an unplanned ID has an entry in `Extra`. -/
def extraNames (g : PopulationEvidence) : List SetName :=
  Audit.setNames.filter fun name => !(g.extra name).isEmpty

/-- The fields that are written: for a pipeline run `Explicit` is nil, and an empty `Extra` is
omitted. -/
def fields (g : PopulationEvidence) : List (Bytes × Value) :=
  [(Member.repetition, marshalInt g.repetition), (Member.count, marshalInt g.count),
    (Member.space, .string (marshalString g.space)), (Member.seed, marshalInt g.seed),
    (Member.indices,
      marshalMap (Audit.setNames.map fun name => (name.text, g.marshalIndices name)))]
    ++ if g.extraNames.isEmpty then []
      else [(Member.extra,
        marshalMap (g.extraNames.map fun name => (name.text, g.marshalExtra name)))]

def marshal (g : PopulationEvidence) : Bytes := (marshalFields g.fields).print

end PopulationEvidence

namespace Audit

/-- The value as an integer; a Python bool is one. -/
def int? : Value → Option ℤ
  | .number ⟨negative, int, none, none⟩ =>
    some (if negative then -(digitsVal int.digits : ℤ) else digitsVal int.digits)
  | .bool b => some (if b then 1 else 0)
  | _ => none

def str? : Value → Option Bytes
  | .string s => some s.unquote
  | _ => none

def list? {α : Type} (read : Value → Option α) (v : Value) : Option (List α) :=
  (unmarshalSlice read v).bind id

def items? {α : Type} (read : Value → Option α) (v : Value) : Option (List (Bytes × α)) :=
  v.entries?.bind fun es => (dict es).mapM fun e => (read e.2).map fun a => (e.1, a)

/-- What `populations` reads of a group whose members have the types the study writes. -/
structure Group where
  explicit : Option (List (Bytes × List Bytes))
  space : Bytes
  seed : ℤ
  count : ℤ
  indices : List (Bytes × List Value)
  extra : Option (List (Bytes × List Bytes))

/-- A member that need not be there. -/
def optional {α : Type} (read : Value → Option α) : Option Value → Option (Option α)
  | none => some none
  | some v => (read v).map some

def Group.loads (raw : Bytes) : Option Group := do
  let doc ← parse? raw
  let es ← doc.value.entries?
  let group := dict es
  let explicit ← optional (items? (list? str?)) (group.lookup Member.explicit)
  let space ← (group.lookup Member.space).bind str?
  let seed ← (group.lookup Member.seed).bind int?
  let count ← (group.lookup Member.count).bind int?
  let indices ← (group.lookup Member.indices).bind (items? (list? some))
  let extra ← optional (items? (list? str?)) (group.lookup Member.extra)
  return ⟨explicit, space, seed, count, indices, extra⟩

/-- `populations` of the auditor. -/
def Group.populations (P : Platform) (group : Group) :
    Except PyError (List (Bytes × List Bytes)) :=
  match group.explicit with
  | some sets => .ok sets
  | none =>
    let lookup := (List.range group.count.toNat).map fun i =>
      (P.uuid5 (eventName group.space group.seed i)).string
    group.indices.mapM fun (name, indices) => do
      check (indices.all fun v => (int? v).any fun i : ℤ => 0 ≤ i && i < lookup.length)
        "population index out of range"
      pure (name, (indices.filterMap fun v => (int? v).bind fun i => lookup[i.toNat]?) ++
        ((group.extra.getD []).lookup name).getD [])

theorem int?_marshalInt (z : ℤ) : int? (marshalInt z) = some z := by
  rw [marshalInt, int?, IntPart.digitsVal_ofNat]
  congr 1
  split_ifs with h
  · rw [decide_eq_true_eq] at h
    omega
  · rw [decide_eq_true_eq] at h
    omega

theorem str?_marshalString {b : Bytes} (h : Utf8.valid b = true) :
    str? (.string (marshalString b)) = some b :=
  congrArg some ((unquote_marshalString b).trans (Utf8.coerce_of_valid h))

theorem list?_marshalSlice {α β : Type} {f : α → Value} {read : Value → Option β} {k : α → β}
    (h : ∀ a, read (f a) = some (k a)) (as : List α) :
    list? read (marshalSlice f (some as)) = some (as.map k) := by
  rw [list?, unmarshalSlice_marshalSlice h]
  rfl

theorem valid_text (name : SetName) : Utf8.valid name.text = true := by
  cases name <;> decide

theorem text_injective : Function.Injective SetName.text := by
  intro a b h
  revert h
  cases a <;> cases b <;> decide

theorem items?_marshalMap {α : Type} {f : SetName → Value} {read : Value → Option α}
    {k : SetName → α} (h : ∀ name, read (f name) = some (k name)) {names : List SetName}
    (hnames : names.Nodup) :
    items? read (marshalMap (names.map fun name => (name.text, f name))) =
      some (names.map fun name => (name.text, k name)) := by
  have hvalid : ∀ e ∈ names.map fun name => (name.text, f name), Utf8.valid e.1 = true := by
    intro e he
    obtain ⟨name, -, rfl⟩ := List.mem_map.mp he
    exact valid_text name
  have hkeys : ((names.map fun name => (name.text, f name)).map Prod.fst).Nodup := by
    rw [List.map_map]
    exact hnames.map text_injective
  rw [items?, entries?_marshalMap hvalid, Option.bind_some, dict_of_nodup hkeys, List.mapM_map]
  clear hvalid hkeys hnames
  induction names with
  | nil => rfl
  | cons name names ih => simp [h, ih]

/-- What the auditor reads of an entry. -/
def Group.ofEvidence (g : PopulationEvidence) : Group where
  explicit := none
  space := g.space
  seed := g.seed
  count := g.count
  indices := setNames.map fun name => (name.text, (g.indices name).map fun i : ℕ => marshalInt i)
  extra := if g.extraNames.isEmpty then none
    else some (g.extraNames.map fun name => (name.text, (g.extra name).map UUID.string))

theorem nodup_setNames : setNames.Nodup := by decide

theorem lookup_setNames {α : Type} (f : SetName → α) (name : SetName) :
    (setNames.map fun name => (name.text, f name)).lookup name.text = some (f name) := by
  cases name <;> rfl

theorem names_fields (g : PopulationEvidence) : (g.fields.map Prod.fst).Sublist
    [Member.repetition, Member.count, Member.space, Member.seed, Member.indices, Member.extra] := by
  rw [PopulationEvidence.fields]
  cases g.extraNames.isEmpty with
  | true => exact List.sublist_append_left [_, _, _, _, _] [Member.extra]
  | false => exact List.Sublist.refl _

theorem plain_fields (g : PopulationEvidence) : ∀ f ∈ g.fields, ∀ x ∈ f.1, PlainByte x := by
  have hplain : ∀ name ∈ [Member.repetition, Member.count, Member.space, Member.seed,
      Member.indices, Member.extra], ∀ x ∈ name, PlainByte x := by
    decide +kernel
  exact fun f hf => hplain f.1 ((names_fields g).subset (List.mem_map_of_mem hf))

theorem depth_fields (g : PopulationEvidence) : ∀ f ∈ g.fields, f.2.depth ≤ 2 := by
  have hmap : ∀ (names : List SetName) (v : SetName → Value), (∀ name, (v name).depth ≤ 1) →
      (marshalMap (names.map fun name => (name.text, v name))).depth ≤ 2 := by
    intro names v hv
    refine depth_marshalMap_le fun e he => ?_
    obtain ⟨name, -, rfl⟩ := List.mem_map.mp he
    exact hv name
  have hindices := hmap setNames g.marshalIndices
    fun _ => depth_marshalSlice_le (f := fun i : ℕ => marshalInt i) (k := 0) (fun _ => le_rfl) _
  have hextra := hmap g.extraNames g.marshalExtra
    fun _ => depth_marshalSlice_le (f := fun id : UUID => .string (marshalString id.string))
      (k := 0) (fun _ => le_rfl) _
  intro f hf
  rw [PopulationEvidence.fields, List.mem_append] at hf
  obtain hf | hf := hf
  · simp only [List.mem_cons, List.not_mem_nil, or_false] at hf
    obtain rfl | rfl | rfl | rfl | rfl := hf
    · exact Nat.zero_le 2
    · exact Nat.zero_le 2
    · exact Nat.zero_le 2
    · exact Nat.zero_le 2
    · exact hindices
  · split_ifs at hf with hempty
    · cases hf
    · rw [List.mem_singleton.mp hf]
      exact hextra

theorem items?_marshalIndices (g : PopulationEvidence) : items? (list? some)
    (marshalMap (setNames.map fun name => (name.text, g.marshalIndices name))) =
      some (Group.ofEvidence g).indices :=
  items?_marshalMap (fun _ => list?_marshalSlice (fun _ => rfl) _) nodup_setNames

theorem items?_marshalExtra (g : PopulationEvidence) : items? (list? str?)
    (marshalMap (g.extraNames.map fun name => (name.text, g.marshalExtra name))) =
      some (g.extraNames.map fun name => (name.text, (g.extra name).map UUID.string)) :=
  items?_marshalMap (fun _ => list?_marshalSlice
    (fun id => str?_marshalString (valid_of_ascii id.allAscii_string.1)) _)
    (nodup_setNames.filter _)

/-- The members `populations` looks for. -/
theorem lookup_fields (g : PopulationEvidence) : g.fields.lookup Member.explicit = none ∧
    g.fields.lookup Member.space = some (.string (marshalString g.space)) ∧
    g.fields.lookup Member.seed = some (marshalInt g.seed) ∧
    g.fields.lookup Member.count = some (marshalInt g.count) ∧
    g.fields.lookup Member.indices =
      some (marshalMap (setNames.map fun name => (name.text, g.marshalIndices name))) ∧
    g.fields.lookup Member.extra = if g.extraNames.isEmpty then none
      else some (marshalMap (g.extraNames.map fun name => (name.text, g.marshalExtra name))) := by
  rw [PopulationEvidence.fields]
  cases g.extraNames.isEmpty with
  | true => exact ⟨rfl, rfl, rfl, rfl, rfl, rfl⟩
  | false => exact ⟨rfl, rfl, rfl, rfl, rfl, rfl⟩

theorem loads_marshal (g : PopulationEvidence) (hspace : Utf8.valid g.space = true) :
    Group.loads g.marshal = some (.ofEvidence g) := by
  have hparse := parse?_print ((depth_marshalFields_le (depth_fields g)).trans (by decide))
  have hdict : dict g.fields = g.fields :=
    dict_of_nodup ((by decide : List.Nodup _).sublist (names_fields g))
  obtain ⟨h1, h2, h3, h4, h5, h6⟩ := lookup_fields g
  rw [Group.loads, PopulationEvidence.marshal, hparse]
  simp only [Option.bind_eq_bind, Option.bind_some, entries?_marshalFields (plain_fields g), hdict,
    h1, h2, h3, h4, h5, h6, optional, str?_marshalString hspace, int?_marshalInt,
    items?_marshalIndices]
  rw [Group.ofEvidence]
  cases g.extraNames.isEmpty with
  | true => rfl
  | false =>
    simp only [Bool.false_eq_true, if_false, items?_marshalExtra]
    rfl

theorem mapM_eq_ok {α β : Type} {f : α → Except PyError β} {k : α → β} {l : List α}
    (h : ∀ a ∈ l, f a = .ok (k a)) : l.mapM f = .ok (l.map k) := by
  induction l with
  | nil => rfl
  | cons a l ih =>
    rw [List.mapM_cons, h a List.mem_cons_self, ok_bind,
      ih fun b hb => h b (List.mem_cons_of_mem a hb)]
    rfl

theorem extra_ofEvidence (g : PopulationEvidence) (name : SetName) :
    (((Group.ofEvidence g).extra.getD []).lookup name.text).getD [] =
      (g.extra name).map UUID.string := by
  have hsome : (Group.ofEvidence g).extra.getD [] =
      g.extraNames.map fun name => (name.text, (g.extra name).map UUID.string) := by
    rw [Group.ofEvidence]
    cases hempty : g.extraNames.isEmpty with
    | true =>
      rw [List.isEmpty_iff.mp hempty]
      rfl
    | false => rfl
  have hmem : name ∈ setNames := by cases name <;> decide
  rw [hsome, PopulationEvidence.extraNames, lookup_map_filter text_injective]
  cases he : g.extra name with
  | nil => simp
  | cons id ids => simp [hmem]

/-- On an entry of the study the auditor regenerates, as texts, the IDs it is modelled to. -/
theorem populations_ofEvidence {P : Platform} {g : PopulationEvidence} {ids : SetName → List UUID}
    (h : populations P g = .ok ids) : (Group.ofEvidence g).populations P =
      .ok (setNames.map fun name => (name.text, (ids name).map UUID.string)) := by
  rw [populations, unit_bind_eq_ok, forM_check_eq_ok] at h
  obtain ⟨hrange, hids⟩ := h
  rw [← Except.ok.inj hids]
  have hexplicit : (Group.ofEvidence g).explicit = none := rfl
  have hindices : (Group.ofEvidence g).indices = setNames.map fun name =>
    (name.text, (g.indices name).map fun i : ℕ => marshalInt i) := rfl
  rw [Group.populations, hexplicit, hindices, List.mapM_map]
  refine mapM_eq_ok fun name hname => ?_
  have hall := hrange name hname
  simp only [List.length_map, List.length_range, List.all_eq_true, decide_eq_true_eq] at hall
  dsimp only [Function.comp_apply]
  rw [check_bind_eq_ok]
  refine ⟨?_, ?_⟩
  · simp only [List.all_eq_true, List.mem_map]
    rintro v ⟨i, hi, rfl⟩
    simpa [int?_marshalInt, Group.ofEvidence] using hall i hi
  · rw [extra_ofEvidence, List.filterMap_map, List.map_append, List.map_filterMap]
    congr 3
    refine List.filterMap_congr fun i _ => ?_
    simp [int?_marshalInt, Group.ofEvidence, Function.comp_def]

end Audit

/-- The namespace of a case, `journal.RunNamespace + "/" + c.ID` with a generated UUID, is Unicode
text. -/
theorem valid_namespace (run : UUID) {mode : Mode} {c : Case} (hc : c ∈ registry mode) :
    Utf8.valid (run.string ++ 0x2f :: c.id) = true := by
  have hid : ∀ mode, ∀ c ∈ registry mode, ∀ x ∈ c.id, x.toNat < 0x80 := by
    intro mode
    cases mode <;> decide +kernel
  exact valid_of_ascii (run.allAscii_string.1.append (.cons (by decide) (hid mode c hc)))

theorem perm_filter_append (ids planned : List UUID) :
    (ids.filter (· ∈ planned) ++ ids.filter (· ∉ planned)).Perm ids ∧
      ((∀ id ∈ ids, id ∈ planned) →
        ids.filter (· ∈ planned) ++ ids.filter (· ∉ planned) = ids) := by
  constructor
  · simpa using List.filter_append_perm (· ∈ planned) ids
  · intro h
    rw [List.filter_eq_self.mpr (by simpa using h), List.filter_eq_nil_iff.mpr (by simpa using h),
      List.append_nil]

/-- For each run of a report, and whatever IDs its four sets hold, the auditor reads the sets back
from the entry of the run: in another order at most, and in the same one if they are planned. -/
theorem population_evidence_round_trips (P : Platform) (c : Case) (report : PipelineReport)
    {space : Bytes} (hspace : Utf8.valid space = true) (seed : ℤ) :
    List.Forall₂ (fun run entry => ∃ group sets, Audit.Group.loads entry.marshal = some group ∧
        group.populations P = .ok sets ∧
        sets.map Prod.fst = Audit.setNames.map SetName.text ∧
        ∀ name, ∃ ids, sets.lookup name.text = some (ids.map UUID.string) ∧
          ids.Perm (run.ids name) ∧
          ((∀ id ∈ run.ids name, id ∈ plan P space entry.seed c.count) → ids = run.ids name))
      report.runs (populations P c report space seed) := by
  rw [populations, List.forall₂_map_right_iff, List.forall₂_same]
  intro run _
  refine ⟨_, _, Audit.loads_marshal _ hspace,
    Audit.populations_ofEvidence (populations_population c run), ?_, ?_⟩
  · rw [List.map_map]
    rfl
  · exact fun name => ⟨_, Audit.lookup_setNames _ name, perm_filter_append (run.ids name) _⟩

def strayID : UUID := ⟨List.replicate 16 5, by decide⟩

/-- Among the stored IDs are a planned one twice and an unplanned one. -/
def strayReport : PipelineReport :=
  ⟨[{ repetition := 1
      attemptedIDs := mixedIDs.take 6
      acceptedIDs := mixedIDs.take 2
      ambiguousIDs := (mixedIDs.drop 2).take 2
      storedIDs := mixedIDs.take 3 ++ strayID :: mixedIDs.take 1 }]⟩

theorem population_evidence_round_trips_stray :
    (populations mixedPlatform mixedCase strayReport (ascii ['s']) 1).map
        (fun g => (g.indices .ambiguous, g.indices .stored, g.extra .stored)) =
      [([2, 3], [0, 1, 2, 0], [strayID])] ∧
      List.Forall₂ (fun run entry => ∃ group sets, Audit.Group.loads entry.marshal = some group ∧
          group.populations mixedPlatform = .ok sets ∧
          sets.map Prod.fst = Audit.setNames.map SetName.text ∧
          ∀ name, ∃ ids, sets.lookup name.text = some (ids.map UUID.string) ∧
            ids.Perm (run.ids name) ∧
            ((∀ id ∈ run.ids name, id ∈ plan mixedPlatform (ascii ['s']) entry.seed 7) →
              ids = run.ids name))
        strayReport.runs (populations mixedPlatform mixedCase strayReport (ascii ['s']) 1) :=
  ⟨by decide +kernel, population_evidence_round_trips mixedPlatform mixedCase strayReport
    (by decide) 1⟩

end IngestKit.Benchmark
