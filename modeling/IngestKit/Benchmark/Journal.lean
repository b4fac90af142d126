import IngestKit.Benchmark.Verdict
import Mathlib.Data.List.AList

/-! The journal of a study, its index, and the files it refers to. -/
namespace IngestKit.Benchmark
open Event

structure StudyIdentity where
  sourceSHA : Bytes
  sourceFingerprint : Bytes
  controlsFingerprint : Bytes
  imagesFingerprint : Bytes := []
  configFingerprint : Bytes := []
  mode : Mode
  seed : ℤ
  sourceDirty : Bool
  deriving DecidableEq

/-- The reference to a file, by its path in the output directory. -/
structure ArtifactRef where
  path : Bytes := []
  deriving DecidableEq

structure CaseAttempt where
  attempt : ℕ
  status : CaseStatus
  errorClass : ErrorClass
  artifact : ArtifactRef
  deriving DecidableEq

structure CaseProgress where
  status : CaseStatus := .none
  attempt : ℕ := 0
  completedRepetitions : List ℤ := []
  artifact : ArtifactRef := {}
  history : List CaseAttempt := []
  errorClass : ErrorClass := .none
  deriving DecidableEq

inductive StudyStatus
  | none | running | complete | failed | incomplete
  deriving DecidableEq

structure StudyJournal where
  status : StudyStatus := .none
  executionAttempts : ℕ := 0
  metadataArtifacts : List ArtifactRef := []
  manifestFiles : List Bytes := []
  resources : List ArtifactRef := []
  schema : ℕ
  identity : StudyIdentity
  runNamespace : Bytes
  cases : AList fun _ : Bytes => CaseProgress

inductive JournalError
  | schema
  | differs (fields : List String)
  deriving DecidableEq

namespace StudyJournal

/-- A missing entry reads as the zero value. -/
def progress (j : StudyJournal) (id : Bytes) : CaseProgress := (j.cases.lookup id).getD {}

def setProgress (j : StudyJournal) (id : Bytes) (p : CaseProgress) : StudyJournal :=
  { j with cases := j.cases.insert id p }

def differences (j : StudyJournal) (identity : StudyIdentity) : List String :=
  [("revision", decide (j.identity.sourceSHA = identity.sourceSHA)),
    ("source", decide (j.identity.sourceFingerprint = identity.sourceFingerprint)),
    ("controls", decide (j.identity.controlsFingerprint = identity.controlsFingerprint)),
    ("images", decide (j.identity.imagesFingerprint = identity.imagesFingerprint)),
    ("runtime", decide (j.identity.configFingerprint = identity.configFingerprint)),
    ("seed", decide (j.identity.seed = identity.seed)),
    ("mode", decide (j.identity.mode = identity.mode)),
    ("dirty status", decide (j.identity.sourceDirty = identity.sourceDirty))].filterMap
      fun f => if f.2 then none else some f.1

def compatible (j : StudyJournal) (identity : StudyIdentity) : Option JournalError :=
  if j.schema ≠ 2 then some .schema
  else if j.differences identity ≠ [] then some (.differs (j.differences identity))
  else none

@[simp]
theorem progress_setProgress_self (j : StudyJournal) (id : Bytes) (p : CaseProgress) :
    (j.setProgress id p).progress id = p := by
  simp [progress, setProgress]

theorem progress_setProgress_of_ne (j : StudyJournal) {id id' : Bytes} (p : CaseProgress)
    (h : id' ≠ id) : (j.setProgress id p).progress id' = j.progress id' := by
  simp [progress, setProgress, AList.lookup_insert_ne h]

/-- A compatible journal has the same identity in every field. -/
theorem identity_of_compatible {j : StudyJournal} {identity : StudyIdentity}
    (h : j.compatible identity = none) : j.identity = identity := by
  unfold compatible at h
  split_ifs at h with _ hdiff
  rw [not_not, differences, List.filterMap_eq_nil_iff] at hdiff
  simp only [List.forall_mem_cons, List.not_mem_nil, false_imp_iff, implies_true, and_true,
    ite_eq_left_iff, decide_eq_true_eq, reduceCtorEq, imp_false, not_not] at hdiff
  obtain ⟨hsha, hsource, hcontrols, himages, hconfig, hseed, hmode, hdirty⟩ := hdiff
  cases hj : j.identity
  cases identity
  simp_all

end StudyJournal

structure StudyCaseResult where
  case : Case
  status : CaseStatus
  attempt : ℕ
  artifact : ArtifactRef
  history : List CaseAttempt

structure StudyIndex where
  status : StudyStatus
  identity : StudyIdentity
  runNamespace : Bytes
  manifestFiles : List Bytes
  resources : List ArtifactRef
  metadataArtifacts : List ArtifactRef
  cases : List StudyCaseResult

/-- What `writeStudyIndex` writes to the index. -/
def studyIndex (j : StudyJournal) (cases : List Case) (status : StudyStatus) : StudyIndex :=
  { status := status
    identity := j.identity
    runNamespace := j.runNamespace
    manifestFiles := j.manifestFiles
    resources := j.resources
    metadataArtifacts := j.metadataArtifacts
    cases := cases.map fun c =>
      let p := j.progress c.id
      ⟨c, p.status, p.attempt, p.artifact, p.history⟩ }

structure StudyCapture where
  identity : StudyIdentity
  case : Case
  space : Bytes
  status : CaseStatus
  errorClass : ErrorClass
  report : Report

/-- The files that are made once and never replaced. -/
inductive OutputPath
  | capture (id : Bytes) (attempt : ℕ)
  | manifest (session : ℕ)
  | resources (session : ℕ)
  deriving DecidableEq

namespace OutputPath

/-- The path in the output directory. -/
def text : OutputPath → Bytes
  | .capture id attempt =>
    ascii ['r', 'a', 'w', '/'] ++ id ++ ascii ['-', 'a', 't', 't', 'e', 'm', 'p', 't'] ++
      0x2d :: (decimal attempt ++ ascii ['.', 'j', 's', 'o', 'n', '.', 'g', 'z'])
  | .manifest session =>
    ascii ['m', 'a', 'n', 'i', 'f', 'e', 's', 't', '-'] ++
      (decimal session ++ ascii ['.', 'j', 's', 'o', 'n'])
  | .resources session =>
    ascii ['r', 'e', 's', 'o', 'u', 'r', 'c', 'e', 's', '-'] ++
      (decimal session ++ ascii ['.', 'j', 's', 'o', 'n', '.', 'g', 'z'])

/-- The last occurrence of a separator splits a list in one way. -/
private theorem append_separator_inj {α : Type} {a b c d : List α} {x : α} (hb : x ∉ b)
    (hd : x ∉ d) (h : a ++ x :: b = c ++ x :: d) : a = c ∧ b = d := by
  rcases List.append_eq_append_iff.mp h with ⟨e, rfl, he⟩ | ⟨e, rfl, he⟩
  · cases e with
    | nil => simpa using he
    | cons y e =>
      cases he
      simp at hb
  · cases e with
    | nil => simpa using he.symm
    | cons y e =>
      cases he
      simp at hd

private theorem dash_not_mem_suffix (n : ℕ) :
    0x2d ∉ decimal n ++ ascii ['.', 'j', 's', 'o', 'n', '.', 'g', 'z'] := by
  rw [List.mem_append, not_or]
  exact ⟨dash_not_mem_decimal n, by decide⟩

private theorem stops_dot (cs : List Char) : Stops Digit.ofByte? (ascii ('.' :: cs)) := by
  rw [ascii, List.map_cons, stops_cons]
  decide

/-- Different files have different paths. -/
theorem text_injective : Function.Injective text := by
  intro p q h
  cases p with
  | capture id n =>
    cases q with
    | capture id' n' =>
      obtain ⟨hid, hn⟩ := append_separator_inj (dash_not_mem_suffix n) (dash_not_mem_suffix n') h
      rw [List.append_cancel_right_eq, List.append_cancel_left_eq] at hid
      obtain ⟨hn, -⟩ := decimal_append_inj (stops_dot _) (stops_dot _) hn
      rw [hid, hn]
    | manifest k => cases h
    | resources k => cases h
  | manifest k =>
    cases q with
    | manifest k' =>
      rw [text, text, List.append_cancel_left_eq] at h
      rw [(decimal_append_inj (stops_dot _) (stops_dot _) h).1]
    | capture id n => cases h
    | resources k' => cases h
  | resources k =>
    cases q with
    | resources k' =>
      rw [text, text, List.append_cancel_left_eq] at h
      rw [(decimal_append_inj (stops_dot _) (stops_dot _) h).1]
    | capture id n => cases h
    | manifest k' => cases h

end OutputPath

end IngestKit.Benchmark
