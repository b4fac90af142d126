import IngestKit.Benchmark.Study
import IngestKit.Transition.Runs

/-! The invariant of a study over crashes and resumes: the journal on disk bounds the names of all
files, and the journal in memory continues it. -/
namespace IngestKit.Benchmark
open Event

def Disk.Free (d : Disk) (path : OutputPath) : Prop := d.files.lookup path.text = none

/-- The journal accounts for a file of this name. -/
def OutputPath.Within (j : StudyJournal) : OutputPath → Prop
  | .capture id n => n ≤ (j.progress id).attempt
  | .manifest k | .resources k => k ≤ j.executionAttempts

/-- The history of every case: its attempts in order, each with its capture. -/
structure Histories (j : StudyJournal) (files : List (Bytes × File)) : Prop where
  unbound : j.identity.imagesFingerprint = [] → ∀ id, (j.progress id).history = []
  increasing : ∀ id, ((j.progress id).history.map (·.attempt)).Pairwise (· < ·)
  bounded : ∀ id, ∀ h ∈ (j.progress id).history, h.attempt ≤ (j.progress id).attempt
  captured : ∀ id, ∀ h ∈ (j.progress id).history, ∃ c,
    files.lookup h.artifact.path = some (.capture c) ∧ c.identity = j.identity

/-- A later journal of the same study. -/
structure Extends (j j' : StudyJournal) : Prop where
  attempt : ∀ id, (j.progress id).attempt ≤ (j'.progress id).attempt
  sessions : j.executionAttempts ≤ j'.executionAttempts
  frozen : ∀ id, doneCase (j.progress id).status = true → j'.progress id = j.progress id

structure Disk.Inv (d : Disk) : Prop where
  empty : d.journal = none → d.files = []
  recorded : ∀ j, d.journal = some j → Histories j d.files
  within : ∀ j, d.journal = some j → ∀ f ∈ d.files, ∃ path : OutputPath,
    path.text = f.1 ∧ path.Within j

section Disk
variable {d d' : Disk} {j j' : StudyJournal} {path : OutputPath}

theorem OutputPath.Within.mono (h : path.Within j) (he : Extends j j') : path.Within j' := by
  cases path with
  | capture id n => exact Nat.le_trans h (he.attempt id)
  | manifest k | resources k => exact Nat.le_trans h he.sessions

theorem Extends.refl (j : StudyJournal) : Extends j j :=
  ⟨fun _ => Nat.le_refl _, Nat.le_refl _, fun _ _ => rfl⟩

theorem Histories.congr {files : List (Bytes × File)} (h : Histories j files)
    (hc : j'.cases = j.cases) (hi : j'.identity = j.identity) : Histories j' files := by
  have hp : j'.progress = j.progress := by
    funext id
    rw [StudyJournal.progress, hc, StudyJournal.progress]
  refine ⟨?_, ?_, ?_, ?_⟩
  · rw [hi, hp]
    exact h.unbound
  · rw [hp]
    exact h.increasing
  · rw [hp]
    exact h.bounded
  · rw [hi, hp]
    exact h.captured

theorem Extends.congr {i : StudyJournal} (h : Extends i j) (hc : j'.cases = j.cases)
    (hn : j.executionAttempts ≤ j'.executionAttempts) : Extends i j' := by
  have hp : j'.progress = j.progress := by
    funext id
    rw [StudyJournal.progress, hc, StudyJournal.progress]
  refine ⟨?_, Nat.le_trans h.sessions hn, ?_⟩
  · rw [hp]
    exact h.attempt
  · rw [hp]
    exact h.frozen

theorem Disk.Free.of_files (h : d.Free path) (hf : d'.files = d.files) : d'.Free path := by
  rw [Disk.Free, hf]
  exact h

theorem Disk.Free.append (h : d.Free path) {other : OutputPath} (hne : path ≠ other) (f : File) :
    ({ d with files := d.files ++ [(other.text, f)] } : Disk).Free path := by
  have htext : path.text ≠ other.text := fun ht => hne (OutputPath.text_injective ht)
  change (d.files ++ [(other.text, f)]).lookup path.text = none
  rw [List.lookup_append, show d.files.lookup path.text = none from h, Option.none_or,
    List.lookup_cons, beq_false_of_ne htext, List.lookup_nil]

theorem Disk.Inv.free_of_not_within (h : d.Inv) (hp : ∀ j, d.journal = some j → ¬ path.Within j) :
    d.Free path := by
  cases hj : d.journal with
  | none => rw [Disk.Free, h.empty hj, List.lookup_nil]
  | some j =>
    by_contra hfree
    obtain ⟨f, hf⟩ := Option.ne_none_iff_exists'.mp hfree
    obtain ⟨before, after, hsplit, -⟩ := List.lookup_eq_some_iff.mp hf
    obtain ⟨path', htext, hwithin⟩ := h.within j hj (path.text, f) (by simp [hsplit])
    rw [OutputPath.text_injective htext] at hwithin
    exact hp j hj hwithin

theorem Disk.create_of_free (h : d.Free path) (f : File) :
    d.create path f = some { d with files := d.files ++ [(path.text, f)] } := by
  rw [Disk.create, show d.files.lookup path.text = none from h]

theorem Histories.append {files : List (Bytes × File)} (h : Histories j files)
    (f : Bytes × File) : Histories j (files ++ [f]) where
  unbound := h.unbound
  increasing := h.increasing
  bounded := h.bounded
  captured := by
    intro id a ha
    obtain ⟨c, hc, hid⟩ := h.captured id a ha
    refine ⟨c, ?_, hid⟩
    rw [List.lookup_append, hc, Option.some_or]

/-- A new file must be accounted for by the journal on disk. -/
theorem Disk.Inv.create (h : d.Inv) (hj : d.journal = some j) (hp : path.Within j) (f : File) :
    ({ d with files := d.files ++ [(path.text, f)] } : Disk).Inv where
  empty := fun hn => by
    change d.journal = none at hn
    rw [hj] at hn
    cases hn
  recorded := fun j' hj' => (h.recorded j' hj').append _
  within := by
    intro j' hj' g hg
    change d.journal = some j' at hj'
    rcases List.mem_append.mp hg with hg | hg
    · exact h.within j' hj' g hg
    · rw [hj] at hj'
      cases hj'
      rw [List.mem_singleton] at hg
      exact ⟨path, by rw [hg], hp⟩

/-- The journal in memory may replace the one on disk. -/
theorem Disk.Inv.persist (h : d.Inv) (hr : Histories j d.files)
    (he : ∀ j', d.journal = some j' → Extends j' j) :
    ({ d with journal := some j } : Disk).Inv where
  empty := fun hn => by cases hn
  recorded := fun j' hj' => by
    cases hj'
    exact hr
  within := by
    intro j' hj' g hg
    cases hj'
    cases hd : d.journal with
    | none =>
      rw [show d.files = [] from h.empty hd] at hg
      cases hg
    | some j' =>
      obtain ⟨path, htext, hwithin⟩ := h.within j' hd g hg
      exact ⟨path, htext, hwithin.mono (he j' hd)⟩

end Disk

namespace StudySession

/-- What holds of the variables of a session at any step. -/
structure Core (d : Disk) (s : StudySession) : Prop where
  recorded : Histories s.journal d.files
  extended : ∀ j, d.journal = some j → Extends j s.journal
  unbound : s.bound = false → s.resume = false → s.journal.identity.imagesFingerprint = []
  bound : s.bound = true → s.journal.identity = s.identity ∧
    s.identity.imagesFingerprint ≠ [] ∧ s.journal.executionAttempts = s.number

/-- The number of the session is on disk and its samples are not. -/
def Announced (d : Disk) (s : StudySession) : Prop :=
  s.bound = true ∧ d.Free (.resources s.number) ∧
    ∃ j, d.journal = some j ∧ s.number ≤ j.executionAttempts

/-- The attempt that runs is a new one. -/
def Pending (d : Disk) (s : StudySession) (c : Case) : Prop :=
  d.Free (.capture c.id (s.journal.progress c.id).attempt) ∧
    (∀ h ∈ (s.journal.progress c.id).history, h.attempt < (s.journal.progress c.id).attempt) ∧
    doneCase (s.journal.progress c.id).status = false

/-- What a step relies on. -/
def Ready (d : Disk) (s : StudySession) : StudyPc → Prop
  | .create => s.bound = false ∧ s.sampling = false ∧ d.journal = none
  | .prepare => s.bound = false ∧ s.sampling = false ∧
      ∃ j, d.journal = some j ∧ j.executionAttempts ≤ s.journal.executionAttempts
  | .bind => s.bound = false ∧ s.sampling = false ∧
      (∃ j, d.journal = some j ∧ j.executionAttempts < s.number) ∧
      s.journal.executionAttempts ≤ s.number
  | .writeBound => s.bound = true ∧ s.sampling = false ∧
      ∃ j, d.journal = some j ∧ j.executionAttempts < s.number
  | .manifest => s.Announced d ∧ d.Free (.manifest s.number)
  | .writeManifest | .client | .loop _ | .writeCase _ _ | .writeIndex _ _ => s.Announced d
  | .writeRunning c _ => s.Announced d ∧ s.Pending d c
  | .measure c _ | .capture c _ _ _ => s.Announced d ∧ s.Pending d c ∧
      ∃ j, d.journal = some j ∧ (s.journal.progress c.id).attempt ≤ (j.progress c.id).attempt
  | .resources _ => s.sampling = true → s.bound = true → s.Announced d
  | _ => True

structure Inv (d : Disk) (s : StudySession) : Prop where
  core : s.Core d
  ready : s.Ready d s.pc

variable {d d' : Disk} {s s' : StudySession} {registry : List Case} {a : StudyAnswer}

theorem Core.goto (h : s.Core d) (pc : StudyPc) : (s.goto pc).Core d :=
  ⟨h.recorded, h.extended, h.unbound, h.bound⟩

theorem Announced.failed (h : s.Announced d) (failed : Bool) :
    s.Ready d (.resources failed) := fun _ _ => h

theorem Inv.fail (h : s.Core d) (hr : s.Ready d (.resources true)) : s.fail.Inv d :=
  ⟨h.goto _, hr⟩

/-- Writing the journal keeps the invariant, however it ends. -/
theorem Core.persist (h : s.Core d) (hd : d.Inv) {next failed : StudyPc}
    (hs : s.persist d next failed a = some (d', s')) :
    d'.Inv ∧ s'.Core d' ∧ d'.files = d.files ∧
      (s' = s.goto next ∧ d'.journal = some s.journal ∨
        s' = s.goto failed ∧ (d'.journal = d.journal ∨ d'.journal = some s.journal)) := by
  have hwritten : ({ d with journal := some s.journal } : Disk).Inv :=
    hd.persist h.recorded h.extended
  have hcore : ∀ pc, (s.goto pc).Core { d with journal := some s.journal } := by
    intro pc
    refine ⟨h.recorded, ?_, h.unbound, h.bound⟩
    intro j hj
    cases hj
    exact .refl _
  cases a with
  | ok =>
    cases hs
    exact ⟨hwritten, hcore next, rfl, Or.inl ⟨rfl, rfl⟩⟩
  | failed =>
    cases hs
    exact ⟨hd, h.goto failed, rfl, Or.inr ⟨rfl, Or.inl rfl⟩⟩
  | late =>
    cases hs
    exact ⟨hwritten, hcore failed, rfl, Or.inr ⟨rfl, Or.inr rfl⟩⟩
  | fingerprints | measured => cases hs

theorem Announced.persist (h : s.Announced d) (hc : s.Core d) (hf : d'.files = d.files)
    (hj : d'.journal = d.journal ∨ d'.journal = some s.journal) : s.Announced d' := by
  obtain ⟨hbound, hfree, j, hjournal, hnumber⟩ := h
  refine ⟨hbound, hfree.of_files hf, ?_⟩
  rcases hj with hj | hj
  · exact ⟨j, hj.trans hjournal, hnumber⟩
  · exact ⟨s.journal, hj, Nat.le_of_eq (hc.bound hbound).2.2.symm⟩

theorem Announced.append (h : s.Announced d) {path : OutputPath} (hne : path ≠ .resources s.number)
    (f : File) : s.Announced { d with files := d.files ++ [(path.text, f)] } :=
  ⟨h.1, h.2.1.append hne.symm f, h.2.2⟩

theorem Core.append (h : s.Core d) (f : Bytes × File) :
    s.Core { d with files := d.files ++ [f] } :=
  ⟨h.recorded.append f, h.extended, h.unbound, h.bound⟩

/-- A change of the journal that leaves its cases and its identity alone. -/
theorem Core.update (h : s.Core d) {j : StudyJournal} (hc : j.cases = s.journal.cases)
    (hi : j.identity = s.journal.identity)
    (hn : j.executionAttempts = s.journal.executionAttempts) (pc : StudyPc) :
    ({ s with journal := j, pc := pc } : StudySession).Core d where
  recorded := h.recorded.congr hc hi
  extended := fun i hj => (h.extended i hj).congr hc (Nat.le_of_eq hn.symm)
  unbound := by
    rw [hi]
    exact h.unbound
  bound := by
    rw [hi, hn]
    exact h.bound

/-- What a step of a session keeps. -/
def Kept (d : Disk) (s : StudySession) (d' : Disk) (s' : StudySession) : Prop :=
  d'.Inv ∧ s'.Inv d' ∧ (d'.journal = d.journal ∨ d'.journal = some s.journal)

theorem Kept.same (hd : d.Inv) (h : s'.Inv d) : Kept d s d s' := ⟨hd, h, Or.inl rfl⟩

/-- Writing the journal once the session is announced. -/
theorem Kept.persist (hd : d.Inv) (h : s.Core d) (hann : s.Announced d) {next : StudyPc}
    (hs : s.persist d next (.resources true) a = some (d', s'))
    (hnext : s.Announced d' → d'.files = d.files → d'.journal = some s.journal → s.Ready d' next) :
    Kept d s d' s' := by
  obtain ⟨hd', hcore, hfiles, ⟨rfl, hj⟩ | ⟨rfl, hj⟩⟩ := h.persist hd hs
  · exact ⟨hd', ⟨hcore, hnext (hann.persist h hfiles (Or.inr hj)) hfiles hj⟩, Or.inr hj⟩
  · exact ⟨hd', ⟨hcore, (hann.persist h hfiles hj).failed true⟩, hj⟩

theorem Kept.create (hd : d.Inv) (h : s.Core d) (hr : s.Ready d .create)
    (hs : s.persist d .prepare (.returned true) a = some (d', s')) : Kept d s d' s' := by
  obtain ⟨hd', hcore, -, ⟨rfl, hj⟩ | ⟨rfl, hj⟩⟩ := h.persist hd hs
  · exact ⟨hd', ⟨hcore, hr.1, hr.2.1, s.journal, hj, Nat.le_refl _⟩, Or.inr hj⟩
  · exact ⟨hd', ⟨hcore, trivial⟩, hj⟩

theorem Kept.writeBound (hd : d.Inv) (h : s.Core d) (hr : s.Ready d .writeBound)
    (hs : s.persist d .manifest (.resources true) a = some (d', s')) : Kept d s d' s' := by
  obtain ⟨hbound, hsampling, j, hjournal, hnumber⟩ := hr
  obtain ⟨hd', hcore, hfiles, ⟨rfl, hj⟩ | ⟨rfl, hj⟩⟩ := h.persist hd hs
  · have hfree : ∀ path : OutputPath, ¬ path.Within j → d'.Free path := by
      intro path hp
      refine (hd.free_of_not_within ?_).of_files hfiles
      intro j' hj'
      cases hjournal.symm.trans hj'
      exact hp
    refine ⟨hd', ⟨hcore, ⟨hbound, hfree _ (Nat.not_le_of_lt hnumber), s.journal, hj, ?_⟩,
      hfree _ (Nat.not_le_of_lt hnumber)⟩, Or.inr hj⟩
    exact Nat.le_of_eq (h.bound hbound).2.2.symm
  · refine ⟨hd', ⟨hcore, fun hsampling' => ?_⟩, hj⟩
    rw [show s.sampling = true from hsampling'] at hsampling
    cases hsampling

end StudySession

end IngestKit.Benchmark
