import IngestKit.Benchmark.StudyInvariant

/-! Every step of a session keeps the invariant, so that no session meets a file it wants to make,
a case that is done on disk stays as it is, and every attempt in a history has its capture. -/
namespace IngestKit.Benchmark
open Event

namespace StudySession
variable {d d' : Disk} {s s' : StudySession} {registry : List Case} {a : StudyAnswer}

private theorem recorded_bind (h : s.Core d) (hb : s.bound = false) {identity : StudyIdentity}
    (hi : ¬ (s.resume = true ∧ s.journal.identity.imagesFingerprint ≠ [] ∧
      s.journal.compatible identity ≠ none)) {j : StudyJournal}
    (hc : j.cases = s.journal.cases) (hj : j.identity = identity) : Histories j d.files := by
  by_cases himages : s.journal.identity.imagesFingerprint = []
  · have hempty := h.recorded.unbound himages
    have hp : ∀ id, (j.progress id).history = [] := by
      intro id
      rw [StudyJournal.progress, hc]
      exact hempty id
    refine ⟨fun _ => hp, ?_, ?_, ?_⟩
    · intro id
      rw [hp id]
      exact .nil
    · intro id
      rw [hp id]
      simp
    · intro id
      rw [hp id]
      simp
  · have hresume : s.resume = true := by
      cases hr : s.resume with
      | true => rfl
      | false => exact absurd (h.unbound hb hr) himages
    have hcompat : s.journal.compatible identity = none := by
      by_contra hcompat
      exact hi ⟨hresume, himages, hcompat⟩
    exact h.recorded.congr hc (hj.trans (StudyJournal.identity_of_compatible hcompat).symm)

theorem Kept.bind (hd : d.Inv) (h : s.Core d) (hr : s.Ready d .bind) {images : Bytes}
    (hne : images ≠ []) (config : Bytes) : Kept d s d (s.bind images config) := by
  obtain ⟨hb, hsampling, ⟨j, hj, hlt⟩, hle⟩ := hr
  refine .same hd ?_
  unfold StudySession.bind
  dsimp only
  split_ifs with hi
  · refine Inv.fail h fun hsampling' => ?_
    rw [hsampling] at hsampling'
    cases hsampling'
  · refine ⟨⟨recorded_bind h hb hi rfl rfl, ?_, by simp, fun _ => ⟨rfl, hne, rfl⟩⟩,
      rfl, hsampling, j, hj, hlt⟩
    intro i hi'
    exact (h.extended i hi').congr rfl hle

theorem Kept.manifest (hd : d.Inv) (h : s.Core d) (hr : s.Ready d .manifest) (f : File)
    {j : StudyJournal} (hc : j.cases = s.journal.cases) (hi : j.identity = s.journal.identity)
    (hn : j.executionAttempts = s.journal.executionAttempts) :
    Kept d s { d with files := d.files ++ [((OutputPath.manifest s.number).text, f)] }
      { s with journal := j, pc := .writeManifest } := by
  obtain ⟨hann, -⟩ := hr
  obtain ⟨i, hj, hle⟩ := hann.2.2
  have hwithin : (OutputPath.manifest s.number).Within i := hle
  exact ⟨hd.create hj hwithin f, ⟨(h.append _).update hc hi hn _,
    hann.append (by simp) f⟩, Or.inl rfl⟩

theorem Kept.resources (hd : d.Inv) (h : s.Core d) (hann : s.Announced d) (f : File)
    {j : StudyJournal} (hc : j.cases = s.journal.cases) (hi : j.identity = s.journal.identity)
    (hn : j.executionAttempts = s.journal.executionAttempts) (failed : Bool) :
    Kept d s { d with files := d.files ++ [((OutputPath.resources s.number).text, f)] }
      { s with journal := j, pc := .restore failed } := by
  obtain ⟨i, hj, hle⟩ := hann.2.2
  have hwithin : (OutputPath.resources s.number).Within i := hle
  exact ⟨hd.create hj hwithin f, ⟨(h.append _).update hc hi hn _, trivial⟩, Or.inl rfl⟩

/-- A change of one case that is not done. -/
private theorem Core.setProgress (h : s.Core d) {id : Bytes} {p : CaseProgress}
    (hdone : doneCase (s.journal.progress id).status = false)
    (ha : (s.journal.progress id).attempt ≤ p.attempt)
    (hr : Histories (s.journal.setProgress id p) d'.files) (hj : d'.journal = d.journal)
    (pc : StudyPc) :
    ({ s with journal := s.journal.setProgress id p, pc := pc } : StudySession).Core d' where
  recorded := hr
  extended := by
    intro j hj'
    rw [hj] at hj'
    have he := h.extended j hj'
    have hnot : doneCase (j.progress id).status = true → False := by
      intro hd
      rw [he.frozen id hd, hd] at hdone
      cases hdone
    refine ⟨fun id' => ?_, he.sessions, fun id' hd => ?_⟩
    · by_cases hid : id' = id
      · subst hid
        rw [StudyJournal.progress_setProgress_self]
        exact Nat.le_trans (he.attempt id') ha
      · rw [StudyJournal.progress_setProgress_of_ne _ _ hid]
        exact he.attempt id'
    · by_cases hid : id' = id
      · subst hid
        exact absurd hd hnot
      · rw [StudyJournal.progress_setProgress_of_ne _ _ hid]
        exact he.frozen id' hd
  unbound := h.unbound
  bound := h.bound

private theorem recorded_running {j : StudyJournal} {files : List (Bytes × File)}
    (h : Histories j files) (id : Bytes) {p : CaseProgress}
    (hh : p.history = (j.progress id).history) (ha : (j.progress id).attempt ≤ p.attempt) :
    Histories (j.setProgress id p) files := by
  have hhistory : ∀ id', ((j.setProgress id p).progress id').history =
      (j.progress id').history := by
    intro id'
    by_cases hid : id' = id
    · subst hid
      rw [StudyJournal.progress_setProgress_self, hh]
    · rw [StudyJournal.progress_setProgress_of_ne _ _ hid]
  refine ⟨?_, ?_, ?_, ?_⟩
  · intro hi id'
    rw [hhistory]
    exact h.unbound hi id'
  · intro id'
    rw [hhistory]
    exact h.increasing id'
  · intro id' e he
    rw [hhistory] at he
    have hle := h.bounded id' e he
    by_cases hid : id' = id
    · subst hid
      rw [StudyJournal.progress_setProgress_self]
      exact Nat.le_trans hle ha
    · rw [StudyJournal.progress_setProgress_of_ne _ _ hid]
      exact hle
  · intro id' e he
    rw [hhistory] at he
    exact h.captured id' e he

theorem Kept.nextCase (hd : d.Inv) (h : s.Core d) (hann : s.Announced d) (rest : List Case) :
    Kept d s d (s.nextCase rest) := by
  refine .same hd ?_
  cases rest with
  | nil => exact ⟨h.goto _, hann.failed false⟩
  | cons c rest =>
    unfold StudySession.nextCase
    dsimp only
    split_ifs with hdone hcanceled
    · exact ⟨h.goto _, hann⟩
    · exact Inv.fail h (hann.failed true)
    · rw [Bool.not_eq_true] at hdone
      refine ⟨h.setProgress hdone ?_ ?_ rfl _, hann, ?_, ?_, ?_⟩
      · exact Nat.le_succ _
      · exact recorded_running h.recorded c.id rfl (Nat.le_succ _)
      · dsimp only
        rw [StudyJournal.progress_setProgress_self]
        refine hd.free_of_not_within fun j hj => ?_
        have hle := (h.extended j hj).attempt c.id
        exact Nat.not_le_of_lt (Nat.lt_succ_of_le hle)
      · dsimp only
        rw [StudyJournal.progress_setProgress_self]
        exact fun e he => Nat.lt_succ_of_le (h.recorded.bounded c.id e he)
      · dsimp only
        rw [StudyJournal.progress_setProgress_self]
        rfl

private theorem recorded_captured (h : s.Core d) (hb : s.bound = true) {c : Case}
    (hp : s.Pending d c) (report : Report) (v : Verdict) :
    Histories (s.captured c v) (d.files ++ [((OutputPath.capture c.id
      (s.journal.progress c.id).attempt).text, .capture (s.captureOf c report v))]) := by
  obtain ⟨hfree, hlt, -⟩ := hp
  obtain ⟨hidentity, himages, -⟩ := h.bound hb
  have happend := h.recorded.append ((OutputPath.capture c.id
    (s.journal.progress c.id).attempt).text, .capture (s.captureOf c report v))
  unfold captured
  dsimp only
  refine ⟨?_, ?_, ?_, ?_⟩
  · intro hi
    change s.journal.identity.imagesFingerprint = [] at hi
    rw [hidentity] at hi
    exact absurd hi himages
  · intro id
    by_cases hid : id = c.id
    · subst hid
      rw [StudyJournal.progress_setProgress_self]
      dsimp only
      rw [List.map_append, List.pairwise_append]
      refine ⟨h.recorded.increasing c.id, List.pairwise_singleton _ _, ?_⟩
      intro m hm n hn
      obtain ⟨e, he, rfl⟩ := List.mem_map.mp hm
      rw [List.map_singleton, List.mem_singleton] at hn
      rw [hn]
      exact hlt e he
    · rw [StudyJournal.progress_setProgress_of_ne _ _ hid]
      exact h.recorded.increasing id
  · intro id
    by_cases hid : id = c.id
    · subst hid
      rw [StudyJournal.progress_setProgress_self]
      dsimp only
      intro e he
      rcases List.mem_append.mp he with he | he
      · exact h.recorded.bounded c.id e he
      · rw [List.mem_singleton.mp he]
    · rw [StudyJournal.progress_setProgress_of_ne _ _ hid]
      exact h.recorded.bounded id
  · intro id
    by_cases hid : id = c.id
    · subst hid
      rw [StudyJournal.progress_setProgress_self]
      dsimp only
      intro e he
      rcases List.mem_append.mp he with he | he
      · exact happend.captured c.id e he
      · rw [List.mem_singleton.mp he]
        refine ⟨s.captureOf c report v, ?_, hidentity.symm⟩
        rw [List.lookup_append, show d.files.lookup _ = none from hfree, Option.none_or,
          List.lookup_cons, beq_self_eq_true]
    · rw [StudyJournal.progress_setProgress_of_ne _ _ hid]
      exact happend.captured id

theorem Kept.capture (hd : d.Inv) (h : s.Core d) {c : Case} (hann : s.Announced d)
    (hp : s.Pending d c) {j : StudyJournal} (hj : d.journal = some j)
    (hle : (s.journal.progress c.id).attempt ≤ (j.progress c.id).attempt) (report : Report)
    (v : Verdict) (rest : List Case) :
    Kept d s { d with files := d.files ++ [((OutputPath.capture c.id
        (s.journal.progress c.id).attempt).text, .capture (s.captureOf c report v))] }
      { s with journal := s.captured c v, pc := .writeCase rest v.fails } := by
  have hwithin : (OutputPath.capture c.id (s.journal.progress c.id).attempt).Within j := hle
  refine ⟨hd.create hj hwithin _, ⟨?_, hann.append (by simp) _⟩, Or.inl rfl⟩
  have hrecorded := recorded_captured h hann.1 hp report v
  unfold captured at hrecorded ⊢
  refine h.setProgress hp.2.2 ?_ ?_ ?_ _
  · exact Nat.le_refl _
  · exact hrecorded
  · rfl

/-- Only the index changes. -/
theorem Kept.publish (hd : d.Inv) (h : s.Core d) {status : StudyStatus} {next failed : StudyPc}
    (hs : s.publish registry d status next failed a = some (d', s'))
    (hnext : s.Ready d next) (hfailed : s.Ready d failed) : Kept d s d' s' := by
  have hindex : ∀ (i : Option StudyIndex) (pc : StudyPc), s.Ready d pc →
      Kept d s { d with index := i } (s.goto pc) := by
    intro i pc hr
    exact ⟨⟨hd.empty, hd.recorded, hd.within⟩,
      ⟨⟨h.recorded, h.extended, h.unbound, h.bound⟩, hr⟩, Or.inl rfl⟩
  cases a with
  | ok =>
    cases hs
    exact hindex _ next hnext
  | failed =>
    cases hs
    exact .same hd ⟨h.goto _, hfailed⟩
  | late =>
    cases hs
    exact hindex _ failed hfailed
  | fingerprints | measured => cases hs

theorem Inv.step (h : s.Inv d) (hd : d.Inv) (hs : s.step registry d a = some (d', s')) :
    Kept d s d' s' := by
  obtain ⟨hcore, hready⟩ := h
  unfold StudySession.step at hs
  cases hpc : s.pc <;> rw [hpc] at hready hs
  case create => exact .create hd hcore hready hs
  case writeBound => exact .writeBound hd hcore hready hs
  case writeManifest => exact .persist hd hcore hready hs fun hann _ _ => hann
  case writeRunning c rest =>
    obtain ⟨hann, hfree, hpending⟩ := hready
    refine .persist hd hcore hann hs fun hann' hfiles hj =>
      ⟨hann', ⟨hfree.of_files hfiles, hpending⟩, ?_⟩
    exact ⟨s.journal, hj, Nat.le_refl _⟩
  case writeCase rest fails => exact .persist hd hcore hready hs fun hann _ _ => hann
  case writeFinal failed =>
    obtain ⟨hd', hcore', -, ⟨rfl, hj⟩ | ⟨rfl, hj⟩⟩ := hcore.persist hd hs
    · exact ⟨hd', ⟨hcore', trivial⟩, Or.inr hj⟩
    · exact ⟨hd', ⟨hcore', trivial⟩, hj⟩
  case writeIndex rest fails =>
    refine .publish hd hcore hs ?_ (hready.failed true)
    cases fails with
    | true => exact hready.failed true
    | false => exact hready
  case writeFinalIndex failed => exact .publish hd hcore hs trivial trivial
  case returned => cases a <;> cases hs
  case prepare =>
    obtain ⟨hb, hsampling, j, hj, hle⟩ := hready
    cases a <;> cases hs
    · refine .same hd ⟨⟨hcore.recorded, hcore.extended, hcore.unbound, fun hb' => ?_⟩, hb,
        hsampling, ⟨j, hj, Nat.lt_succ_of_le hle⟩, Nat.le_succ _⟩
      rw [show s.bound = true from hb'] at hb
      cases hb
    · exact .same hd ⟨hcore.goto _, trivial⟩
  case bind =>
    cases a with
    | fingerprints images config =>
      dsimp only at hs
      split_ifs at hs with hne
      cases hs
      exact .bind hd hcore hready hne config
    | failed =>
      cases hs
      refine .same hd (Inv.fail hcore fun hsampling => ?_)
      rw [hready.2.1] at hsampling
      cases hsampling
    | ok | late | measured => cases hs
  case manifest =>
    cases a with
    | ok =>
      dsimp only at hs
      rw [Disk.create_of_free hready.2] at hs
      cases hs
      refine .manifest hd hcore hready _ ?_ ?_ ?_ <;> rfl
    | failed =>
      cases hs
      exact .same hd (Inv.fail hcore (hready.1.failed true))
    | late | fingerprints | measured => cases hs
  case client =>
    cases a <;> cases hs
    · exact .same hd ⟨⟨hcore.recorded, hcore.extended, hcore.unbound, hcore.bound⟩, hready⟩
    · exact .same hd ⟨⟨hcore.recorded, hcore.extended, hcore.unbound, hcore.bound⟩,
        fun _ _ => hready⟩
  case loop rest =>
    cases a <;> cases hs
    exact .nextCase hd hcore hready rest
  case measure c rest =>
    cases a <;> cases hs
    · exact .same hd (Inv.fail hcore (hready.1.failed true))
    · exact .same hd ⟨hcore.goto _, hready⟩
  case capture c rest report v =>
    obtain ⟨hann, hpending, j, hj, hle⟩ := hready
    cases a with
    | ok =>
      dsimp only at hs
      rw [Disk.create_of_free hpending.1] at hs
      cases hs
      exact .capture hd hcore hann hpending hj hle report v rest
    | failed =>
      cases hs
      exact .same hd (Inv.fail hcore (hann.failed true))
    | late | fingerprints | measured => cases hs
  case resources failed =>
    dsimp only at hs
    split_ifs at hs with hboth
    · have hann := hready hboth.1 hboth.2
      cases a with
      | ok =>
        dsimp only at hs
        rw [Disk.create_of_free hann.2.1] at hs
        cases hs
        refine .resources hd hcore hann _ ?_ ?_ ?_ failed <;> rfl
      | failed =>
        cases hs
        exact .same hd ⟨hcore.goto _, trivial⟩
      | late | fingerprints | measured => cases hs
    · cases hs
      exact .same hd ⟨hcore.goto _, trivial⟩
  case restore failed => cases a <;> cases hs <;> exact .same hd ⟨hcore.goto _, trivial⟩
  case finish failed =>
    cases a <;> cases hs <;> refine .same hd ?_ <;> split_ifs
    · refine ⟨hcore.update ?_ ?_ ?_ _, trivial⟩ <;> rfl
    · exact ⟨hcore.goto _, trivial⟩
    · refine ⟨hcore.update ?_ ?_ ?_ _, trivial⟩ <;> rfl
    · exact ⟨hcore.goto _, trivial⟩

end StudySession

namespace Study
variable {registry : List Case} {st st' : Study}

structure Inv (st : Study) : Prop where
  disk : st.disk.Inv
  session : ∀ s, st.session = some s → s.Inv st.disk

/-- What is done on disk is there unchanged. -/
def Frozen (d d' : Disk) : Prop :=
  ∀ j, d.journal = some j → ∃ j', d'.journal = some j' ∧
    ∀ id, doneCase (j.progress id).status = true → j'.progress id = j.progress id

theorem Frozen.refl (d : Disk) : Frozen d d := fun j hj => ⟨j, hj, fun _ _ => rfl⟩

theorem Frozen.trans {d d' d'' : Disk} (h : Frozen d d') (h' : Frozen d' d'') : Frozen d d'' := by
  intro j hj
  obtain ⟨j', hj', hkept⟩ := h j hj
  obtain ⟨j'', hj'', hkept'⟩ := h' j' hj'
  refine ⟨j'', hj'', fun id hdone => ?_⟩
  rw [← hkept id hdone]
  exact hkept' id (by rw [hkept id hdone]; exact hdone)

theorem inv_start : start.Inv where
  disk := ⟨fun _ => rfl, by simp [start], by simp [start]⟩
  session := by simp [start]

private theorem history_pending (m : AList fun _ : Bytes => CaseProgress)
    (h : ∀ id, ((m.lookup id).getD {}).history = []) (id : Bytes) :
    (((registry.foldl (fun m c => m.insert c.id ({ status := .pending } : CaseProgress)) m).lookup
      id).getD {}).history = [] := by
  induction registry generalizing m with
  | nil => exact h id
  | cons c rest ih =>
    refine ih _ fun id' => ?_
    by_cases hid : id' = c.id
    · rw [hid, AList.lookup_insert]
      rfl
    · rw [AList.lookup_insert_ne hid]
      exact h id'

private theorem histories_fresh (identity : StudyIdentity) (space : Bytes) :
    Histories (freshJournal registry identity space) [] := by
  have hhistory : ∀ id, ((freshJournal registry identity space).progress id).history = [] :=
    history_pending ∅ fun id => by rw [AList.lookup_empty]; rfl
  refine ⟨fun _ => hhistory, ?_, ?_, ?_⟩ <;> intro id <;> rw [hhistory] <;> simp

theorem Inv.step (h : st.Inv) {a : StudyAction} (hs : st.step registry a = some st') :
    st'.Inv ∧ Frozen st.disk st'.disk := by
  cases moves_of_step hs with
  | fresh hidle hjournal hindex hfiles =>
    refine ⟨⟨h.disk, ?_⟩, .refl _⟩
    rintro s hs
    cases hs
    refine ⟨⟨?_, ?_, fun _ _ => rfl, by simp [freshSession]⟩, rfl, rfl, hjournal⟩
    · rw [hfiles]
      exact histories_fresh _ _
    · intro j hj
      change st.disk.journal = some j at hj
      rw [hjournal] at hj
      cases hj
  | resume hidle hj hresumable =>
    refine ⟨⟨h.disk, ?_⟩, .refl _⟩
    rintro s hs
    cases hs
    refine ⟨⟨h.disk.recorded _ hj, ?_, by simp [resumedSession], by simp [resumedSession]⟩,
      rfl, rfl, _, hj, Nat.le_refl _⟩
    intro i hi
    cases hj.symm.trans hi
    exact .refl _
  | cancel hsession =>
    refine ⟨⟨h.disk, ?_⟩, .refl _⟩
    rintro s' hs'
    cases hs'
    obtain ⟨hcore, hready⟩ := h.session _ hsession
    exact ⟨⟨hcore.recorded, hcore.extended, hcore.unbound, hcore.bound⟩, hready⟩
  | crash => exact ⟨⟨h.disk, by simp⟩, .refl _⟩
  | step hsession hstep =>
    have hinv := h.session _ hsession
    obtain ⟨hd', hs', hj⟩ := hinv.step h.disk hstep
    refine ⟨⟨hd', ?_⟩, ?_⟩
    · rintro t ht
      cases ht
      exact hs'
    · intro j hjournal
      rcases hj with hj | hj
      · exact ⟨j, hj.trans hjournal, fun _ _ => rfl⟩
      · exact ⟨_, hj, (hinv.core.extended j hjournal).frozen⟩

theorem inv_of_execute {as : List StudyAction}
    (h : Transition.execute (step registry) start as = some st) : st.Inv :=
  Transition.execute_invariant (I := fun _ st => st.Inv) inv_start
    (fun _ _ _ _ hi hs => (hi.step hs).1) h

/-- A file that a session makes is a new one. -/
theorem Inv.creating_free (h : st.Inv) {s : StudySession} (hs : st.session = some s)
    {path : OutputPath} (hp : s.creating = some path) : st.disk.Free path := by
  have hready := (h.session s hs).ready
  unfold StudySession.creating at hp
  cases hpc : s.pc <;> rw [hpc] at hp hready
  case manifest =>
    cases hp
    exact hready.2
  case capture c rest report v =>
    cases hp
    exact hready.2.1.1
  case resources failed =>
    dsimp only at hp
    split_ifs at hp with hboth
    cases hp
    exact (hready hboth.1 hboth.2).2.1
  all_goals cases hp

end Study

/-- Over any sequence of sessions, each stopped anywhere: no session tries to make a file that
exists, what the journal shows as done stays, and every attempt in a history, in increasing order,
has its capture under the journal's identity. -/
theorem study_survives_crashes (registry : List Case) (as : List StudyAction) (st : Study)
    (h : Transition.execute (Study.step registry) .start as = some st) :
    (∀ s path, st.session = some s → s.creating = some path →
      st.disk.files.lookup path.text = none) ∧
    (∀ j id, st.disk.journal = some j → doneCase (j.progress id).status = true → ∀ bs st',
      Transition.execute (Study.step registry) st bs = some st' →
      ∃ j', st'.disk.journal = some j' ∧ j'.progress id = j.progress id) ∧
    ∀ j id, st.disk.journal = some j →
      ((j.progress id).history.map (·.attempt)).Pairwise (· < ·) ∧
      ∀ a ∈ (j.progress id).history, a.attempt ≤ (j.progress id).attempt ∧
        ∃ c, st.disk.files.lookup a.artifact.path = some (.capture c) ∧
          c.identity = j.identity := by
  have hinv := Study.inv_of_execute h
  refine ⟨fun s path hs hp => hinv.creating_free hs hp, ?_, ?_⟩
  · intro j id hj hdone bs st' hbs
    have hkept := Transition.execute_invariant
      (I := fun _ t => t.Inv ∧ Study.Frozen st.disk t.disk) ⟨hinv, .refl _⟩
      (fun _ _ _ _ hi hs => ⟨(hi.1.step hs).1, hi.2.trans (hi.1.step hs).2⟩) hbs
    obtain ⟨j', hj', hfrozen⟩ := hkept.2 j hj
    exact ⟨j', hj', hfrozen id hdone⟩
  · intro j id hj
    have hhistories := hinv.disk.recorded j hj
    exact ⟨hhistories.increasing id, fun a ha =>
      ⟨hhistories.bounded id a ha, hhistories.captured id a ha⟩⟩

def soloCase : Case := databaseCase (ascii ['a']) 1 256 0

def soloIdentity : StudyIdentity where
  sourceSHA := [1]
  sourceFingerprint := [2]
  controlsFingerprint := [3]
  mode := .smoke
  seed := 0
  sourceDirty := false

/-- From the start of the stack to the first measurement. -/
def untilMeasured : List StudyAction :=
  [.step .ok, .step (.fingerprints [4] [5]), .step .ok, .step .ok, .step .ok, .step .ok, .step .ok,
    .step .ok]

/-- A session crashes in its first measurement; the next one fails in its own. -/
def crashThenFail : List StudyAction :=
  ([.fresh soloIdentity [6], .step .ok] : List StudyAction) ++ untilMeasured ++
    ([.crash, .resume soloIdentity] : List StudyAction) ++ untilMeasured ++
    ([.step (.measured .none (some (.text "unknown study case"))), .step .ok, .step .ok] :
      List StudyAction)

theorem study_survives_crashes_twice : ∃ st j, Transition.execute (Study.step [soloCase]) .start
      crashThenFail = some st ∧ st.disk.journal = some j ∧
    (j.progress soloCase.id).history.map (·.attempt) = [2] ∧
    ∀ a ∈ (j.progress soloCase.id).history, ∃ c,
      st.disk.files.lookup a.artifact.path = some (.capture c) ∧ c.identity = j.identity := by
  have hrun : ∃ st ∈ Transition.execute (Study.step [soloCase]) .start crashThenFail,
      ∃ j ∈ st.disk.journal, (j.progress soloCase.id).history.map (·.attempt) = [2] := by
    decide +kernel
  obtain ⟨st, hst, j, hj, hhistory⟩ := hrun
  have hkept := (study_survives_crashes [soloCase] crashThenFail st hst).2.2 j soloCase.id hj
  exact ⟨st, j, hst, hj, hhistory, fun a ha => (hkept.2 a ha).2⟩

end IngestKit.Benchmark
