import IngestKit.Benchmark.Journal

/-! Sessions of `RunStudy` on one output directory. A session is a sequence of steps that the
environment answers; it may be cancelled or crash between any two of them, and a later session
resumes from the journal. -/
namespace IngestKit.Benchmark
open Event

inductive File
  | capture (c : StudyCapture)
  | manifest
  | resources

/-- The output directory. Temporary files are left out. -/
structure Disk where
  journal : Option StudyJournal := none
  index : Option StudyIndex := none
  files : List (Bytes × File) := []

/-- The next step of a session. Those from `resources` on are the deferred function; their flag
says whether there is an error to return. -/
inductive StudyPc
  | create
  | prepare
  | bind
  | writeBound
  | manifest
  | writeManifest
  | client
  | loop (rest : List Case)
  | writeRunning (c : Case) (rest : List Case)
  | measure (c : Case) (rest : List Case)
  | capture (c : Case) (rest : List Case) (report : Report) (v : Verdict)
  | writeCase (rest : List Case) (fails : Bool)
  | writeIndex (rest : List Case) (fails : Bool)
  | resources (failed : Bool)
  | restore (failed : Bool)
  | finish (failed : Bool)
  | writeFinal (failed : Bool)
  | writeFinalIndex (failed : Bool)
  | returned (failed : Bool)

/-- The variables of a session; `journal` is its copy in memory. -/
structure StudySession where
  resume : Bool
  identity : StudyIdentity
  journal : StudyJournal
  number : ℕ := 0
  bound : Bool := false
  sampling : Bool := false
  canceled : Bool := false
  pc : StudyPc

/-- A write may fail without effect, or `late`, after it took effect. -/
inductive StudyAnswer
  | ok
  | failed
  | late
  | fingerprints (images config : Bytes)
  | measured (report : Report) (err : Option GoError)

/-- Publish a file under its path; an existing one is refused. -/
def Disk.create (d : Disk) (path : OutputPath) (f : File) : Option Disk :=
  match d.files.lookup path.text with
  | some _ => none
  | none => some { d with files := d.files ++ [(path.text, f)] }

namespace StudySession

def goto (s : StudySession) (pc : StudyPc) : StudySession := { s with pc := pc }

/-- Return an error after the deferred function was set up. -/
def fail (s : StudySession) : StudySession := s.goto (.resources true)

def persist (d : Disk) (s : StudySession) (next failed : StudyPc) :
    StudyAnswer → Option (Disk × StudySession)
  | .ok => some ({ d with journal := some s.journal }, s.goto next)
  | .failed => some (d, s.goto failed)
  | .late => some ({ d with journal := some s.journal }, s.goto failed)
  | _ => none

def publish (registry : List Case) (d : Disk) (s : StudySession) (status : StudyStatus)
    (next failed : StudyPc) : StudyAnswer → Option (Disk × StudySession)
  | .ok => some ({ d with index := some (studyIndex s.journal registry status) }, s.goto next)
  | .failed => some (d, s.goto failed)
  | .late => some ({ d with index := some (studyIndex s.journal registry status) }, s.goto failed)
  | _ => none

/-- The fingerprints are known: refuse another identity, or take this one. -/
def bind (s : StudySession) (images config : Bytes) : StudySession :=
  let identity := { s.identity with imagesFingerprint := images, configFingerprint := config }
  if s.resume = true ∧ s.journal.identity.imagesFingerprint ≠ [] ∧
      s.journal.compatible identity ≠ none then s.fail
  else
    { s with
      identity := identity
      bound := true
      journal := { s.journal with
        identity := identity
        executionAttempts := s.number
        status := .running }
      pc := .writeBound }

/-- The head of the loop over the cases. -/
def nextCase (s : StudySession) : List Case → StudySession
  | [] => s.goto (.resources false)
  | c :: rest =>
    let p := s.journal.progress c.id
    if doneCase p.status then s.goto (.loop rest)
    else if s.canceled then s.fail
    else
      { s with
        journal := s.journal.setProgress c.id
          { p with attempt := p.attempt + 1, status := .running, errorClass := .none }
        pc := .writeRunning c rest }

def captureOf (s : StudySession) (c : Case) (report : Report) (v : Verdict) : StudyCapture :=
  { identity := s.identity
    case := c
    space := s.journal.runNamespace ++ 0x2f :: c.id
    status := v.status
    errorClass := v.errorClass
    report := report }

/-- The capture is on disk: record it. -/
def captured (s : StudySession) (c : Case) (v : Verdict) : StudyJournal :=
  let p := s.journal.progress c.id
  let ref : ArtifactRef := ⟨(OutputPath.capture c.id p.attempt).text⟩
  s.journal.setProgress c.id
    { status := v.status
      attempt := p.attempt
      completedRepetitions := v.completedRepetitions
      artifact := ref
      history := p.history ++ [⟨p.attempt, v.status, v.errorClass, ref⟩]
      errorClass := v.errorClass }

/-- The status that the deferred function writes. -/
def finalStatus (s : StudySession) (failed : Bool) : StudyStatus :=
  if failed then if s.canceled then .incomplete else .failed else .complete

def step (registry : List Case) (d : Disk) (s : StudySession) (a : StudyAnswer) :
    Option (Disk × StudySession) :=
  match s.pc, a with
  | .create, a => s.persist d .prepare (.returned true) a
  | .prepare, .ok =>
    some (d, { s with number := s.journal.executionAttempts + 1, pc := .bind })
  | .prepare, .failed => some (d, s.goto (.returned true))
  | .bind, .fingerprints images config =>
    if images = [] then none else some (d, s.bind images config)
  | .bind, .failed => some (d, s.fail)
  | .writeBound, a => s.persist d .manifest (.resources true) a
  | .manifest, .ok =>
    let path := OutputPath.manifest s.number
    match d.create path .manifest with
    | some d' =>
      some (d', { s with
        journal := { s.journal with
          metadataArtifacts := s.journal.metadataArtifacts ++ [⟨path.text⟩]
          manifestFiles := s.journal.manifestFiles ++ [path.text] }
        pc := .writeManifest })
    | none => some (d, s.fail)
  | .manifest, .failed => some (d, s.fail)
  | .writeManifest, a => s.persist d .client (.resources true) a
  | .client, .ok => some (d, { s with sampling := true, pc := .loop registry })
  | .client, .failed => some (d, { s with sampling := true, pc := .resources true })
  | .loop rest, .ok => some (d, s.nextCase rest)
  | .writeRunning c rest, a => s.persist d (.measure c rest) (.resources true) a
  | .measure c rest, .measured report err =>
    some (d, s.goto (.capture c rest report (verdict c report err s.canceled)))
  | .measure _ _, .failed => some (d, s.fail)
  | .capture c rest report v, .ok =>
    match d.create (.capture c.id (s.journal.progress c.id).attempt)
        (.capture (s.captureOf c report v)) with
    | some d' => some (d', { s with journal := s.captured c v, pc := .writeCase rest v.fails })
    | none => some (d, s.fail)
  | .capture _ _ _ _, .failed => some (d, s.fail)
  | .writeCase rest fails, a => s.persist d (.writeIndex rest fails) (.resources true) a
  | .writeIndex rest fails, a =>
    s.publish registry d .incomplete (if fails then .resources true else .loop rest)
      (.resources true) a
  | .resources failed, a =>
    if s.sampling = true ∧ s.bound = true then
      match a with
      | .ok =>
        let path := OutputPath.resources s.number
        match d.create path .resources with
        | some d' =>
          some (d', { s with
            journal := { s.journal with resources := s.journal.resources ++ [⟨path.text⟩] }
            pc := .restore failed })
        | none => some (d, s.goto (.restore true))
      | .failed => some (d, s.goto (.restore true))
      | _ => none
    else some (d, s.goto (.restore failed))
  | .restore failed, .ok => some (d, s.goto (.finish failed))
  | .restore _, .failed => some (d, s.goto (.finish true))
  | .finish failed, .ok =>
    some (d, if s.bound then
        { s with journal := { s.journal with status := s.finalStatus failed }
                 pc := .writeFinal failed }
      else s.goto (.returned failed))
  | .finish _, .failed =>
    some (d, if s.bound then
        { s with journal := { s.journal with status := s.finalStatus true }
                 pc := .writeFinal true }
      else s.goto (.returned true))
  | .writeFinal failed, a => s.persist d (.writeFinalIndex failed) (.writeFinalIndex true) a
  | .writeFinalIndex failed, a =>
    s.publish registry d s.journal.status (.returned failed) (.returned true) a
  | _, _ => none

/-- The file the next step makes. -/
def creating (s : StudySession) : Option OutputPath :=
  match s.pc with
  | .manifest => some (.manifest s.number)
  | .capture c _ _ _ => some (.capture c.id (s.journal.progress c.id).attempt)
  | .resources _ =>
    if s.sampling = true ∧ s.bound = true then some (.resources s.number) else none
  | _ => none

end StudySession

structure Study where
  disk : Disk
  session : Option StudySession

/-- `fresh` and `resume` start a session that passes the checks before it touches anything; a
session that is refused there has no effect. -/
inductive StudyAction
  | fresh (identity : StudyIdentity) (space : Bytes)
  | resume (identity : StudyIdentity)
  | cancel
  | crash
  | step (a : StudyAnswer)

namespace Study

def start : Study := ⟨{}, none⟩

/-- No session is running. -/
def idle (st : Study) : Bool :=
  match st.session with
  | none => true
  | some s => match s.pc with
    | .returned _ => true
    | _ => false

/-- The identity before the stack runs. -/
def preflight (identity : StudyIdentity) (images config : Bytes) : StudyIdentity :=
  { identity with imagesFingerprint := images, configFingerprint := config }

def freshJournal (registry : List Case) (identity : StudyIdentity) (space : Bytes) : StudyJournal :=
  { schema := 2
    identity := identity
    runNamespace := space
    cases := registry.foldl (fun m c => m.insert c.id ({ status := .pending } : CaseProgress)) ∅ }

/-- The start of a session: with a new journal to write, or with the one on disk. -/
def freshSession (registry : List Case) (identity : StudyIdentity) (space : Bytes) :
    StudySession where
  resume := false
  identity := preflight identity [] []
  journal := freshJournal registry (preflight identity [] []) space
  pc := .create

def resumedSession (identity : StudyIdentity) (j : StudyJournal) : StudySession where
  resume := true
  identity := preflight identity [] []
  journal := j
  pc := .prepare

/-- The checks of a resumed session, artifacts apart: the same inputs, only known cases, and
something left to do. -/
def resumable (registry : List Case) (j : StudyJournal) (identity : StudyIdentity) : Bool :=
  (j.compatible (preflight identity j.identity.imagesFingerprint
    j.identity.configFingerprint)).isNone &&
    j.cases.keys.all (fun id => registry.any (·.id = id)) &&
    !registry.all fun c => doneCase (j.progress c.id).status

def step (registry : List Case) (st : Study) : StudyAction → Option Study
  | .fresh identity space =>
    if st.idle && st.disk.journal.isNone && st.disk.index.isNone && st.disk.files.isEmpty then
      some ⟨st.disk, some (freshSession registry identity space)⟩
    else none
  | .resume identity =>
    match st.disk.journal with
    | none => none
    | some j =>
      if st.idle && resumable registry j identity then
        some ⟨st.disk, some (resumedSession identity j)⟩
      else none
  | .cancel =>
    match st.session with
    | none => none
    | some s => some ⟨st.disk, some { s with canceled := true }⟩
  | .crash => some ⟨st.disk, none⟩
  | .step a =>
    match st.session with
    | none => none
    | some s => (s.step registry st.disk a).map fun r => ⟨r.1, some r.2⟩

/-- What an action can do, and when. -/
inductive Moves (registry : List Case) (st : Study) : StudyAction → Study → Prop
  | fresh {identity : StudyIdentity} {space : Bytes} (hidle : st.idle = true)
      (hjournal : st.disk.journal = none) (hindex : st.disk.index = none)
      (hfiles : st.disk.files = []) :
      Moves registry st (.fresh identity space)
        ⟨st.disk, some (freshSession registry identity space)⟩
  | resume {identity : StudyIdentity} {j : StudyJournal} (hidle : st.idle = true)
      (hj : st.disk.journal = some j) (hresumable : resumable registry j identity = true) :
      Moves registry st (.resume identity) ⟨st.disk, some (resumedSession identity j)⟩
  | cancel {s : StudySession} (hs : st.session = some s) :
      Moves registry st .cancel ⟨st.disk, some { s with canceled := true }⟩
  | crash : Moves registry st .crash ⟨st.disk, none⟩
  | step {s s' : StudySession} {a : StudyAnswer} {d' : Disk} (hs : st.session = some s)
      (hstep : s.step registry st.disk a = some (d', s')) :
      Moves registry st (.step a) ⟨d', some s'⟩

theorem moves_of_step {registry : List Case} {st st' : Study} {a : StudyAction}
    (h : st.step registry a = some st') : Moves registry st a st' := by
  cases a with
  | fresh identity space =>
    simp only [step, Option.ite_none_right_eq_some, Bool.and_eq_true, Option.isNone_iff_eq_none,
      List.isEmpty_iff, Option.some.injEq] at h
    obtain ⟨⟨⟨⟨hidle, hjournal⟩, hindex⟩, hfiles⟩, rfl⟩ := h
    exact .fresh hidle hjournal hindex hfiles
  | resume identity =>
    simp only [step] at h
    split at h
    · cases h
    next j hj =>
      simp only [Option.ite_none_right_eq_some, Bool.and_eq_true, Option.some.injEq] at h
      obtain ⟨⟨hidle, hresumable⟩, rfl⟩ := h
      exact .resume hidle hj hresumable
  | cancel =>
    simp only [step] at h
    split at h <;> cases h
    next s hs => exact .cancel hs
  | crash =>
    cases h
    exact .crash
  | step a =>
    simp only [step] at h
    split at h
    · cases h
    next s hs =>
      obtain ⟨⟨d', s'⟩, hstep, rfl⟩ := Option.map_eq_some_iff.mp h
      exact .step hs hstep

end Study

end IngestKit.Benchmark
