import IngestKit.Messaging.Safety
import IngestKit.Transition.Runs

/-! One call of `Run` while another goroutine may call `StopPolling`, with a live context and calls
that succeed: what was polled is stored or quarantined and committed before it returns. -/
namespace IngestKit.Messaging
open Event Persistence

/-- What one call of `Run` does, in order; `stopSeen` is a check of the stop channel that found it
closed, `poll` the start of a poll and `fetched` its return. -/
inductive Mark
  | poll
  | fetched (f : Fetch)
  | stopSeen
  | called (call : Call)
  | release
  | returned (result : Option Failure)
  deriving DecidableEq

/-- The goroutine of `Run`, the stop channel and the poll context. -/
structure Session where
  reader : State
  stop : Bool
  pollCanceled : Bool
  marks : List Mark
  deriving DecidableEq

/-- `stopPolling` and `cancelPoll` belong to other goroutines: the caller of `StopPolling`, and the
one that waits for the stop channel to cancel the poll context. -/
inductive SessionAction
  | stopPolling
  | cancelPoll
  | fetch (f : Fetch)
  | advance
  deriving DecidableEq

/-- What the reader is told when contexts live, windows stay open and calls succeed. -/
def State.answer (stop : Bool) : State → Option Answer
  | .stopBefore | .polled _ | .stopAfter => some (.flag stop)
  | .head | .persist .. | .writeFailed .. | .wait .. | .canceled _ | .finish => some (.flag false)
  | .record _ s => some (if s.rest = [] then .tau else .flag false)
  | .each _ | .flush .. | .errors _ | .release _ => some .tau
  | .write .. | .commit .. | .quarantine .. | .commitPoison .. => some (.result true)
  | .poll | .returned _ => none

def State.readsStop : State → Bool
  | .stopBefore | .polled _ | .stopAfter => true
  | _ => false

def State.arrival : State → List Mark
  | .poll => [.poll]
  | .returned result => [.returned result]
  | _ => []

/-- What a step of the reader adds to the marks. -/
def stepMarks (stop : Bool) (s s' : State) (out : List Output) : List Mark :=
  (if s.readsStop && stop then [.stopSeen] else []) ++ (s.call?.map Mark.called).toList ++
    (if .release ∈ out then [.release] else []) ++ s'.arrival

namespace Session

def start : Session := ⟨.head, false, false, []⟩

/-- A poll reports only `context.Canceled`, and only once its context was cancelled. -/
def allows (s : Session) (f : Fetch) : Prop :=
  f.errors = [] ∨ s.pollCanceled = true ∧ ∀ e ∈ f.errors, e = .canceled

instance (s : Session) (f : Fetch) : Decidable (s.allows f) :=
  inferInstanceAs (Decidable (_ ∨ _))

def step (U : UUID.Codec) (config : ReaderConfig) (s : Session) : SessionAction → Option Session
  | .stopPolling => some { s with stop := true }
  | .cancelPoll => if s.stop then some { s with pollCanceled := true } else none
  | .fetch f =>
    if s.allows f then
      (Messaging.step U config s.reader (.fetched f)).map fun p =>
        { s with reader := p.1, marks := s.marks ++ [.fetched f] }
    else none
  | .advance =>
    (s.reader.answer s.stop).bind fun a =>
      (Messaging.step U config s.reader a).map fun p =>
        { s with reader := p.1, marks := s.marks ++ stepMarks s.stop s.reader p.1 p.2 }

end Session

section Specs
variable (U : UUID.Codec)

/-- The record was written to the store, or copied to the quarantine topic. -/
def Saved (marks : List Mark) (r : Record) : Prop :=
  match decodeEnvelope U r.value with
  | .ok e => ∃ events source, .called (.write events source) ∈ marks ∧ e ∈ events ∧ r ∈ source
  | .error cause => .called (.quarantine r cause) ∈ marks

/-- It was saved, and then committed. -/
def Settled (marks : List Mark) (r : Record) : Prop :=
  ∃ before after records, marks = before ++ .called (.commit records) :: after ∧
    r ∈ records ∧ Saved U before r

/-- The store, the topic and the positions after the calls. -/
def performed (table : List Row) (marks : List Mark) : World :=
  marks.foldl (fun w m => match m with
    | .called call => w.perform call
    | _ => w) (World.start table)

end Specs

/-- The number of releases since the last poll began. -/
def releases (marks : List Mark) : Option ℕ :=
  marks.foldl (fun n m => match m with
    | .poll => some 0
    | .release => n.map (· + 1)
    | _ => n) none

/-- Between the poll's return and the release. -/
def State.processing : State → Bool
  | .head | .stopBefore | .poll | .polled _ | .stopAfter | .returned _ => false
  | _ => true

/-- The reader returns before it polls again if it finds the stop channel closed. -/
def State.late : State → Bool
  | .head | .stopBefore | .poll | .polled _ => false
  | _ => true

/-- The errors the cycle will come to are its own cancelled poll, which it may ignore. -/
def Cycle.Calm (c : Cycle) : Prop := ∀ e ∈ c.errors, c.ignorePollCancel = true ∧ e = .canceled

/-- No error has occurred and none will be reported. -/
def State.Calm (stop : Bool) : State → Prop
  | .polled f => ∀ e ∈ f.errors, stop = true ∧ e = .canceled
  | .each c | .record c _ | .flush c _ _ | .persist c _ _ _ | .write c _ _ _
  | .writeFailed c _ _ _ | .wait c _ _ _ | .commit c _ _ | .quarantine c _ _ _
  | .commitPoison c _ _ | .errors c | .canceled c => c.Calm
  | .release result | .returned result => result = none
  | _ => True

section Steps
variable {U : UUID.Codec} {config : ReaderConfig} {stop : Bool} {s s' : State}

private theorem calm_visit {c : Cycle} (h : c.Calm) (seg : Segment) (rec : Record)
    (rest : List Record) : (visit U config c seg rec rest).Calm stop ∧
      (visit U config c seg rec rest).processing = true := by
  unfold visit
  split
  · exact ⟨h, rfl⟩
  · dsimp only
    split_ifs
    · exact ⟨h, rfl⟩
    · exact ⟨h, rfl⟩

private theorem calm_resume (stop : Bool) {c : Cycle} (h : c.Calm) (seg : Segment) (k : After) :
    (resume c seg k).Calm stop ∧ (resume c seg k).processing = true := by
  cases k <;> exact ⟨h, rfl⟩

/-- Until the release, a step of the reader meets no error and shows only its call. -/
private theorem calm_step (hp : s.processing = true) (hr : s ≠ .release none) (hc : s.Calm stop)
    {a : Answer} {out : List Output} (ha : s.answer stop = some a)
    (hs : step U config s a = some (s', out)) :
    s'.Calm stop ∧ s'.processing = true ∧ .release ∉ out := by
  cases s with
  | each c =>
    cases ha
    simp only [step] at hs
    split at hs <;> cases hs <;> exact ⟨hc, rfl, List.not_mem_nil⟩
  | record c seg =>
    cases hrest : seg.rest with
    | nil =>
      simp only [State.answer, hrest, if_pos, Option.some.injEq] at ha
      subst ha
      simp only [step, hrest, Option.some.injEq, Prod.mk.injEq] at hs
      obtain ⟨rfl, rfl⟩ := hs
      exact ⟨hc, rfl, List.not_mem_nil⟩
    | cons rec rest =>
      simp only [State.answer, hrest, reduceCtorEq, if_false, Option.some.injEq] at ha
      subst ha
      simp only [step, hrest, Bool.false_eq_true, if_false, Option.some.injEq,
        Prod.mk.injEq] at hs
      obtain ⟨rfl, rfl⟩ := hs
      obtain ⟨hcalm, hproc⟩ : (visit U config c seg rec rest).Calm stop ∧
          (visit U config c seg rec rest).processing = true := calm_visit hc seg rec rest
      exact ⟨hcalm, hproc, List.not_mem_nil⟩
  | flush c seg k =>
    cases ha
    simp only [step] at hs
    split at hs <;> cases hs
    · obtain ⟨hcalm, hproc⟩ := calm_resume stop hc seg k
      exact ⟨hcalm, hproc, List.not_mem_nil⟩
    · exact ⟨hc, rfl, List.not_mem_nil⟩
  | persist c seg k backoff | writeFailed c seg k backoff | wait c seg k backoff =>
    cases ha
    cases hs
    exact ⟨hc, rfl, List.not_mem_nil⟩
  | write c seg k backoff =>
    cases ha
    cases hs
    refine ⟨hc, rfl, ?_⟩
    cases seg.source.head? <;> simp [notify]
  | commit c seg k =>
    cases ha
    cases hs
    obtain ⟨hcalm, hproc⟩ := calm_resume stop hc ⟨seg.rest, [], []⟩ k
    refine ⟨hcalm, hproc, ?_⟩
    cases seg.source.getLast? <;> simp [notify]
  | quarantine c seg rec cause =>
    cases ha
    cases hs
    exact ⟨hc, rfl, by simp [notify]⟩
  | commitPoison c seg rec =>
    cases ha
    cases hs
    exact ⟨hc, rfl, by simp [notify]⟩
  | errors c =>
    cases ha
    simp only [step] at hs
    cases herr : c.errors with
    | nil =>
      rw [herr] at hs
      cases hs
      exact ⟨trivial, rfl, List.not_mem_nil⟩
    | cons e es =>
      rw [herr] at hs
      dsimp only at hs
      have he := hc e (by rw [herr]; exact List.mem_cons_self)
      rw [if_pos he] at hs
      cases hs
      exact ⟨hc, rfl, List.not_mem_nil⟩
  | canceled c =>
    cases ha
    cases hs
    exact ⟨fun e he => hc e (List.mem_of_mem_tail he), rfl, List.not_mem_nil⟩
  | finish =>
    cases ha
    cases hs
    exact ⟨rfl, rfl, List.not_mem_nil⟩
  | release result =>
    cases result with
    | none => exact absurd rfl hr
    | some f => cases hc
  | head | stopBefore | poll | polled | stopAfter | returned => cases hp

/-- The steps of a reader that meets no error. -/
inductive Advance (U : UUID.Codec) (config : ReaderConfig) (stop : Bool) :
    State → State → List Mark → Prop
  | enter : Advance U config stop .head .stopBefore []
  | poll (h : stop = false) : Advance U config stop .stopBefore .poll [.poll]
  | polled (f : Fetch) : Advance U config stop (.polled f)
      (.each ⟨f.partitions, f.errors, stop⟩) (if stop then [.stopSeen] else [])
  | process {s s' : State} {a : Answer} {out : List Output} (hp : s.processing = true)
      (ha : s.answer stop = some a) (hs : step U config s a = some (s', out))
      (hp' : s'.processing = true) (hc' : s'.Calm stop) :
      Advance U config stop s s' (s.call?.map Mark.called).toList
  | release : Advance U config stop (.release none) .stopAfter [.release]
  | again (h : stop = false) : Advance U config stop .stopAfter .head []
  | leave (s : State) (h : stop = true) (hs : s = .stopBefore ∨ s = .stopAfter) :
      Advance U config stop s (.returned none) [.stopSeen, .returned none]

private theorem arrival_of_processing (h : s.processing = true) : s.arrival = [] := by
  cases s <;> first | rfl | cases h

private theorem readsStop_of_processing (h : s.processing = true) : s.readsStop = false := by
  cases s <;> first | rfl | cases h

theorem advance_cases (hc : s.Calm stop) {a : Answer} {out : List Output}
    (ha : s.answer stop = some a) (hs : step U config s a = some (s', out)) :
    Advance U config stop s s' (stepMarks stop s s' out) := by
  by_cases hp : s.processing = true
  · by_cases hr : s = .release none
    · subst hr
      cases ha
      cases hs
      exact .release
    · obtain ⟨hc', hp', hout⟩ := calm_step hp hr hc ha hs
      have hmarks : stepMarks stop s s' out = (s.call?.map Mark.called).toList := by
        simp [stepMarks, readsStop_of_processing hp, arrival_of_processing hp', hout]
      rw [hmarks]
      exact .process hp ha hs hp' hc'
  · cases s with
    | head =>
      cases ha
      cases hs
      exact .enter
    | stopBefore =>
      cases ha
      cases hs
      cases stop with
      | false => exact .poll rfl
      | true => exact .leave .stopBefore rfl (Or.inl rfl)
    | polled f =>
      cases ha
      cases hs
      cases stop with
      | false => exact .polled f
      | true => exact .polled f
    | stopAfter =>
      cases ha
      cases hs
      cases stop with
      | false => exact .again rfl
      | true => exact .leave .stopAfter rfl (Or.inr rfl)
    | poll | returned => cases ha
    | _ => exact absurd rfl hp

private theorem alive_of_calm (hp : s.processing = true) (hc : s.Calm stop) :
    s.alive = true := by
  cases s with
  | release result => rw [show result = none from hc]; rfl
  | head | stopBefore | poll | polled | stopAfter | returned => cases hp
  | _ => rfl

theorem answer_ne_fetched {a : Answer} (h : s.answer stop = some a) (f : Fetch) :
    a ≠ .fetched f := by
  rintro rfl
  unfold State.answer at h
  split at h <;> try cases h
  split_ifs at h <;> cases h

/-- Only a commit takes records off what the reader still owes. -/
theorem pending_process {F : Set Record} (hsound : s.Sound U F) (hp' : s'.processing = true)
    (hc' : s'.Calm stop) {a : Answer} {out : List Output} (ha : s.answer stop = some a)
    (hs : step U config s a = some (s', out)) : s.pending = s'.pending ∨
      ∃ records, s.call? = some (.commit records) ∧ s.pending = records ++ s'.pending := by
  cases s with
  | write c seg k backoff | quarantine c seg rec cause =>
    cases ha
    cases hs
    exact Or.inl rfl
  | commit c seg k =>
    cases ha
    cases hs
    refine Or.inr ⟨seg.source, rfl, ?_⟩
    cases k with
    | poison rec cause | next => rfl
    | done =>
      have hrest : seg.rest = [] := hsound.2.1
      simp [State.pending, resume, After.records, hrest]
  | commitPoison c seg rec =>
    cases ha
    cases hs
    refine Or.inr ⟨[rec], rfl, ?_⟩
    simp [State.pending, hsound.2.1]
  | _ =>
    obtain ⟨⟨gone, heq, hgone⟩ | ⟨-, hdead⟩, -⟩ :=
      step_progress (F := ∅) hsound (answer_ne_fetched ha) hs (fun _ call hcall => by cases hcall)
    · left
      rw [List.eq_nil_iff_forall_not_mem.mpr fun r hr => hgone r hr, List.nil_append] at heq
      exact heq
    · exact absurd hdead (by rw [alive_of_calm hp' hc']; decide)

end Steps

end IngestKit.Messaging
