import IngestKit.Benchmark.Accounting
import IngestKit.Transition.Runs

/-! `runPipelineSample` and the closing steps of one repetition as a transition system: the
scheduler, the workers, the observer and the main goroutine take steps in any order, the clock
advances and the consumer commits rows between any two of them. -/
namespace IngestKit.Benchmark
open Event

/-- A row of the events table, as far as the final query selects it. -/
structure TableRow extends StoredRow where
  receivedAt : ℤ
  deriving DecidableEq

/-- The fixed data of one repetition. The due instant of each offset and the request interval
come from the scheduler's floating-point arithmetic and may be any. -/
structure Setup where
  config : PipelineConfig
  valid : config.Valid
  repetition : ℕ
  expected : List Envelope
  due : ℕ → ℤ
  interval : ℤ
  started : ℤ

namespace Setup

def ids (x : Setup) : List UUID := x.expected.map (·.eventID)

def eventType (x : Setup) : Bytes := (x.expected.head?.map (·.eventType)).getD []

def active (x : Setup) : ℕ :=
  if x.config.pattern = .burst then x.config.duration / 4 else x.config.duration

def windowEnd (x : Setup) : ℤ := x.started + x.config.duration

/-- The condition of the final query. -/
def Selects (x : Setup) (row : TableRow) : Prop := row.eventType = x.eventType ∨ row.id ∈ x.ids

instance (x : Setup) (row : TableRow) : Decidable (x.Selects row) :=
  inferInstanceAs (Decidable (_ ∨ _))

/-- A row the observer may return: committed, planned and stamped with the SQL clock. -/
def Observes (x : Setup) (table : List TableRow) (o : StoredObservation) : Prop :=
  o.id ∈ x.ids ∧ o.observedAt.isSome ∧ ∃ row ∈ table, row.id = o.id ∧ row.receivedAt = o.receivedAt

instance (x : Setup) (table : List TableRow) (o : StoredObservation) :
    Decidable (x.Observes table o) := inferInstanceAs (Decidable (_ ∧ _ ∧ _))

end Setup

inductive SchedulerPhase
  | waiting | sleeping | timing | offering | done
  deriving DecidableEq

structure Scheduler where
  phase : SchedulerPhase := .waiting
  next : ℕ := 0
  missed : ℕ := 0
  late : ℕ := 0

inductive Worker
  | idle
  | took (job : List UUID)
  | sending (job : List UUID) (started : ℤ)
  | replied (v : SendResult)
  | exited

inductive ObserverPhase
  | idle
  | checking
  | running (started : ℤ)
  | holding (v : ObservationResult)
  | exited

/-- Both channels of the observer have a buffer of one. -/
structure Observer where
  requests : ℕ := 0
  phase : ObserverPhase := .idle
  results : List ObservationResult := []

/-- Where the main goroutine is, from its first select to the recorded run. -/
inductive Phase
  | accounting
  | draining (since : ℤ)
  | drained
  | joining (expectedCancel : Bool)
  | collecting (expectedCancel : Bool)
  | finished (r : PipelineRun) (err : Option GoError)
  | closing (since : ℤ) (r : PipelineRun) (err closeErr : Option GoError)
  | recorded (r : PipelineRun) (err : Option GoError)

/-- What the repetition returned. -/
def Phase.result : Phase → Option (PipelineRun × Option GoError)
  | .recorded r err => some (r, err)
  | _ => none

structure Sample where
  now : ℤ
  cancelled : Option Sentinel := none
  table : List TableRow := []
  scheduler : Scheduler := {}
  jobs : List (List UUID) := []
  workers : List Worker
  results : List SendResult := []
  resultsClosed : Bool := false
  observer : Observer := {}
  observationCancelled : Bool := false
  loop : Loop
  phase : Phase := .accounting

inductive Action
  | advance (ns : ℕ)
  | cancel (cause : Sentinel)
  | store (row : TableRow)
  | schedule
  | abandonSchedule
  | take (w : ℕ)
  | begin (w : ℕ)
  | reply (w : ℕ) (job : List UUID) (r : Reply)
  | deliver (w : ℕ)
  | exit (w : ℕ)
  | closeResults
  | observerTake
  | observerStart
  | observed (rows : List StoredObservation) (err : Option GoError)
  | observerPush
  | observerExit
  | onCancel
  | onTimer
  | onResult
  | onObservation
  | onTick
  | leave
  | close (connections : ConnectionSnapshot) (queries : ℕ) (err : Option GoError)
  | verify (rows : List TableRow) (err : Option GoError)

namespace Sample

def start (x : Setup) : Sample where
  now := x.started
  workers := List.replicate x.config.concurrency .idle
  loop.run :=
    { repetition := x.repetition
      planned := x.ids.length
      windowNS := x.config.duration
      activeNS := x.active
      pollIntervalNS := x.config.pollInterval }

/-- One step of the scheduler. The job queue never makes it wait: what does not fit is missed. -/
def schedule (x : Setup) (s : Sample) : Option Sample :=
  let k := s.scheduler
  match k.phase with
  | .waiting =>
    if x.ids.length ≤ k.next then some { s with scheduler := { k with phase := .done } }
    else if x.due k.next ≤ s.now then some { s with scheduler := { k with phase := .timing } }
    else some { s with scheduler := { k with phase := .sleeping } }
  | .sleeping =>
    if x.due k.next ≤ s.now then some { s with scheduler := { k with phase := .timing } } else none
  | .timing =>
    let late := k.late + if x.interval < s.now - x.due k.next then 1 else 0
    some { s with scheduler := { k with phase := .offering, late := late } }
  | .offering =>
    let job := (x.ids.drop k.next).take x.config.batchSize
    let k' := { k with phase := .waiting, next := k.next + x.config.batchSize }
    if x.started + x.active < s.now then
      some { s with
        scheduler := { k with phase := .done, missed := k.missed + (x.ids.length - k.next) } }
    else if s.jobs.length < x.config.concurrency * 2 then
      some { s with scheduler := k', jobs := s.jobs ++ [job] }
    else some { s with scheduler := { k' with missed := k.missed + job.length } }
  | .done => none

/-- The scheduler sees the cancelled context while it sleeps until a due time. -/
def abandonSchedule (x : Setup) (s : Sample) : Option Sample :=
  let k := s.scheduler
  if k.phase = .sleeping ∧ s.cancelled.isSome then
    some { s with
      scheduler := { k with phase := .done, missed := k.missed + (x.ids.length - k.next) } }
  else none

def setWorker (s : Sample) (w : ℕ) (v : Worker) : Sample :=
  { s with workers := s.workers.set w v }

def take (s : Sample) (w : ℕ) : Option Sample :=
  match s.workers[w]?, s.jobs with
  | some .idle, job :: jobs => some { s.setWorker w (.took job) with jobs := jobs }
  | _, _ => none

def begin (s : Sample) (w : ℕ) : Option Sample :=
  match s.workers[w]? with
  | some (.took job) => some (s.setWorker w (.sending job s.now))
  | _ => none

def reply (s : Sample) (w : ℕ) (job : List UUID) (r : Reply) : Option Sample :=
  match s.workers[w]? with
  | some (.sending job' started) =>
    if job = job' then
      some (s.setWorker w (.replied { send job r with
        ids := job, started := started, finished := s.now, elapsedNS := s.now - started }))
    else none
  | _ => none

def deliver (x : Setup) (s : Sample) (w : ℕ) : Option Sample :=
  match s.workers[w]? with
  | some (.replied v) =>
    if s.results.length < (x.ids.length + x.config.batchSize - 1) / x.config.batchSize then
      some { s.setWorker w .idle with results := s.results ++ [v] }
    else none
  | _ => none

def exit (s : Sample) (w : ℕ) : Option Sample :=
  match s.workers[w]?, s.jobs with
  | some .idle, [] => if s.scheduler.phase = .done then some (s.setWorker w .exited) else none
  | _, _ => none

def closeResults (s : Sample) : Option Sample :=
  if s.workers.all fun | .exited => true | _ => false then some { s with resultsClosed := true }
  else none

/-- The observer's context is done. -/
def observeDone (s : Sample) : Bool := s.cancelled.isSome || s.observationCancelled

def observerTake (s : Sample) : Option Sample :=
  match s.observer.phase, s.observer.requests with
  | .idle, n + 1 => some { s with observer := { s.observer with phase := .checking, requests := n } }
  | _, _ => none

def observerStart (s : Sample) : Option Sample :=
  match s.observer.phase with
  | .checking =>
    if s.observeDone then none
    else some { s with observer := { s.observer with phase := .running s.now } }
  | _ => none

/-- `Observe` returns no rows with an error. -/
def observed (x : Setup) (s : Sample) (rows : List StoredObservation) (err : Option GoError) :
    Option Sample :=
  match s.observer.phase with
  | .running started =>
    if (∀ o ∈ rows, x.Observes s.table o) ∧ (err.isSome → rows = []) then
      some { s with observer := { s.observer with phase := .holding ⟨started, s.now, rows, err⟩ } }
    else none
  | _ => none

def observerPush (s : Sample) : Option Sample :=
  match s.observer.phase, s.observer.results with
  | .holding v, [] => some { s with observer := { s.observer with phase := .idle, results := [v] } }
  | _, _ => none

def observerExit (s : Sample) : Option Sample :=
  match s.observer.phase with
  | .idle | .checking =>
    if s.observeDone then some { s with observer := { s.observer with phase := .exited } } else none
  | _ => none

/-- The main goroutine is at a select of its accounting or drain loop. -/
def selecting (s : Sample) : Bool :=
  match s.phase with
  | .accounting => !(s.loop.windowElapsed && s.loop.workersDone)
  | .draining _ =>
    s.loop.result.isNone && s.loop.observationError.isNone && s.loop.needsObservation
  | _ => false

/-- The send on the request channel is not enabled while its buffer is full. -/
def requestObservation (s : Sample) : Option Sample :=
  if s.loop.inFlight || s.loop.observationError.isSome then some s
  else if s.observer.requests < 1 then
    some { s with
      loop := { s.loop with inFlight := true }
      observer := { s.observer with requests := s.observer.requests + 1 } }
  else none

def record (x : Setup) (s : Sample) (expectedCancel : Bool) (v : ObservationResult)
    (rest : List ObservationResult) : Sample :=
  { s with
    loop := s.loop.recordObservation x.config x.started v expectedCancel
    observer := { s.observer with results := rest } }

def abort (s : Sample) (cause : Sentinel) : Sample :=
  { s with loop := { s.loop with
    result := some (.sentinel cause)
    run := { s.loop.run with loadStatus := .aborted } } }

def onCancel (s : Sample) : Option Sample :=
  match s.phase, s.selecting, s.cancelled with
  | .accounting, true, some cause =>
    if s.loop.ctxOpen then
      let t := s.abort cause
      some { t with loop := { t.loop with windowElapsed := true, ctxOpen := false } }
    else none
  | .draining _, true, some cause => some (s.abort cause)
  | _, _, _ => none

def onTimer (x : Setup) (s : Sample) : Option Sample :=
  match s.phase, s.selecting with
  | .accounting, true =>
    if x.windowEnd ≤ s.now then some { s with loop := { s.loop with windowElapsed := true } }
    else none
  | .draining since, true =>
    let err := if s.loop.unseenAccepted then
        some (.text "acknowledged events not observed before deadline")
      else s.loop.observationError
    if since + x.config.drainDeadline ≤ s.now then
      some { s with phase := .drained, loop := { s.loop with observationError := err } }
    else none
  | _, _ => none

def onResult (x : Setup) (s : Sample) : Option Sample :=
  match s.phase, s.selecting && !s.loop.workersDone, s.results with
  | .accounting, true, v :: results =>
    some { s with results := results, loop := s.loop.recordRequest x.started x.windowEnd v }
  | .accounting, true, [] =>
    if s.resultsClosed then some { s with loop := { s.loop with workersDone := true } } else none
  | _, _, _ => none

def onObservation (x : Setup) (s : Sample) : Option Sample :=
  match s.phase with
  | .collecting expectedCancel =>
    match s.loop.observationsOpen, s.observer.results with
    | true, v :: rest => some (s.record x expectedCancel v rest)
    | _, _ => none
  | _ =>
    if s.selecting ∧ s.loop.observationsOpen then
      match s.observer.results, s.observer.phase with
      | v :: rest, _ => some (s.record x false v rest)
      | [], .exited => some { s with loop := { s.loop with observationsOpen := false } }
      | _, _ => none
    else none

def onTick (x : Setup) (s : Sample) : Option Sample :=
  match s.phase, s.selecting with
  | .accounting, true =>
    if s.loop.seen.length < x.ids.length ∧ (¬s.loop.workersDone ∨ s.loop.needsObservation) then
      s.requestObservation
    else some s
  | .draining _, true => s.requestObservation
  | _, _ => none

/-- Accounting is over: the schedule's report is read and a last observation asked for. -/
def startDrain (x : Setup) (s : Sample) : Option Sample :=
  if s.scheduler.phase = .done then
    let t := { s with
      phase := .draining s.now
      loop := { s.loop with run := { s.loop.run with
        accountingCompletedNS := s.now - x.started
        generatorMissed := s.scheduler.missed
        lateSchedules := s.scheduler.late } } }
    if t.loop.needsObservation then t.requestObservation else some t
  else none

def expectedCancel (l : Loop) : Bool :=
  l.result.isNone && l.observationError.isNone && !l.unseenAccepted

/-- The main goroutine leaves the loop or the wait it is in. -/
def leave (P : Platform) (x : Setup) (s : Sample) : Option Sample :=
  match s.phase with
  | .accounting => if s.selecting then none else s.startDrain x
  | .draining _ => if s.selecting then none else some { s with phase := .drained }
  | .drained =>
    some { s with observationCancelled := true, phase := .joining (expectedCancel s.loop) }
  | .joining b =>
    match s.observer.phase with
    | .exited => some { s with phase := .collecting b }
    | _ => none
  | .collecting _ =>
    match s.loop.observationsOpen, s.observer.results with
    | true, _ :: _ => none
    | _, _ =>
      let (r, err) := s.loop.conclude P x.started x.windowEnd s.now
      some { s with phase := .finished r err }
  | _ => none

/-- The durations set after the final query. -/
def timed (x : Setup) (now since : ℤ) (r : PipelineRun) : PipelineRun :=
  { r with
    verificationNS := now - since
    verificationQueries := 1
    totalNS := now - x.started
    drainNS := max 0 (now - x.started - r.windowNS) }

/-- The sample of the final query. -/
def finalSample (r : PipelineRun) (verified : Bool) : BacklogSample :=
  { elapsedNS := r.totalNS
    accepted := r.accepted
    visible := r.persisted
    pendingAcknowledged := r.missing
    observationAvailable := verified
    finalVerification := true }

/-- The last backlog sample, and the statuses an error sets on the run. -/
def finish (r : PipelineRun) (verified : Bool) (closeErr result : Option GoError) : PipelineRun :=
  let r := { r with backlog := r.backlog ++ [finalSample r verified] }
  let r := if closeErr.isSome then
      { r with observationStatus := .failed, visibilityMetric := none, outcome := .limited }
    else r
  if result.any fun e => !e.observationOnly then { r with outcome := .failed } else r

/-- The closing steps of a repetition after the final query. -/
def closeRun (P : Platform) (x : Setup) (now since : ℤ) (r : PipelineRun)
    (sampleErr closeErr : Option GoError) (q : QueryResult) : PipelineRun × Option GoError :=
  let (verified, verifyErr) := verifySelectedRows P x.expected r.acceptedIDs q
  let (r, reconcileErr) := finalizePipelineVerification P (timed x now since r) verified verifyErr
  let result := GoError.join [sampleErr, closeErr.map .observation, reconcileErr]
  (finish r verifyErr.isNone closeErr result, result)

def close (s : Sample) (connections : ConnectionSnapshot) (queries : ℕ) (err : Option GoError) :
    Option Sample :=
  match s.phase with
  | .finished r e =>
    let r := { r with connections := connections, observerQueries := queries }
    some { s with phase := .closing s.now r e err }
  | _ => none

/-- A query that ends without an error has delivered every selected row once, in some order. -/
def verify (P : Platform) (x : Setup) (s : Sample) (rows : List TableRow) (err : Option GoError) :
    Option Sample :=
  match s.phase with
  | .closing since r e closeErr =>
    if err.isNone → rows.Perm s.table then
      let q : QueryResult := ⟨rows.map TableRow.toStoredRow, err⟩
      let (r, e) := closeRun P x s.now since r e closeErr q
      some { s with phase := .recorded r e }
    else none
  | _ => none

def step (P : Platform) (x : Setup) (s : Sample) : Action → Option Sample
  | .advance ns => some { s with now := s.now + ns }
  | .cancel cause => some { s with cancelled := some (s.cancelled.getD cause) }
  | .store row =>
    if x.Selects row ∧ ∀ r ∈ s.table, r.id ≠ row.id then some { s with table := s.table ++ [row] }
    else none
  | .schedule => s.schedule x
  | .abandonSchedule => s.abandonSchedule x
  | .take w => s.take w
  | .begin w => s.begin w
  | .reply w job r => s.reply w job r
  | .deliver w => s.deliver x w
  | .exit w => s.exit w
  | .closeResults => s.closeResults
  | .observerTake => s.observerTake
  | .observerStart => s.observerStart
  | .observed rows err => s.observed x rows err
  | .observerPush => s.observerPush
  | .observerExit => s.observerExit
  | .onCancel => s.onCancel
  | .onTimer => s.onTimer x
  | .onResult => s.onResult x
  | .onObservation => s.onObservation x
  | .onTick => s.onTick x
  | .leave => s.leave P x
  | .close connections queries err => s.close connections queries err
  | .verify rows err => s.verify P x rows err

/-- The run a repetition records by these actions, and its error. -/
def recordedRun (P : Platform) (x : Setup) (actions : List Action) :
    Option (PipelineRun × Option GoError) :=
  (Transition.execute (step P x) (start x) actions).bind fun s => s.phase.result

end Sample

end IngestKit.Benchmark
