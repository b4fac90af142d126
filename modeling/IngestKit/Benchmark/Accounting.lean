import IngestKit.Benchmark.Reconcile

/-! The accounting of one pipeline sample: what the main loop records for each request and each
observation, and the figures it derives when both are over. Instants are nanoseconds of the
monotonic clock. -/
namespace IngestKit.Benchmark
open Event

structure PipelineConfig where
  reconnectObserver : Bool
  space : Bytes
  payloadProfile : PayloadProfile
  pattern : Pattern
  seed : ℤ
  rate : ℕ
  concurrency : ℕ
  batchSize : ℕ
  payloadBytes : ℕ
  repetitions : ℕ
  duration : ℕ
  warmup : ℕ
  drainDeadline : ℕ
  pollInterval : ℕ

/-- What `RunPipeline` requires before it starts anything. -/
def PipelineConfig.Valid (c : PipelineConfig) : Prop :=
  0 < c.rate ∧ 0 < c.concurrency ∧ c.concurrency ≤ 1000 ∧ 0 < c.duration ∧ 0 < c.drainDeadline ∧
    0 < c.pollInterval ∧ 0 < c.batchSize ∧ c.batchSize ≤ 100 ∧ 3 ≤ c.repetitions ∧
    (c.pattern = .steady ∨ c.pattern = .burst)

instance (c : PipelineConfig) : Decidable c.Valid :=
  inferInstanceAs (Decidable (_ ∧ _))

structure SendResult where
  status : ℕ := 0
  ids : List UUID := []
  accepted : Bool := false
  ambiguous : Bool := false
  elapsedNS : ℤ := 0
  started : ℤ := 0
  finished : ℤ := 0

/-- What became of one HTTP request: never built, failed in transport, or answered with a
status and, if the body could be read, acknowledged IDs. -/
inductive Reply
  | unsent
  | failed
  | answered (status : ℕ) (ack : Option (List UUID))
  deriving DecidableEq

/-- `send`: only a 202 that names exactly the IDs sent is an acknowledgement. -/
def send (job : List UUID) : Reply → SendResult
  | .unsent => {}
  | .failed => { ambiguous := true }
  | .answered status ack =>
    if status ≠ 202 then { status := status, ambiguous := 500 ≤ status }
    else if ack = some job then { status := status, accepted := true }
    else { status := status, ambiguous := true }

/-- A committed row as the observer saw it; `observedAt` is the SQL clock after the read. -/
structure StoredObservation where
  id : UUID
  receivedAt : ℤ
  observedAt : Option ℤ
  deriving DecidableEq

structure ObservationResult where
  started : ℤ
  finished : ℤ
  rows : List StoredObservation
  err : Option GoError

/-- `m[id] = t` for a map that is kept in order of first insertion. -/
def assign (m : List (UUID × ℤ)) (id : UUID) (t : ℤ) : List (UUID × ℤ) :=
  if id ∈ m.map Prod.fst then m.map fun p => if p.1 = id then (id, t) else p else m ++ [(id, t)]

/-- Variables of the main goroutine. -/
structure Loop where
  run : PipelineRun
  seen : List UUID := []
  acceptedAt : List (UUID × ℤ) := []
  observedAt : List (UUID × ℤ) := []
  inFlight : Bool := false
  observationError : Option GoError := none
  previousPoll : Option ℤ := none
  windowElapsed : Bool := false
  workersDone : Bool := false
  ctxOpen : Bool := true
  observationsOpen : Bool := true
  result : Option GoError := none

namespace Loop

def unseenAccepted (l : Loop) : Bool := l.acceptedAt.any fun p => p.1 ∉ l.seen

def needsObservation (l : Loop) : Bool :=
  l.unseenAccepted || l.run.ambiguousIDs.any fun id => id ∉ l.seen

def recordRow (finished : ℤ) (l : Loop) (row : StoredObservation) : Loop :=
  if row.id ∈ l.seen then l
  else
    let latency := row.observedAt.getD finished - row.receivedAt
    let l := { l with
      seen := l.seen ++ [row.id]
      observedAt := assign l.observedAt row.id finished
      run := { l.run with storedIDs := l.run.storedIDs ++ [row.id] } }
    if latency < 0 then
      { l with observationError := some (.text "negative visibility latency: clocks disagree") }
    else { l with run := { l.run with visibilityNS := l.run.visibilityNS ++ [latency] } }

/-- The part of `recordObservation` before its rows: query times, gaps and the error class. -/
def recordQuery (c : PipelineConfig) (v : ObservationResult) (expectedCancel : Bool)
    (l : Loop) : Loop :=
  let elapsed := v.finished - v.started
  let gap := l.previousPoll.map (v.started - ·)
  let outage := v.err.any fun e => c.reconnectObserver && e.is .observerUnavailable
  { l with
    inFlight := false
    previousPoll := some v.started
    observationError :=
      if v.err.any fun e => !outage && !(expectedCancel && e.is .canceled) then v.err
      else l.observationError
    run := { l.run with
      observerPolls := l.run.observerPolls + 1
      observerQueryNS := l.run.observerQueryNS + elapsed
      observerMaxQueryNS := max l.run.observerMaxQueryNS elapsed
      observerSlowQueries := l.run.observerSlowQueries +
        if 2 * (c.pollInterval : ℤ) < elapsed then 1 else 0
      observerMaxGapNS := gap.elim l.run.observerMaxGapNS (max l.run.observerMaxGapNS)
      observerLatePolls := l.run.observerLatePolls +
        if gap.any (2 * (c.pollInterval : ℤ) < ·) then 1 else 0
      observerOutages := l.run.observerOutages + if outage then 1 else 0 } }

def recordObservation (c : PipelineConfig) (started : ℤ) (v : ObservationResult)
    (expectedCancel : Bool) (l : Loop) : Loop :=
  let l := v.rows.foldl (recordRow v.finished) (l.recordQuery c v expectedCancel)
  let sample : BacklogSample :=
    { elapsedNS := v.finished - started
      visible := l.seen.length
      observationAvailable := v.err.isNone }
  { l with run := { l.run with backlog := l.run.backlog ++ [sample] } }

def point (started : ℤ) (v : SendResult) : RequestObservation :=
  ⟨v.started - started, v.finished - started, v.elapsedNS, v.ids.length, v.status, v.accepted,
    v.ambiguous⟩

/-- The part of `recordRequest` that does not depend on the reply. -/
def recordAttempt (started windowEnd : ℤ) (v : SendResult) (r : PipelineRun) : PipelineRun :=
  { r with
    requestSamples := r.requestSamples ++ [point started v]
    httpCompletedNS := max r.httpCompletedNS (v.finished - started)
    attemptedIDs := r.attemptedIDs ++ v.ids
    attempted := r.attempted + v.ids.length
    attemptedAfterWindow := r.attemptedAfterWindow +
      if windowEnd < v.started then v.ids.length else 0
    attemptedInWindow := r.attemptedInWindow + if windowEnd < v.started then 0 else v.ids.length }

def recordRequest (started windowEnd : ℤ) (v : SendResult) (l : Loop) : Loop :=
  let r := recordAttempt started windowEnd v l.run
  if v.accepted then
    { l with
      acceptedAt := v.ids.foldl (fun m id => assign m id v.finished) l.acceptedAt
      run := { r with
        acceptedAfterWindow := r.acceptedAfterWindow +
          if windowEnd < v.finished then v.ids.length else 0
        acceptedInWindow := r.acceptedInWindow +
          if windowEnd < v.finished then 0 else v.ids.length
        acceptedIDs := r.acceptedIDs ++ v.ids
        ackNS := r.ackNS ++ [v.elapsedNS] } }
  else if v.ambiguous then
    { l with run := { r with
      ambiguous := r.ambiguous + v.ids.length
      ambiguousIDs := r.ambiguousIDs ++ v.ids } }
  else { l with run := { r with rejected := r.rejected + v.ids.length } }

end Loop

structure PendingChange where
  time : ℤ
  delta : ℤ
  deriving DecidableEq

/-- Changes of the acknowledged but unobserved population. An event that was observed no later
than its acknowledgement never counts as pending. -/
def pendingChanges (acceptedAt observedAt : List (UUID × ℤ)) : List PendingChange :=
  acceptedAt.flatMap fun p =>
    match observedAt.lookup p.1 with
    | none => [⟨p.2, 1⟩]
    | some observed => if p.2 < observed then [⟨p.2, 1⟩, ⟨observed, -1⟩] else []

/-- The two-pointer pass over the samples. `fi` finishes and the changes summed in `pending` were
passed before; `finishes` and `changes` are what both pointers still have ahead. -/
def sweep (started : ℤ) (fi : ℕ) (pending : ℤ) (finishes : List ℤ) (changes : List PendingChange) :
    List BacklogSample → List BacklogSample
  | [] => []
  | s :: samples =>
    let t := started + s.elapsedNS
    let fi := fi + (finishes.takeWhile (· ≤ t)).length
    let pending := pending + ((changes.takeWhile (·.time ≤ t)).map PendingChange.delta).sum
    { s with accepted := fi, pendingAcknowledged := pending } ::
      sweep started fi pending (finishes.dropWhile (· ≤ t)) (changes.dropWhile (·.time ≤ t)) samples

namespace Loop

def observationStatus (l : Loop) : ObservationStatus :=
  if l.observationError.isSome ∨ l.result.isSome then .failed
  else if l.needsObservation then .partialView else .complete

/-- The last first observation of an acknowledged event, if all of them were observed. -/
def observationCompleted (started : ℤ) (l : Loop) : Option ℤ :=
  match l.acceptedAt.mapM fun p => l.observedAt.lookup p.1 with
  | some (t :: ts) => some (ts.foldl max t - started)
  | _ => none

def backlogAtWindowEnd (windowEnd : ℤ) (l : Loop) : ℕ :=
  (l.acceptedAt.filter fun p =>
    p.2 ≤ windowEnd ∧ (l.observedAt.lookup p.1).all (windowEnd < ·)).length

def reconstructBacklog (started : ℤ) (l : Loop) : List BacklogSample :=
  sweep started 0 0 ((l.acceptedAt.map Prod.snd).insertionSort (· ≤ ·))
    ((pendingChanges l.acceptedAt l.observedAt).insertionSort (·.time ≤ ·.time)) l.run.backlog

/-- The figures set between the observer's end and `Reconcile`. -/
def summarize (started windowEnd now : ℤ) (l : Loop) : PipelineRun :=
  let status := l.observationStatus
  { l.run with
    observationStatus := status
    observationErrorClass :=
      if status ≠ .failed then l.run.observationErrorClass
      else if l.observationError.any (·.is .deadlineExceeded) then .timeout else .queryFailed
    observationCompletedNS := l.observationCompleted started
    deliveryStatus := .notRun
    observedEvents := l.seen.length
    totalNS := now - started
    drainNS := max 0 (now - windowEnd)
    backlogAtWindowEnd := l.run.backlogAtWindowEnd + l.backlogAtWindowEnd windowEnd
    backlog := l.reconstructBacklog started
    ack := percentiles l.run.ackNS
    visibility := percentiles l.run.visibilityNS
    visibilityMetric :=
      if status = .complete ∧ l.run.visibilityNS ≠ [] then some (percentiles l.run.visibilityNS)
      else l.run.visibilityMetric }

/-- The end of `runPipelineSample`. -/
def conclude (P : Platform) (started windowEnd now : ℤ) (l : Loop) :
    PipelineRun × Option GoError :=
  let (r, reconcileErr) := (l.summarize started windowEnd now).reconcile P
  (r, match l.observationError with
    | some e => GoError.join [l.result, some (.observation e)]
    | none => GoError.join [l.result, reconcileErr])

end Loop

end IngestKit.Benchmark
