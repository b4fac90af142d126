import IngestKit.Benchmark.Workload

/-! The population evidence of a run and its independent check by the Python auditor. An ID and its
canonical text are the same thing here, and rates are compared exactly. -/
namespace IngestKit.Benchmark
open Event

structure PopulationEvidence where
  repetition : ℕ
  count : ℕ
  space : Bytes
  seed : ℤ
  indices : SetName → List ℕ
  extra : SetName → List UUID

/-- The position of an ID in the workload; a later position of the same ID wins. -/
def planIndex (P : Platform) (space : Bytes) (seed : ℤ) (count : ℕ) (id : UUID) : Option ℕ :=
  (List.range count).reverse.find? fun i => P.uuid5 (eventName space seed i) = id

/-- `populations` for one pipeline run. -/
def population (P : Platform) (c : Case) (r : PipelineRun) (space : Bytes) (seed : ℤ) :
    PopulationEvidence :=
  let index := planIndex P space (seed + r.repetition) c.count
  { repetition := r.repetition
    count := c.count
    space := space
    seed := seed + r.repetition
    indices := fun name => (r.ids name).filterMap index
    extra := fun name => (r.ids name).filter fun id => (index id).isNone }

/-- What the auditor raises. -/
inductive PyError
  | audit (message : String)
  | typeError
  | indexError
  | zeroDivision
  deriving DecidableEq

namespace Audit

/-- A slice as it arrives in JSON: a nil slice is written as null. -/
def slice {α : Type} : List α → Option (List α)
  | [] => none
  | l => some l

/-- Use of a JSON value as a list. -/
def list {α : Type} (v : Option (List α)) : Except PyError (List α) :=
  v.elim (.error .typeError) .ok

def check (condition : Bool) (message : String) : Except PyError Unit :=
  if condition then .ok () else .error (.audit message)

/-- JSON objects written by Go have their members in order of their names. -/
def setNames : List SetName := [.accepted, .ambiguous, .attempted, .stored]

def populations (P : Platform) (group : PopulationEvidence) :
    Except PyError (SetName → List UUID) := do
  let lookup := (List.range group.count).map fun i =>
    P.uuid5 (eventName group.space group.seed i)
  setNames.forM fun name =>
    check ((group.indices name).all (· < lookup.length)) "population index out of range"
  pure fun name => ((group.indices name).filterMap fun i => lookup[i]?) ++ group.extra name

def idHash (P : Platform) (ids : List UUID) : Bytes :=
  UUID.hex (P.sha256 (joinLines ((ids.map UUID.string).dedup.insertionSort (· ≤ ·))))

def percentile (values : List ℤ) (num den : ℕ) : Except PyError ℤ :=
  if values = [] then .ok 0
  else
    match (values.insertionSort (· ≤ ·))[nearestRank num den values.length]? with
    | some v => .ok v
    | none => .error .indexError

/-- The ID sets and the counts derived from them. -/
def sets (P : Platform) (run : PipelineRun) (c : Case) (ids : SetName → List UUID) :
    Except PyError Unit := do
  let attempted := ids .attempted
  let accepted := ids .accepted
  let ambiguous := ids .ambiguous
  let stored := ids .stored
  check (run.correct && run.missing == 0 && run.unexpected == 0 && run.duplicateRows == 0 &&
    run.contentMismatch == 0) "pipeline correctness failed"
  setNames.forM fun name =>
    check (idHash P (ids name) == run.idSetSHA256 name) "ID set hash differs"
  check (accepted.all (· ∈ attempted) && ambiguous.all (· ∈ attempted)) "unattempted ACK/ambiguity"
  check (accepted.all (· ∉ ambiguous)) "ACK and ambiguity overlap"
  check (accepted.all (· ∈ stored) && stored.all (· ∈ attempted)) "stored/accepted set mismatch"
  check (run.planned == c.count && c.count == run.attempted + run.generatorMissed)
    "offered count mismatch"
  check (run.attempted == attempted.length &&
    attempted.length == run.accepted + run.ambiguous + run.rejected)
    "attempt classification mismatch"
  check (run.accepted == accepted.length && run.persisted == stored.length)
    "stored/ACK count mismatch"

structure Cursor where
  cursor : ℕ := 0
  acked : List UUID := []
  unknown : List UUID := []

def request (c : Case) (attempted : List UUID) (k : Cursor) (q : RequestObservation) :
    Except PyError Cursor := do
  check (0 < q.events && q.events ≤ c.batchSize) "invalid request event population"
  check (q.startedNS ≤ q.finishedNS && 0 ≤ q.startedNS) "invalid request interval"
  check (q.elapsedNS == q.finishedNS - q.startedNS) "request elapsed differs"
  let ids := (attempted.drop k.cursor).take q.events
  pure ⟨k.cursor + q.events, if q.accepted then k.acked ++ ids else k.acked,
    if q.ambiguous then k.unknown ++ ids else k.unknown⟩

/-- The request samples cut the attempted IDs into the acknowledged and the ambiguous ones. -/
def requests (c : Case) (ids : SetName → List UUID) (qs : List RequestObservation) :
    Except PyError Unit := do
  let k ← qs.foldlM (request c (ids .attempted)) {}
  check (k.cursor == (ids .attempted).length && k.acked == ids .accepted &&
    k.unknown == ids .ambiguous) "request/ID population differs"

/-- The counters of the HTTP transport. -/
def transport (conn : ConnectionSnapshot) (c : Case) (qs : List RequestObservation) :
    Except PyError Unit := do
  check (conn.activeRequests == 0 && conn.waitingForConnection == 0) "requests still active"
  check (conn.maxConnsPerHost == c.httpMaxConnsPerHost) "active cap differs"
  check (conn.maxIdleConnsPerHost ==
    if c.httpMaxIdleConnsPerHost = 0 then 2 else c.httpMaxIdleConnsPerHost) "idle retention differs"
  check (conn.tcpTrackingStatus == .transportOwned) "TCP tracking unavailable"
  check (conn.openTCP ≤ conn.peakOpenTCP && 0 ≤ conn.openTCP && 0 ≤ conn.peakActiveRequests)
    "socket counts differ"
  check (conn.maxConnsPerHost == 0 || conn.peakOpenTCP ≤ conn.maxConnsPerHost)
    "active TCP cap exceeded"
  check (0 ≤ conn.connectionAcquireNS) "negative connection duration"
  check (conn.errors.all fun e => e.1 ∈ ["fd_limit", "address_unavailable", "connection_refused",
    "cancelled", "timeout", "dns", "other"]) "unbounded error labels"
  check (conn.protocols.all fun p => p.1 ∈ ["HTTP/1.1", "HTTP/2.0", "HTTP/1.0", "other"])
    "unbounded protocol labels"
  check ((conn.protocols.map Prod.snd).sum ≤ qs.length) "protocol request counts exceed attempts"

def acknowledgedBy (ns : ℤ) (qs : List RequestObservation) : ℕ :=
  ((qs.filter fun q => q.accepted && q.finishedNS ≤ ns).map (·.events)).sum

def startedBy (ns : ℤ) (qs : List RequestObservation) : ℕ :=
  ((qs.filter fun q => q.startedNS ≤ ns).map (·.events)).sum

def window (run : PipelineRun) (ids : SetName → List UUID) (qs : List RequestObservation) :
    Except PyError Unit := do
  let inside := acknowledgedBy run.windowNS qs
  let starts := startedBy run.windowNS qs
  check (inside == run.acceptedInWindow && starts == run.attemptedInWindow)
    "window classification differs"
  check ((run.acceptedAfterWindow : ℤ) == (ids .accepted).length - inside &&
    (run.attemptedAfterWindow : ℤ) == (ids .attempted).length - starts)
    "tail classification differs"
  check (slice run.ackNS == some ((qs.filter (·.accepted)).map (·.elapsedNS)))
    "ACK samples differ from requests"

/-- The visibility samples and the labels that depend on them. -/
def visibility (run : PipelineRun) : Except PyError Unit := do
  let samples ← list (slice run.visibilityNS)
  check (run.visibilitySampleCount == samples.length && samples.length ≤ run.observedEvents)
    "visibility sample count differs"
  check (run.observationStatus != .none) "invalid observation status"
  if run.observationStatus = .complete then
    check (samples.length == run.observedEvents) "complete visibility population differs"
  if run.observationStatus ≠ .complete ∨ samples = [] then
    check run.visibilityMetric.isNone "unavailable visibility must be null"
  check (run.deliveryStatus == .passed) "delivery was not independently verified"

def latency (samples : List ℤ) (metric : Option Latency) : Except PyError Unit :=
  [((1, 2), Latency.p50), ((19, 20), Latency.p95), ((99, 100), Latency.p99)].forM fun p => do
    let value ← percentile samples p.1.1 p.1.2
    match metric with
    | none => .error .typeError
    | some l => check (value == p.2 l) "latency percentile differs"

def latencies (run : PipelineRun) : Except PyError Unit := do
  let acks ← list (slice run.ackNS)
  check (acks.all (0 ≤ ·)) "invalid latency sample"
  latency acks (some run.ack)
  let samples ← list (slice run.visibilityNS)
  check (samples.all (0 ≤ ·)) "invalid latency sample"
  if run.observationStatus = .complete ∧ samples ≠ [] then latency samples run.visibilityMetric

def divide (a b : ℚ) : Except PyError ℚ := if b = 0 then .error .zeroDivision else .ok (a / b)

def rates (run : PipelineRun) (ids : SetName → List UUID) (qs : List RequestObservation) :
    Except PyError Unit := do
  check (run.windowNS ≤ run.totalNS && run.drainNS == run.totalNS - run.windowNS)
    "complete duration differs"
  let acceptedEPS ← divide (acknowledgedBy run.windowNS qs * 1000000000) run.windowNS
  check (run.acceptedEPS == acceptedEPS) "ACK rate denominator differs"
  let storedEPS ← divide ((ids .stored).length * 1000000000) run.totalNS
  check (run.verifiedCompletionEPS == storedEPS) "storage rate denominator differs"
  check (((ids .ambiguous).dedup.filter (· ∉ ids .stored)).length == run.ambiguousUnobserved)
    "unknown-by-verification count differs"

/-- The previous sample's count and time. -/
structure Previous where
  visible : ℕ := 0
  time : ℤ := 0

def sample (run : PipelineRun) (qs : List RequestObservation) (k : Previous) (b : BacklogSample) :
    Except PyError Previous := do
  check (k.time ≤ b.elapsedNS && b.elapsedNS ≤ run.totalNS) "observation timeline differs"
  check (k.visible ≤ b.visible && b.visible ≤ run.persisted)
    "observed row count exceeds verified population"
  if b.finalVerification then check (b.visible == run.persisted) "final row count differs"
  else check (b.visible ≤ run.observedEvents) "observer population differs"
  check (b.accepted == acknowledgedBy b.elapsedNS qs) "backlog ACK timeline differs"
  pure ⟨b.visible, b.elapsedNS⟩

def backlog (run : PipelineRun) (qs : List RequestObservation) : Except PyError Unit := do
  let samples ← list (slice run.backlog)
  let _ ← samples.foldlM (sample run qs) {}

def loadLimited (run : PipelineRun) : Bool :=
  [run.generatorMissed, run.lateSchedules, run.rejected, run.ambiguous, run.attemptedAfterWindow,
    run.acceptedAfterWindow].any (· ≠ 0)

def labels (run : PipelineRun) : Except PyError Unit := do
  let limited := run.observationStatus == .failed || run.observationStatus == .partialView ||
    0 < run.observerSlowQueries || loadLimited run || run.observerLatePolls != 0 ||
    run.observerOutages != 0
  check (run.loadStatus == if loadLimited run then .limited else .met) "load status differs"
  check (run.outcome == if limited then .limited else .complete) "limit incorrectly labelled"

/-- `pipeline` of the auditor, on a run, its population evidence and its case. -/
def pipeline (P : Platform) (run : PipelineRun) (group : PopulationEvidence) (c : Case) :
    Except PyError Unit := do
  let ids ← populations P group
  sets P run c ids
  let qs ← list (slice run.requestSamples)
  requests c ids qs
  transport run.connections c qs
  window run ids qs
  visibility run
  latencies run
  rates run ids qs
  backlog run qs
  labels run

end Audit

end IngestKit.Benchmark
