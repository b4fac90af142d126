import IngestKit.Event.Types
import Mathlib.Data.List.Sort
import Mathlib.Data.Rat.Defs

/-! Records of the benchmark: cases, pipeline runs and the reports of the three case kinds. -/
namespace IngestKit.Benchmark
open Event

inductive CaseKind
  | database | pipeline | recovery | unknown
  deriving DecidableEq

inductive Recovery
  | none | database | consumer | outbox
  deriving DecidableEq

inductive Pattern
  | none | steady | burst
  deriving DecidableEq

inductive PayloadProfile
  | none | fixed | varied | other
  deriving DecidableEq

/-- The profile a pipeline uses when none is given. -/
def PayloadProfile.orVaried : PayloadProfile → PayloadProfile
  | .none => .varied
  | p => p

/-- Durations are nanoseconds. -/
structure Case where
  id : Bytes
  kind : CaseKind
  recovery : Recovery := .none
  pattern : Pattern := .none
  payloadProfile : PayloadProfile := .varied
  count : ℕ
  batchSize : ℕ
  payloadBytes : ℕ
  rate : ℕ := 0
  concurrency : ℕ := 0
  repetitions : ℕ := 3
  httpMaxConnsPerHost : ℕ := 0
  httpMaxIdleConnsPerHost : ℕ := 0
  duplicateFraction : ℚ := 0
  window : ℕ := 0
  warmup : ℕ := 0
  drain : ℕ := 0
  poll : ℕ := 0
  faultAt : ℕ := 0
  restoreAt : ℕ := 0

structure Latency where
  p50 : ℤ := 0
  p95 : ℤ := 0
  p99 : ℤ := 0
  deriving DecidableEq

/-- Index of the nearest rank for the quantile `num / den` of `n` samples. -/
def nearestRank (num den n : ℕ) : ℕ := (n * num + (den - 1)) / den - 1

/-- `Percentiles`: every measured sample counts, without interpolation. -/
def percentiles (samples : List ℤ) : Latency :=
  let a := samples.insertionSort (· ≤ ·)
  if a = [] then {}
  else ⟨a.getD (nearestRank 1 2 a.length) 0, a.getD (nearestRank 19 20 a.length) 0,
    a.getD (nearestRank 99 100 a.length) 0⟩

structure RequestObservation where
  startedNS : ℤ
  finishedNS : ℤ
  elapsedNS : ℤ
  events : ℕ
  status : ℕ
  accepted : Bool
  ambiguous : Bool
  deriving DecidableEq

structure BacklogSample where
  pendingAcknowledged : ℤ := 0
  observationAvailable : Bool
  finalVerification : Bool := false
  elapsedNS : ℤ
  accepted : ℕ := 0
  visible : ℕ
  deriving DecidableEq

inductive LoadStatus
  | none | met | limited | aborted
  deriving DecidableEq

inductive DeliveryStatus
  | none | notRun | passed | failed
  deriving DecidableEq

inductive ObservationStatus
  | none | notRun | complete | partialView | failed
  deriving DecidableEq

inductive Outcome
  | none | complete | limited | failed
  deriving DecidableEq

inductive ObservationErrorClass
  | none | queryFailed | timeout
  deriving DecidableEq

inductive LimitReason
  | generatorMissedEvents | lateSchedules | httpRejections | ambiguousDelivery | requestQueueTail
  | lateAcknowledgements | observerPollDelays | observerUnavailable | observerFailed
  | partialObservation | observerQueryDelays
  deriving DecidableEq

inductive TCPTracking
  | notConfigured | transportOwned | unavailable
  deriving DecidableEq

structure ConnectionSnapshot where
  activeRequests : ℤ
  peakActiveRequests : ℤ
  openTCP : ℤ
  peakOpenTCP : ℤ
  connectionAcquireNS : ℤ
  waitingForConnection : ℤ
  maxConnsPerHost : ℕ
  maxIdleConnsPerHost : ℕ
  protocols : List (String × ℤ)
  errors : List (String × ℤ)
  tcpTrackingStatus : TCPTracking

/-- The four sets of event IDs a run keeps. -/
inductive SetName
  | attempted | accepted | ambiguous | stored
  deriving DecidableEq

structure PipelineRun where
  connections : ConnectionSnapshot := ⟨0, 0, 0, 0, 0, 0, 0, 0, [], [], .notConfigured⟩
  loadStatus : LoadStatus := .none
  deliveryStatus : DeliveryStatus := .none
  observationStatus : ObservationStatus := .none
  visibilityMetric : Option Latency := none
  httpCompletedNS : ℤ := 0
  accountingCompletedNS : ℤ := 0
  observationCompletedNS : Option ℤ := none
  observerSlowQueries : ℕ := 0
  observerMaxQueryNS : ℤ := 0
  observationErrorClass : ObservationErrorClass := .none
  observerOutages : ℕ := 0
  requestSamples : List RequestObservation := []
  attemptedInWindow : ℕ := 0
  attemptedAfterWindow : ℕ := 0
  acceptedInWindow : ℕ := 0
  acceptedAfterWindow : ℕ := 0
  observerPolls : ℕ := 0
  observerQueries : ℕ := 0
  observerQueryNS : ℤ := 0
  observerLatePolls : ℕ := 0
  observerMaxGapNS : ℤ := 0
  visibilitySampleCount : ℕ := 0
  verificationQueries : ℕ := 0
  observedEvents : ℕ := 0
  verificationNS : ℤ := 0
  ambiguousUnobserved : ℕ := 0
  contentMismatch : ℕ := 0
  outcome : Outcome := .none
  limitReasons : List LimitReason := []
  repetition : ℕ := 0
  planned : ℕ := 0
  attempted : ℕ := 0
  accepted : ℕ := 0
  persisted : ℕ := 0
  ambiguous : ℕ := 0
  rejected : ℕ := 0
  generatorMissed : ℕ := 0
  lateSchedules : ℕ := 0
  missing : ℕ := 0
  unexpected : ℕ := 0
  duplicateRows : ℕ := 0
  ambiguousPersisted : ℕ := 0
  backlogAtWindowEnd : ℕ := 0
  windowNS : ℤ := 0
  activeNS : ℤ := 0
  totalNS : ℤ := 0
  drainNS : ℤ := 0
  pollIntervalNS : ℤ := 0
  acceptedEPS : ℚ := 0
  verifiedCompletionEPS : ℚ := 0
  ack : Latency := {}
  visibility : Latency := {}
  ackNS : List ℤ := []
  visibilityNS : List ℤ := []
  attemptedIDs : List UUID := []
  acceptedIDs : List UUID := []
  ambiguousIDs : List UUID := []
  storedIDs : List UUID := []
  idSetSHA256 : SetName → Bytes := fun _ => []
  backlog : List BacklogSample := []
  correct : Bool := false

inductive Method
  | insert | batchInsert | copyMerge | unknown
  deriving DecidableEq

structure DatabaseRun where
  method : Method
  repetition : ℤ
  submitted : ℤ
  inserted : ℤ
  duplicates : ℤ
  elapsedNS : ℤ
  batchNS : List ℤ
  correct : Bool

structure DatabaseReport where
  repetitions : ℤ
  runs : List DatabaseRun

structure PipelineReport where
  runs : List PipelineRun

structure FaultEvent where
  action : Bytes
  elapsedNS : ℤ
  plannedNS : ℤ

structure RecoveryRun where
  repetition : ℕ
  correct : Bool
  faults : List FaultEvent
  pipeline : Option PipelineRun
  acceptedIDs : List UUID
  storedIDs : List UUID
  ambiguousIDs : List UUID

structure RecoveryReport where
  runs : List RecoveryRun

/-- What a measurement returns; `none` is the nil report of an unknown kind of case. -/
inductive Report
  | none
  | database (r : DatabaseReport)
  | pipeline (r : PipelineReport)
  | recovery (r : RecoveryReport)

end IngestKit.Benchmark
