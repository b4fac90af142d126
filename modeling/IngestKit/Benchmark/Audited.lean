import IngestKit.Benchmark.Agreement

/-! When the auditor accepts a recorded run. -/
namespace IngestKit.Benchmark
open Event

/-- A verified and not aborted run passes its audit exactly when some request was
acknowledged and some row was measured: an empty sample list is written as null, which the auditor
neither compares equal to an empty list nor takes the length of. -/
theorem audit_accepts_iff_sampled {P : Platform} {x : Setup} {c : Case} {space : Bytes} {seed : ℤ}
    {actions : List Action} {r : PipelineRun} {e : Option GoError} (hids : x.ids.Nodup)
    (hc : Repeats P c space seed x) (h : Sample.recordedRun P x actions = some (r, e))
    (hdelivery : r.deliveryStatus = .passed) (hload : r.loadStatus ≠ .aborted)
    (htransport : Audit.transport r.connections c r.requestSamples = .ok ()) :
    Audit.pipeline P r (population P c r space seed) c = .ok () ↔
      Acknowledged actions ∧ Measured (returnedRows actions) := by
  obtain ⟨vs, l, now, closeErr, stored, hv⟩ := verified_of_recordedRun hids h hdelivery
  exact hv.audit_pipeline hc hload htransport

/-- The ID of `s/2/0`. -/
def soleID : UUID :=
  ⟨[11, 111, 2, 182, 82, 48, 90, 31, 156, 25, 144, 175, 91, 56, 42, 190], by decide⟩

/-- Digests and IDs of the texts a run of one event needs. -/
def solePlatform : Platform where
  sha256 b :=
    if b = [] then [227, 176, 196, 66, 152, 252, 28, 20, 154, 251, 244, 200, 153, 111, 185, 36, 39,
      174, 65, 228, 100, 155, 147, 76, 164, 149, 153, 27, 120, 82, 184, 85]
    else if b = ascii ['s'] then [4, 58, 113, 135, 116, 197, 114, 189, 138, 37, 173, 190, 177, 191,
      205, 92, 2, 86, 174, 17, 206, 207, 159, 156, 63, 146, 93, 14, 82, 190, 175, 137]
    else [150, 209, 124, 165, 1, 41, 126, 145, 51, 26, 40, 133, 197, 250, 227, 47, 142, 222, 240,
      202, 229, 48, 34, 207, 157, 254, 59, 34, 24, 60, 145, 39]
  uuid5 _ := soleID
  samePayload := (· == ·)
  offered rate duration := rate * duration / seconds 1

/-- One event in one second. -/
def soleCase : Case :=
  { id := ascii ['s']
    kind := .pipeline
    pattern := .steady
    payloadProfile := .fixed
    count := 1
    batchSize := 1
    payloadBytes := 16
    rate := 1
    concurrency := 1
    window := seconds 1
    drain := seconds 1
    poll := milliseconds 50 }

def soleSetup : Setup where
  config := pipelineCaseConfig soleCase 1 (ascii ['s'])
  valid := by decide
  repetition := 1
  expected := [workloadEvent solePlatform ⟨ascii ['s'], .fixed, 2, 1, 16, 0⟩ 0]
  due _ := 0
  interval := seconds 1
  started := 0

theorem repeats_soleSetup : Repeats solePlatform soleCase (ascii ['s']) 1 soleSetup where
  config := rfl
  named := by decide
  expected := by
    rw [workload_of_unique (by decide +kernel) rfl]
    rfl
  count := by decide

def soleConnections : ConnectionSnapshot where
  activeRequests := 0
  peakActiveRequests := 1
  openTCP := 1
  peakOpenTCP := 1
  connectionAcquireNS := 1000
  waitingForConnection := 0
  maxConnsPerHost := 0
  maxIdleConnsPerHost := 2
  protocols := [("HTTP/1.1", 1)]
  errors := []
  tcpTrackingStatus := .transportOwned

/-- The only request is offered, sent, answered and recorded; then `observation` happens. -/
def soleActions (reply : Reply) (observation : List Action) (rows : List TableRow) : List Action :=
  ([.schedule, .schedule, .schedule, .schedule, .take 0, .begin 0, .advance 2000000,
    .reply 0 [soleID] reply, .deliver 0, .exit 0, .closeResults, .onResult, .onResult] :
      List Action) ++ observation ++
  ([.advance 1000000000, .onTimer, .leave, .leave, .leave, .observerExit, .leave, .leave,
    .close soleConnections 1 none, .verify rows none] : List Action)

def soleRow : TableRow where
  id := soleID
  eventType := soleSetup.eventType
  occurredAt := occurrence 0
  payload := (soleSetup.expected.map (·.payload)).flatten
  receivedAt := 1000

/-- The acknowledged event is stored and observed. -/
def deliveredActions : List Action :=
  soleActions (.answered 202 (some [soleID]))
    [.store soleRow, .onTick, .observerTake, .observerStart,
      .observed [⟨soleID, 1000, some 5000⟩] none, .observerPush, .onObservation] [soleRow]

def rejectedActions : List Action := soleActions (.answered 429 none) [] []

theorem audit_accepts_delivered :
    ∃ p ∈ Sample.recordedRun solePlatform soleSetup deliveredActions,
      p.1.correct = true ∧ p.1.deliveryStatus = .passed ∧ p.1.loadStatus ≠ .aborted ∧
      Audit.transport p.1.connections soleCase p.1.requestSamples = .ok () ∧
      Audit.pipeline solePlatform p.1 (population solePlatform soleCase p.1 (ascii ['s']) 1) soleCase =
        .ok () := by
  have hrun : ∃ p ∈ Sample.recordedRun solePlatform soleSetup deliveredActions,
      p.1.correct = true ∧ p.1.deliveryStatus = .passed ∧ p.1.loadStatus ≠ .aborted ∧
      Audit.transport p.1.connections soleCase p.1.requestSamples = .ok () := by
    decide +kernel
  obtain ⟨⟨r, e⟩, hr, hcorrect, hdelivery, hload, htransport⟩ := hrun
  refine ⟨(r, e), hr, hcorrect, hdelivery, hload, htransport, ?_⟩
  rw [audit_accepts_iff_sampled (by decide) repeats_soleSetup hr hdelivery hload htransport]
  refine ⟨⟨0, [soleID], by simp [deliveredActions, soleActions]⟩, ?_⟩
  exact ⟨[], ⟨soleID, 1000, some 5000⟩, [], rfl, by simp, 5000, rfl, by decide⟩

/-- The only request is rejected and nothing is stored: the delivery is verified and correct, and
its audit fails. -/
theorem audit_refuses_rejected :
    soleSetup.ids.Nodup ∧ Repeats solePlatform soleCase (ascii ['s']) 1 soleSetup ∧
    ∃ p ∈ Sample.recordedRun solePlatform soleSetup rejectedActions,
      p.1.correct = true ∧ p.1.deliveryStatus = .passed ∧ p.1.loadStatus ≠ .aborted ∧
      Audit.transport p.1.connections soleCase p.1.requestSamples = .ok () ∧
      Audit.pipeline solePlatform p.1 (population solePlatform soleCase p.1 (ascii ['s']) 1) soleCase =
        .error (.audit "ACK samples differ from requests") :=
  ⟨by decide, repeats_soleSetup, by decide +kernel⟩

end IngestKit.Benchmark
