import IngestKit.Benchmark.Audited
import IngestKit.Benchmark.Pipeline
import IngestKit.Benchmark.Verdict

/-! A pipeline case that a study records as done is a verified delivery. -/
namespace IngestKit.Benchmark
open Event

/-- The runs in the report of a call were returned by its repetitions in order. -/
theorem returned_of_runPipeline {P : Platform} {c : PipelineConfig} {call : PipelineCall}
    {report : PipelineReport} {err : Option GoError}
    (h : runPipeline P c call = some (report, err)) (hruns : report.runs ≠ []) :
    ∃ hc, Returned P (c.named call.fresh) hc call.repetitions err report.runs := by
  unfold runPipeline at h
  dsimp only at h
  by_cases hc : (c.named call.fresh).Valid
  · rw [dif_pos hc] at h
    refine ⟨hc, ?_⟩
    split at h
    · cases h
      exact (hruns rfl).elim
    · split at h
      · cases h
      · split_ifs at h
        · obtain ⟨⟨runs, errs⟩, hrepeat, he⟩ := Option.map_eq_some_iff.mp h
          cases he
          exact returned_of_repeatRuns hrepeat rfl rfl fun j r hr => by simp at hr
        · cases h
          exact (hruns rfl).elim
  · rw [dif_neg hc] at h
    cases h
    exact (hruns rfl).elim

/-- In a done case each run passed its delivery. -/
theorem passed_of_done {P : Platform} {c : Case} {p : PipelineConfig} {call : PipelineCall}
    {report : PipelineReport} {err : Option GoError}
    (h : runPipeline P p call = some (report, err))
    (hdone : err = none ∨ verifiedObservationOnly c (.pipeline report) err = true) :
    ∀ r ∈ report.runs, r.deliveryStatus = .passed := by
  intro r hr
  rcases hdone with herr | hverified
  · obtain ⟨j, hj⟩ := List.mem_iff_getElem?.mp hr
    obtain ⟨hc, hreturned⟩ := returned_of_runPipeline h (List.ne_nil_of_mem hr)
    obtain ⟨a, e, -, hrun, he⟩ := hreturned j r hj
    rw [he herr] at hrun
    exact passed_of_runOnce hrun
  · simp only [verifiedObservationOnly, Bool.and_eq_true, List.all_eq_true, beq_iff_eq] at hverified
    exact (hverified.2 r hr).2

/-- Run `r` is what repetition number `rep` of a call recorded when `a` happened in it: its dataset
was sampled by a list of actions with one final query, and that query verified the delivery. -/
def DeliveredBy (P : Platform) (c : PipelineConfig) (rep : ℕ) (a : Repetition) (r : PipelineRun) :
    Prop :=
  ∃ (hc : c.Valid) (expected : List Envelope) (timing : Timing) (actions : List Action)
    (finished e : Option GoError) (rows : List TableRow),
    a = .sampled timing actions finished ∧
    workload P (c.workloadConfig P rep) = .ok expected ∧
    Sample.recordedRun P (timing.setup c hc rep expected) actions = some (r, e) ∧
    finalQueries actions = [(rows, none)] ∧
    Delivered P expected r (rows.map TableRow.toStoredRow)

theorem deliveredBy_of_runOnce {P : Platform} {c : PipelineConfig} {hc : c.Valid} {rep : ℕ}
    {a : Repetition} {r : PipelineRun} {e : Option GoError}
    (h : runOnce P c hc rep a = some (r, e)) (hd : r.deliveryStatus = .passed) :
    DeliveredBy P c rep a r := by
  obtain ⟨expected, timing, actions, finished, e', ha, hexpected, hrecorded⟩ :=
    sampled_of_passed h hd
  obtain ⟨rows, hqueries, hdelivered⟩ := delivered_of_recordedRun hrecorded hd
  exact ⟨hc, expected, timing, actions, finished, e', rows, ha, hexpected, hrecorded, hqueries,
    hdelivered⟩

/-- A pipeline case that is recorded as complete or limited has one run for each repetition, and
run number `j` is a delivery that the one final query of repetition number `j` verified. -/
theorem done_case_is_delivered {P : Platform} {c : Case} {seed : ℤ} {space : Bytes}
    {call : PipelineCall} {report : PipelineReport} {err : Option GoError} {interrupted : Bool}
    (h : runPipeline P (pipelineCaseConfig c seed space) call = some (report, err))
    (hdone : doneCase (verdict c (.pipeline report) err interrupted).status = true) :
    (∀ k, (report.runs.map (·.repetition)).count k =
      if 1 ≤ k ∧ k ≤ c.repetitions then 1 else 0) ∧
    ∀ (j : ℕ) (r : PipelineRun), report.runs[j]? = some r → ∃ a, call.repetitions[j]? = some a ∧
      DeliveredBy P ((pipelineCaseConfig c seed space).named call.fresh) (j + 1) a r := by
  obtain ⟨hvalid, herr⟩ := verdict_done hdone
  obtain ⟨-, hcount⟩ := count_of_validateRuns List.nodup_nil (by simp) hvalid
  constructor
  · intro k
    have hk := hcount k
    rwa [List.nil_append, List.map_map] at hk
  · intro j r hj
    have hr : r ∈ report.runs := List.mem_iff_getElem?.mpr ⟨j, hj⟩
    have hpassed := passed_of_done h herr r hr
    obtain ⟨hc, hreturned⟩ := returned_of_runPipeline h (List.ne_nil_of_mem hr)
    obtain ⟨a, e, ha, hrun, -⟩ := hreturned j r hj
    exact ⟨a, ha, deliveredBy_of_runOnce hrun hpassed⟩

/-- The ID of `s/3/0`. -/
def secondID : UUID :=
  ⟨[41, 153, 112, 212, 96, 206, 84, 51, 132, 32, 50, 46, 114, 41, 27, 126], by decide⟩

/-- The ID of `s/4/0`. -/
def thirdID : UUID :=
  ⟨[155, 106, 45, 130, 253, 127, 94, 146, 174, 64, 92, 72, 20, 254, 149, 204], by decide⟩

/-- Digests and IDs of the texts that three repetitions of one event need. -/
def triplePlatform : Platform :=
  { solePlatform with
    sha256 := fun b =>
      if b = secondID.string then [118, 212, 200, 9, 63, 91, 121, 176, 127, 118, 34, 215, 213, 193,
        31, 141, 78, 233, 87, 145, 121, 47, 155, 83, 180, 179, 121, 140, 183, 53, 137, 21]
      else if b = thirdID.string then [177, 226, 134, 208, 165, 42, 128, 177, 195, 218, 170, 63, 49,
        76, 24, 9, 97, 24, 244, 132, 31, 221, 39, 176, 217, 217, 53, 171, 236, 71, 60, 152]
      else solePlatform.sha256 b
    uuid5 := fun name =>
      if name = eventName (ascii ['s']) 3 0 then secondID
      else if name = eventName (ascii ['s']) 4 0 then thirdID
      else soleID }

/-- The only event `v` of a repetition is acknowledged, stored, observed and found by the final
query. -/
def repetitionActions (v : Envelope) : List Action :=
  let row : TableRow := ⟨⟨v.eventID, v.eventType, v.occurredAt, v.payload⟩, 1000⟩
  [.schedule, .schedule, .schedule, .schedule, .take 0, .begin 0, .advance 2000000,
    .reply 0 [v.eventID] (.answered 202 (some [v.eventID])), .deliver 0, .exit 0, .closeResults,
    .onResult, .onResult, .store row, .onTick, .observerTake, .observerStart,
    .observed [⟨v.eventID, 1000, some 5000⟩] none, .observerPush, .onObservation,
    .advance 1000000000, .onTimer, .leave, .leave, .leave, .observerExit, .leave, .leave,
    .close soleConnections 1 none, .verify [row] none]

def tripleCall : PipelineCall where
  fresh := []
  refusal := none
  warmup := .refused (.text "")
  repetitions := [2, 3, 4].map fun seed =>
    .sampled ⟨fun _ => 0, seconds 1, 0⟩
      (repetitionActions (workloadEvent triplePlatform ⟨ascii ['s'], .fixed, seed, 1, 16, 0⟩ 0))
      none

theorem done_case_is_delivered_triple :
    ∃ p ∈ runPipeline triplePlatform (pipelineCaseConfig soleCase 1 (ascii ['s'])) tripleCall,
      doneCase (verdict soleCase (.pipeline p.1) p.2 false).status = true ∧ p.1.runs.length = 3 ∧
      ∀ (j : ℕ) (r : PipelineRun), p.1.runs[j]? = some r →
        ∃ a, tripleCall.repetitions[j]? = some a ∧ DeliveredBy triplePlatform
          ((pipelineCaseConfig soleCase 1 (ascii ['s'])).named []) (j + 1) a r := by
  have hcall : ∃ p ∈ runPipeline triplePlatform (pipelineCaseConfig soleCase 1 (ascii ['s']))
        tripleCall, doneCase (verdict soleCase (.pipeline p.1) p.2 false).status = true ∧
      p.1.runs.length = 3 := by
    decide +kernel
  obtain ⟨⟨report, err⟩, h, hdone, hlength⟩ := hcall
  exact ⟨(report, err), h, hdone, hlength, (done_case_is_delivered h hdone).2⟩

end IngestKit.Benchmark
