import IngestKit.Benchmark.Invariant

/-! The control state of the main goroutine: what it knows when it leaves each of its loops. -/
namespace IngestKit.Benchmark
open Event

namespace Phase

/-- The accounting loop is over. -/
def past : Phase → Bool
  | .accounting => false
  | _ => true

/-- The drain loop is over. -/
def settled : Phase → Bool
  | .accounting | .draining _ => false
  | _ => true

end Phase

/-- Fields of the run that neither replies nor observations change. -/
structure Fixed (x : Setup) (r : PipelineRun) : Prop where
  repetition : r.repetition = x.repetition
  planned : r.planned = x.ids.length
  windowNS : r.windowNS = x.config.duration
  contentMismatch : r.contentMismatch = 0
  visibilityMetric : r.visibilityMetric = none

def Loop.control (l : Loop) :=
  (l.result, l.windowElapsed, l.workersDone, l.run.loadStatus, l.run.generatorMissed,
    l.run.repetition, l.run.planned, l.run.windowNS, l.run.contentMismatch, l.run.visibilityMetric)

structure Control (x : Setup) (s : Sample) : Prop where
  status : s.loop.run.loadStatus = if s.loop.result.isSome then .aborted else .none
  window : s.loop.windowElapsed = true → s.loop.result = none → x.windowEnd ≤ s.now
  workers : s.loop.workersDone = true → s.resultsClosed = true ∧ s.results = []
  fixed : Fixed x s.loop.run
  past : s.phase.past = true → s.loop.windowElapsed = true ∧ s.loop.workersDone = true ∧
    s.loop.run.generatorMissed = s.scheduler.missed ∧ s.scheduler.phase = .done
  settled : s.phase.settled = true → s.loop.result = none → s.loop.observationError = none →
    s.loop.unseenAccepted = false

section Step
variable {P : Platform} {x : Setup} {trace : List Action} {a : Action} {vs : List SendResult}
  {s t : Sample}

theorem control_recordRows (finished : ℤ) (rows : List StoredObservation) (l : Loop) :
    (rows.foldl (Loop.recordRow finished) l).control = l.control ∧
      (rows.foldl (Loop.recordRow finished) l).acceptedAt = l.acceptedAt ∧
      ((rows.foldl (Loop.recordRow finished) l).observationError = none →
        l.observationError = none) ∧ l.seen ⊆ (rows.foldl (Loop.recordRow finished) l).seen := by
  induction rows generalizing l with
  | nil => exact ⟨rfl, rfl, fun h => h, fun _ h => h⟩
  | cons o rows ih =>
    obtain ⟨i1, i2, i3, i4⟩ := ih (l.recordRow finished o)
    have hone : (l.recordRow finished o).control = l.control ∧
        (l.recordRow finished o).acceptedAt = l.acceptedAt ∧
        ((l.recordRow finished o).observationError = none → l.observationError = none) ∧
        l.seen ⊆ (l.recordRow finished o).seen := by
      unfold Loop.recordRow
      dsimp only
      split_ifs
      · exact ⟨rfl, rfl, fun h => h, fun _ h => h⟩
      · exact ⟨rfl, rfl, by simp, List.subset_append_left _ _⟩
      · exact ⟨rfl, rfl, fun h => h, List.subset_append_left _ _⟩
    obtain ⟨h1, h2, h3, h4⟩ := hone
    exact ⟨i1.trans h1, i2.trans h2, fun e => h3 (i3 e), fun _ hm => i4 (h4 hm)⟩

/-- An observation leaves the control state alone, and no event becomes unseen by it. -/
theorem control_recordObservation (c : PipelineConfig) (started : ℤ) (v : ObservationResult)
    (b : Bool) (l : Loop) :
    let m := l.recordObservation c started v b
    m.control = l.control ∧ (m.observationError = none → l.observationError = none) ∧
      (l.unseenAccepted = false → m.unseenAccepted = false) := by
  obtain ⟨h1, h2, h3, h4⟩ := control_recordRows v.finished v.rows (l.recordQuery c v b)
  refine ⟨h1, fun e => ?_, fun hu => ?_⟩
  · have hq := h3 e
    unfold Loop.recordQuery at hq
    dsimp only at hq
    split_ifs at hq with hv
    · simp [hq] at hv
    · exact hq
  · simp only [Loop.unseenAccepted, List.any_eq_false, decide_eq_true_eq, not_not] at hu ⊢
    intro p hp
    exact h4 (hu p (h2 ▸ hp))

theorem control_recordRequest (started windowEnd : ℤ) (v : SendResult) (l : Loop) :
    (l.recordRequest started windowEnd v).control = l.control := by
  unfold Loop.recordRequest
  split_ifs <;> rfl

theorem control_start (x : Setup) : Control x (Sample.start x) where
  status := rfl
  window := by simp [Sample.start]
  workers := by simp [Sample.start]
  fixed := ⟨rfl, rfl, rfl, rfl, rfl⟩
  past := by simp [Sample.start, Phase.past]
  settled := by simp [Sample.start, Phase.settled]

/-- A step that stays in its phase. -/
theorem Control.frame (h : Control x s) (hctl : t.loop.control = s.loop.control)
    (hnow : s.now ≤ t.now) (hphase : t.phase = s.phase)
    (hworkers : s.loop.workersDone = true → t.resultsClosed = true ∧ t.results = [])
    (hsched : s.scheduler.phase = .done → t.scheduler = s.scheduler)
    (hseen : s.phase.settled = true → (t.loop.observationError = none →
      s.loop.observationError = none) ∧
        (s.loop.unseenAccepted = false → t.loop.unseenAccepted = false)) : Control x t := by
  simp only [Loop.control, Prod.mk.injEq] at hctl
  obtain ⟨c1, c2, c3, c4, c5, c6, c7, c8, c9, c10⟩ := hctl
  refine ⟨?_, ?_, ?_, ?_, ?_, ?_⟩
  · rw [c1, c4]
    exact h.status
  · rw [c1, c2]
    exact fun hw hr => (h.window hw hr).trans hnow
  · rw [c3]
    exact hworkers
  · obtain ⟨f1, f2, f3, f4, f5⟩ := h.fixed
    exact ⟨c6.trans f1, c7.trans f2, c8.trans f3, c9.trans f4, c10.trans f5⟩
  · rw [hphase, c2, c3, c5]
    intro hp
    obtain ⟨p1, p2, p3, p4⟩ := h.past hp
    rw [hsched p4]
    exact ⟨p1, p2, p3, p4⟩
  · rw [hphase, c1]
    intro hp hr he
    obtain ⟨e1, e2⟩ := hseen hp
    exact e2 (h.settled hp hr (e1 he))

private theorem Control.request (h : Control x s) (hs : s.requestObservation = some t) :
    Control x t := by
  unfold Sample.requestObservation at hs
  split_ifs at hs <;> cases hs
  · exact h
  · exact ⟨h.status, h.window, h.workers, h.fixed, h.past, h.settled⟩

private theorem Fixed.aborted {r : PipelineRun} (h : Fixed x r) :
    Fixed x { r with loadStatus := .aborted } := ⟨h.1, h.2, h.3, h.4, h.5⟩

private theorem Control.onCancel (h : Control x s) (hs : s.onCancel = some t) : Control x t := by
  unfold Sample.onCancel at hs
  split at hs
  next hp _ _ =>
    split_ifs at hs
    cases hs
    exact ⟨rfl, by simp [Sample.abort], h.workers, h.fixed.aborted,
      by simp [Sample.abort, hp, Phase.past], by simp [Sample.abort, hp, Phase.settled]⟩
  next hp _ _ =>
    cases hs
    exact ⟨rfl, by simp [Sample.abort], h.workers, h.fixed.aborted, h.past, by simp [Sample.abort]⟩
  next => cases hs

private theorem Control.onTimer (h : Control x s) (hs : s.onTimer x = some t) : Control x t := by
  unfold Sample.onTimer at hs
  split at hs
  next hp _ =>
    split_ifs at hs with hw
    cases hs
    exact ⟨h.status, fun _ _ => hw, h.workers, h.fixed, by simp [hp, Phase.past],
      by simp [hp, Phase.settled]⟩
  next since hp _ =>
    dsimp only at hs
    obtain ⟨p1, p2, p3, p4⟩ := h.past (by simp [hp, Phase.past])
    split_ifs at hs with hd hu <;> cases hs
    · exact ⟨h.status, h.window, h.workers, h.fixed, fun _ => ⟨p1, p2, p3, p4⟩, by simp⟩
    · refine ⟨h.status, h.window, h.workers, h.fixed, fun _ => ⟨p1, p2, p3, p4⟩, fun _ _ _ => ?_⟩
      simpa [Loop.unseenAccepted] using hu
  next => cases hs

private theorem Control.onTick (h : Control x s) (hs : s.onTick x = some t) : Control x t := by
  unfold Sample.onTick at hs
  split at hs
  next =>
    split_ifs at hs
    · exact h.request hs
    · cases hs
      exact h
  next => exact h.request hs
  next => cases hs

private theorem Control.startDrain (h : Control x s) (hp : s.phase = .accounting)
    (hsel : s.selecting = false) (hs : s.startDrain x = some t) : Control x t := by
  have hloop : s.loop.windowElapsed = true ∧ s.loop.workersDone = true := by
    simpa [Sample.selecting, hp] using hsel
  unfold Sample.startDrain at hs
  dsimp only at hs
  split_ifs at hs with hdone
  · refine Control.request ?_ hs
    exact ⟨h.status, h.window, h.workers, ⟨h.fixed.1, h.fixed.2, h.fixed.3, h.fixed.4, h.fixed.5⟩,
      fun _ => ⟨hloop.1, hloop.2, rfl, hdone⟩, by simp [Phase.settled]⟩
  · cases hs
    exact ⟨h.status, h.window, h.workers, ⟨h.fixed.1, h.fixed.2, h.fixed.3, h.fixed.4, h.fixed.5⟩,
      fun _ => ⟨hloop.1, hloop.2, rfl, hdone⟩, by simp [Phase.settled]⟩

private theorem Control.leave (h : Control x s) (hs : s.leave P x = some t) : Control x t := by
  unfold Sample.leave at hs
  split at hs
  next hp =>
    split_ifs at hs with hsel
    exact h.startDrain hp (by simpa using hsel) hs
  next since hp =>
    split_ifs at hs with hsel
    cases hs
    refine ⟨h.status, h.window, h.workers, h.fixed, fun _ => h.past (by simp [hp, Phase.past]),
      fun _ (hr : s.loop.result = none) (he : s.loop.observationError = none) => ?_⟩
    have hneeds : s.loop.needsObservation = false := by
      simpa [Sample.selecting, hp, hr, he] using hsel
    exact (Bool.or_eq_false_iff.mp hneeds).1
  next hp =>
    cases hs
    exact ⟨h.status, h.window, h.workers, h.fixed, fun _ => h.past (by simp [hp, Phase.past]),
      fun _ => h.settled (by simp [hp, Phase.settled])⟩
  next b hp =>
    split at hs <;> cases hs
    exact ⟨h.status, h.window, h.workers, h.fixed, fun _ => h.past (by simp [hp, Phase.past]),
      fun _ => h.settled (by simp [hp, Phase.settled])⟩
  next b hp =>
    split at hs <;> cases hs
    exact ⟨h.status, h.window, h.workers, h.fixed, fun _ => h.past (by simp [hp, Phase.past]),
      fun _ => h.settled (by simp [hp, Phase.settled])⟩
  next => cases hs

theorem Control.step (h : Control x s) (hload : Load x trace vs s)
    (hs : s.step P x a = some t) : Control x t := by
  have hobserver : a.isObserver = true → Control x t := fun ha => by
    obtain ⟨h1, -, h3, h4, h5, -⟩ := observerOnly_step ha hs
    simp only [Sample.load, Prod.mk.injEq] at h3
    refine h.frame (h4 ▸ rfl) h1.ge h5 ?_ (fun _ => h3.1) fun _ => ?_
    · rw [h3.2.2.2.1, h3.2.2.2.2]
      exact h.workers
    · rw [h4]
      exact ⟨fun e => e, fun e => e⟩
  have hloadOnly : a.isLoad = true → Control x t := fun ha => by
    obtain ⟨h1, -, -, h4, h5, h6, h7, h8⟩ := loadOnly_step ha hs
    refine h.frame (h4 ▸ rfl) h1.ge h5 (fun hw => ?_) h6 fun _ => ?_
    · obtain ⟨hc, hr⟩ := h.workers hw
      exact ⟨h8 hc, (h7 (hload.closed hc)).trans hr⟩
    · rw [h4]
      exact ⟨fun e => e, fun e => e⟩
  cases a with
  | advance ns =>
    cases hs
    exact h.frame (t := { s with now := s.now + ns }) rfl (by simp) rfl h.workers (fun _ => rfl)
      fun _ => ⟨fun e => e, fun e => e⟩
  | cancel cause =>
    cases hs
    exact ⟨h.status, h.window, h.workers, h.fixed, h.past, h.settled⟩
  | store row =>
    simp only [Sample.step] at hs
    split_ifs at hs
    cases hs
    exact ⟨h.status, h.window, h.workers, h.fixed, h.past, h.settled⟩
  | onResult =>
    simp only [Sample.step, Sample.onResult] at hs
    split at hs
    next v results hp hsel hr =>
      cases hs
      have hdone : s.loop.workersDone = false := by
        simpa using (Bool.and_eq_true_iff.mp hsel).2
      exact h.frame (t := { s with
        results := results, loop := s.loop.recordRequest x.started x.windowEnd v })
        (control_recordRequest _ _ v s.loop) le_rfl rfl (by simp [hdone]) (fun _ => rfl)
        (by simp [hp, Phase.settled])
    next hp hsel hr =>
      split_ifs at hs with hc
      cases hs
      exact ⟨h.status, h.window, fun _ => ⟨hc, hr⟩, h.fixed, by simp [hp, Phase.past],
        by simp [hp, Phase.settled]⟩
    next => cases hs
  | onObservation =>
    rcases onObservation_cases hs with ⟨b, v, rest, -, -, rfl⟩ | ⟨-, rfl⟩
    · obtain ⟨h1, h2, h3⟩ := control_recordObservation x.config x.started v b s.loop
      exact h.frame (t := s.record x b v rest) h1 le_rfl rfl h.workers (fun _ => rfl)
        fun _ => ⟨h2, h3⟩
    · exact ⟨h.status, h.window, h.workers, h.fixed, h.past, h.settled⟩
  | onCancel => exact h.onCancel hs
  | onTimer => exact h.onTimer hs
  | onTick => exact h.onTick hs
  | leave => exact h.leave hs
  | close connections queries err =>
    simp only [Sample.step, Sample.close] at hs
    split at hs
    next r e hp =>
      cases hs
      exact ⟨h.status, h.window, h.workers, h.fixed, fun _ => h.past (by simp [hp, Phase.past]),
        fun _ => h.settled (by simp [hp, Phase.settled])⟩
    next => cases hs
  | verify rows err =>
    simp only [Sample.step, Sample.verify] at hs
    split at hs
    next hp =>
      split_ifs at hs
      cases hs
      exact ⟨h.status, h.window, h.workers, h.fixed, fun _ => h.past (by simp [hp, Phase.past]),
        fun _ => h.settled (by simp [hp, Phase.settled])⟩
    next => cases hs
  | observerTake => exact hobserver rfl
  | observerStart => exact hobserver rfl
  | observed new err => exact hobserver rfl
  | observerPush => exact hobserver rfl
  | observerExit => exact hobserver rfl
  | schedule => exact hloadOnly rfl
  | abandonSchedule => exact hloadOnly rfl
  | take w => exact hloadOnly rfl
  | begin w => exact hloadOnly rfl
  | reply w job r => exact hloadOnly rfl
  | deliver w => exact hloadOnly rfl
  | exit w => exact hloadOnly rfl
  | closeResults => exact hloadOnly rfl

end Step

end IngestKit.Benchmark
