import IngestKit.Benchmark.Load
import IngestKit.Benchmark.Observation

/-! One step of a repetition, seen from the load and from the observations, and what holds of the
main goroutine's control state in every run. -/
namespace IngestKit.Benchmark
open Event Transition

/-- A step that moves neither load nor observations. -/
structure Quiet (s t : Sample) : Prop where
  load : t.load = s.load
  now : s.now ≤ t.now
  table : s.table ⊆ t.table
  requests : t.loop.requests = s.loop.requests
  observations : t.loop.observations = s.loop.observations
  observationError : t.loop.observationError = none → s.loop.observationError = none
  observationsOpen : t.loop.observationsOpen = s.loop.observationsOpen
  phase : t.observer.phase = s.observer.phase
  results : t.observer.results = s.observer.results

section Quiet
variable {P : Platform} {x : Setup} {s t : Sample}

theorem Quiet.refl (s : Sample) : Quiet s s :=
  ⟨rfl, le_rfl, fun _ h => h, rfl, rfl, fun h => h, rfl, rfl, rfl⟩

theorem quiet_requestObservation (hs : s.requestObservation = some t) : Quiet s t := by
  unfold Sample.requestObservation at hs
  split_ifs at hs <;> cases hs
  · exact .refl s
  · exact ⟨rfl, le_rfl, fun _ h => h, rfl, rfl, fun h => h, rfl, rfl, rfl⟩

theorem quiet_onCancel (hs : s.onCancel = some t) : Quiet s t := by
  unfold Sample.onCancel at hs
  split at hs
  next =>
    split_ifs at hs
    cases hs
    exact ⟨rfl, le_rfl, fun _ h => h, rfl, rfl, fun h => h, rfl, rfl, rfl⟩
  next =>
    cases hs
    exact ⟨rfl, le_rfl, fun _ h => h, rfl, rfl, fun h => h, rfl, rfl, rfl⟩
  next => cases hs

theorem quiet_onTimer (hs : s.onTimer x = some t) : Quiet s t := by
  unfold Sample.onTimer at hs
  split at hs
  next =>
    split_ifs at hs
    cases hs
    exact ⟨rfl, le_rfl, fun _ h => h, rfl, rfl, fun h => h, rfl, rfl, rfl⟩
  next since _ _ =>
    dsimp only at hs
    split_ifs at hs with h1 h2 <;> cases hs
    · exact ⟨rfl, le_rfl, fun _ h => h, rfl, rfl, by simp, rfl, rfl, rfl⟩
    · exact ⟨rfl, le_rfl, fun _ h => h, rfl, rfl, fun h => h, rfl, rfl, rfl⟩
  next => cases hs

theorem quiet_onTick (hs : s.onTick x = some t) : Quiet s t := by
  unfold Sample.onTick at hs
  split at hs
  next =>
    split_ifs at hs
    · exact quiet_requestObservation hs
    · cases hs
      exact .refl s
  next => exact quiet_requestObservation hs
  next => cases hs

theorem quiet_startDrain (hs : s.startDrain x = some t) : Quiet s t := by
  unfold Sample.startDrain at hs
  dsimp only at hs
  split_ifs at hs
  · have hq := quiet_requestObservation hs
    exact ⟨hq.load, hq.now, hq.table, hq.requests, hq.observations, hq.observationError,
      hq.observationsOpen, hq.phase, hq.results⟩
  · cases hs
    exact ⟨rfl, le_rfl, fun _ h => h, rfl, rfl, fun h => h, rfl, rfl, rfl⟩

theorem quiet_leave (hs : s.leave P x = some t) : Quiet s t := by
  unfold Sample.leave at hs
  split at hs
  next =>
    split_ifs at hs
    exact quiet_startDrain hs
  next =>
    split_ifs at hs
    cases hs
    exact ⟨rfl, le_rfl, fun _ h => h, rfl, rfl, fun h => h, rfl, rfl, rfl⟩
  next =>
    cases hs
    exact ⟨rfl, le_rfl, fun _ h => h, rfl, rfl, fun h => h, rfl, rfl, rfl⟩
  next =>
    split at hs <;> cases hs
    exact ⟨rfl, le_rfl, fun _ h => h, rfl, rfl, fun h => h, rfl, rfl, rfl⟩
  next =>
    split at hs <;> cases hs
    exact ⟨rfl, le_rfl, fun _ h => h, rfl, rfl, fun h => h, rfl, rfl, rfl⟩
  next => cases hs

theorem quiet_close {connections : ConnectionSnapshot} {queries : ℕ} {err : Option GoError}
    (hs : s.close connections queries err = some t) : Quiet s t := by
  unfold Sample.close at hs
  split at hs <;> cases hs
  exact ⟨rfl, le_rfl, fun _ h => h, rfl, rfl, fun h => h, rfl, rfl, rfl⟩

theorem quiet_verify {rows : List TableRow} {err : Option GoError}
    (hs : s.verify P x rows err = some t) : Quiet s t := by
  unfold Sample.verify at hs
  split at hs
  next =>
    split_ifs at hs
    cases hs
    exact ⟨rfl, le_rfl, fun _ h => h, rfl, rfl, fun h => h, rfl, rfl, rfl⟩
  next => cases hs

/-- The actions of the environment and of the main goroutine, except for reading a channel. -/
def Action.isQuiet : Action → Bool
  | .advance _ | .cancel _ | .store _ | .onCancel | .onTimer | .onTick | .leave | .close _ _ _
  | .verify _ _ => true
  | _ => false

theorem quiet_step {a : Action} (ha : a.isQuiet = true) (hs : s.step P x a = some t) :
    Quiet s t := by
  cases a with
  | advance ns =>
    cases hs
    exact ⟨rfl, by simp, fun _ h => h, rfl, rfl, fun h => h, rfl, rfl, rfl⟩
  | cancel cause =>
    cases hs
    exact ⟨rfl, le_rfl, fun _ h => h, rfl, rfl, fun h => h, rfl, rfl, rfl⟩
  | store row =>
    simp only [Sample.step] at hs
    split_ifs at hs
    cases hs
    exact ⟨rfl, le_rfl, List.subset_append_left _ _, rfl, rfl, fun h => h, rfl, rfl, rfl⟩
  | onCancel => exact quiet_onCancel hs
  | onTimer => exact quiet_onTimer hs
  | onTick => exact quiet_onTick hs
  | leave => exact quiet_leave hs
  | close connections queries err => exact quiet_close hs
  | verify rows err => exact quiet_verify hs
  | _ => cases ha

end Quiet

section Step
variable {P : Platform} {x : Setup} {trace : List Action} {a : Action} {vs : List SendResult}
  {rows : List StoredObservation} {s t : Sample}

theorem requests_recordRows (finished : ℤ) (rows : List StoredObservation) (l : Loop) :
    (rows.foldl (Loop.recordRow finished) l).requests = l.requests := by
  induction rows generalizing l with
  | nil => rfl
  | cons o rows ih =>
    rw [List.foldl_cons, ih]
    unfold Loop.recordRow
    dsimp only
    split_ifs <;> rfl

theorem requests_recordObservation (c : PipelineConfig) (started : ℤ) (v : ObservationResult)
    (b : Bool) (l : Loop) : (l.recordObservation c started v b).requests = l.requests :=
  requests_recordRows v.finished v.rows (l.recordQuery c v b)

/-- The actions of the observer. -/
def Action.isObserver : Action → Bool
  | .observerTake | .observerStart | .observed _ _ | .observerPush | .observerExit => true
  | _ => false

/-- The observer only changes its own state, and takes no step after it has exited. -/
structure ObserverOnly (s t : Sample) : Prop where
  now : t.now = s.now
  table : t.table = s.table
  load : t.load = s.load
  loop : t.loop = s.loop
  phase : t.phase = s.phase
  running : s.observer.phase ≠ .exited

theorem observerOnly_step (ha : a.isObserver = true) (hs : s.step P x a = some t) :
    ObserverOnly s t := by
  cases a with
  | observerTake =>
    simp only [Sample.step, Sample.observerTake] at hs
    split at hs
    next hp _ =>
      cases hs
      exact ⟨rfl, rfl, rfl, rfl, rfl, by simp [hp]⟩
    next => cases hs
  | observerStart =>
    simp only [Sample.step, Sample.observerStart] at hs
    split at hs
    next hp =>
      split_ifs at hs
      cases hs
      exact ⟨rfl, rfl, rfl, rfl, rfl, by simp [hp]⟩
    next => cases hs
  | observed new err =>
    simp only [Sample.step, Sample.observed] at hs
    split at hs
    next hp =>
      split_ifs at hs
      cases hs
      exact ⟨rfl, rfl, rfl, rfl, rfl, by simp [hp]⟩
    next => cases hs
  | observerPush =>
    simp only [Sample.step, Sample.observerPush] at hs
    split at hs
    next hp _ =>
      cases hs
      exact ⟨rfl, rfl, rfl, rfl, rfl, by simp [hp]⟩
    next => cases hs
  | observerExit =>
    simp only [Sample.step, Sample.observerExit] at hs
    split at hs
    case h_3 => cases hs
    all_goals
      next hp =>
        split_ifs at hs
        cases hs
        exact ⟨rfl, rfl, rfl, rfl, rfl, by simp [hp]⟩
  | _ => cases ha

/-- The main goroutine reads an observation, or sees that there will be no more. -/
theorem onObservation_cases (hs : s.onObservation x = some t) :
    (∃ b v rest, s.observer.results = v :: rest ∧ (s.selecting = true ∨ s.phase = .collecting b) ∧
      t = s.record x b v rest) ∨
    (s.selecting = true ∧ t = { s with loop := { s.loop with observationsOpen := false } }) := by
  unfold Sample.onObservation at hs
  split at hs
  next b hp =>
    split at hs
    next v rest _ hr =>
      cases hs
      exact Or.inl ⟨b, v, rest, hr, Or.inr hp, rfl⟩
    next => cases hs
  next =>
    split at hs
    next hsel =>
      split at hs
      next v rest hr =>
        cases hs
        exact Or.inl ⟨false, v, rest, hr, Or.inl hsel.1, rfl⟩
      next =>
        cases hs
        exact Or.inr ⟨hsel.1, rfl⟩
      next => cases hs
    next => cases hs

theorem Load.step (h : Load x trace vs s) (hs : s.step P x a = some t) :
    ∃ vs', Load x (trace ++ [a]) vs' t := by
  have hquiet : a.isQuiet = true → Load x (trace ++ [a]) vs t := fun ha => by
    have hq := quiet_step ha hs
    exact h.frame hq.load hq.now hq.requests (by rintro w job r rfl; cases ha)
  have hobserver : a.isObserver = true → Load x (trace ++ [a]) vs t := fun ha => by
    have ho := observerOnly_step ha hs
    exact h.frame ho.load ho.now.ge (ho.loop ▸ rfl) (by rintro w job r rfl; cases ha)
  cases a with
  | schedule => exact ⟨vs, h.schedule hs⟩
  | abandonSchedule => exact ⟨vs, h.abandonSchedule hs⟩
  | take w => exact ⟨vs, h.take hs⟩
  | begin w => exact ⟨vs, h.begin hs⟩
  | reply w job r => exact ⟨vs, h.reply hs⟩
  | deliver w => exact ⟨vs, h.deliver hs⟩
  | exit w => exact ⟨vs, h.exit hs⟩
  | closeResults => exact ⟨vs, h.closeResults hs⟩
  | onResult => exact h.onResult hs
  | observerTake => exact ⟨vs, hobserver rfl⟩
  | observerStart => exact ⟨vs, hobserver rfl⟩
  | observed new err => exact ⟨vs, hobserver rfl⟩
  | observerPush => exact ⟨vs, hobserver rfl⟩
  | observerExit => exact ⟨vs, hobserver rfl⟩
  | onObservation =>
    rcases onObservation_cases hs with ⟨b, v, rest, -, -, rfl⟩ | ⟨-, rfl⟩
    · exact ⟨vs, h.frame (t := s.record x b v rest) rfl le_rfl
        (requests_recordObservation _ _ v b s.loop) (by simp)⟩
    · exact ⟨vs, h.frame (t := { s with loop := { s.loop with observationsOpen := false } }) rfl
        le_rfl rfl (by simp)⟩
  | _ => exact ⟨vs, hquiet rfl⟩

/-- The actions of the scheduler and the workers. -/
def Action.isLoad : Action → Bool
  | .schedule | .abandonSchedule | .take _ | .begin _ | .reply _ _ _ | .deliver _ | .exit _
  | .closeResults => true
  | _ => false

/-- The scheduler and the workers only touch the load; a finished scheduler stays as it is, and
results only grow by replies of workers that have not exited. -/
structure LoadOnly (s t : Sample) : Prop where
  now : t.now = s.now
  table : t.table = s.table
  observer : t.observer = s.observer
  loop : t.loop = s.loop
  phase : t.phase = s.phase
  scheduler : s.scheduler.phase = .done → t.scheduler = s.scheduler
  results : (∀ w ∈ s.workers, w = .exited) → t.results = s.results
  closed : s.resultsClosed = true → t.resultsClosed = true

theorem schedule_loadOnly (hs : s.schedule x = some t) : LoadOnly s t := by
  cases hp : s.scheduler.phase <;> simp only [Sample.schedule, hp] at hs
  case done => cases hs
  all_goals try split_ifs at hs
  all_goals
    cases hs
    exact ⟨rfl, rfl, rfl, rfl, rfl, by simp [hp], fun _ => rfl, fun h => h⟩

theorem loadOnly_step (ha : a.isLoad = true) (hs : s.step P x a = some t) : LoadOnly s t := by
  cases a with
  | schedule => exact schedule_loadOnly hs
  | abandonSchedule =>
    simp only [Sample.step, Sample.abandonSchedule] at hs
    split_ifs at hs with hp
    cases hs
    exact ⟨rfl, rfl, rfl, rfl, rfl, by simp [hp.1], fun _ => rfl, fun h => h⟩
  | take w =>
    simp only [Sample.step, Sample.take] at hs
    split at hs <;> cases hs
    exact ⟨rfl, rfl, rfl, rfl, rfl, fun _ => rfl, fun _ => rfl, fun h => h⟩
  | begin w =>
    simp only [Sample.step, Sample.begin] at hs
    split at hs <;> cases hs
    exact ⟨rfl, rfl, rfl, rfl, rfl, fun _ => rfl, fun _ => rfl, fun h => h⟩
  | reply w job r =>
    simp only [Sample.step, Sample.reply] at hs
    split at hs
    · split_ifs at hs
      cases hs
      exact ⟨rfl, rfl, rfl, rfl, rfl, fun _ => rfl, fun _ => rfl, fun h => h⟩
    · cases hs
  | deliver w =>
    simp only [Sample.step, Sample.deliver] at hs
    split at hs
    next v hw =>
      split_ifs at hs
      cases hs
      refine ⟨rfl, rfl, rfl, rfl, rfl, fun _ => rfl, fun hall => ?_, fun h => h⟩
      exact absurd (hall _ (List.mem_of_getElem? hw)) (by simp)
    next => cases hs
  | exit w =>
    simp only [Sample.step, Sample.exit] at hs
    split at hs
    · split_ifs at hs
      cases hs
      exact ⟨rfl, rfl, rfl, rfl, rfl, fun _ => rfl, fun _ => rfl, fun h => h⟩
    · cases hs
  | closeResults =>
    simp only [Sample.step, Sample.closeResults] at hs
    split_ifs at hs
    cases hs
    exact ⟨rfl, rfl, rfl, rfl, rfl, fun _ => rfl, fun _ => rfl, fun _ => rfl⟩
  | _ => cases ha

theorem observations_recordRequest (started windowEnd : ℤ) (v : SendResult) (l : Loop) :
    (l.recordRequest started windowEnd v).observations = l.observations ∧
      (l.recordRequest started windowEnd v).observationError = l.observationError ∧
      (l.recordRequest started windowEnd v).observationsOpen = l.observationsOpen := by
  unfold Loop.recordRequest
  split_ifs <;> exact ⟨rfl, rfl, rfl⟩

theorem Observing.step (h : Observing x trace rows s) (hs : s.step P x a = some t) :
    ∃ rows', Observing x (trace ++ [a]) rows' t := by
  have hquiet : a.isQuiet = true → Observing x (trace ++ [a]) rows t := fun ha => by
    obtain ⟨-, h2, h3, -, h5, h6, h7, h8, h9⟩ := quiet_step ha hs
    exact h.frame h2 h5 h6 h3 (by rw [Sample.unread, Sample.unread, h8, h9])
      (fun hc => by rw [h8, h9]; exact h.closed (h7 ▸ hc)) (by rintro rows err rfl; cases ha)
  have hload : a.isLoad = true → Observing x (trace ++ [a]) rows t := fun ha => by
    obtain ⟨h1, h2, h3, h4, -, -, -, -⟩ := loadOnly_step ha hs
    exact h.frame h1.ge (h4 ▸ rfl) (h4 ▸ fun e => e) (h2 ▸ fun _ hr => hr)
      (by rw [Sample.unread, Sample.unread, h3]) (by rw [h4, h3]; exact h.closed)
      (by rintro rows err rfl; cases ha)
  cases a with
  | observerTake => exact ⟨rows, h.observerTake hs⟩
  | observerStart => exact ⟨rows, h.observerStart hs⟩
  | observed new err => exact ⟨rows, h.query hs⟩
  | observerPush => exact ⟨rows, h.observerPush hs⟩
  | observerExit => exact ⟨rows, h.observerExit hs⟩
  | onObservation => exact h.onObservation hs
  | onResult =>
    simp only [Sample.step, Sample.onResult] at hs
    split at hs
    next v results _ _ _ =>
      cases hs
      obtain ⟨h1, h2, h3⟩ := observations_recordRequest x.started x.windowEnd v s.loop
      exact ⟨rows, h.frame (t := { s with
        results := results, loop := s.loop.recordRequest x.started x.windowEnd v }) le_rfl h1
        (h2 ▸ fun e => e) (fun _ hr => hr) rfl (fun hc => h.closed (h3 ▸ hc)) (by simp)⟩
    next =>
      split_ifs at hs
      cases hs
      exact ⟨rows, h.frame (t := { s with loop := { s.loop with workersDone := true } }) le_rfl rfl
        (fun e => e) (fun _ hr => hr) rfl h.closed (by simp)⟩
    next => cases hs
  | schedule => exact ⟨rows, hload rfl⟩
  | abandonSchedule => exact ⟨rows, hload rfl⟩
  | take w => exact ⟨rows, hload rfl⟩
  | begin w => exact ⟨rows, hload rfl⟩
  | reply w job r => exact ⟨rows, hload rfl⟩
  | deliver w => exact ⟨rows, hload rfl⟩
  | exit w => exact ⟨rows, hload rfl⟩
  | closeResults => exact ⟨rows, hload rfl⟩
  | _ => exact ⟨rows, hquiet rfl⟩

end Step

end IngestKit.Benchmark
