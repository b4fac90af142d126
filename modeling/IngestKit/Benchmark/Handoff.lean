import IngestKit.Benchmark.Audited

/-! The hand-off between the main goroutine and the observer: one request, call or result is in
circulation at a time, so that no send on their two channels ever waits. -/
namespace IngestKit.Benchmark
open Event Transition

/-- The observer is between taking a request and sending its result. -/
def ObserverPhase.busy : ObserverPhase → ℕ
  | .checking | .running _ | .holding _ => 1
  | _ => 0

/-- Queued requests, requests being served and queued results. -/
def Observer.tokens (o : Observer) : ℕ := o.requests + o.phase.busy + o.results.length

/-- The observer has been joined. -/
def Phase.joined : Phase → Bool
  | .collecting _ | .finished _ _ | .closing _ _ _ _ | .recorded _ _ => true
  | _ => false

/-- The sample has returned. -/
def Phase.ended : Phase → Bool
  | .finished _ _ | .closing _ _ _ _ | .recorded _ _ => true
  | _ => false

namespace Sample

/-- The observe call returns, with any rows and any error. -/
def observedAny (s : Sample) (rows : List StoredObservation) (err : Option GoError) :
    Option Sample :=
  match s.observer.phase with
  | .running started =>
    some { s with observer := { s.observer with phase := .holding ⟨started, s.now, rows, err⟩ } }
  | _ => none

/-- `step` with an observer whose calls may return anything. -/
def freeStep (P : Platform) (x : Setup) (s : Sample) : Action → Option Sample
  | .observed rows err => s.observedAny rows err
  | a => s.step P x a

/-- The result a step of the observer queues. -/
def queues (s : Sample) : Action → List ObservationResult
  | .observerPush => s.observer.phase.held
  | _ => []

/-- The result a step of the main goroutine records. -/
def records (s : Sample) : Action → List ObservationResult
  | .onObservation => s.observer.results.take 1
  | _ => []

end Sample

section Free
variable {P : Platform} {x : Setup} {s t : Sample} {a : Action}

theorem Sample.freeStep_of_step (h : s.step P x a = some t) : s.freeStep P x a = some t := by
  cases a with
  | observed rows err =>
    simp only [Sample.step, Sample.observed] at h
    split at h
    next started hp =>
      split_ifs at h
      simp only [Sample.freeStep, Sample.observedAny, hp]
      exact h
    next => cases h
  | _ => exact h

/-- Every run of the sample with the observer it is used with is such a run. -/
theorem execute_freeStep {trace : List Action} (h : execute (Sample.step P x) s trace = some t) :
    execute (Sample.freeStep P x) s trace = some t := by
  induction trace generalizing s with
  | nil => exact h
  | cons a trace ih =>
    obtain ⟨u, hu, ht⟩ := Option.bind_eq_some_iff.mp h
    rw [execute, Sample.freeStep_of_step hu, Option.bind_some]
    exact ih ht

end Free

/-- What of the main loop belongs to the hand-off. -/
def Loop.polled (l : Loop) := (l.inFlight, l.observationsOpen, l.run.observerPolls, l.run.backlog)

/-- All that the observer can do. -/
inductive Serves (s : Sample) : Action → Sample → Prop
  | take {n : ℕ} (hphase : s.observer.phase = .idle) (hrequests : s.observer.requests = n + 1) :
      Serves s .observerTake { s with
        observer := { s.observer with phase := .checking, requests := n } }
  | start (hphase : s.observer.phase = .checking) (hdone : s.observeDone = false) :
      Serves s .observerStart { s with
        observer := { s.observer with phase := .running s.now } }
  | answer {rows : List StoredObservation} {err : Option GoError} {started : ℤ}
      (hphase : s.observer.phase = .running started) : Serves s (.observed rows err) { s with
        observer := { s.observer with phase := .holding ⟨started, s.now, rows, err⟩ } }
  | push {v : ObservationResult} (hphase : s.observer.phase = .holding v)
      (hresults : s.observer.results = []) : Serves s .observerPush { s with
        observer := { s.observer with phase := .idle, results := [v] } }
  | exit (hphase : s.observer.phase = .idle ∨ s.observer.phase = .checking) :
      Serves s .observerExit { s with observer := { s.observer with phase := .exited } }

/-- All that a step can do to the hand-off. -/
inductive Move (x : Setup) (s : Sample) : Action → Sample → Prop
  | still {a : Action} {t : Sample} (hqueues : s.queues a = []) (hrecords : s.records a = [])
      (hobserver : t.observer = s.observer) (hloop : t.loop.polled = s.loop.polled)
      (hjoined : t.phase.joined = true → s.phase.joined = true ∨ s.observer.phase = .exited)
      (hended : t.phase.ended = true → s.phase.ended = true ∨ (s.phase.joined = true ∧
        (s.loop.observationsOpen = true → s.observer.results = []))) : Move x s a t
  | request {a : Action} {t : Sample} (hqueues : s.queues a = []) (hrecords : s.records a = [])
      (hfree : s.loop.inFlight = false)
      (hobserver : t.observer = { s.observer with requests := s.observer.requests + 1 })
      (hloop : t.loop.polled = (true, s.loop.polled.2)) (hphase : t.phase.joined = false) :
      Move x s a t
  | serve {a : Action} {t : Sample} (h : Serves s a t) : Move x s a t
  | record {v : ObservationResult} {rest : List ObservationResult} (b : Bool)
      (hresults : s.observer.results = v :: rest) :
      Move x s .onObservation (s.record x b v rest)
  | close (hresults : s.observer.results = []) (hphase : s.observer.phase = .exited) :
      Move x s .onObservation { s with loop := { s.loop with observationsOpen := false } }

section Moves
variable {P : Platform} {x : Setup} {s t : Sample} {a : Action}

/-- A step that leaves the observer, the loop's side of it and the phase alone. -/
private theorem Move.same (hqueues : s.queues a = []) (hrecords : s.records a = [])
    (hobserver : t.observer = s.observer) (hloop : t.loop.polled = s.loop.polled)
    (hphase : t.phase = s.phase) : Move x s a t :=
  .still hqueues hrecords hobserver hloop (fun h => .inl (hphase ▸ h)) fun h => .inl (hphase ▸ h)

theorem move_requestObservation (hqueues : s.queues a = []) (hrecords : s.records a = [])
    (hphase : s.phase.joined = false) (hs : s.requestObservation = some t) : Move x s a t := by
  unfold Sample.requestObservation at hs
  split_ifs at hs with hbusy hroom
  · cases hs
    exact .same hqueues hrecords rfl rfl rfl
  · cases hs
    rw [Bool.or_eq_true, not_or, Bool.not_eq_true] at hbusy
    exact .request hqueues hrecords hbusy.1 rfl rfl hphase

theorem move_onTick (hs : s.onTick x = some t) : Move x s .onTick t := by
  unfold Sample.onTick at hs
  split at hs
  next hp _ =>
    split_ifs at hs
    · exact move_requestObservation rfl rfl (by rw [hp]; rfl) hs
    · cases hs
      exact .same rfl rfl rfl rfl rfl
  next hp _ => exact move_requestObservation rfl rfl (by rw [hp]; rfl) hs
  next => cases hs

theorem move_onCancel (hs : s.onCancel = some t) : Move x s .onCancel t := by
  unfold Sample.onCancel at hs
  split at hs
  next =>
    split_ifs at hs
    cases hs
    exact .same rfl rfl rfl rfl rfl
  next =>
    cases hs
    exact .same rfl rfl rfl rfl rfl
  next => cases hs

theorem move_onTimer (hs : s.onTimer x = some t) : Move x s .onTimer t := by
  unfold Sample.onTimer at hs
  split at hs
  next =>
    split_ifs at hs
    cases hs
    exact .same rfl rfl rfl rfl rfl
  next =>
    dsimp only at hs
    split_ifs at hs <;> cases hs <;> exact .still rfl rfl rfl rfl (by simp [Phase.joined])
      (by simp [Phase.ended])
  next => cases hs

theorem move_onResult (hs : s.onResult x = some t) : Move x s .onResult t := by
  unfold Sample.onResult at hs
  split at hs
  next v results _ _ _ =>
    cases hs
    refine .same rfl rfl rfl ?_ rfl
    change (s.loop.recordRequest x.started x.windowEnd v).polled = s.loop.polled
    unfold Loop.recordRequest
    split_ifs <;> rfl
  next =>
    split_ifs at hs
    cases hs
    exact .same rfl rfl rfl rfl rfl
  next => cases hs

theorem move_startDrain (hs : s.startDrain x = some t) : Move x s .leave t := by
  unfold Sample.startDrain at hs
  dsimp only at hs
  split_ifs at hs
  · unfold Sample.requestObservation at hs
    dsimp only at hs
    split_ifs at hs with hbusy hroom
    · cases hs
      exact .still rfl rfl rfl rfl (by simp [Phase.joined]) (by simp [Phase.ended])
    · cases hs
      rw [Bool.or_eq_true, not_or, Bool.not_eq_true] at hbusy
      exact .request rfl rfl hbusy.1 rfl rfl rfl
  · cases hs
    exact .still rfl rfl rfl rfl (by simp [Phase.joined]) (by simp [Phase.ended])

theorem move_leave (hs : s.leave P x = some t) : Move x s .leave t := by
  unfold Sample.leave at hs
  split at hs
  next =>
    split_ifs at hs
    exact move_startDrain hs
  next =>
    split_ifs at hs
    cases hs
    exact .still rfl rfl rfl rfl (by simp [Phase.joined]) (by simp [Phase.ended])
  next =>
    cases hs
    exact .still rfl rfl rfl rfl (by simp [Phase.joined]) (by simp [Phase.ended])
  next =>
    split at hs
    next hexited =>
      cases hs
      exact .still rfl rfl rfl rfl (fun _ => .inr hexited) (by simp [Phase.ended])
    next => cases hs
  next b hp =>
    have hjoined : s.phase.joined = true := by rw [hp]; rfl
    split at hs
    · cases hs
    next hopen =>
      cases hs
      refine .still rfl rfl rfl rfl (fun _ => .inl hjoined) fun _ => .inr ⟨hjoined, fun h => ?_⟩
      cases hr : s.observer.results with
      | nil => rfl
      | cons v rest => exact absurd hr (hopen v rest h)
  next => cases hs

theorem serves_observer (ha : a.isObserver = true) (hs : s.freeStep P x a = some t) :
    Serves s a t := by
  cases a with
  | observerTake =>
    simp only [Sample.freeStep, Sample.step, Sample.observerTake] at hs
    split at hs
    next n hp hn =>
      cases hs
      exact .take hp hn
    next => cases hs
  | observerStart =>
    simp only [Sample.freeStep, Sample.step, Sample.observerStart] at hs
    split at hs
    next hp =>
      split_ifs at hs with hdone
      cases hs
      exact .start hp (Bool.not_eq_true _ ▸ hdone)
    next => cases hs
  | observed rows err =>
    simp only [Sample.freeStep, Sample.observedAny] at hs
    split at hs
    next hp =>
      cases hs
      exact .answer hp
    next => cases hs
  | observerPush =>
    simp only [Sample.freeStep, Sample.step, Sample.observerPush] at hs
    split at hs
    next v hp hr =>
      cases hs
      exact .push hp hr
    next => cases hs
  | observerExit =>
    simp only [Sample.freeStep, Sample.step, Sample.observerExit] at hs
    split at hs
    next hp =>
      split_ifs at hs
      cases hs
      exact .exit (.inl hp)
    next hp =>
      split_ifs at hs
      cases hs
      exact .exit (.inr hp)
    next => cases hs
  | _ => cases ha

theorem move_onObservation (hs : s.onObservation x = some t) : Move x s .onObservation t := by
  unfold Sample.onObservation at hs
  split at hs
  next b hp =>
    split at hs
    next v rest _ hr =>
      cases hs
      exact .record b hr
    next => cases hs
  next =>
    split at hs
    next =>
      split at hs
      next v rest hr =>
        cases hs
        exact .record false hr
      next hr hp =>
        cases hs
        exact .close hr hp
      next => cases hs
    next => cases hs

theorem move_of_freeStep (hs : s.freeStep P x a = some t) : Move x s a t := by
  have hload : a.isLoad = true → s.step P x a = some t → s.queues a = [] → s.records a = [] →
      Move x s a t := fun ha hs h1 h2 =>
    have h := loadOnly_step ha hs
    .same h1 h2 h.observer (congrArg Loop.polled h.loop) h.phase
  cases a with
  | schedule => exact hload rfl hs rfl rfl
  | abandonSchedule => exact hload rfl hs rfl rfl
  | take w => exact hload rfl hs rfl rfl
  | begin w => exact hload rfl hs rfl rfl
  | reply w job r => exact hload rfl hs rfl rfl
  | deliver w => exact hload rfl hs rfl rfl
  | exit w => exact hload rfl hs rfl rfl
  | closeResults => exact hload rfl hs rfl rfl
  | observerTake => exact .serve (serves_observer rfl hs)
  | observerStart => exact .serve (serves_observer rfl hs)
  | observed rows err => exact .serve (serves_observer rfl hs)
  | observerPush => exact .serve (serves_observer rfl hs)
  | observerExit => exact .serve (serves_observer rfl hs)
  | onCancel => exact move_onCancel hs
  | onTimer => exact move_onTimer hs
  | onResult => exact move_onResult hs
  | onObservation => exact move_onObservation hs
  | onTick => exact move_onTick hs
  | leave => exact move_leave hs
  | advance ns =>
    cases hs
    exact .same rfl rfl rfl rfl rfl
  | cancel cause =>
    cases hs
    exact .same rfl rfl rfl rfl rfl
  | store row =>
    simp only [Sample.freeStep, Sample.step] at hs
    split_ifs at hs
    cases hs
    exact .same rfl rfl rfl rfl rfl
  | close connections queries err =>
    simp only [Sample.freeStep, Sample.step, Sample.close] at hs
    split at hs
    next r e hp =>
      cases hs
      have hended : s.phase.ended = true := by rw [hp]; rfl
      have hjoined : s.phase.joined = true := by rw [hp]; rfl
      exact .still rfl rfl rfl rfl (fun _ => .inl hjoined) fun _ => .inl hended
    next => cases hs
  | verify rows err =>
    simp only [Sample.freeStep, Sample.step, Sample.verify] at hs
    split at hs
    next since r e closeErr hp =>
      split_ifs at hs
      cases hs
      have hended : s.phase.ended = true := by rw [hp]; rfl
      have hjoined : s.phase.joined = true := by rw [hp]; rfl
      exact .still rfl rfl rfl rfl (fun _ => .inl hjoined) fun _ => .inl hended
    next => cases hs

end Moves

theorem polled_recordRows (finished : ℤ) (rows : List StoredObservation) (l : Loop) :
    (rows.foldl (Loop.recordRow finished) l).polled = l.polled := by
  induction rows generalizing l with
  | nil => rfl
  | cons o rows ih =>
    have hone : (l.recordRow finished o).polled = l.polled := by
      unfold Loop.recordRow
      dsimp only
      split_ifs <;> rfl
    rw [List.foldl_cons, ih, hone]

/-- Recording a result frees the observer, counts one poll and adds one sample of it. -/
theorem polled_recordObservation (c : PipelineConfig) (started : ℤ) (v : ObservationResult)
    (b : Bool) (l : Loop) :
    let m := l.recordObservation c started v b
    m.inFlight = false ∧ m.observationsOpen = l.observationsOpen ∧
      m.run.observerPolls = l.run.observerPolls + 1 ∧
      ∃ sample : BacklogSample, m.run.backlog = l.run.backlog ++ [sample] ∧
        sample.elapsedNS = v.finished - started ∧ sample.observationAvailable = v.err.isNone := by
  have h := polled_recordRows v.finished v.rows (l.recordQuery c v b)
  simp only [Loop.polled, Prod.mk.injEq] at h
  obtain ⟨h1, h2, h3, h4⟩ := h
  exact ⟨h1, h2, h3, _, congrArg (· ++ [_]) h4, rfl, rfl⟩

/-- The hand-off after a run in which the observer queued these results and the main goroutine
recorded those. -/
structure Handed (x : Setup) (queued recorded : List ObservationResult) (s : Sample) : Prop where
  tokens : s.observer.tokens ≤ if s.loop.inFlight then 1 else 0
  once : queued = recorded ++ s.observer.results
  polls : s.loop.run.observerPolls = recorded.length
  backlog : s.loop.run.backlog.map (fun b => (b.elapsedNS, b.observationAvailable)) =
    recorded.map fun v => (v.finished - x.started, v.err.isNone)
  closed : s.loop.observationsOpen = false → s.observer.results = []
  exited : s.phase.joined = true ∨ s.loop.observationsOpen = false → s.observer.phase = .exited
  drained : s.phase.ended = true → s.observer.results = []

section Handed
variable {P : Platform} {x : Setup} {queued recorded : List ObservationResult} {s t : Sample}
  {a : Action}

theorem Handed.tokens_le (h : Handed x queued recorded s) : s.observer.tokens ≤ 1 := by
  have htokens := h.tokens
  split_ifs at htokens <;> omega

theorem handed_start (x : Setup) : Handed x [] [] (.start x) where
  tokens := le_rfl
  once := rfl
  polls := rfl
  backlog := rfl
  closed := fun _ => rfl
  exited := by simp [Sample.start, Phase.joined]
  drained := fun _ => rfl

/-- A step of the observer that queues nothing. -/
private theorem Handed.observer (h : Handed x queued recorded s) {o : Observer}
    (hresults : o.results = s.observer.results) (htokens : o.tokens ≤ s.observer.tokens)
    (hrunning : s.observer.phase ≠ .exited) :
    Handed x queued recorded { s with observer := o } where
  tokens := htokens.trans h.tokens
  once := by rw [hresults, h.once]
  polls := h.polls
  backlog := h.backlog
  closed hopen := hresults.trans (h.closed hopen)
  exited hjoined := absurd (h.exited hjoined) hrunning
  drained hended := hresults.trans (h.drained hended)

private theorem Handed.push (h : Handed x queued recorded s) {v : ObservationResult}
    (hphase : s.observer.phase = .holding v) (hresults : s.observer.results = []) :
    Handed x (queued ++ [v]) recorded { s with
      observer := { s.observer with phase := .idle, results := [v] } } := by
  have hrunning : s.observer.phase ≠ .exited := by simp [hphase]
  refine ⟨?_, ?_, h.polls, h.backlog, ?_, ?_, ?_⟩
  · have htokens := h.tokens
    simpa only [Observer.tokens, hphase, hresults, ObserverPhase.busy, List.length_nil,
      List.length_singleton, add_zero] using htokens
  · rw [h.once, hresults, List.append_nil]
  · exact fun hopen => absurd (h.exited (.inr hopen)) hrunning
  · exact fun hjoined => absurd (h.exited hjoined) hrunning
  · intro hended
    have hjoined : s.phase.joined = true := by
      revert hended
      cases s.phase <;> simp [Phase.ended, Phase.joined]
    exact absurd (h.exited (.inl hjoined)) hrunning

private theorem Handed.record (h : Handed x queued recorded s) {v : ObservationResult}
    {rest : List ObservationResult} (b : Bool) (hresults : s.observer.results = v :: rest) :
    Handed x queued (recorded ++ [v]) (s.record x b v rest) := by
  obtain ⟨hfree, hopen, hpolls, sample, hbacklog, hns, havailable⟩ :=
    polled_recordObservation x.config x.started v b s.loop
  have hone := h.tokens_le
  simp only [Observer.tokens, hresults, List.length_cons] at hone
  have hrest : rest = [] := List.length_eq_zero_iff.mp (by omega)
  subst hrest
  constructor
  case tokens =>
    change (s.observer.requests + s.observer.phase.busy + 0) ≤ _
    omega
  case once =>
    rw [h.once, hresults]
    exact (List.append_nil _).symm
  case polls =>
    change (s.loop.recordObservation x.config x.started v b).run.observerPolls = _
    rw [hpolls, h.polls, List.length_append, List.length_singleton]
  case backlog =>
    change (s.loop.recordObservation x.config x.started v b).run.backlog.map _ = _
    rw [hbacklog, List.map_append, h.backlog, List.map_append, List.map_singleton,
      List.map_singleton, hns, havailable]
  case closed => exact fun _ => rfl
  case exited =>
    intro hjoined
    refine h.exited (hjoined.imp_right fun hc => ?_)
    rw [← hopen]
    exact hc
  case drained => exact fun _ => rfl

/-- A step that neither queues nor records a result. -/
private theorem Handed.quiet (hq : s.queues a = []) (hr : s.records a = [])
    (h : Handed x queued recorded t) :
    Handed x (queued ++ s.queues a) (recorded ++ s.records a) t := by
  rw [hq, hr, List.append_nil, List.append_nil]
  exact h

theorem Handed.serve (h : Handed x queued recorded s) (hserves : Serves s a t) :
    Handed x (queued ++ s.queues a) (recorded ++ s.records a) t := by
  cases hserves with
  | take hphase hrequests =>
    refine .quiet rfl rfl (h.observer rfl ?_ (by simp [hphase]))
    simp only [Observer.tokens, hphase, hrequests, ObserverPhase.busy]
    omega
  | start hphase hdone =>
    refine .quiet rfl rfl (h.observer rfl ?_ (by simp [hphase]))
    simp [Observer.tokens, hphase, ObserverPhase.busy]
  | answer hphase =>
    refine .quiet rfl rfl (h.observer rfl ?_ (by simp [hphase]))
    simp [Observer.tokens, hphase, ObserverPhase.busy]
  | @push v hphase hresults =>
    have hq : s.queues .observerPush = [v] := by rw [Sample.queues, hphase]; rfl
    rw [hq, show s.records .observerPush = [] from rfl, List.append_nil]
    exact h.push hphase hresults
  | exit hphase =>
    refine .quiet rfl rfl (h.observer rfl ?_ (by rcases hphase with hp | hp <;> simp [hp]))
    simp [Observer.tokens, ObserverPhase.busy]

theorem Handed.move (h : Handed x queued recorded s) (hm : Move x s a t) :
    Handed x (queued ++ s.queues a) (recorded ++ s.records a) t := by
  have htokens := h.tokens
  cases hm with
  | still hqueues hrecords hobserver hloop hjoined hended =>
    simp only [Loop.polled, Prod.mk.injEq] at hloop
    obtain ⟨h1, h2, h3, h4⟩ := hloop
    refine .quiet hqueues hrecords ⟨?_, ?_, h3.trans h.polls, h4 ▸ h.backlog, ?_, ?_, ?_⟩
    · rw [hobserver, h1]
      exact htokens
    · rw [hobserver, h.once]
    · rw [hobserver, h2]
      exact h.closed
    · rw [hobserver, h2]
      rintro (hj | hc)
      · exact (hjoined hj).elim (fun hs => h.exited (.inl hs)) fun he => he
      · exact h.exited (.inr hc)
    · rw [hobserver]
      intro ho
      rcases hended ho with hs | ⟨-, hopen⟩
      · exact h.drained hs
      · cases hc : s.loop.observationsOpen with
        | false => exact h.closed hc
        | true => exact hopen hc
  | request hqueues hrecords hfree hobserver hloop hphase =>
    simp only [Loop.polled, Prod.mk.injEq] at hloop
    obtain ⟨h1, h2, h3, h4⟩ := hloop
    refine .quiet hqueues hrecords ⟨?_, ?_, h3.trans h.polls, h4 ▸ h.backlog, ?_, ?_, ?_⟩
    · rw [hfree] at htokens
      simp only [hobserver, h1, Observer.tokens] at htokens ⊢
      simp only [Bool.false_eq_true, if_false, if_true] at htokens ⊢
      omega
    · rw [hobserver, h.once]
    · rw [hobserver, h2]
      exact h.closed
    · rw [hobserver, h2, hphase]
      exact fun hj => h.exited (hj.imp_left (by simp))
    · intro ho
      revert ho hphase
      cases t.phase <;> simp [Phase.ended, Phase.joined]
  | serve hserves => exact h.serve hserves
  | @record v rest b hresults =>
    have hr : s.records .onObservation = [v] := by rw [Sample.records, hresults]; rfl
    rw [hr, show s.queues .onObservation = [] from rfl, List.append_nil]
    exact h.record b hresults
  | close hresults hphase =>
    have hr : s.records .onObservation = [] := by rw [Sample.records, hresults]; rfl
    exact .quiet rfl hr
      ⟨htokens, h.once, h.polls, h.backlog, fun _ => hresults, fun _ => hphase, h.drained⟩

theorem handed_of_execute {trace : List Action}
    (h : execute (Sample.freeStep P x) (.start x) trace = some s) :
    Handed x (collect (Sample.freeStep P x) Sample.queues (.start x) trace)
      (collect (Sample.freeStep P x) Sample.records (.start x) trace) s := by
  have hboth := execute_invariant (I := fun trace s =>
    execute (Sample.freeStep P x) (.start x) trace = some s ∧
      Handed x (collect (Sample.freeStep P x) Sample.queues (.start x) trace)
        (collect (Sample.freeStep P x) Sample.records (.start x) trace) s)
    ⟨rfl, handed_start x⟩ ?_ h
  · exact hboth.2
  · rintro trace a s t ⟨hrun, hs⟩ hstep
    refine ⟨execute_append_of hrun (by rw [execute, hstep]; rfl), ?_⟩
    rw [collect_snoc _ hrun, collect_snoc _ hrun]
    exact hs.move (move_of_freeStep hstep)

/-- The send on the request channel finds room whenever the main goroutine makes it. -/
theorem exists_requestObservation (h : s.observer.tokens ≤ if s.loop.inFlight then 1 else 0) :
    ∃ t, s.requestObservation = some t := by
  unfold Sample.requestObservation
  split_ifs with hbusy hroom
  · exact ⟨s, rfl⟩
  · exact ⟨_, rfl⟩
  · rw [Bool.or_eq_true, not_or, Bool.not_eq_true] at hbusy
    rw [hbusy.1] at h
    simp only [Observer.tokens, Bool.false_eq_true, if_false] at h
    omega

theorem Handed.onTick (h : Handed x queued recorded s) (hselecting : s.selecting = true) :
    ∃ t, s.onTick x = some t := by
  have hrequest := exists_requestObservation h.tokens
  unfold Sample.onTick
  cases hp : s.phase with
  | accounting =>
    rw [hselecting]
    dsimp only
    split_ifs
    · exact hrequest
    · exact ⟨s, rfl⟩
  | draining since =>
    rw [hselecting]
    exact hrequest
  | _ =>
    rw [Sample.selecting, hp] at hselecting
    cases hselecting

theorem Handed.startDrain (h : Handed x queued recorded s) (hdone : s.scheduler.phase = .done) :
    ∃ t, s.startDrain x = some t := by
  unfold Sample.startDrain
  rw [if_pos hdone]
  dsimp only
  split_ifs
  · exact exists_requestObservation h.tokens
  · exact ⟨_, rfl⟩

end Handed

/-- The steps the observer has left at most once its context is done. -/
def ObserverPhase.distance : ObserverPhase → ℕ
  | .running _ => 4
  | .holding _ => 3
  | .idle => 2
  | .checking => 1
  | .exited => 0

section Exit
variable {P : Platform} {x : Setup} {queued recorded : List ObservationResult} {s t : Sample}
  {a : Action}

/-- Under a done context each step brings the observer closer to its exit. -/
theorem distance_lt (hs : Serves s a t) (hdone : s.observeDone = true) :
    t.observer.phase.distance < s.observer.phase.distance ∧ t.observeDone = true := by
  refine ⟨?_, ?_⟩
  · cases hs with
    | take hphase hrequests => simp [hphase, ObserverPhase.distance]
    | start hphase hgo =>
      rw [hdone] at hgo
      cases hgo
    | answer hphase => simp [hphase, ObserverPhase.distance]
    | push hphase hresults => simp [hphase, ObserverPhase.distance]
    | exit hphase => rcases hphase with hp | hp <;> simp [hp, ObserverPhase.distance]
  · cases hs <;> exact hdone

theorem length_le_distance {l : List Action} (hl : ∀ a ∈ l, a.isObserver = true)
    (hdone : s.observeDone = true) (h : execute (Sample.freeStep P x) s l = some t) :
    l.length + t.observer.phase.distance ≤ s.observer.phase.distance ∧ t.observeDone = true := by
  induction l generalizing s with
  | nil =>
    cases h
    exact ⟨by simp, hdone⟩
  | cons a l ih =>
    obtain ⟨ha, hl⟩ := List.forall_mem_cons.mp hl
    obtain ⟨u, hu, ht⟩ := Option.bind_eq_some_iff.mp h
    obtain ⟨hlt, hdone'⟩ := distance_lt (serves_observer ha hu) hdone
    obtain ⟨hle, ht'⟩ := ih hl hdone' ht
    refine ⟨?_, ht'⟩
    rw [List.length_cons]
    omega

/-- The observer can go on: its next step is enabled, and a running call may return anything. -/
def Sample.Serving (P : Platform) (x : Setup) (s : Sample) : Prop :=
  match s.observer.phase with
  | .running _ => ∀ rows err, ∃ t, s.freeStep P x (.observed rows err) = some t
  | .holding _ => ∃ t, s.freeStep P x .observerPush = some t
  | .idle | .checking => ∃ t, s.freeStep P x .observerExit = some t
  | .exited => False

theorem Handed.observerPush (h : Handed x queued recorded s) {v : ObservationResult}
    (hphase : s.observer.phase = .holding v) :
    ∃ t, s.freeStep P x .observerPush = some t := by
  have htokens := h.tokens_le
  simp only [Observer.tokens, hphase, ObserverPhase.busy] at htokens
  have hresults : s.observer.results = [] := List.length_eq_zero_iff.mp (by omega)
  simp only [Sample.freeStep, Sample.step, Sample.observerPush, hphase, hresults]
  exact ⟨_, rfl⟩

theorem Handed.serving (h : Handed x queued recorded s) (hdone : s.observeDone = true)
    (hphase : s.observer.phase ≠ .exited) : s.Serving P x := by
  unfold Sample.Serving
  cases hp : s.observer.phase with
  | running started =>
    intro rows err
    simp only [Sample.freeStep, Sample.observedAny, hp]
    exact ⟨_, rfl⟩
  | holding v => exact h.observerPush hp
  | idle =>
    simp only [Sample.freeStep, Sample.step, Sample.observerExit, hp, hdone]
    exact ⟨_, rfl⟩
  | checking =>
    simp only [Sample.freeStep, Sample.step, Sample.observerExit, hp, hdone]
    exact ⟨_, rfl⟩
  | exited => exact hphase hp

end Exit

section Handoff
variable {P : Platform} {x : Setup} {trace : List Action} {s : Sample}

/-- In every state of every run, whatever the calls of the observer return: at most one of a queued
request, a request being served and a queued result exists; the sends of the main goroutine, at a
tick and when it starts to drain, and the send of the observer are enabled where they stand; once
its context is done the observer, left alone, exits within four steps; and the results it queued
are the recorded ones, in order and each once, followed by the one in the channel, which is empty
when the sample returns. -/
theorem observer_handoff_never_blocks
    (h : execute (Sample.freeStep P x) (.start x) trace = some s) :
    s.observer.requests + s.observer.phase.busy + s.observer.results.length ≤ 1 ∧
      (s.selecting = true → ∃ t, s.freeStep P x .onTick = some t) ∧
      (s.phase = .accounting → s.selecting = false → s.scheduler.phase = .done →
        ∃ t, s.freeStep P x .leave = some t) ∧
      (∀ v, s.observer.phase = .holding v → ∃ t, s.freeStep P x .observerPush = some t) ∧
      (s.observeDone = true → ∀ l t, (∀ a ∈ l, Action.isObserver a = true) →
        execute (Sample.freeStep P x) s l = some t →
          l.length ≤ 4 ∧ (t.observer.phase = .exited ∨ t.Serving P x)) ∧
      (let queued := collect (Sample.freeStep P x) Sample.queues (.start x) trace
        let recorded := collect (Sample.freeStep P x) Sample.records (.start x) trace
        queued = recorded ++ s.observer.results ∧
          (s.phase.ended = true → queued = recorded) ∧
          s.loop.run.observerPolls = recorded.length ∧
          s.loop.run.backlog.map (fun b => (b.elapsedNS, b.observationAvailable)) =
            recorded.map fun v => (v.finished - x.started, v.err.isNone)) := by
  have hs := handed_of_execute h
  refine ⟨hs.tokens_le, hs.onTick, ?_, fun v hv => hs.observerPush hv, ?_, hs.once, ?_, hs.polls,
    hs.backlog⟩
  · intro hphase hselecting hscheduled
    obtain ⟨t, ht⟩ := hs.startDrain hscheduled
    refine ⟨t, ?_⟩
    simp only [Sample.freeStep, Sample.step, Sample.leave, hphase, hselecting]
    exact ht
  · intro hdone l t hl ht
    obtain ⟨hle, hdone'⟩ := length_le_distance hl hdone ht
    have hfour : s.observer.phase.distance ≤ 4 := by
      cases s.observer.phase <;> simp [ObserverPhase.distance]
    refine ⟨by omega, ?_⟩
    by_cases hexited : t.observer.phase = .exited
    · exact .inl hexited
    · exact .inr ((handed_of_execute (execute_append_of h ht)).serving hdone' hexited)
  · intro hended
    rw [hs.once, hs.drained hended, List.append_nil]

/-- The context is cancelled while a call runs, and nobody reads its result any more. -/
def cancelledCall : List Action :=
  [.onTick, .observerTake, .observerStart, .cancel .canceled, .onCancel, .onTick,
    .observed [] (some (.sentinel .canceled)), .observerPush, .observerExit]

theorem observer_handoff_never_blocks_cancelledCall :
    ∃ s, execute (Sample.freeStep solePlatform soleSetup) (.start soleSetup) cancelledCall =
        some s ∧ s.observer.phase.distance = 0 ∧ s.observer.results.length = 1 ∧
      s.observer.requests + s.observer.phase.busy + s.observer.results.length ≤ 1 := by
  have hrun : ∃ s ∈ execute (Sample.freeStep solePlatform soleSetup) (.start soleSetup)
      cancelledCall, s.observer.phase.distance = 0 ∧ s.observer.results.length = 1 := by
    decide +kernel
  obtain ⟨s, hs, hdistance, hresults⟩ := hrun
  exact ⟨s, hs, hdistance, hresults, (observer_handoff_never_blocks hs).1⟩

end Handoff

end IngestKit.Benchmark
