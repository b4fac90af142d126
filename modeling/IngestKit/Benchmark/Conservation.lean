import IngestKit.Benchmark.Audited

/-! The load figures that `runPipelineSample` returns: every planned event is missed or belongs to
exactly one request, and every request that was sent is recorded exactly once. -/
namespace IngestKit.Benchmark
open Event Transition

/-- What a result says of its request, apart from the clock. -/
structure Answer where
  ids : List UUID
  status : ℕ
  accepted : Bool
  ambiguous : Bool

def SendResult.answer (v : SendResult) : Answer := ⟨v.ids, v.status, v.accepted, v.ambiguous⟩

def Action.answers : Action → List Answer
  | .reply _ job r => [⟨job, (send job r).status, (send job r).accepted, (send job r).ambiguous⟩]
  | _ => []

/-- The answers to all requests of a run, in the order they came. -/
def answers (trace : List Action) : List Answer := trace.flatMap Action.answers

theorem answers_snoc (trace : List Action) (a : Action) :
    answers (trace ++ [a]) = answers trace ++ a.answers := by
  rw [answers, List.flatMap_append, List.flatMap_singleton, ← answers]

/-- `vs` are the recorded results; they and the unrecorded ones answer every request once. -/
structure Answered (x : Setup) (trace : List Action) (vs : List SendResult) (s : Sample) :
    Prop where
  recorded : Recorded x vs s.loop
  answers : (↑vs + s.replies : Multiset SendResult).map SendResult.answer = ↑(answers trace)

section Step
variable {P : Platform} {x : Setup} {trace : List Action} {a : Action} {vs : List SendResult}
  {s t : Sample}

theorem Answered.frame (h : Answered x trace vs s) (hrec : t.loop.requests = s.loop.requests)
    (hreplies : t.replies.map SendResult.answer = s.replies.map SendResult.answer + ↑a.answers) :
    Answered x (trace ++ [a]) vs t where
  recorded := h.recorded.congr hrec
  answers := by
    have hold := h.answers
    rw [Multiset.map_add] at hold
    rw [Multiset.map_add, hreplies, ← add_assoc, hold, answers_snoc, Multiset.coe_add]

theorem replies_of_load (h : t.load = s.load) : t.replies = s.replies := by
  simp only [Sample.load, Prod.mk.injEq] at h
  obtain ⟨-, -, hw, hr, -⟩ := h
  rw [Sample.replies, Sample.replies, hw, hr]

private theorem replies_schedule (hs : s.schedule x = some t) : t.replies = s.replies := by
  cases hp : s.scheduler.phase <;> simp only [Sample.schedule, hp] at hs
  case done => cases hs
  all_goals try split_ifs at hs
  all_goals
    cases hs
    rfl

/-- Among the steps of the scheduler and the workers only a reply adds an answer. -/
theorem answers_loadOnly (ha : a.isLoad = true) (hs : s.step P x a = some t) :
    t.replies.map SendResult.answer = s.replies.map SendResult.answer + ↑a.answers := by
  have hsame : t.replies = s.replies → a.answers = [] →
      t.replies.map SendResult.answer = s.replies.map SendResult.answer + ↑a.answers := by
    intro h1 h2
    rw [h1, h2, Multiset.coe_nil, add_zero]
  cases a with
  | schedule => exact hsame (replies_schedule hs) rfl
  | abandonSchedule =>
    simp only [Sample.step, Sample.abandonSchedule] at hs
    split_ifs at hs
    cases hs
    exact hsame rfl rfl
  | take w =>
    simp only [Sample.step, Sample.take] at hs
    split at hs
    next job jobs hw _ =>
      cases hs
      exact hsame (s.replies_move (.took job) hw rfl rfl) rfl
    next => cases hs
  | begin w =>
    simp only [Sample.step, Sample.begin] at hs
    split at hs
    next job hw =>
      cases hs
      exact hsame (s.replies_move _ hw rfl rfl) rfl
    next => cases hs
  | reply w job r =>
    simp only [Sample.step, Sample.reply] at hs
    split at hs
    next job' started hw =>
      split_ifs at hs with hjob
      subst hjob
      cases hs
      have hset := s.replies_setWorker (.replied { send job r with
        ids := job, started := started, finished := s.now, elapsedNS := s.now - started }) hw
      change _ + (0 : Multiset SendResult) = _ at hset
      rw [add_zero] at hset
      rw [hset, Multiset.map_add]
      rfl
    next => cases hs
  | deliver w =>
    simp only [Sample.step, Sample.deliver] at hs
    split at hs
    next v hw =>
      split_ifs at hs
      cases hs
      exact hsame (Sample.replies_deliver hw) rfl
    next => cases hs
  | exit w =>
    simp only [Sample.step, Sample.exit] at hs
    split at hs
    next hw _ =>
      split_ifs at hs
      cases hs
      exact hsame (s.replies_move _ hw rfl rfl) rfl
    next => cases hs
  | closeResults =>
    simp only [Sample.step, Sample.closeResults] at hs
    split_ifs at hs
    cases hs
    exact hsame rfl rfl
  | _ => cases ha

/-- Reading a result moves it to the recorded ones. -/
private theorem Answered.onResult (h : Answered x trace vs s) (hs : s.onResult x = some t) :
    ∃ vs', Answered x (trace ++ [Action.onResult]) vs' t := by
  unfold Sample.onResult at hs
  split at hs
  next v results _ _ hr =>
    cases hs
    refine ⟨vs ++ [v], h.recorded.record v, ?_⟩
    have hall : (↑(vs ++ [v]) : Multiset SendResult) + { s with results := results }.replies =
        ↑vs + s.replies := by
      rw [Sample.replies_cons hr, ← Multiset.coe_add, Multiset.coe_singleton]
      abel
    rw [answers_snoc]
    change Multiset.map _ (↑(vs ++ [v]) + { s with results := results }.replies) = _
    rw [hall, h.answers]
    exact congrArg _ (List.append_nil _).symm
  next =>
    split_ifs at hs
    cases hs
    exact ⟨vs, h.frame rfl (add_zero _).symm⟩
  next => cases hs

theorem Answered.step (h : Answered x trace vs s) (hs : s.step P x a = some t) :
    ∃ vs', Answered x (trace ++ [a]) vs' t := by
  have hstill : t.load = s.load → t.loop.requests = s.loop.requests → a.answers = [] →
      Answered x (trace ++ [a]) vs t := by
    intro hload hrec hnone
    refine h.frame hrec ?_
    rw [replies_of_load hload, hnone, Multiset.coe_nil, add_zero]
  have hload : a.isLoad = true → Answered x (trace ++ [a]) vs t := fun ha =>
    h.frame (by rw [(loadOnly_step ha hs).loop]) (answers_loadOnly ha hs)
  have hobserver : a.isObserver = true → a.answers = [] → Answered x (trace ++ [a]) vs t :=
    fun ha => hstill (observerOnly_step ha hs).load (by rw [(observerOnly_step ha hs).loop])
  have hquiet : a.isQuiet = true → a.answers = [] → Answered x (trace ++ [a]) vs t :=
    fun ha => hstill (quiet_step ha hs).load (quiet_step ha hs).requests
  cases a with
  | schedule => exact ⟨vs, hload rfl⟩
  | abandonSchedule => exact ⟨vs, hload rfl⟩
  | take w => exact ⟨vs, hload rfl⟩
  | begin w => exact ⟨vs, hload rfl⟩
  | reply w job r => exact ⟨vs, hload rfl⟩
  | deliver w => exact ⟨vs, hload rfl⟩
  | exit w => exact ⟨vs, hload rfl⟩
  | closeResults => exact ⟨vs, hload rfl⟩
  | onResult => exact h.onResult hs
  | onObservation =>
    rcases onObservation_cases hs with ⟨b, v, rest, -, -, rfl⟩ | ⟨-, rfl⟩
    · exact ⟨vs, hstill rfl (requests_recordObservation _ _ v b s.loop) rfl⟩
    · exact ⟨vs, hstill rfl rfl rfl⟩
  | observerTake => exact ⟨vs, hobserver rfl rfl⟩
  | observerStart => exact ⟨vs, hobserver rfl rfl⟩
  | observed new err => exact ⟨vs, hobserver rfl rfl⟩
  | observerPush => exact ⟨vs, hobserver rfl rfl⟩
  | observerExit => exact ⟨vs, hobserver rfl rfl⟩
  | _ => exact ⟨vs, hquiet rfl rfl⟩

end Step

theorem answered_of_execute {P : Platform} {x : Setup} {trace : List Action} {s : Sample}
    (h : execute (Sample.step P x) (.start x) trace = some s) : ∃ vs, Answered x trace vs s := by
  refine execute_invariant (I := fun trace s => ∃ vs, Answered x trace vs s) ?_ ?_ h
  · refine ⟨[], by constructor <;> rfl, ?_⟩
    simp [Sample.start, Sample.replies, Worker.replies, answers]
  · rintro trace a s t ⟨vs, hvs⟩ hs
    exact hvs.step hs

/-- The load figures of a returned run whose results were read in the order `vs`. -/
structure Accounts (x : Setup) (vs : List SendResult) (r : PipelineRun) : Prop where
  planned : r.planned = x.ids.length
  offered : r.planned = r.attempted + r.generatorMissed
  requestSamples : r.requestSamples = vs.map (Loop.point x.started)
  attemptedIDs : r.attemptedIDs = vs.flatMap (·.ids)
  events : r.attempted = (r.requestSamples.map (·.events)).sum
  attempted : r.attempted = r.attemptedIDs.length
  classified : r.attempted = r.acceptedIDs.length + r.ambiguous + r.rejected
  accepted : r.accepted = r.acceptedIDs.length
  ambiguous : r.ambiguous = r.ambiguousIDs.length
  accepted_sublist : r.acceptedIDs.Sublist r.attemptedIDs
  ambiguous_sublist : r.ambiguousIDs.Sublist r.attemptedIDs
  disjoint : r.acceptedIDs.Disjoint r.ambiguousIDs
  attempted_windows : r.attemptedInWindow + r.attemptedAfterWindow = r.attempted
  accepted_windows : r.acceptedInWindow + r.acceptedAfterWindow = r.accepted

/-- The figures that `Reconcile` leaves alone are those of the accounting. -/
theorem accounts_of_conclude {P : Platform} {x : Setup} {vs : List SendResult} {l : Loop} {t : ℤ}
    {r : PipelineRun} {e : Option GoError} (hrec : Recorded x vs l) (hfixed : Fixed x l.run)
    (hnodup : (vs.flatMap (·.ids)).Nodup)
    (htotal : (vs.flatMap (·.ids)).length + l.run.generatorMissed = x.ids.length)
    (hc : l.conclude P x.started x.windowEnd t = (r, e)) : Accounts x vs r := by
  have hr : r = ((l.summarize x.started x.windowEnd t).count P).label :=
    (congrArg Prod.fst hc).symm
  obtain ⟨hattempted, haccepted⟩ := hrec.windows
  have hacceptedSub : l.run.acceptedIDs.Sublist l.run.attemptedIDs := by
    rw [hrec.acceptedIDs, hrec.attemptedIDs]
    exact List.filter_sublist.flatMap _
  have hambiguousSub : l.run.ambiguousIDs.Sublist l.run.attemptedIDs := by
    rw [hrec.ambiguousIDs, hrec.attemptedIDs]
    exact List.filter_sublist.flatMap _
  have hunique : (uniqueIDs l.run.acceptedIDs).length = l.run.acceptedIDs.length := by
    rw [← hrec.attemptedIDs] at hnodup
    rw [uniqueIDs, (hnodup.sublist hacceptedSub).dedup]
  subst hr
  constructor
  case planned => exact hfixed.planned
  case offered =>
    change l.run.planned = l.run.attempted + l.run.generatorMissed
    rw [hfixed.planned, hrec.attempted, htotal]
  case requestSamples => exact hrec.requestSamples
  case attemptedIDs => exact hrec.attemptedIDs
  case events =>
    change l.run.attempted = (l.run.requestSamples.map (·.events)).sum
    rw [hrec.attempted, hrec.requestSamples, List.length_flatMap, List.map_map]
    rfl
  case attempted =>
    change l.run.attempted = l.run.attemptedIDs.length
    rw [hrec.attempted, hrec.attemptedIDs]
  case classified => exact hrec.classified
  case accepted => exact hunique
  case ambiguous => exact hrec.ambiguous
  case accepted_sublist => exact hacceptedSub
  case ambiguous_sublist => exact hambiguousSub
  case disjoint => exact fun id h1 h2 => hrec.disjoint hnodup id h1 h2
  case attempted_windows => exact hattempted
  case accepted_windows => exact haccepted.trans hunique.symm

/-- What `runPipelineSample` returned. -/
def Phase.returned : Phase → Option (PipelineRun × Option GoError)
  | .finished r err => some (r, err)
  | _ => none

/-- The run that `runPipelineSample` returns after these actions, and its error. -/
def Sample.returnedRun (P : Platform) (x : Setup) (actions : List Action) :
    Option (PipelineRun × Option GoError) :=
  (execute (Sample.step P x) (.start x) actions).bind fun s => s.phase.returned

section Returned
variable {P : Platform} {x : Setup} {trace : List Action} {r : PipelineRun} {e : Option GoError}

theorem returnedRun_eq_some (h : Sample.returnedRun P x trace = some (r, e)) :
    ∃ s, execute (Sample.step P x) (.start x) trace = some s ∧ s.phase = .finished r e := by
  obtain ⟨s, hs, hp⟩ := Option.bind_eq_some_iff.mp h
  refine ⟨s, hs, ?_⟩
  unfold Phase.returned at hp
  split at hp
  · next hphase =>
    cases hp
    exact hphase
  · cases hp

/-- Whatever the scheduler, the workers, the observer and the main goroutine do, when the sample
returns, every request that was sent is recorded once, and the load figures add up. -/
theorem sample_load_is_conserved (hids : x.ids.Nodup)
    (h : Sample.returnedRun P x trace = some (r, e)) :
    ∃ vs, (vs.map SendResult.answer).Perm (answers trace) ∧ Accounts x vs r := by
  obtain ⟨s, h, hp⟩ := returnedRun_eq_some h
  have hinv := inv_of_execute h
  have hpast : s.phase.past = true := by rw [hp]; rfl
  obtain ⟨us, hload⟩ := hinv.load
  obtain ⟨vs, hanswered⟩ := answered_of_execute h
  obtain ⟨hunderway, hreplies⟩ := quiescent_of_past hinv hpast
  obtain ⟨hnodup, -, htotal⟩ := hload.accounted hids hinv.control hpast hunderway
  rw [← hload.recorded.attemptedIDs, hanswered.recorded.attemptedIDs] at hnodup htotal
  have hfinal := hinv.final
  simp only [Final, hp] at hfinal
  obtain ⟨-, -, t, -, hconcluded⟩ := hfinal
  have hanswers := hanswered.answers
  rw [hreplies, add_zero, Multiset.map_coe, Multiset.coe_eq_coe] at hanswers
  exact ⟨vs, hanswers, accounts_of_conclude hanswered.recorded hinv.control.fixed hnodup htotal
    hconcluded.eq⟩

/-- The IDs of `s/2/0` to `s/2/6`. -/
def mixedIDs : List UUID :=
  [soleID,
    ⟨[2, 220, 177, 224, 135, 32, 88, 249, 153, 143, 66, 163, 109, 168, 3, 121], by decide⟩,
    ⟨[156, 236, 110, 55, 153, 212, 91, 153, 149, 36, 247, 135, 71, 212, 227, 176], by decide⟩,
    ⟨[180, 204, 14, 231, 162, 78, 85, 3, 149, 64, 93, 117, 13, 231, 227, 163], by decide⟩,
    ⟨[76, 246, 62, 91, 226, 49, 87, 216, 180, 219, 248, 81, 76, 149, 255, 240], by decide⟩,
    ⟨[141, 185, 22, 89, 121, 159, 86, 52, 146, 174, 166, 204, 232, 107, 8, 74], by decide⟩,
    ⟨[78, 103, 203, 207, 156, 207, 94, 33, 131, 7, 46, 218, 102, 123, 12, 236], by decide⟩]

/-- The text whose digest stands for a set of IDs. -/
def idText (ids : List UUID) : Bytes :=
  joinLines ((ids.map UUID.string).insertionSort (· ≤ ·))

def mixedPlatform : Platform :=
  { solePlatform with
    sha256 := fun b =>
      if b = idText (mixedIDs.take 2) then [100, 174, 218, 77, 88, 178, 1, 75, 130, 70, 253, 186,
        120, 161, 53, 6, 95, 207, 70, 252, 4, 252, 70, 159, 36, 15, 134, 104, 166, 50, 165, 213]
      else if b = idText ((mixedIDs.drop 2).take 2) then [244, 29, 144, 37, 238, 47, 157, 126, 168,
        160, 6, 160, 53, 200, 70, 48, 24, 60, 77, 169, 107, 28, 2, 9, 102, 99, 34, 74, 42, 129, 196,
        11]
      else if b = idText (mixedIDs.take 6) then [238, 129, 209, 107, 86, 187, 120, 178, 91, 24, 101,
        231, 209, 140, 3, 107, 73, 255, 130, 247, 209, 219, 152, 170, 23, 107, 49, 156, 0, 255, 128,
        81]
      else solePlatform.sha256 b
    uuid5 := fun name =>
      (((List.range 7).find? fun i => name = eventName (ascii ['s']) 2 i).bind (mixedIDs[·]?)).getD
        soleID }

/-- Seven events in requests of two. -/
def mixedCase : Case := { soleCase with count := 7, rate := 7, batchSize := 2, concurrency := 2 }

def mixedSetup : Setup where
  config := pipelineCaseConfig mixedCase 1 (ascii ['s'])
  valid := by decide
  repetition := 1
  expected := (List.range 7).map (workloadEvent mixedPlatform ⟨ascii ['s'], .fixed, 2, 7, 16, 0⟩)
  due i := i * milliseconds 100
  interval := milliseconds 200
  started := 0

/-- Of four requests one is acknowledged, one fails in transport, one is rejected after the window,
and the last is due too late; the answers come in another order than the requests. -/
def mixedActions : List Action :=
  [.schedule, .schedule, .schedule, .take 0, .begin 0, .advance 200000000, .schedule, .schedule,
    .schedule, .take 1, .begin 1, .advance 200000000, .schedule, .schedule, .schedule,
    .reply 1 ((mixedIDs.drop 2).take 2) .failed, .deliver 1, .onResult, .take 1, .begin 1,
    .reply 0 (mixedIDs.take 2) (.answered 202 (some (mixedIDs.take 2))), .schedule,
    .advance 700000000, .schedule, .schedule, .schedule,
    .reply 1 ((mixedIDs.drop 4).take 2) (.answered 429 none), .deliver 1, .deliver 0, .exit 0,
    .exit 1, .closeResults, .onResult, .onResult, .onResult, .onTimer, .leave, .observerTake,
    .observerStart, .observed [] (some (.text "query failed")), .observerPush, .onObservation,
    .leave, .leave, .observerExit, .leave, .leave]

/-- Seven events in four requests: one acknowledged, one ambiguous, one rejected, one not sent. -/
theorem sample_load_is_conserved_mixed :
    ∃ p ∈ Sample.returnedRun mixedPlatform mixedSetup mixedActions,
      (p.1.accepted, p.1.ambiguous, p.1.rejected, p.1.generatorMissed) = (2, 2, 2, 1) ∧
      ∃ vs, (vs.map SendResult.answer).Perm (answers mixedActions) ∧
        Accounts mixedSetup vs p.1 := by
  have hrun : ∃ p ∈ Sample.returnedRun mixedPlatform mixedSetup mixedActions,
      (p.1.accepted, p.1.ambiguous, p.1.rejected, p.1.generatorMissed) = (2, 2, 2, 1) := by
    decide +kernel
  obtain ⟨⟨r, e⟩, h, hcounts⟩ := hrun
  exact ⟨(r, e), h, hcounts, sample_load_is_conserved (by decide +kernel) h⟩

end Returned

end IngestKit.Benchmark
