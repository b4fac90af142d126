import IngestKit.Benchmark.Control

/-! A recorded repetition: the run was concluded from the final accounting, closed after that, and
its final query found every observed row again. -/
namespace IngestKit.Benchmark
open Event Transition

/-- `(r, e)` is what `runPipelineSample` returned at instant `t`. -/
structure Concluded (P : Platform) (x : Setup) (l : Loop) (t : ℤ) (r : PipelineRun)
    (e : Option GoError) : Prop where
  started : x.started ≤ t
  window : l.result = none → x.windowEnd ≤ t
  accepted : ∀ p ∈ l.acceptedAt, p.2 ≤ t
  backlog : ∀ b ∈ l.run.backlog, b.elapsedNS ≤ t - x.started
  eq : l.conclude P x.started x.windowEnd t = (r, e)

/-- `(r, e)` is what the closing steps started from at instant `since`. -/
def Sampled (P : Platform) (x : Setup) (l : Loop) (since : ℤ) (r : PipelineRun)
    (e : Option GoError) : Prop :=
  ∃ t r₀ connections queries, t ≤ since ∧ Concluded P x l t r₀ e ∧
    r = { r₀ with connections := connections, observerQueries := queries }

/-- `(r, e)` is what the repetition returned, with the final query's rows and error. -/
structure Closed (P : Platform) (x : Setup) (l : Loop) (rows : List TableRow)
    (err : Option GoError) (r : PipelineRun) (e : Option GoError) : Prop where
  found : err = none → ∀ id ∈ l.seen, ∃ row ∈ rows, row.id = id
  eq : ∃ now since r₁ e₁ closeErr, since ≤ now ∧ Sampled P x l since r₁ e₁ ∧
    Sample.closeRun P x now since r₁ e₁ closeErr ⟨rows.map TableRow.toStoredRow, err⟩ = (r, e)

/-- What holds of the last phases. -/
def Final (P : Platform) (x : Setup) (trace : List Action) (s : Sample) : Prop :=
  match s.phase with
  | .collecting _ => s.observer.phase = .exited
  | .finished r e =>
    s.observer.phase = .exited ∧ s.observer.results = [] ∧ ∃ t ≤ s.now, Concluded P x s.loop t r e
  | .closing since r e _ =>
    s.observer.phase = .exited ∧ s.observer.results = [] ∧ since ≤ s.now ∧
      Sampled P x s.loop since r e
  | .recorded r e =>
    s.observer.phase = .exited ∧ s.observer.results = [] ∧
      ∃ rows err, Action.verify rows err ∈ trace ∧ Closed P x s.loop rows err r e
  | _ => True

section Step
variable {P : Platform} {x : Setup} {trace : List Action} {a : Action} {vs : List SendResult}
  {rows : List StoredObservation} {s t : Sample}

theorem Final.frame (h : Final P x trace s) (hphase : t.phase = s.phase) (hloop : t.loop = s.loop)
    (hnow : s.now ≤ t.now) (hobserver : t.observer = s.observer) :
    Final P x (trace ++ [a]) t := by
  unfold Final at h ⊢
  rw [hphase, hloop, hobserver]
  cases hp : s.phase <;> simp only [hp] at h ⊢
  case collecting => exact h
  case finished r e =>
    obtain ⟨h1, h2, u, hu, h3⟩ := h
    exact ⟨h1, h2, u, hu.trans hnow, h3⟩
  case closing since r e closeErr => exact ⟨h.1, h.2.1, h.2.2.1.trans hnow, h.2.2.2⟩
  case recorded r e =>
    obtain ⟨h1, h2, found, err, hmem, h3⟩ := h
    exact ⟨h1, h2, found, err, List.mem_append_left _ hmem, h3⟩

theorem phase_requestObservation (hs : s.requestObservation = some t) : t.phase = s.phase := by
  unfold Sample.requestObservation at hs
  split_ifs at hs <;> cases hs <;> rfl

private theorem final_startDrain (hs : s.startDrain x = some t) : Final P x trace t := by
  unfold Sample.startDrain at hs
  dsimp only at hs
  split_ifs at hs
  · have hp := phase_requestObservation hs
    unfold Final
    rw [hp]
    trivial
  · cases hs
    trivial

/-- Everything recorded lies before the instant the accounting is concluded. -/
private theorem concluded (hload : Load x trace vs s) (hobs : Observing x trace rows s)
    (hctl : Control x s) (hpast : s.phase.past = true) {r : PipelineRun} {e : Option GoError}
    (hc : s.loop.conclude P x.started x.windowEnd s.now = (r, e)) :
    Concluded P x s.loop s.now r e where
  started := hload.started
  window := hctl.window (hctl.past hpast).1
  accepted p hp := by
    rw [hload.recorded.acceptedAt] at hp
    obtain ⟨v, hv, he⟩ := mem_acknowledgements hp
    have hmem : v ∈ (↑vs + s.replies : Multiset SendResult) := Multiset.mem_add.mpr (Or.inl hv)
    rw [he]
    exact (hload.replies_good v hmem).finished
  backlog b hb := by
    have hmem : b.elapsedNS ∈ s.loop.run.backlog.map (·.elapsedNS) := List.mem_map_of_mem hb
    exact (hobs.timeline.bounded _ (List.mem_append_left _ hmem)).2
  eq := hc

private theorem Final.leave (h : Final P x trace s) (hload : Load x trace vs s)
    (hobs : Observing x trace rows s) (hctl : Control x s) (hs : s.leave P x = some t) :
    Final P x (trace ++ [Action.leave]) t := by
  unfold Sample.leave at hs
  split at hs
  next =>
    split_ifs at hs
    exact final_startDrain hs
  next =>
    split_ifs at hs
    cases hs
    trivial
  next =>
    cases hs
    trivial
  next b hp =>
    split at hs
    next he =>
      cases hs
      exact he
    next => cases hs
  next b hp =>
    split at hs
    next => cases hs
    next hno =>
      have hexit : s.observer.phase = .exited := by simpa [Final, hp] using h
      have hread : s.observer.results = [] := by
        cases hopen : s.loop.observationsOpen with
        | false => exact (hobs.closed hopen).2
        | true =>
          cases hr : s.observer.results with
          | nil => rfl
          | cons v rest => exact (hno v rest hopen hr).elim
      cases hc : s.loop.conclude P x.started x.windowEnd s.now with
      | mk r e =>
        rw [hc] at hs
        cases hs
        exact ⟨hexit, hread, s.now, le_rfl, concluded hload hobs hctl (by simp [hp, Phase.past]) hc⟩
  next => cases hs

private theorem Final.verify (h : Final P x trace s) (hobs : Observing x trace rows s)
    {found : List TableRow} {err : Option GoError} (hs : s.verify P x found err = some t) :
    Final P x (trace ++ [Action.verify found err]) t := by
  unfold Sample.verify at hs
  split at hs
  next since r e closeErr hp =>
    split_ifs at hs with hperm
    simp only [Final, hp] at h
    obtain ⟨h1, h2, h3, h4⟩ := h
    cases hc : Sample.closeRun P x s.now since r e closeErr
        ⟨found.map TableRow.toStoredRow, err⟩ with
    | mk r' e' =>
      simp only [hc] at hs
      cases hs
      refine ⟨h1, h2, found, err, by simp, ⟨fun hnone id hid => ?_, _, _, _, _, _, h3, h4, hc⟩⟩
      obtain ⟨o, ho, rfl⟩ := (hobs.observed.mem_seen id).mp hid
      obtain ⟨row, hrow, hid, -⟩ :=
        (hobs.committed o (by rw [hobs.returned]; exact List.mem_append_left _ ho)).2.2
      exact ⟨row, (hperm (by simp [hnone])).mem_iff.mpr hrow, hid⟩
  next => cases hs

/-- In the loops there is nothing to show yet. -/
private theorem final_of_selecting (hsel : s.selecting = true) (hphase : t.phase = s.phase) :
    Final P x trace t := by
  unfold Final
  unfold Sample.selecting at hsel
  rw [hphase]
  cases hp : s.phase <;> simp_all

theorem Final.step (h : Final P x trace s) (hload : Load x trace vs s)
    (hobs : Observing x trace rows s) (hctl : Control x s) (hs : s.step P x a = some t) :
    Final P x (trace ++ [a]) t := by
  have hloadOnly : a.isLoad = true → Final P x (trace ++ [a]) t := fun ha => by
    have ho := loadOnly_step ha hs
    exact h.frame ho.phase ho.loop ho.now.ge ho.observer
  have hobserver : a.isObserver = true → Final P x (trace ++ [a]) t := fun ha => by
    have ho := observerOnly_step ha hs
    have hrun := ho.running
    unfold Final at h ⊢
    rw [ho.phase]
    cases hp : s.phase <;> simp only [hp] at h ⊢
    case collecting => exact absurd h hrun
    case finished => exact absurd h.1 hrun
    case closing => exact absurd h.1 hrun
    case recorded => exact absurd h.1 hrun
  cases a with
  | advance ns =>
    cases hs
    exact h.frame (t := { s with now := s.now + ns }) rfl rfl (by simp) rfl
  | cancel cause =>
    cases hs
    exact h.frame (t := { s with cancelled := _ }) rfl rfl le_rfl rfl
  | store row =>
    simp only [Sample.step] at hs
    split_ifs at hs
    cases hs
    exact h.frame (t := { s with table := s.table ++ [row] }) rfl rfl le_rfl rfl
  | onResult =>
    simp only [Sample.step, Sample.onResult] at hs
    split at hs
    next hsel _ =>
      cases hs
      exact final_of_selecting (Bool.and_eq_true_iff.mp hsel).1 rfl
    next hsel _ =>
      split_ifs at hs
      cases hs
      exact final_of_selecting (Bool.and_eq_true_iff.mp hsel).1 rfl
    next => cases hs
  | onObservation =>
    rcases onObservation_cases hs with ⟨b, v, rest, -, hsel | hp, rfl⟩ | ⟨hsel, rfl⟩
    · exact final_of_selecting hsel rfl
    · simp only [Final, hp] at h
      simp only [Final, Sample.record, hp]
      exact h
    · exact final_of_selecting hsel rfl
  | onCancel =>
    simp only [Sample.step, Sample.onCancel] at hs
    split at hs
    next hsel _ =>
      split_ifs at hs
      cases hs
      exact final_of_selecting hsel rfl
    next hsel _ =>
      cases hs
      exact final_of_selecting hsel rfl
    next => cases hs
  | onTimer =>
    simp only [Sample.step, Sample.onTimer] at hs
    split at hs
    next hsel =>
      split_ifs at hs
      cases hs
      exact final_of_selecting hsel rfl
    next =>
      split_ifs at hs <;> cases hs <;> trivial
    next => cases hs
  | onTick =>
    simp only [Sample.step, Sample.onTick] at hs
    split at hs
    next hsel =>
      split_ifs at hs
      · exact final_of_selecting hsel (phase_requestObservation hs)
      · cases hs
        exact final_of_selecting hsel rfl
    next hsel => exact final_of_selecting hsel (phase_requestObservation hs)
    next => cases hs
  | leave => exact h.leave hload hobs hctl hs
  | close connections queries err =>
    simp only [Sample.step, Sample.close] at hs
    split at hs
    next r e hp =>
      cases hs
      simp only [Final, hp] at h
      obtain ⟨h1, h2, u, hu, h3⟩ := h
      exact ⟨h1, h2, le_rfl, u, r, connections, queries, hu, h3, rfl⟩
    next => cases hs
  | verify found err => exact h.verify hobs hs
  | observerTake => exact hobserver rfl
  | observerStart => exact hobserver rfl
  | observed new err => exact hobserver rfl
  | observerPush => exact hobserver rfl
  | observerExit => exact hobserver rfl
  | schedule => exact hloadOnly rfl
  | abandonSchedule => exact hloadOnly rfl
  | take w => exact hloadOnly rfl
  | begin w => exact hloadOnly rfl
  | reply w job r => exact hloadOnly rfl
  | deliver w => exact hloadOnly rfl
  | exit w => exact hloadOnly rfl
  | closeResults => exact hloadOnly rfl

end Step

/-- The rows and errors of the final queries among the actions. -/
def finalQueries (actions : List Action) : List (List TableRow × Option GoError) :=
  actions.filterMap fun
    | .verify rows err => some (rows, err)
    | _ => none

def Phase.isRecorded : Phase → Bool
  | .recorded .. => true
  | _ => false

section Queries
variable {P : Platform} {x : Setup} {trace : List Action} {a : Action} {s t : Sample}

private theorem isRecorded_startDrain (hs : s.startDrain x = some t) :
    t.phase.isRecorded = false := by
  unfold Sample.startDrain at hs
  dsimp only at hs
  split_ifs at hs
  · rw [phase_requestObservation hs]
    rfl
  · cases hs
    rfl

private theorem isRecorded_leave (hs : s.leave P x = some t) :
    s.phase.isRecorded = false ∧ t.phase.isRecorded = false := by
  unfold Sample.leave at hs
  split at hs
  next hp =>
    split_ifs at hs
    rw [hp]
    exact ⟨rfl, isRecorded_startDrain hs⟩
  next hp =>
    split_ifs at hs
    cases hs
    rw [hp]
    exact ⟨rfl, rfl⟩
  next hp =>
    cases hs
    rw [hp]
    exact ⟨rfl, rfl⟩
  next hp =>
    split at hs
    · cases hs
      rw [hp]
      exact ⟨rfl, rfl⟩
    · cases hs
  next hp =>
    split at hs
    · cases hs
    · cases hs
      rw [hp]
      exact ⟨rfl, rfl⟩
  next => cases hs

/-- Only the final query records a run, and nothing takes a repetition out of that phase. -/
theorem isRecorded_step (hs : s.step P x a = some t) :
    (finalQueries [a] = [] ∧ t.phase.isRecorded = s.phase.isRecorded) ∨
      ((finalQueries [a]).length = 1 ∧ s.phase.isRecorded = false ∧ t.phase.isRecorded = true) := by
  have hsame : finalQueries [a] = [] → t.phase = s.phase →
      (finalQueries [a] = [] ∧ t.phase.isRecorded = s.phase.isRecorded) ∨
      ((finalQueries [a]).length = 1 ∧ s.phase.isRecorded = false ∧ t.phase.isRecorded = true) :=
    fun ha hp => Or.inl ⟨ha, by rw [hp]⟩
  have hload : a.isLoad = true → t.phase = s.phase := fun ha => (loadOnly_step ha hs).phase
  have hobserver : a.isObserver = true → t.phase = s.phase :=
    fun ha => (observerOnly_step ha hs).phase
  cases a with
  | advance ns =>
    cases hs
    exact hsame rfl rfl
  | cancel cause =>
    cases hs
    exact hsame rfl rfl
  | store row =>
    simp only [Sample.step] at hs
    split_ifs at hs
    cases hs
    exact hsame rfl rfl
  | onResult =>
    simp only [Sample.step, Sample.onResult] at hs
    split at hs
    next => cases hs; exact hsame rfl rfl
    next => split_ifs at hs; cases hs; exact hsame rfl rfl
    next => cases hs
  | onObservation =>
    rcases onObservation_cases hs with ⟨b, v, rest, -, -, rfl⟩ | ⟨-, rfl⟩
    · exact hsame rfl rfl
    · exact hsame rfl rfl
  | onCancel =>
    simp only [Sample.step, Sample.onCancel] at hs
    split at hs
    next => split_ifs at hs; cases hs; exact hsame rfl rfl
    next => cases hs; exact hsame rfl rfl
    next => cases hs
  | onTimer =>
    simp only [Sample.step, Sample.onTimer] at hs
    split at hs
    next => split_ifs at hs; cases hs; exact hsame rfl rfl
    next hp _ =>
      split_ifs at hs <;> cases hs <;> exact Or.inl ⟨rfl, by rw [hp]; rfl⟩
    next => cases hs
  | onTick =>
    simp only [Sample.step, Sample.onTick] at hs
    split at hs
    next =>
      split_ifs at hs
      · exact hsame rfl (phase_requestObservation hs)
      · cases hs; exact hsame rfl rfl
    next => exact hsame rfl (phase_requestObservation hs)
    next => cases hs
  | leave =>
    obtain ⟨hbefore, hafter⟩ := isRecorded_leave hs
    exact Or.inl ⟨rfl, by rw [hbefore, hafter]⟩
  | close connections queries err =>
    simp only [Sample.step, Sample.close] at hs
    split at hs
    next hp => cases hs; exact Or.inl ⟨rfl, by rw [hp]; rfl⟩
    next => cases hs
  | verify rows err =>
    simp only [Sample.step, Sample.verify] at hs
    split at hs
    next hp =>
      split_ifs at hs
      cases hs
      exact Or.inr ⟨rfl, by rw [hp]; rfl, rfl⟩
    next => cases hs
  | observerTake | observerStart | observed _ _ | observerPush | observerExit =>
    exact hsame rfl (hobserver rfl)
  | schedule | abandonSchedule | take _ | begin _ | reply _ _ _ | deliver _ | exit _
  | closeResults => exact hsame rfl (hload rfl)

/-- A repetition makes one final query, and that one when its run is recorded. -/
theorem length_finalQueries (h : execute (Sample.step P x) (.start x) trace = some s) :
    (finalQueries trace).length = if s.phase.isRecorded then 1 else 0 := by
  refine execute_invariant (I := fun trace (s : Sample) =>
    (finalQueries trace).length = if s.phase.isRecorded then 1 else 0) rfl ?_ h
  intro trace a s t hi hs
  have happend : finalQueries (trace ++ [a]) = finalQueries trace ++ finalQueries [a] :=
    List.filterMap_append
  rw [happend, List.length_append, hi]
  rcases isRecorded_step hs with ⟨ha, hp⟩ | ⟨ha, hbefore, hafter⟩
  · rw [ha, hp]
    rfl
  · rw [ha, hbefore, hafter]
    rfl

end Queries

/-- What holds after every list of actions of one repetition. -/
structure Inv (P : Platform) (x : Setup) (trace : List Action) (s : Sample) : Prop where
  load : ∃ vs, Load x trace vs s
  observing : ∃ rows, Observing x trace rows s
  control : Control x s
  final : Final P x trace s

theorem inv_of_execute {P : Platform} {x : Setup} {trace : List Action}
    {s : Sample} (h : execute (Sample.step P x) (.start x) trace = some s) : Inv P x trace s := by
  refine execute_invariant ?_ ?_ h
  · exact ⟨⟨[], load_start x⟩, ⟨[], observing_start x⟩, control_start x, trivial⟩
  · intro trace a s t hi hs
    obtain ⟨vs, hload⟩ := hi.load
    obtain ⟨rows, hobs⟩ := hi.observing
    exact ⟨hload.step hs, hobs.step hs, hi.control.step hload hs,
      hi.final.step hload hobs hi.control hs⟩

end IngestKit.Benchmark
