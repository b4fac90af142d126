import IngestKit.Consumer.Process
import IngestKit.Transition.Runs

/-! A shutdown reaches the running reader: the worker publishes a reader before it looks at the
signal context, and `drainConsumer` looks for a reader after that context was cancelled. -/
namespace IngestKit.Consumer
open Event Messaging Service

/-- The reader that the worker has published. -/
def published : Supervise Attempt AttemptError → Option ℕ
  | .attempt (.reCheck id) | .attempt (.stopPolling id) | .attempt (.run id _) => some id
  | _ => none

/-- `drainConsumer` has stopped the reader it found. -/
def Main.stopDone : Main → Bool
  | .drain | .cancelWork | .returned => true
  | _ => false

/-- `run` has yet to look for a reader, or is about to stop this one. -/
def Main.WillStop (id : ℕ) : Main → Prop
  | .stopPolling r => r = some id
  | .drain | .cancelWork | .returned => False
  | _ => True

theorem Main.not_willStop {m : Main} (h : m.stopDone = true) (id : ℕ) : ¬ m.WillStop id := by
  cases m with
  | drain | cancelWork | returned => exact not_false
  | _ => cases h

structure Process.ShutdownInv (p : Process) : Prop where
  serving : p.main = .serving ↔ p.exit = none
  signalled : p.exit = some .signal → p.signal = true
  canceled : p.exit = some .server → p.main = .cancelWorker ∨ p.workCanceled = true
  current : ∀ id, published p.supervise = some id → p.current = some id
  heard : p.heard = true → p.signal = true
  reached : p.exit = some .signal ∨ p.heard = true → ∀ id s,
    p.supervise = .attempt (.run id s) → id ∈ p.stopped ∨ p.main.WillStop id
  saw : p.saw = true → ∃ errs, p.supervise = .returned errs

section Steps
variable {U : UUID.Codec} {config : ReaderConfig} {p q : Process}

theorem Process.shutdownInv_start : Process.start.ShutdownInv := by
  constructor <;> simp [Process.start, published]

theorem Process.ShutdownInv.main (h : p.ShutdownInv) {c : MainChoice}
    (hs : p.mainStep c = some q) : q.ShutdownInv := by
  cases c with
  | serveDone =>
    simp only [mainStep, Option.ite_none_right_eq_some, Option.some.injEq] at hs
    obtain ⟨-, rfl⟩ := hs
    exact ⟨by simp, by simp, by simp, h.current, h.heard, fun _ _ _ _ => Or.inr trivial, h.saw⟩
  | ctxDone =>
    simp only [mainStep, Option.ite_none_right_eq_some, Option.some.injEq] at hs
    obtain ⟨⟨-, hsignal⟩, rfl⟩ := hs
    exact ⟨by simp, fun _ => hsignal, by simp, h.current, h.heard,
      fun _ _ _ _ => Or.inr trivial, h.saw⟩
  | deadline =>
    simp only [mainStep, Option.ite_none_right_eq_some, Option.some.injEq] at hs
    obtain ⟨hmain, rfl⟩ := hs
    refine ⟨by simpa [hmain] using h.serving, h.signalled, ?_, h.current, h.heard, ?_, h.saw⟩
    · simpa [hmain] using h.canceled
    · simpa [hmain, Main.WillStop] using h.reached
  | workerDone =>
    simp only [mainStep] at hs
    split at hs <;> simp only [Option.some.injEq, reduceCtorEq] at hs
    next errs hmain hreturned =>
      subst hs
      refine ⟨by simpa [hmain] using h.serving, h.signalled, ?_, h.current, h.heard, ?_, h.saw⟩
      · simpa [hmain] using h.canceled
      · simpa [hmain, Main.WillStop] using h.reached
  | go =>
    cases hmain : p.main with
    | cancelWorker =>
      simp only [mainStep, hmain, Option.some.injEq] at hs
      subst hs
      exact ⟨by simpa [hmain] using h.serving, h.signalled, by simp, h.current, h.heard,
        fun _ _ _ _ => Or.inr trivial, h.saw⟩
    | observe =>
      simp only [mainStep, hmain, Option.some.injEq] at hs
      subst hs
      refine ⟨by simpa [hmain] using h.serving, h.signalled, ?_, h.current, h.heard,
        fun _ _ _ _ => Or.inr trivial, h.saw⟩
      simpa [hmain] using h.canceled
    | load =>
      simp only [mainStep, hmain, Option.some.injEq] at hs
      subst hs
      refine ⟨by simpa [hmain] using h.serving, h.signalled, ?_, h.current, id,
        fun _ id s hrun => Or.inr ?_, h.saw⟩
      · simpa [hmain] using h.canceled
      · exact h.current id (by rw [show p.supervise = .attempt (.run id s) from hrun]; rfl)
    | stopPolling r =>
      have hcanceled : p.exit = some .server → p.workCanceled = true := by
        simpa [hmain] using h.canceled
      have hreached := h.reached
      simp only [hmain, Main.WillStop] at hreached
      cases r with
      | none =>
        simp only [mainStep, hmain, Option.some.injEq] at hs
        subst hs
        refine ⟨by simpa [hmain] using h.serving, h.signalled,
          fun he => Or.inr (hcanceled he), h.current, h.heard, ?_, h.saw⟩
        intro hexit id s hrun
        exact (hreached hexit id s hrun).imp_right (by simp)
      | some id' =>
        simp only [mainStep, hmain, Option.some.injEq] at hs
        subst hs
        refine ⟨by simpa [hmain] using h.serving, h.signalled,
          fun he => Or.inr (hcanceled he), h.current, h.heard, ?_, h.saw⟩
        intro hexit id s hrun
        left
        rcases hreached hexit id s hrun with hmem | hid
        · exact List.mem_insert_of_mem hmem
        · rw [Option.some.inj hid]
          exact List.mem_insert_self
    | cancelWork =>
      simp only [mainStep, hmain, Option.some.injEq] at hs
      subst hs
      refine ⟨by simpa [hmain] using h.serving, h.signalled, by simp, h.current, h.heard, ?_,
        h.saw⟩
      simpa [hmain, Main.WillStop] using h.reached
    | serving | drain | returned => simp [mainStep, hmain] at hs

private theorem not_saw (h : p.ShutdownInv) (hs : ∀ errs, p.supervise ≠ .returned errs) :
    p.saw = false := by
  cases hsaw : p.saw with
  | false => rfl
  | true =>
    obtain ⟨errs, he⟩ := h.saw hsaw
    exact absurd he (hs errs)

theorem Process.ShutdownInv.supervise (h : p.ShutdownInv) {c : SuperviseChoice}
    (hs : p.superviseStep c = some q) : q.ShutdownInv := by
  simp only [superviseStep, Option.map_eq_some_iff] at hs
  obtain ⟨s, hstep, rfl⟩ := hs
  obtain ⟨hsees, hattempt⟩ := Supervise.step_spec hstep
  have hpublished : published s = none := by
    cases s with
    | attempt a => rw [(hattempt a rfl).2]; rfl
    | _ => rfl
  refine ⟨h.serving, h.signalled, h.canceled, ?_, h.heard, ?_, ?_⟩
  · intro id hid
    rw [hpublished] at hid
    cases hid
  · intro _ id r hrun
    cases (hattempt _ hrun).2
  · have hsaw : p.saw = false := by
      refine not_saw h fun errs he => ?_
      rw [he] at hstep
      cases c <;> cases hstep
    intro h'
    simp only [hsaw, Bool.false_or] at h'
    exact hsees h'

/-- What an attempt leaves alone. -/
private theorem Process.ShutdownInv.frame (h : p.ShutdownInv) (hp : p.saw = false)
    (hmain : q.main = p.main) (hexit : q.exit = p.exit) (hsignal : q.signal = p.signal)
    (hwork : q.workCanceled = p.workCanceled) (hsaw : q.saw = p.saw) (hheard : q.heard = p.heard)
    (hcurrent : ∀ id, published q.supervise = some id → q.current = some id)
    (hreached : p.exit = some .signal ∨ p.heard = true → ∀ id s,
      q.supervise = .attempt (.run id s) → id ∈ q.stopped ∨ p.main.WillStop id) :
    q.ShutdownInv := by
  refine ⟨?_, ?_, ?_, hcurrent, ?_, ?_, ?_⟩
  · rw [hmain, hexit]
    exact h.serving
  · rw [hexit, hsignal]
    exact h.signalled
  · rw [hexit, hmain, hwork]
    exact h.canceled
  · rw [hheard, hsignal]
    exact h.heard
  · rw [hexit, hmain, hheard]
    exact hreached
  · rw [hsaw, hp]
    simp

theorem Process.ShutdownInv.attempt (h : p.ShutdownInv) {s : Attempt} {a : AttemptAnswer}
    (hp : p.supervise = .attempt s) (hs : p.attemptStep U config s a = some q) :
    q.ShutdownInv := by
  have hsaw : p.saw = false := not_saw h (by simp [hp])
  have hcurrent := h.current
  have hreached := h.reached
  rw [hp] at hcurrent hreached
  cases s <;> cases a <;> simp only [attemptStep, reduceCtorEq, Option.some.injEq] at hs
  case ping.result ok =>
    subst hs
    cases ok <;> exact h.frame hsaw rfl rfl rfl rfl rfl rfl (by simp [inAttempt, published])
      (by simp [inAttempt])
  case preCheck.go =>
    subst hs
    split_ifs <;> exact h.frame hsaw rfl rfl rfl rfl rfl rfl (by simp [inAttempt, published])
      (by simp [inAttempt])
  case create.result ok =>
    subst hs
    cases ok <;> exact h.frame hsaw rfl rfl rfl rfl rfl rfl (by simp [inAttempt, published])
      (by simp [inAttempt])
  case store.go id =>
    subst hs
    exact h.frame hsaw rfl rfl rfl rfl rfl rfl (by simp [inAttempt, published])
      (by simp [inAttempt])
  case reCheck.go id =>
    subst hs
    split_ifs with hsignal
    · exact h.frame hsaw rfl rfl rfl rfl rfl rfl hcurrent (by simp [inAttempt])
    · refine h.frame hsaw rfl rfl rfl rfl rfl rfl hcurrent fun hexit => ?_
      exact absurd (hexit.elim h.signalled h.heard) hsignal
  case stopPolling.go id =>
    subst hs
    refine h.frame hsaw rfl rfl rfl rfl rfl rfl hcurrent fun _ id' s' hrun => ?_
    cases hrun
    exact Or.inl List.mem_insert_self
  case run.go id r =>
    cases r <;> simp only [reduceCtorEq, Option.some.injEq] at hs
    subst hs
    exact h.frame hsaw rfl rfl rfl rfl rfl rfl (by simp [inAttempt, published])
      (by simp [inAttempt])
  case run.reader id r a =>
    simp only [Option.ite_none_right_eq_some, Option.map_eq_some_iff] at hs
    obtain ⟨-, ⟨r', out⟩, -, rfl⟩ := hs
    refine h.frame hsaw rfl rfl rfl rfl rfl rfl hcurrent fun hexit id' s' hrun => ?_
    cases hrun
    exact hreached hexit id r rfl
  case clear.go err =>
    subst hs
    exact h.frame hsaw rfl rfl rfl rfl rfl rfl (by simp [inAttempt, published])
      (by simp [inAttempt])
  case close.go err =>
    subst hs
    exact h.frame hsaw rfl rfl rfl rfl rfl rfl (by simp [published]) (by simp)

theorem Process.ShutdownInv.step (h : p.ShutdownInv) {a : Action}
    (hs : p.step U config a = some q) : q.ShutdownInv := by
  cases a with
  | signal =>
    cases hs
    exact { h with signalled := fun _ => rfl, heard := fun _ => rfl }
  | serveFails =>
    cases hs
    exact { h with }
  | main c => exact h.main hs
  | supervise c => exact h.supervise hs
  | attempt a =>
    simp only [Process.step] at hs
    split at hs
    next s hp => exact h.attempt hp hs
    next => cases hs

theorem Process.shutdownInv_of_execute {as : List Action}
    (h : Transition.execute (Process.step U config) .start as = some p) : p.ShutdownInv :=
  Transition.execute_invariant (I := fun _ p => p.ShutdownInv) Process.shutdownInv_start
    (fun _ _ _ _ hi hs => hi.step hs) h

private theorem mainStep_frame {c : MainChoice} (hs : p.mainStep c = some q) :
    q.supervise = p.supervise ∧ q.attempts = p.attempts := by
  cases c <;> simp only [Process.mainStep] at hs
  case go | workerDone => split at hs <;> cases hs <;> exact ⟨rfl, rfl⟩
  case serveDone | ctxDone | deadline =>
    split_ifs at hs
    cases hs
    exact ⟨rfl, rfl⟩

/-- Once `Supervise` has returned, no step starts an attempt. -/
private theorem attempts_of_returned {errs : List AttemptError}
    (hp : p.supervise = .returned errs) {a : Action} (hs : p.step U config a = some q) :
    q.supervise = .returned errs ∧ q.attempts = p.attempts := by
  cases a with
  | signal | serveFails =>
    cases hs
    exact ⟨hp, rfl⟩
  | supervise c =>
    simp only [Process.step, Process.superviseStep, hp] at hs
    cases c <;> cases hs
  | attempt a => simp [Process.step, hp] at hs
  | main c =>
    obtain ⟨hsupervise, hattempts⟩ := mainStep_frame hs
    exact ⟨hsupervise.trans hp, hattempts⟩

/-- If the signal context was cancelled before `drainConsumer` looked for a reader, whichever case
of its select `run` took, then no reader runs with its stop channel open once `drainConsumer` has
stopped what it found. `Supervise` starts no attempt after it has found a context cancelled. -/
theorem shutdown_reaches_reader (as : List Action) (p : Process)
    (h : Transition.execute (Process.step U config) .start as = some p) :
    (p.exit ≠ some .server ∨ p.heard = true → p.signal = true → p.main.stopDone = true →
      ∀ id s, p.supervise = .attempt (.run id s) → id ∈ p.stopped) ∧
    (p.exit = some .server → p.main.stopDone = true → p.workCanceled = true) ∧
    (p.saw = true → ∀ bs q, Transition.execute (Process.step U config) p bs = some q →
      q.attempts = p.attempts) := by
  have hinv := Process.shutdownInv_of_execute h
  have hexit : p.main.stopDone = true → p.exit ≠ none := by
    intro hdone he
    rw [hinv.serving.mpr he] at hdone
    cases hdone
  refine ⟨?_, ?_, ?_⟩
  · intro hserver _ hdone id s hrun
    have hsignal : p.exit = some .signal ∨ p.heard = true := by
      refine hserver.imp_left fun hne => ?_
      cases he : p.exit with
      | none => exact absurd he (hexit hdone)
      | some e =>
        cases e with
        | signal => rfl
        | server => exact absurd he hne
    exact (hinv.reached hsignal id s hrun).resolve_right (Main.not_willStop hdone id)
  · intro hserver hdone
    refine (hinv.canceled hserver).resolve_left fun hmain => ?_
    rw [hmain] at hdone
    cases hdone
  · intro hsaw bs q hbs
    obtain ⟨errs, hreturned⟩ := hinv.saw hsaw
    have hkept := Transition.execute_invariant
      (I := fun _ r => r.supervise = .returned errs ∧ r.attempts = p.attempts) ⟨hreturned, rfl⟩
      (fun _ _ _ _ hi hs => (attempts_of_returned hi.1 hs).imp_right (·.trans hi.2)) hbs
    exact hkept.2

end Steps

/-- The server fails while a reader waits in its poll, and the signal comes before `drainConsumer`
looks for a reader. -/
def signalDuringPoll : List Action :=
  [.supervise .go, .supervise .go, .attempt (.result true), .attempt .go, .attempt (.result true),
    .attempt .go, .attempt .go, .attempt (.reader (.flag false)),
    .attempt (.reader (.flag false)), .serveFails, .main .serveDone, .main .go, .main .go, .signal,
    .main .go, .main .go]

theorem shutdown_reaches_reader_duringPoll : ∃ p : Process,
    Transition.execute (Process.step UUID.standard ⟨[[1]], [1], [2], [3], 500, 1, 1, 1, 1⟩) .start
      signalDuringPoll = some p ∧ p.supervise = .attempt (.run 0 .poll) ∧ 0 ∈ p.stopped ∧
    p.workCanceled = true := by
  have hrun : ∃ p ∈ Transition.execute
      (Process.step UUID.standard ⟨[[1]], [1], [2], [3], 500, 1, 1, 1, 1⟩) .start
      signalDuringPoll, p.exit = some .server ∧ p.heard = true ∧ p.signal = true ∧
        p.main = .drain ∧ p.supervise = .attempt (.run 0 .poll) := by
    decide +kernel
  obtain ⟨p, hp, hexit, hheard, hsignal, hmain, hsupervise⟩ := hrun
  obtain ⟨hreached, hcanceled, -⟩ := shutdown_reaches_reader signalDuringPoll p hp
  have hdone : p.main.stopDone = true := by rw [hmain]; rfl
  exact ⟨p, hp, hsupervise, hreached (Or.inr hheard) hsignal hdone 0 .poll hsupervise,
    hcanceled hexit hdone⟩

end IngestKit.Consumer
