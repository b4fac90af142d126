import IngestKit.Messaging.Reader
import IngestKit.Service.Lifecycle

/-! The consumer process: the goroutine of `run`, the supervised worker and its readers, the signal
context, and the state they share. -/
namespace IngestKit.Consumer
open Event Messaging Service

/-- What the health state is kept under. -/
inductive HealthKey
  | operation (kind : Kind)
  | shutdown
  deriving DecidableEq

inductive AttemptError
  | ping
  | newReader
  | run (f : Failure)
  | context
  deriving DecidableEq

/-- One attempt of the worker; readers are numbered as they are made. -/
inductive Attempt
  | ping
  | preCheck
  | create
  | store (reader : ℕ)
  | reCheck (reader : ℕ)
  | stopPolling (reader : ℕ)
  | run (reader : ℕ) (s : State)
  | clear (err : Option AttemptError)
  | close (err : Option AttemptError)
  deriving DecidableEq

/-- How `run` left its select. -/
inductive Exit
  | signal
  | server
  deriving DecidableEq

/-- The goroutine of `run` from its select on; `load`, `stopPolling`, `drain` and `cancelWork` are
`drainConsumer`. -/
inductive Main
  | serving
  | cancelWorker
  | observe
  | load
  | stopPolling (reader : Option ℕ)
  | drain
  | cancelWork
  | returned
  deriving DecidableEq

/-- `stopped` lists the readers whose stop channel is closed. The last four fields record what
happened: operations in the order they were reported, attempts that were started, whether
`Supervise` has found a context cancelled, and whether the signal context was cancelled when
`drainConsumer` looked for a reader. -/
structure Process where
  signal : Bool
  served : Bool
  workCanceled : Bool
  exit : Option Exit
  main : Main
  supervise : Supervise Attempt AttemptError
  current : Option ℕ
  readers : ℕ
  stopped : List ℕ
  health : ProcessingHealth HealthKey
  operations : List Operation
  attempts : ℕ
  saw : Bool
  heard : Bool

inductive MainChoice
  | go
  | serveDone
  | ctxDone
  | workerDone
  | deadline
  deriving DecidableEq

/-- The outcome of a ping or of `NewReader`, or what the reader in `Run` is told. -/
inductive AttemptAnswer
  | go
  | result (ok : Bool)
  | reader (a : Answer)
  deriving DecidableEq

inductive Action
  | signal
  | serveFails
  | main (c : MainChoice)
  | supervise (c : SuperviseChoice)
  | attempt (a : AttemptAnswer)
  deriving DecidableEq

namespace Process

def start : Process where
  signal := false
  served := false
  workCanceled := false
  exit := none
  main := .serving
  supervise := .checkWork
  current := none
  readers := 0
  stopped := []
  health := .new
  operations := []
  attempts := 0
  saw := false
  heard := false

/-- A reader's checks find the stop channel and the worker's context as they are; contexts with a
deadline may also have ended by themselves. -/
def consistent (p : Process) (id : ℕ) : State → Answer → Prop
  | .stopBefore, .flag b | .polled _, .flag b | .stopAfter, .flag b => b = decide (id ∈ p.stopped)
  | .head, .flag b | .canceled _, .flag b | .finish, .flag b => b = p.workCanceled
  | .record .., .flag b | .persist .., .flag b | .writeFailed .., .flag b =>
    p.workCanceled = true → b = true
  | _, _ => True

instance (p : Process) (id : ℕ) (s : State) (a : Answer) : Decidable (p.consistent id s a) := by
  unfold consistent
  split <;> infer_instance

def reported (out : List Output) : List Operation :=
  out.filterMap fun o => match o with
    | .notify op => some op
    | .release => none

/-- `OnOperation`, for what a step of the reader shows. -/
def onOperation (p : Process) (out : List Output) : Process :=
  { p with
    health := (reported out).foldl (fun h op => h.observe (.operation op.kind) op.failed) p.health
    operations := p.operations ++ reported out }

def mainStep (p : Process) : MainChoice → Option Process
  | .serveDone =>
    if p.main = .serving ∧ p.served then some { p with main := .cancelWorker, exit := some .server }
    else none
  | .ctxDone =>
    if p.main = .serving ∧ p.signal then some { p with main := .observe, exit := some .signal }
    else none
  | .go =>
    match p.main with
    | .cancelWorker => some { p with workCanceled := true, main := .observe }
    | .observe => some { p with health := p.health.observe .shutdown true, main := .load }
    | .load => some { p with main := .stopPolling p.current, heard := p.signal }
    | .stopPolling none => some { p with main := .drain }
    | .stopPolling (some id) => some { p with stopped := p.stopped.insert id, main := .drain }
    | .cancelWork => some { p with workCanceled := true, main := .returned }
    | _ => none
  | .workerDone =>
    match p.main, p.supervise with
    | .drain, .returned _ => some { p with main := .returned }
    | _, _ => none
  | .deadline => if p.main = .drain then some { p with main := .cancelWork } else none

def superviseStep (p : Process) (c : SuperviseChoice) : Option Process :=
  (p.supervise.step .ping .context p.signal p.workCanceled c).map fun s =>
    { p with
      supervise := s
      attempts := if p.supervise = .checkStop ∧ s = .attempt .ping then p.attempts + 1
        else p.attempts
      saw := p.saw || p.supervise.sees p.signal p.workCanceled c }

def inAttempt (p : Process) (a : Attempt) : Process := { p with supervise := .attempt a }

/-- The function that `Supervise` is given. -/
def attemptStep (U : UUID.Codec) (config : ReaderConfig) (p : Process) :
    Attempt → AttemptAnswer → Option Process
  | .ping, .result ok =>
    some (if ok then p.inAttempt .preCheck else { p with supervise := .afterWork (some .ping) })
  | .preCheck, .go =>
    some (if p.signal then { p with supervise := .afterWork none } else p.inAttempt .create)
  | .create, .result ok =>
    some (if ok then { p.inAttempt (.store p.readers) with readers := p.readers + 1 }
      else { p with supervise := .afterWork (some .newReader) })
  | .store id, .go => some { p.inAttempt (.reCheck id) with current := some id }
  | .reCheck id, .go =>
    some (if p.signal then p.inAttempt (.stopPolling id) else p.inAttempt (.run id .head))
  | .stopPolling id, .go =>
    some { p.inAttempt (.run id .head) with stopped := p.stopped.insert id }
  | .run _ (.returned result), .go => some (p.inAttempt (.clear (result.map .run)))
  | .run id s, .reader a =>
    if p.consistent id s a then
      (Messaging.step U config s a).map fun r => (p.inAttempt (.run id r.1)).onOperation r.2
    else none
  | .clear err, .go => some { p.inAttempt (.close err) with current := none }
  | .close err, .go => some { p with supervise := .afterWork err }
  | _, _ => none

def step (U : UUID.Codec) (config : ReaderConfig) (p : Process) : Action → Option Process
  | .signal => some { p with signal := true }
  | .serveFails => some { p with served := true }
  | .main c => p.mainStep c
  | .supervise c => p.superviseStep c
  | .attempt a =>
    match p.supervise with
    | .attempt s => p.attemptStep U config s a
    | _ => none

end Process

end IngestKit.Consumer
