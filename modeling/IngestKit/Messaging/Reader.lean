import IngestKit.Event.Decode

/-! The reader of one consumer process, as the sequence of calls it makes. A state is
the point between two calls; an answer is what the environment returned. -/
namespace IngestKit.Messaging
open Event

structure Record where
  topic : Bytes
  partition : ℕ
  offset : ℕ
  key : Bytes
  headers : List (Bytes × Bytes)
  value : Bytes
  deriving DecidableEq

/-- Durations in nanoseconds. -/
structure ReaderConfig where
  brokers : List Bytes
  topic : Bytes
  dlqTopic : Bytes
  groupID : Bytes
  batchSize : ℤ
  attemptTimeout : ℤ
  retryWindow : ℤ
  backoffMin : ℤ
  backoffMax : ℤ

def orDefault (x y : ℤ) : ℤ := if x = 0 then y else x

def readerDefaults (c : ReaderConfig) : ReaderConfig :=
  { c with
    batchSize := orDefault c.batchSize 500
    attemptTimeout := orDefault c.attemptTimeout 5000000000
    retryWindow := orDefault c.retryWindow 15000000000
    backoffMin := orDefault c.backoffMin 100000000
    backoffMax := orDefault c.backoffMax 2000000000 }

/-- The configuration checks of `NewReader`. -/
def newReader (config : ReaderConfig) : Option ReaderConfig :=
  let c := readerDefaults config
  if c.brokers.length = 0 ∨ c.topic = [] ∨ c.dlqTopic = [] ∨ c.groupID = [] ∨ c.batchSize < 1 ∨
      c.batchSize > 500 ∨ c.attemptTimeout ≤ 0 ∨ c.retryWindow ≤ 0 ∨ c.retryWindow > 15000000000 ∨
      c.backoffMin ≤ 0 ∨ c.backoffMax < c.backoffMin then none
  else some c

/-- A fetch error; the reader only asks whether it is `context.Canceled`. -/
inductive FetchError
  | canceled
  | other
  deriving DecidableEq

structure Fetch where
  partitions : List (List Record)
  errors : List FetchError
  deriving DecidableEq

inductive Kind
  | storage | progress | quarantine
  deriving DecidableEq

structure Operation where
  kind : Kind
  topic : Bytes
  partition : ℕ
  offset : ℕ
  failed : Bool
  deriving DecidableEq

/-- The error `Run` returns. -/
inductive Failure
  | context | retryExhausted | commit | quarantine | fetch
  deriving DecidableEq

/-- `processFetched`: partitions still to visit, fetch errors and the stop flag. -/
structure Cycle where
  queue : List (List Record)
  errors : List FetchError
  ignorePollCancel : Bool
  deriving DecidableEq

/-- `processPartition`: records still to visit and the buffered segment. -/
structure Segment where
  rest : List Record
  valid : List Envelope
  source : List Record
  deriving DecidableEq

/-- What follows a flush. -/
inductive After
  | poison (rec : Record) (cause : Error)
  | next
  | done
  deriving DecidableEq

inductive State
  | head
  | stopBefore
  | poll
  | polled (f : Fetch)
  | each (c : Cycle)
  | record (c : Cycle) (s : Segment)
  | flush (c : Cycle) (s : Segment) (k : After)
  | persist (c : Cycle) (s : Segment) (k : After) (backoff : ℤ)
  | write (c : Cycle) (s : Segment) (k : After) (backoff : ℤ)
  | writeFailed (c : Cycle) (s : Segment) (k : After) (backoff : ℤ)
  | wait (c : Cycle) (s : Segment) (k : After) (backoff : ℤ)
  | commit (c : Cycle) (s : Segment) (k : After)
  | quarantine (c : Cycle) (s : Segment) (rec : Record) (cause : Error)
  | commitPoison (c : Cycle) (s : Segment) (rec : Record)
  | errors (c : Cycle)
  | canceled (c : Cycle)
  | finish
  | release (result : Option Failure)
  | stopAfter
  | returned (result : Option Failure)
  deriving DecidableEq

/-- `flag` answers a check of a context or of the stop channel, and in `wait` whether
the retry window closed before the timer; `result` is a call's success. -/
inductive Answer
  | tau
  | flag (b : Bool)
  | fetched (f : Fetch)
  | result (ok : Bool)
  deriving DecidableEq

/-- What a step shows to the outside. -/
inductive Output
  | notify (op : Operation)
  | release
  deriving DecidableEq

def operation (kind : Kind) (rec : Record) (ok : Bool) : Operation :=
  ⟨kind, rec.topic, rec.partition, rec.offset, !ok⟩

def notify (kind : Kind) (rec : Option Record) (ok : Bool) : List Output :=
  match rec with
  | some rec => [.notify (operation kind rec ok)]
  | none => []

/-- Where `flush` returns to when it succeeded. -/
def resume (c : Cycle) (s : Segment) : After → State
  | .poison rec cause => .quarantine c s rec cause
  | .next => .record c s
  | .done => .each c

def nextBackoff (config : ReaderConfig) (backoff : ℤ) : ℤ :=
  if backoff < config.backoffMax then
    if backoff * 2 > config.backoffMax then config.backoffMax else backoff * 2
  else backoff

/-- One iteration of the record loop, once the context was found alive. -/
def visit (U : UUID.Codec) (config : ReaderConfig) (c : Cycle) (s : Segment) (rec : Record)
    (rest : List Record) : State :=
  match decodeEnvelope U rec.value with
  | .error cause => .flush c { s with rest := rest } (.poison rec cause)
  | .ok e =>
    let s' : Segment := ⟨rest, s.valid ++ [e], s.source ++ [rec]⟩
    if (s'.valid.length : ℤ) ≥ config.batchSize then .flush c s' .next else .record c s'

def step (U : UUID.Codec) (config : ReaderConfig) : State → Answer → Option (State × List Output)
  | .head, .flag err => some (if err then .returned (some .context) else .stopBefore, [])
  | .stopBefore, .flag stop => some (if stop then .returned none else .poll, [])
  | .poll, .fetched f => some (.polled f, [])
  | .polled f, .flag stop => some (.each ⟨f.partitions, f.errors, stop⟩, [])
  | .each c, .tau =>
    match c.queue with
    | [] => some (.errors c, [])
    | [] :: q => some (.each { c with queue := q }, [])
    | recs :: q => some (.record { c with queue := q } ⟨recs, [], []⟩, [])
  | .record c s, .tau =>
    match s.rest with
    | [] => some (.flush c s .done, [])
    | _ :: _ => none
  | .record c s, .flag err =>
    match s.rest with
    | [] => none
    | rec :: rest =>
      some (if err then .release (some .context) else visit U config c s rec rest, [])
  | .flush c s k, .tau =>
    match s.source with
    | [] => some (resume c s k, [])
    | _ :: _ => some (.persist c s k config.backoffMin, [])
  | .persist c s k backoff, .flag err =>
    some (if err then .release (some .context) else .write c s k backoff, [])
  | .write c s k backoff, .result ok =>
    some (if ok then .commit c s k else .writeFailed c s k backoff,
      notify .storage s.source.head? ok)
  | .writeFailed c s k backoff, .flag err =>
    some (if err then .release (some .context) else .wait c s k backoff, [])
  | .wait c s k backoff, .flag closed =>
    some (if closed then .release (some .retryExhausted)
      else .persist c s k (nextBackoff config backoff), [])
  | .commit c s k, .result ok =>
    some (if ok then resume c ⟨s.rest, [], []⟩ k else .release (some .commit),
      notify .progress s.source.getLast? ok)
  | .quarantine c s rec _, .result ok =>
    some (if ok then .commitPoison c s rec else .release (some .quarantine),
      notify .quarantine (some rec) ok)
  | .commitPoison c s rec, .result ok =>
    some (if ok then .record c s else .release (some .commit), notify .progress (some rec) ok)
  | .errors c, .tau =>
    match c.errors with
    | [] => some (.finish, [])
    | e :: _ =>
      if c.ignorePollCancel ∧ e = .canceled then some (.canceled c, [])
      else some (.release (some .fetch), [])
  | .canceled c, .flag err =>
    some (if err then .release (some .fetch) else .errors { c with errors := c.errors.tail }, [])
  | .finish, .flag err => some (.release (if err then some .context else none), [])
  | .release result, .tau =>
    match result with
    | some f => some (.returned (some f), [.release])
    | none => some (.stopAfter, [.release])
  | .stopAfter, .flag stop => some (if stop then .returned none else .head, [])
  | _, _ => none

end IngestKit.Messaging
