import IngestKit.Benchmark.Workload

/-! The registered cases of a study. A mode fixes its cases. -/
namespace IngestKit.Benchmark
open Event

inductive Mode
  | full | connections | smoke
  deriving DecidableEq

def seconds (n : ℕ) : ℕ := n * 1000000000

def milliseconds (n : ℕ) : ℕ := n * 1000000

/-- An ID that ends in a number. -/
def numberedID (name : List Char) (n : ℕ) : Bytes := ascii name ++ 0x2d :: decimal n

def databaseCase (id : Bytes) (batch payload : ℕ) (duplicates : ℚ) : Case :=
  { id := id
    kind := .database
    count := 5000
    batchSize := batch
    payloadBytes := payload
    duplicateFraction := duplicates }

/-- The base of the pipeline and recovery cases. -/
def pipelineBase : Case :=
  { id := []
    kind := .pipeline
    pattern := .steady
    count := 10000
    batchSize := 100
    payloadBytes := 256
    rate := 1000
    concurrency := 32
    window := seconds 10
    warmup := seconds 2
    drain := seconds 30
    poll := milliseconds 50 }

def recoveryCase (id : Bytes) (recovery : Recovery) (restoreAt : ℕ) : Case :=
  { pipelineBase with
    id := id
    kind := .recovery
    recovery := recovery
    rate := 500
    window := seconds 15
    count := 7500
    faultAt := seconds 3
    restoreAt := seconds restoreAt }

def outboxCase : Case :=
  { id := ascii ['r', 'e', 'c', 'o', 'v', 'e', 'r', 'y', '-', 'o', 'u', 't', 'b', 'o', 'x']
    kind := .recovery
    recovery := .outbox
    count := 100
    batchSize := 100
    payloadBytes := 256
    restoreAt := seconds 8
    drain := seconds 30
    poll := milliseconds 50 }

def studyCases : List Case :=
  [1, 10, 50, 100, 500, 1000].map (fun n =>
    databaseCase (numberedID ['d', 'b', '-', 'b', 'a', 't', 'c', 'h'] n) n 256 0) ++
  [1024, 16384].map (fun n =>
    databaseCase (numberedID ['d', 'b', '-', 'p', 'a', 'y', 'l', 'o', 'a', 'd'] n) 100 n 0) ++
  [10, 50, 90].map (fun n : ℕ => databaseCase
    (numberedID ['d', 'b', '-', 'd', 'u', 'p', 'l', 'i', 'c', 'a', 't', 'e', 's'] n) 100 256
    (n / 100)) ++
  [1, 10, 100].map (fun n => { pipelineBase with
    id := numberedID ['p', 'i', 'p', 'e', 'l', 'i', 'n', 'e', '-', 'b', 'a', 't', 'c', 'h'] n
    batchSize := n }) ++
  [100, 5000, 10000].map (fun n => { pipelineBase with
    id := numberedID ['p', 'i', 'p', 'e', 'l', 'i', 'n', 'e', '-', 'r', 'a', 't', 'e'] n
    rate := n
    count := n * 10 }) ++
  [1024, 16384].map (fun n => { pipelineBase with
    id := numberedID
      ['p', 'i', 'p', 'e', 'l', 'i', 'n', 'e', '-', 'p', 'a', 'y', 'l', 'o', 'a', 'd'] n
    payloadBytes := n
    batchSize := 10 }) ++
  [{ pipelineBase with
    id := ascii ['p', 'i', 'p', 'e', 'l', 'i', 'n', 'e', '-', 'b', 'u', 'r', 's', 't']
    pattern := .burst }] ++
  [8, 64].map (fun n => { pipelineBase with
    id := numberedID ['p', 'i', 'p', 'e', 'l', 'i', 'n', 'e', '-', 'c', 'o', 'n', 'c', 'u', 'r', 'r',
      'e', 'n', 'c', 'y'] n
    concurrency := n
    batchSize := 1 }) ++
  [recoveryCase (ascii ['r', 'e', 'c', 'o', 'v', 'e', 'r', 'y', '-', 'd', 'a', 't', 'a', 'b', 'a',
    's', 'e']) .database 8,
   recoveryCase (ascii ['r', 'e', 'c', 'o', 'v', 'e', 'r', 'y', '-', 'c', 'o', 'n', 's', 'u', 'm',
    'e', 'r']) .consumer 5,
   outboxCase]

/-- The base of the connection cases. -/
def connectionBase : Case :=
  { pipelineBase with
    count := 150000
    payloadBytes := 1024
    rate := 15000
    concurrency := 128
    httpMaxConnsPerHost := 128
    httpMaxIdleConnsPerHost := 128
    poll := seconds 1 }

def connectionCases : List Case :=
  [4, 8, 16, 32, 64, 128, 0].map (fun n => { connectionBase with
    id := numberedID ['c', 'o', 'n', 'n', 'e', 'c', 't', 'i', 'o', 'n', 's', '-', 'c', 'a', 'p'] n
    httpMaxConnsPerHost := n }) ++
  [30000, 50000].map (fun n => { connectionBase with
    id := numberedID
      ['c', 'o', 'n', 'n', 'e', 'c', 't', 'i', 'o', 'n', 's', '-', 'r', 'a', 't', 'e'] n
    rate := n
    count := n * 10 }) ++
  [256, 1024, 16384].map (fun n => { connectionBase with
    id := numberedID ['c', 'o', 'n', 'n', 'e', 'c', 't', 'i', 'o', 'n', 's', '-', 'p', 'a', 'y', 'l',
      'o', 'a', 'd'] n
    payloadBytes := n
    batchSize := 10
    rate := 1000
    count := 10000 })

def smokeCases : List Case :=
  [{ id := ascii ['s', 'm', 'o', 'k', 'e', '-', 'd', 'a', 't', 'a', 'b', 'a', 's', 'e']
     kind := .database
     count := 100
     batchSize := 10
     payloadBytes := 256 },
   { id := ascii ['s', 'm', 'o', 'k', 'e', '-', 'p', 'i', 'p', 'e', 'l', 'i', 'n', 'e']
     kind := .pipeline
     pattern := .steady
     count := 10
     rate := 20
     concurrency := 2
     batchSize := 2
     payloadBytes := 256
     window := milliseconds 500
     warmup := milliseconds 100
     drain := seconds 5
     poll := milliseconds 25 }]

/-- The registry of each mode. -/
def registry : Mode → List Case
  | .full => studyCases
  | .connections => connectionCases
  | .smoke => smokeCases

/-- `pipelineCaseConfig`. -/
def pipelineCaseConfig (c : Case) (seed : ℤ) (space : Bytes) : PipelineConfig where
  reconnectObserver := c.recovery = .database
  space := space
  payloadProfile := c.payloadProfile
  pattern := c.pattern
  seed := seed
  rate := c.rate
  concurrency := c.concurrency
  batchSize := c.batchSize
  payloadBytes := c.payloadBytes
  repetitions := c.repetitions
  duration := c.window
  warmup := c.warmup
  drainDeadline := c.drain
  pollInterval := c.poll

/-- Every registered case has three repetitions, an ID of its own and, if it offers load, the count
its rate and window give. -/
theorem registry_consistent (mode : Mode) :
    ((registry mode).map Case.id).Nodup ∧
      ∀ c ∈ registry mode, c.repetitions = 3 ∧
        (0 < c.rate → c.rate * c.window = seconds c.count) := by
  cases mode <;> decide +kernel

end IngestKit.Benchmark
