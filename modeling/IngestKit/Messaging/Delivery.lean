import IngestKit.Messaging.Reader
import IngestKit.Persistence.Events
import Mathlib.Logic.Function.Basic

/-! Consumers, the partition log, the group's committed positions, the events table and
the quarantine topic. Any number of consumers run side by side; each may crash at any
point, lose or regain partitions, and have a call fail before or after it took effect. -/
namespace IngestKit.Messaging
open Event Persistence

/-- A call the reader waits for. -/
inductive Call
  | write (events : List Envelope) (source : List Record)
  | commit (records : List Record)
  | quarantine (rec : Record) (cause : Error)
  deriving DecidableEq

def State.call? : State → Option Call
  | .write _ s _ _ => some (.write s.valid s.source)
  | .commit _ s _ => some (.commit s.source)
  | .quarantine _ _ rec cause => some (.quarantine rec cause)
  | .commitPoison _ _ rec => some (.commit [rec])
  | _ => none

/-- `failed_at` is left out. -/
structure QuarantinedRecord where
  topic : Bytes
  partition : ℕ
  offset : ℕ
  key : Bytes
  headers : List (Bytes × Bytes)
  value : Bytes
  error : Bytes
  deriving DecidableEq

/-- What `Quarantine.Write` publishes. -/
def quarantined (r : Record) (cause : Error) : QuarantinedRecord :=
  ⟨r.topic, r.partition, r.offset, r.key, r.headers, r.value,
    (Utf8.encode cause.message.toList).take 1024⟩

/-- Records of each partition in offset order; offsets may have gaps. -/
structure Log where
  records : ℕ → List Record
  sorted : ∀ p, (records p).Pairwise fun a b => a.offset < b.offset
  partition : ∀ p, ∀ r ∈ records p, r.partition = p

/-- A reader and the position it fetches next in each assigned partition. -/
structure Consumer where
  state : State
  next : ℕ → Option ℕ

/-- `statements` lists the source records of every write that took effect, in order;
`inflight` holds calls that were reported as failed, or whose caller is gone, and that
may still take effect. -/
structure World where
  committed : ℕ → Option ℕ
  table : List Row
  statements : List (List Record)
  dlq : List QuarantinedRecord
  inflight : List Call
  consumers : ℕ → Option Consumer

namespace World

def start (table : List Row) : World := ⟨fun _ => none, table, [], [], [], fun _ => none⟩

def setConsumer (w : World) (k : ℕ) (c : Option Consumer) : World :=
  { w with consumers := Function.update w.consumers k c }

theorem consumers_setConsumer (w : World) (k : ℕ) (c : Option Consumer) :
    (w.setConsumer k c).consumers k = c := Function.update_self _ _ _

/-- The effect of a call. -/
def perform (w : World) : Call → World
  | .write events source =>
    { w with
      table := (writeBatch w.table events).1
      statements := w.statements ++ [source] }
  | .commit records =>
    match records.getLast? with
    | none => w
    | some r =>
      { w with committed := Function.update w.committed r.partition (some (r.offset + 1)) }
  | .quarantine rec cause => { w with dlq := w.dlq ++ [quarantined rec cause] }

/-- Source records of all statements, in the order their rows were offered. -/
def written (w : World) : List Record := w.statements.flatten

end World

/-- The records of a partition from a position on. -/
def Log.fetchFrom (log : Log) (p n : ℕ) : List Record :=
  (log.records p).filter fun r => n ≤ r.offset

def nextPosition (n : ℕ) (chunk : List Record) : ℕ :=
  match chunk.getLast? with
  | none => n
  | some r => r.offset + 1

/-- A poll hands out records of assigned partitions in order and without gaps, and no more of them
than the batch size that it is called with (see `Step.poll`). -/
inductive Polled (log : Log) : (ℕ → Option ℕ) → List (List Record) → (ℕ → Option ℕ) → Prop
  | nil (next) : Polled log next [] next
  | chunk {next next' : ℕ → Option ℕ} {p n : ℕ} {chunks : List (List Record)} (size : ℕ)
      (hp : next p = some n)
      (hs : Polled log (Function.update next p
        (some (nextPosition n ((log.fetchFrom p n).take size)))) chunks next') :
      Polled log next ((log.fetchFrom p n).take size :: chunks) next'

section Runs
variable (U : UUID.Codec) (config : ReaderConfig) (log : Log)

inductive Step : World → World → Prop
  | start {w : World} {k : ℕ} (h : w.consumers k = none) :
      Step w (w.setConsumer k (some ⟨.head, fun _ => none⟩))
  | assign {w : World} {k : ℕ} {c : Consumer} (p : ℕ) (h : w.consumers k = some c) :
      Step w (w.setConsumer k
        (some { c with next := Function.update c.next p (some ((w.committed p).getD 0)) }))
  | revoke {w : World} {k : ℕ} {c : Consumer} (p : ℕ) (h : w.consumers k = some c) :
      Step w (w.setConsumer k (some { c with next := Function.update c.next p none }))
  | advance {w : World} {k : ℕ} {c : Consumer} {a : Answer} {s : State} {out : List Output}
      (h : w.consumers k = some c) (hc : c.state.call? = none) (ha : ∀ f, a ≠ .fetched f)
      (hs : step U config c.state a = some (s, out)) :
      Step w (w.setConsumer k (some { c with state := s }))
  | poll {w : World} {k : ℕ} {c : Consumer} {f : Fetch} {next : ℕ → Option ℕ} {s : State}
      {out : List Output} (h : w.consumers k = some c)
      (hf : Polled log c.next f.partitions next)
      (hb : (f.partitions.flatten.length : ℤ) ≤ config.batchSize)
      (hs : step U config c.state (.fetched f) = some (s, out)) :
      Step w (w.setConsumer k (some ⟨s, next⟩))
  | succeed {w : World} {k : ℕ} {c : Consumer} {call : Call} {s : State} {out : List Output}
      (h : w.consumers k = some c) (hc : c.state.call? = some call)
      (hs : step U config c.state (.result true) = some (s, out)) :
      Step w ((w.perform call).setConsumer k (some { c with state := s }))
  | fail {w : World} {k : ℕ} {c : Consumer} {s : State} {out : List Output}
      (h : w.consumers k = some c) (hs : step U config c.state (.result false) = some (s, out)) :
      Step w (w.setConsumer k (some { c with state := s }))
  | late {w : World} {k : ℕ} {c : Consumer} {call : Call} {s : State} {out : List Output}
      (h : w.consumers k = some c) (hc : c.state.call? = some call)
      (hs : step U config c.state (.result false) = some (s, out)) :
      Step w ({ w with inflight := call :: w.inflight }.setConsumer k (some { c with state := s }))
  | crash {w : World} (k : ℕ) : Step w (w.setConsumer k none)
  | abandon {w : World} {k : ℕ} {c : Consumer} {call : Call} (h : w.consumers k = some c)
      (hc : c.state.call? = some call) :
      Step w ({ w with inflight := call :: w.inflight }.setConsumer k none)
  | deliver {w : World} {a b : List Call} {call : Call} (h : w.inflight = a ++ call :: b) :
      Step w { w.perform call with inflight := a ++ b }

/-- Some finite run leads from a table, with nothing else there, to this world. -/
def Reachable (table : List Row) (w : World) : Prop :=
  Relation.ReflTransGen (Step U config log) (World.start table) w

/-- A record is handled when its key is stored, or when it was refused and its copy
stands in the quarantine topic. -/
def Handled (w : World) (r : Record) : Prop :=
  match decodeEnvelope U r.value with
  | .ok e => ∃ row ∈ w.table, row.key = (Row.ofEnvelope e).key
  | .error cause => quarantined r cause ∈ w.dlq

end Runs

section Readers
variable (U : UUID.Codec) (config : ReaderConfig) (log : Log) (takes : QuarantinedRecord → Prop)
  (k : ℕ)

/-- A step in which the quarantine topic gets nothing but documents that the broker takes. -/
def Accepting (w w' : World) : Prop :=
  Step U config log w w' ∧ ∀ q ∈ w'.dlq, q ∈ w.dlq ∨ takes q

/-- Reader `k` can go from one state to the other by these calls, all of which take effect. -/
def Reaches (s t : State) (calls : List Call) : Prop :=
  ∀ (w : World) (next : ℕ → Option ℕ), Relation.ReflTransGen (Accepting U config log takes)
    (w.setConsumer k (some ⟨s, next⟩))
    ((calls.foldl World.perform w).setConsumer k (some ⟨t, next⟩))

variable {U config log takes k} {s t u : State} {calls calls' : List Call} {w : World}

theorem accepting_of_dlq {w' : World} (hs : Step U config log w w') (h : w'.dlq = w.dlq) :
    Accepting U config log takes w w' :=
  ⟨hs, fun _ hq => .inl (h ▸ hq)⟩

theorem World.setConsumer_setConsumer (c d : Option Consumer) :
    (w.setConsumer k c).setConsumer k d = w.setConsumer k d := by
  simp only [World.setConsumer, Function.update_idem]

theorem World.perform_setConsumer (c : Option Consumer) (call : Call) :
    (w.setConsumer k c).perform call = (w.perform call).setConsumer k c := by
  cases call with
  | write events source => rfl
  | commit records =>
    cases h : records.getLast? with
    | none => simp only [World.perform, h]
    | some r => simp only [World.perform, h, World.setConsumer]
  | quarantine rec cause => rfl

theorem Reaches.trans (h : Reaches U config log takes k s t calls)
    (h' : Reaches U config log takes k t u calls') :
    Reaches U config log takes k s u (calls ++ calls') := by
  intro w next
  rw [List.foldl_append]
  exact (h w next).trans (h' _ next)

theorem reaches_advance {a : Answer} {out : List Output} (hc : s.call? = none)
    (ha : ∀ f, a ≠ .fetched f) (hs : step U config s a = some (t, out)) :
    Reaches U config log takes k s t [] := by
  intro w next
  have hstep : Step U config log _ _ :=
    .advance (w.consumers_setConsumer k (some ⟨s, next⟩)) hc ha hs
  rw [World.setConsumer_setConsumer] at hstep
  exact .single (accepting_of_dlq hstep rfl)

theorem reaches_call (call : Call) {out : List Output} (hc : s.call? = some call)
    (hs : step U config s (.result true) = some (t, out))
    (htakes : ∀ rec cause, call = .quarantine rec cause → takes (quarantined rec cause)) :
    Reaches U config log takes k s t [call] := by
  intro w next
  have hstep : Step U config log _ _ :=
    .succeed (w.consumers_setConsumer k (some ⟨s, next⟩)) hc hs
  rw [World.perform_setConsumer, World.setConsumer_setConsumer] at hstep
  refine .single ⟨hstep, fun q hq => ?_⟩
  cases call with
  | write events source => exact .inl hq
  | commit records =>
    have hdlq : (w.perform (.commit records)).dlq = w.dlq := by
      rw [World.perform]
      split <;> rfl
    exact .inl (hdlq ▸ hq)
  | quarantine rec cause =>
    rcases List.mem_append.mp hq with hold | hnew
    · exact .inl hold
    · exact .inr (List.mem_singleton.mp hnew ▸ htakes rec cause rfl)

/-- A poll of reader `k`. -/
theorem accepting_poll {f : Fetch} {next next' : ℕ → Option ℕ}
    (hf : Polled log next f.partitions next')
    (hb : (f.partitions.flatten.length : ℤ) ≤ config.batchSize) :
    Accepting U config log takes (w.setConsumer k (some ⟨.poll, next⟩))
      (w.setConsumer k (some ⟨.polled f, next'⟩)) := by
  have hstep : Step U config log _ _ :=
    .poll (w.consumers_setConsumer k (some ⟨.poll, next⟩)) hf hb rfl
  rw [World.setConsumer_setConsumer] at hstep
  exact accepting_of_dlq hstep rfl

/-- A reader can always be started anew, be assigned one partition and get to its first poll. -/
theorem run_start (w : World) (k p : ℕ) :
    Relation.ReflTransGen (Accepting U config log takes) w (w.setConsumer k
      (some ⟨.poll, Function.update (fun _ => none) p (some ((w.committed p).getD 0))⟩)) := by
  have hcrash : Step U config log w (w.setConsumer k none) := .crash k
  have hstart : Step U config log (w.setConsumer k none) _ :=
    .start (w.consumers_setConsumer k none)
  rw [World.setConsumer_setConsumer] at hstart
  have hassign : Step U config log (w.setConsumer k (some ⟨.head, fun _ => none⟩)) _ :=
    .assign p (w.consumers_setConsumer k _)
  rw [World.setConsumer_setConsumer] at hassign
  have hhead : Reaches U config log takes k .head .stopBefore [] :=
    reaches_advance (a := .flag false) rfl (by simp) rfl
  have hpoll : Reaches U config log takes k .stopBefore .poll [] :=
    reaches_advance (a := .flag false) rfl (by simp) rfl
  exact .head (accepting_of_dlq hcrash rfl) (.head (accepting_of_dlq hstart rfl)
    (.head (accepting_of_dlq hassign rfl) ((hhead.trans hpoll) w _)))

end Readers

end IngestKit.Messaging
