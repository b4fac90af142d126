import IngestKit.Api.AllOrNothing
import IngestKit.Checkout.Acknowledgement
import IngestKit.Outbox.Database

/-! Callers of `create_order`, dispatchers, the network and the collector. Any number of them run
side by side. A process may stop at any point, a request may reach the collector late, more than
once or never, and an answer may be lost or come from a gateway in between. -/
namespace IngestKit.Outbox
open Event Api Checkout
open Json.Python (Loader)

/-- What is not part of the repository: how `json.loads` reads a text, and the answers, each with a
status and a body, that gateways give on their own account. -/
structure Outside where
  loader : Loader
  gateway : ℕ → Bytes → Prop

/-- A gateway rejects a request. -/
def Outside.Rejects (out : Outside) : Prop := ∃ raw, out.gateway 400 raw ∨ out.gateway 413 raw

/-- A gateway acknowledges these identifiers. -/
def Outside.Acknowledges (out : Outside) (ids : List Bytes) : Prop :=
  ∃ raw, out.gateway 202 raw ∧ acknowledges out.loader ids raw = true

/-- Where a call of `dispatch_once` is: before an attempt, waiting for its answer, before the
update, before the final count, or returned. -/
inductive Phase
  | attempting (k : ℕ)
  | waiting (k : ℕ)
  | updating (o : Outcome)
  | counting (o : Option Outcome)
  | done (r : Result)

structure Dispatcher where
  selected : List (Bytes × Bytes)
  expected : List Bytes
  body : Bytes
  phase : Phase

namespace Dispatcher

def ids (d : Dispatcher) : List Bytes := d.selected.map Prod.fst

/-- The dispatch up to its first attempt; a body that cannot be read ends the process. -/
def start (J : Loader) (selected : List (Bytes × Bytes)) : Option Dispatcher :=
  match selected with
  | [] => some ⟨[], [], [], .counting none⟩
  | row :: rows =>
    match (row :: rows).mapM fun row => J.loads row.2 with
    | none => none
    | some events =>
      match serialise events true with
      | .ok (expected, body) => some ⟨row :: rows, expected, body, .attempting 0⟩
      | .error e => some ⟨row :: rows, [], [], .updating (.ofError e)⟩

/-- Round `k` of the client's loop ends with this reply. -/
def afterReply (J : Loader) (client : Client) (k : ℕ) (ρ : Reply) (d : Dispatcher) :
    Dispatcher :=
  match afterAttempt client.maxAttempts k (attempt J d.expected ρ) with
  | none => { d with phase := .attempting (k + 1) }
  | some answer => { d with phase := .updating (.ofAnswer d.ids answer) }

end Dispatcher

/-- The request of an attempt. -/
def request (client : Client) (body : Bytes) : Request := ⟨bearer ++ client.key, body, true⟩

/-- `returned` lists the identifiers that callers of `create_order` were given, `sent` the requests
that left a dispatcher, and `served` those that reached the collector. -/
structure World where
  db : Database
  returned : List (Bytes × Bytes)
  sent : List Request
  served : List (Request × Exchange)
  dispatchers : ℕ → Option Dispatcher

namespace World

def start : World := ⟨.empty, [], [], [], fun _ => none⟩

def setDispatcher (w : World) (k : ℕ) (d : Option Dispatcher) : World :=
  { w with dispatchers := Function.update w.dispatchers k d }

theorem setDispatcher_self (w : World) (k : ℕ) (d : Option Dispatcher) :
    (w.setDispatcher k d).dispatchers k = d := by
  unfold setDispatcher
  exact Function.update_self _ _ _

theorem setDispatcher_of_ne (w : World) {j k : ℕ} (h : j ≠ k) (d : Option Dispatcher) :
    (w.setDispatcher k d).dispatchers j = w.dispatchers j := by
  unfold setDispatcher
  exact Function.update_of_ne h _ _

/-- A reply that the client may get to a request: a failure, an answer of the collector to this
request, or the answer of a gateway. -/
def Answers (out : Outside) (w : World) (req : Request) : Reply → Prop
  | .untrusted => True
  | .failed => True
  | .response status raw _ =>
    out.gateway status raw ∨
      ∃ r p, (req, .answered r p) ∈ w.served ∧ status = r.status ∧
        ∀ ids, r.body = .accepted ids → ∃ requestID, raw = acceptedBody ids requestID

end World

section Runs
variable (U : UUID.Codec) (app : App) (topic : Bytes) (rps : ℕ) (client : Client)
  (out : Outside)

inductive Step : World → World → Prop
  | create {w : World} {e : OrderEvent} {id : Bytes} {db : Database} (answered : Bool)
      (h : w.db.createOrder e = .ok (id, db)) :
      Step w { w with
        db := db
        returned := if answered then w.returned ++ [(e.order.orderID, id)] else w.returned }
  | dispatch {w : World} {k : ℕ} (size : ℕ) (hk : w.dispatchers k = none) (hlow : 1 ≤ size)
      (hhigh : size ≤ 100) :
      Step w (w.setDispatcher k (Dispatcher.start out.loader (w.db.pending size)))
  | send {w : World} {k n : ℕ} {d : Dispatcher} (hd : w.dispatchers k = some d)
      (hp : d.phase = .attempting n) :
      Step w ({ w with sent := w.sent ++ [request client d.body] }.setDispatcher k
        (some { d with phase := .waiting n }))
  | deliver {w : World} {req : Request} (h : req ∈ w.sent) (b : Bucket) (now : ℤ) (received : Time)
      (hclock : received.isZero = false) :
      Step w { w with
        served := w.served ++ [(req, .start (serve U app topic rps b now req received))] }
  | serve {w : World} {a b : List (Request × Exchange)} {req : Request} {x y : Exchange}
      (h : w.served = a ++ (req, x) :: b) (hx : Exchange.Step x y) :
      Step w { w with served := a ++ (req, y) :: b }
  | reply {w : World} {k n : ℕ} {d : Dispatcher} {ρ : Reply} (hd : w.dispatchers k = some d)
      (hp : d.phase = .waiting n) (hρ : w.Answers out (request client d.body) ρ) :
      Step w (w.setDispatcher k (some (d.afterReply out.loader client n ρ)))
  | update {w : World} {k : ℕ} {d : Dispatcher} {o : Outcome} (hd : w.dispatchers k = some d)
      (hp : d.phase = .updating o) :
      Step w ({ w with db := w.db.update o d.ids }.setDispatcher k
        (some { d with phase := .counting (some o) }))
  | count {w : World} {k : ℕ} {d : Dispatcher} {o : Option Outcome}
      (hd : w.dispatchers k = some d) (hp : d.phase = .counting o) :
      Step w (w.setDispatcher k
        (some { d with phase := .done (Outcome.result d.selected.length o w.db) }))
  | stop {w : World} (k : ℕ) : Step w (w.setDispatcher k none)

/-- Some finite run leads here from an empty database. -/
def Reachable (w : World) : Prop :=
  Relation.ReflTransGen (Step U app topic rps client out) .start w

end Runs

end IngestKit.Outbox
