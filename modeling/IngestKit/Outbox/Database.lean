import IngestKit.Checkout.Client
import IngestKit.Outbox.Order

/-! The tables `orders` and `outbox`, and the transactions on them. A transaction takes effect as a
whole or not at all; `acknowledged_at` is left out. -/
namespace IngestKit.Outbox
open Checkout

structure OrderRow where
  orderID : Bytes
  amountCents : ℤ
  eventID : Bytes
  deriving DecidableEq

inductive RowState
  | pending | acknowledged | rejected
  deriving DecidableEq

structure OutboxRow where
  eventID : Bytes
  orderID : Bytes
  body : Bytes
  state : RowState
  attempts : ℕ
  lastError : Option String
  deriving DecidableEq

/-- Both tables in the order of their row identifiers. -/
structure Database where
  orders : List OrderRow
  outbox : List OutboxRow
  deriving DecidableEq

/-- `ValueError` with its message, or a constraint of the schema. -/
inductive CreateError
  | value (message : String)
  | integrity
  deriving DecidableEq

namespace OrderEvent

def orderRow (e : OrderEvent) : OrderRow :=
  ⟨e.order.orderID, e.order.amountCents, e.eventID.string⟩

/-- The columns that are not given take their defaults. -/
def outboxRow (e : OrderEvent) : OutboxRow :=
  ⟨e.eventID.string, e.order.orderID, e.body, .pending, 0, none⟩

end OrderEvent

namespace Database

def empty : Database := ⟨[], []⟩

/-- The transaction of `create_order`, with the identifier and the moment it draws for a new
order. -/
def createOrder (e : OrderEvent) (db : Database) : Except CreateError (Bytes × Database) :=
  match db.orders.find? fun row => row.orderID == e.order.orderID with
  | some existing =>
    if existing.amountCents ≠ e.order.amountCents then
      .error (.value "order already exists with a different amount")
    else .ok (existing.eventID, db)
  | none =>
    if (db.orders.any fun row => row.eventID == e.eventID.string) || (db.outbox.any fun row =>
        row.eventID == e.eventID.string || row.orderID == e.order.orderID) then
      .error .integrity
    else .ok (e.eventID.string, ⟨db.orders ++ [e.orderRow], db.outbox ++ [e.outboxRow]⟩)

/-- The oldest pending rows, as `dispatch_once` selects them. -/
def pending (limit : ℕ) (db : Database) : List (Bytes × Bytes) :=
  ((db.outbox.filter fun row => row.state == .pending).take limit).map fun row =>
    (row.eventID, row.body)

end Database

/-- What a dispatch writes to its rows. -/
structure Outcome where
  state : RowState
  code : Option String
  deriving DecidableEq

/-- One `UPDATE … WHERE event_id=? AND state='pending'` as it meets a row. -/
def Outcome.settle (o : Outcome) (id : Bytes) (row : OutboxRow) : OutboxRow :=
  if row.eventID = id ∧ row.state = .pending then
    { row with state := o.state, attempts := row.attempts + 1, lastError := o.code }
  else row

/-- The transaction that ends a dispatch. -/
def Database.update (o : Outcome) (ids : List Bytes) (db : Database) : Database :=
  { db with outbox := ids.foldl (fun rows id => rows.map (o.settle id)) db.outbox }

structure Issue where
  eventID : Bytes
  attempts : ℕ
  error : String
  deriving DecidableEq

structure Status where
  pending : ℕ
  acknowledged : ℕ
  rejected : ℕ
  issues : List Issue
  deriving DecidableEq

def Database.count (s : RowState) (db : Database) : ℕ := db.outbox.countP fun row => row.state == s

def OutboxRow.issue? (row : OutboxRow) : Option Issue :=
  row.lastError.map fun error => ⟨row.eventID, row.attempts, error⟩

def Database.status (db : Database) : Status where
  pending := db.count .pending
  acknowledged := db.count .acknowledged
  rejected := db.count .rejected
  issues := (db.outbox.filterMap OutboxRow.issue?).take 100

/-- Known rejections of the input are parked; everything else leaves the rows pending. -/
def Outcome.ofError (e : IngestError) : Outcome :=
  let status := e.status.filter fun s => 100 ≤ s && s ≤ 599
  ⟨if status = some 400 ∨ status = some 413 then .rejected else .pending,
    some (status.elim "delivery_uncertain" fun s => "http_" ++ toString s)⟩

/-- What `dispatch_once` concludes from the client's answer. -/
def Outcome.ofAnswer (ids : List Bytes) : Except IngestError (List Bytes) → Outcome
  | .ok acknowledgement =>
    if acknowledgement ≠ ids then .ofError ⟨"invalid acknowledgement", none, true⟩
    else ⟨.acknowledged, none⟩
  | .error e => .ofError e

structure Result where
  attempted : ℕ
  acknowledged : ℕ
  rejected : ℕ
  pending : ℕ
  error : Option String
  deriving DecidableEq

/-- The result of a dispatch; `none` when nothing was selected. -/
def Outcome.result (selected : ℕ) (o : Option Outcome) (db : Database) : Result where
  attempted := selected
  acknowledged := if o.any fun o => o.state == .acknowledged then selected else 0
  rejected := if o.any fun o => o.state == .rejected then selected else 0
  pending := db.status.pending
  error := o.bind Outcome.code

end IngestKit.Outbox
