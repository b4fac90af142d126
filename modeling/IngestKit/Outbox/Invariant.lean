import IngestKit.Outbox.Batch
import IngestKit.Replay.FirstWins
import IngestKit.Transition.Runs

/-! The invariant of every run: the tables hold one row of each kind for each saved event, and a row
leaves `pending` only after an answer to a request that carried it. -/
namespace IngestKit.Outbox
open Event Api Checkout Messaging Replay

section Tables

/-- The row of a saved event, whatever became of it. -/
structure OrderEvent.Saved (e : OrderEvent) (row : OutboxRow) : Prop where
  eventID : row.eventID = e.eventID.string
  orderID : row.orderID = e.order.orderID
  body : row.body = e.body

/-- The tables are those of these events, saved in this order. -/
structure Database.Holds (db : Database) (events : List OrderEvent) : Prop where
  orders : db.orders = events.map OrderEvent.orderRow
  outbox : List.Forall₂ OrderEvent.Saved events db.outbox
  orderIDs : (events.map fun e => e.order.orderID).Nodup
  eventIDs : (events.map OrderEvent.eventID).Nodup

/-- What may become of a row: its identity and its body stay, its attempts are counted, and once it
left `pending` it stays as it is. -/
structure OutboxRow.Later (r r' : OutboxRow) : Prop where
  eventID : r'.eventID = r.eventID
  orderID : r'.orderID = r.orderID
  body : r'.body = r.body
  attempts : r.attempts ≤ r'.attempts
  settled : r.state ≠ .pending → r' = r

theorem OutboxRow.Later.refl (r : OutboxRow) : r.Later r := ⟨rfl, rfl, rfl, le_rfl, fun _ => rfl⟩

theorem OutboxRow.Later.trans {r s t : OutboxRow} (h : r.Later s) (h' : s.Later t) : r.Later t where
  eventID := h'.eventID.trans h.eventID
  orderID := h'.orderID.trans h.orderID
  body := h'.body.trans h.body
  attempts := h.attempts.trans h'.attempts
  settled hr := by
    have hs := h.settled hr
    rw [h'.settled (by rw [hs]; exact hr), hs]

theorem later_settle (o : Outcome) (id : Bytes) (r : OutboxRow) : r.Later (o.settle id r) := by
  unfold Outcome.settle
  split_ifs with h
  · exact ⟨rfl, rfl, rfl, Nat.le_succ _, fun hne => absurd h.2 hne⟩
  · exact .refl r

theorem forall₂_later_refl (rows : List OutboxRow) : List.Forall₂ OutboxRow.Later rows rows :=
  List.forall₂_same.mpr fun r _ => .refl r

theorem forall₂_later_trans {a b c : List OutboxRow} (h : List.Forall₂ OutboxRow.Later a b)
    (h' : List.Forall₂ OutboxRow.Later b c) : List.Forall₂ OutboxRow.Later a c := by
  induction h generalizing c with
  | nil =>
    cases h'
    exact .nil
  | cons hr _ ih =>
    cases h' with
    | cons hr' hrest => exact .cons (hr.trans hr') (ih hrest)

theorem later_update (o : Outcome) (ids : List Bytes) (db : Database) :
    List.Forall₂ OutboxRow.Later db.outbox (db.update o ids).outbox := by
  change List.Forall₂ OutboxRow.Later db.outbox (ids.foldl _ db.outbox)
  generalize db.outbox = rows
  induction ids generalizing rows with
  | nil => exact forall₂_later_refl rows
  | cons id ids ih =>
    have hone : List.Forall₂ OutboxRow.Later rows (rows.map (o.settle id)) := by
      rw [List.forall₂_map_right_iff, List.forall₂_same]
      exact fun r _ => later_settle o id r
    exact forall₂_later_trans hone (ih (rows.map (o.settle id)))

variable {db : Database} {events : List OrderEvent}

theorem saved_of_later {rows rows' : List OutboxRow}
    (h : List.Forall₂ OrderEvent.Saved events rows) (hl : List.Forall₂ OutboxRow.Later rows rows') :
    List.Forall₂ OrderEvent.Saved events rows' := by
  induction h generalizing rows' with
  | nil =>
    cases hl
    exact .nil
  | cons hs _ ih =>
    cases hl with
    | cons hr hrest =>
      exact .cons ⟨hr.eventID.trans hs.eventID, hr.orderID.trans hs.orderID, hr.body.trans hs.body⟩
        (ih hrest)

theorem Database.Holds.update (h : db.Holds events) (o : Outcome) (ids : List Bytes) :
    (db.update o ids).Holds events :=
  ⟨h.orders, saved_of_later h.outbox (later_update o ids db), h.orderIDs, h.eventIDs⟩

theorem Database.Holds.mem_outbox (h : db.Holds events) {row : OutboxRow} (hr : row ∈ db.outbox) :
    ∃ e ∈ events, e.Saved row := exists_of_mem_left h.outbox.flip hr

theorem map_eventID {rows : List OutboxRow} (h : List.Forall₂ OrderEvent.Saved events rows) :
    rows.map OutboxRow.eventID = identifiers events := by
  induction h with
  | nil => rfl
  | cons hs _ ih =>
    rw [List.map_cons, ih, hs.eventID]
    rfl

theorem Order.ext_of_columns {o o' : Order} (hid : o.orderID = o'.orderID)
    (hamount : o.amountCents = o'.amountCents) : o = o' := by
  obtain ⟨orderID, amountCents, _, _, _, _, _⟩ := o
  obtain ⟨orderID', amountCents', _, _, _, _, _⟩ := o'
  cases hid
  cases hamount
  rfl

theorem mem_orderIDs (h : db.Holds events) {orderID : Bytes}
    (hnone : db.orders.find? (fun row => row.orderID == orderID) = none) :
    orderID ∉ events.map fun e => e.order.orderID := by
  rw [h.orders, List.find?_map, Option.map_eq_none_iff, List.find?_eq_none] at hnone
  intro hmem
  obtain ⟨e, he, heq⟩ := List.mem_map.mp hmem
  exact hnone e he (beq_iff_eq.mpr heq)

/-- An order is either known, with its identifier, or saved as the newest event. -/
theorem createOrder_eq_ok (h : db.Holds events) {e : OrderEvent} {id : Bytes} {db' : Database}
    (hc : db.createOrder e = .ok (id, db')) :
    (db' = db ∧ ∃ e' ∈ events, e'.order = e.order ∧ id = e'.eventID.string) ∨
    (db'.Holds (events ++ [e]) ∧ id = e.eventID.string ∧
      db'.outbox = db.outbox ++ [e.outboxRow]) := by
  unfold Database.createOrder at hc
  split at hc
  next existing hfind =>
    split_ifs at hc with hamount
    rw [ne_eq, not_not] at hamount
    cases hc
    rw [h.orders, List.find?_map, Option.map_eq_some_iff] at hfind
    obtain ⟨e', he', rfl⟩ := hfind
    have hid : e'.order.orderID = e.order.orderID := by
      simpa [OrderEvent.orderRow] using List.find?_some he'
    exact Or.inl ⟨rfl, e', List.mem_of_find?_eq_some he', Order.ext_of_columns hid hamount, rfl⟩
  next hnone =>
    split_ifs at hc with hunique
    cases hc
    have hfresh : e.eventID ∉ events.map OrderEvent.eventID := by
      intro hmem
      obtain ⟨e', he', heq⟩ := List.mem_map.mp hmem
      rw [Bool.or_eq_true, not_or, List.any_eq_true] at hunique
      refine hunique.1 ⟨e'.orderRow, ?_, ?_⟩
      · rw [h.orders]
        exact List.mem_map_of_mem he'
      · rw [← heq]
        exact beq_self_eq_true e'.eventID.string
    have hnew := mem_orderIDs h hnone
    refine Or.inr ⟨⟨?_, ?_, ?_, ?_⟩, rfl, rfl⟩
    · rw [h.orders, List.map_append, List.map_singleton]
    · exact List.rel_append h.outbox (.cons ⟨rfl, rfl, rfl⟩ .nil)
    · rw [List.map_append, List.map_singleton, ← List.concat_eq_append]
      exact List.Nodup.concat hnew h.orderIDs
    · rw [List.map_append, List.map_singleton, ← List.concat_eq_append]
      exact List.Nodup.concat hfresh h.eventIDs

/-- A selection consists of saved events. -/
theorem pending_eq (h : db.Holds events) (limit : ℕ) : ∃ chosen : List OrderEvent,
    db.pending limit = chosen.map OrderEvent.row ∧ chosen.length ≤ limit ∧
      (∀ e ∈ chosen, e ∈ events) := by
  have hrows : ∀ rows : List OutboxRow, (∀ row ∈ rows, ∃ e ∈ events, e.Saved row) →
      ∃ chosen : List OrderEvent, rows.map (fun row => (row.eventID, row.body)) =
        chosen.map OrderEvent.row ∧ chosen.length = rows.length ∧ ∀ e ∈ chosen, e ∈ events := by
    intro rows
    induction rows with
    | nil => exact fun _ => ⟨[], rfl, rfl, by simp⟩
    | cons row rows ih =>
      intro hall
      obtain ⟨⟨e, he, hs⟩, hrest⟩ := List.forall_mem_cons.mp hall
      obtain ⟨chosen, hmap, hlen, hmem⟩ := ih hrest
      refine ⟨e :: chosen, ?_, ?_, List.forall_mem_cons.mpr ⟨he, hmem⟩⟩
      · rw [List.map_cons, List.map_cons, hmap, hs.eventID, hs.body]
        rfl
      · rw [List.length_cons, List.length_cons, hlen]
  obtain ⟨chosen, hmap, hlen, hmem⟩ := hrows
    ((db.outbox.filter fun row => row.state == .pending).take limit) fun row hrow =>
      h.mem_outbox (List.mem_of_mem_filter (List.mem_of_mem_take hrow))
  refine ⟨chosen, hmap, ?_, hmem⟩
  rw [hlen, List.length_take]
  omega

end Tables

section Worlds
variable (U : UUID.Codec) (app : App) (topic : Bytes) (rps : ℕ) (client : Client)
  (out : Outside)

/-- Between one and a hundred of the saved events. -/
structure Chosen (events chosen : List OrderEvent) : Prop where
  nonempty : chosen ≠ []
  length : chosen.length ≤ 100
  saved : ∀ e ∈ chosen, e ∈ events

/-- The collector acknowledged a request with exactly these events. -/
def World.Acknowledged (w : World) (chosen : List OrderEvent) : Prop :=
  ∃ p, (request client (batchOf chosen),
    Exchange.answered ⟨202, .accepted (identifiers chosen)⟩ p) ∈ w.served

/-- The collector acknowledged them, or a gateway did. -/
def World.Confirmed (w : World) (chosen : List OrderEvent) : Prop :=
  w.Acknowledged client chosen ∨ out.Acknowledges (identifiers chosen)

/-- A request on its way through the collector. -/
def Served (req : Request) (x : Exchange) : Prop :=
  ∃ b now received, received.isZero = false ∧ Relation.ReflTransGen Exchange.Step
    (.start (serve U app topic rps b now req received)) x

/-- None of these events has a pending row. -/
def World.Settled (w : World) (chosen : List OrderEvent) : Prop :=
  ∀ row ∈ w.db.outbox, row.eventID ∈ identifiers chosen → row.state ≠ .pending

/-- What an outcome rests on. -/
structure Outcome.Justified (w : World) (chosen : List OrderEvent) (o : Outcome) : Prop where
  acknowledged : o.state = .acknowledged → w.Confirmed client out chosen
  rejected : o.state = .rejected → out.Rejects
  code : o.code = none → o.state = .acknowledged

def Dispatcher.PhaseInv (w : World) (chosen : List OrderEvent) (d : Dispatcher) : Prop :=
  match d.phase with
  | .attempting n | .waiting n => n < client.maxAttempts ∧ chosen ≠ [] ∧
      d.expected = identifiers chosen ∧ d.body = batchOf chosen
  | .updating o => chosen ≠ [] ∧ o.Justified client out w chosen
  | .counting none => chosen = []
  | .counting (some o) => o.Justified client out w chosen ∧
      (o.state ≠ .pending → w.Settled chosen)
  | .done r => r.attempted = chosen.length ∧ (r.error = none → w.Settled chosen)

/-- A dispatcher works on saved events. -/
def Dispatcher.Inv (w : World) (events : List OrderEvent) (d : Dispatcher) : Prop :=
  ∃ chosen, chosen.length ≤ 100 ∧ (∀ e ∈ chosen, e ∈ events) ∧
    d.selected = chosen.map OrderEvent.row ∧ d.PhaseInv client out w chosen

structure WorldInv (w : World) (events : List OrderEvent) : Prop where
  holds : w.db.Holds events
  returned : ∀ p ∈ w.returned, ∃ e ∈ events, p = (e.order.orderID, e.eventID.string)
  sent : ∀ req ∈ w.sent, ∃ chosen, Chosen events chosen ∧ req = request client (batchOf chosen)
  served : ∀ p ∈ w.served, p.1 ∈ w.sent ∧ Served U app topic rps p.1 p.2
  dispatchers : ∀ k d, w.dispatchers k = some d → d.Inv client out w events
  acknowledged : ∀ row ∈ w.db.outbox, row.state = .acknowledged → ∃ chosen, Chosen events chosen ∧
    row.eventID ∈ identifiers chosen ∧ w.Confirmed client out chosen
  rejected : ∀ row ∈ w.db.outbox, row.state = .rejected → out.Rejects

variable {U app topic rps client out} {w w' : World} {events events' chosen : List OrderEvent}

theorem worldInv_start : WorldInv U app topic rps client out .start [] where
  holds := ⟨rfl, .nil, .nil, .nil⟩
  returned := by simp [World.start]
  sent := by simp [World.start]
  served := by simp [World.start]
  dispatchers := by simp [World.start]
  acknowledged := by simp [World.start, Database.empty]
  rejected := by simp [World.start, Database.empty]

theorem Chosen.mono (h : Chosen events chosen) (hsub : ∀ e ∈ events, e ∈ events') :
    Chosen events' chosen := ⟨h.nonempty, h.length, fun e he => hsub e (h.saved e he)⟩

theorem Outcome.Justified.mono {o : Outcome} (h : o.Justified client out w chosen)
    (hack : w.Confirmed client out chosen → w'.Confirmed client out chosen) :
    o.Justified client out w' chosen :=
  ⟨fun hs => hack (h.acknowledged hs), h.rejected, h.code⟩

/-- What a dispatcher relies on survives whatever the others do. -/
theorem Dispatcher.Inv.mono {d : Dispatcher} (h : d.Inv client out w events)
    (hsub : ∀ e ∈ events, e ∈ events')
    (hack : ∀ chosen, w.Confirmed client out chosen → w'.Confirmed client out chosen)
    (hsettled : ∀ chosen, (∀ e ∈ chosen, e ∈ events) → w.Settled chosen → w'.Settled chosen) :
    d.Inv client out w' events' := by
  obtain ⟨chosen, hlen, hsaved, hselected, hphase⟩ := h
  refine ⟨chosen, hlen, fun e he => hsub e (hsaved e he), hselected, ?_⟩
  unfold Dispatcher.PhaseInv at hphase ⊢
  cases hp : d.phase with
  | attempting n =>
    rw [hp] at hphase
    exact hphase
  | waiting n =>
    rw [hp] at hphase
    exact hphase
  | updating o =>
    rw [hp] at hphase
    exact ⟨hphase.1, hphase.2.mono (hack chosen)⟩
  | counting o =>
    rw [hp] at hphase
    cases o with
    | none => exact hphase
    | some o =>
      exact ⟨hphase.1.mono (hack chosen), fun hs => hsettled chosen hsaved (hphase.2 hs)⟩
  | done r =>
    rw [hp] at hphase
    exact ⟨hphase.1, fun herr => hsettled chosen hsaved (hphase.2 herr)⟩

end Worlds

end IngestKit.Outbox
