import IngestKit.Persistence.Events
import IngestKit.Text.Decimal

/-! The text of the insert statement, its numbered parameters, and what the database reads and
does. A statement is atomic and offers its rows in order. -/
namespace IngestKit.Persistence
open Event

/-- A value bound to a parameter. -/
inductive Param
  | text (b : Bytes)
  | time (t : Time)
  | bytes (b : Bytes)

/-- The values of one event, in the order of the statement's columns. -/
def columns (e : Envelope) : List Param :=
  [.text e.tenantID, .text e.eventID.string, .text e.eventType, .time e.occurredAt,
    .time e.receivedAt, .bytes e.payload]

/-- The placeholders of row `i`. -/
def rowParams (i : ℕ) : List ℕ :=
  let n := i * 6
  [n + 1, n + 2, n + 3, n + 4, n + 5, n + 6]

def placeholder (n : ℕ) : Bytes := 0x24 :: decimal n

def rowText (ns : List ℕ) : Bytes := 0x28 :: (joinCommas (ns.map placeholder) ++ [0x29])

@[irreducible]
def insertHead : Bytes := ascii ("INSERT INTO ingestkit.events(tenant_id,event_id,event_type," ++
  "occurred_at,received_at,payload) VALUES ").toList

def conflictTail : Bytes := ascii " ON CONFLICT (tenant_id,event_id) DO NOTHING".toList

/-- The statement for a number of rows. -/
def insertText (rows : ℕ) : Bytes :=
  insertHead ++ (joinCommas ((List.range rows).map fun i => rowText (rowParams i)) ++ conflictTail)

def insertArgs (events : List Envelope) : List Param := events.flatMap columns

section Database

def readPlaceholder (b : Bytes) : Option (ℕ × Bytes) :=
  match scanByte 0x24 b with
  | none => none
  | some t => (scanDigits1 t).map fun r => (digitsVal (r.1 :: r.2.1), r.2.2)

/-- Placeholders separated by commas. -/
def readPlaceholders : ℕ → Bytes → Option (List ℕ × Bytes)
  | 0, _ => none
  | 1, b => (readPlaceholder b).map fun r => ([r.1], r.2)
  | k + 2, b =>
    match readPlaceholder b with
    | none => none
    | some (n, t) =>
      match scanByte 0x2c t with
      | none => none
      | some t => (readPlaceholders (k + 1) t).map fun r => (n :: r.1, r.2)

/-- One row of as many placeholders as there are columns. -/
def readRow (b : Bytes) : Option (List ℕ × Bytes) :=
  match scanByte 0x28 b with
  | none => none
  | some t =>
    match readPlaceholders 6 t with
    | none => none
    | some (ns, t) => (scanByte 0x29 t).map fun t => (ns, t)

/-- Rows separated by commas, for at most `fuel` rows. -/
def readRows : ℕ → Bytes → Option (List (List ℕ) × Bytes)
  | 0, _ => none
  | fuel + 1, b =>
    match readRow b with
    | none => none
    | some (ns, t) =>
      match scanByte 0x2c t with
      | none => some ([ns], t)
      | some t => (readRows fuel t).map fun r => (ns :: r.1, r.2)

/-- The rows of placeholders of an insert statement. -/
def readInsert (sql : Bytes) : Option (List (List ℕ)) :=
  if insertHead.isPrefixOf sql then
    match readRows sql.length (sql.drop insertHead.length) with
    | none => none
    | some (rows, t) => if t = conflictTail then some rows else none
  else none

/-- The argument of a placeholder; they are numbered from 1. -/
def argument (args : List Param) (n : ℕ) : Option Param := if n = 0 then none else args[n - 1]?

/-- The values each row is bound to. -/
def bind (sql : Bytes) (args : List Param) : Option (List (List Param)) :=
  match readInsert sql with
  | none => none
  | some rows => rows.mapM fun ns => ns.mapM (argument args)

variable (U : UUID.Codec)

/-- The values of a row as column values. -/
def Row.ofParams : List Param → Option Row
  | [.text tenant, .text id, .text type, .time occurred, .time received, .bytes payload] =>
    (U.unmarshalText id).map fun id =>
      ⟨tenant, id, type, microseconds occurred, microseconds received, payload⟩
  | _ => none

/-- Rows offered under `ON CONFLICT DO NOTHING`: the table after, and how many were new. -/
def insertRows (table rows : List Row) : List Row × ℕ :=
  let after := Replay.insertAll Row.key table rows
  (after, after.length - table.length)

/-- Of the table's constraints only the primary key is here. Column types and checks are those of
`Row.Storable`, and a row that the consumer writes meets them. -/
def execInsert (table : List Row) (sql : Bytes) (args : List Param) : Option (List Row × ℕ) :=
  match bind sql args with
  | none => none
  | some rows => (rows.mapM (Row.ofParams U)).map (insertRows table)

/-- `EventStore.WriteBatch` with its statement. -/
def execBatch (table : List Row) (events : List Envelope) : Option (List Row × WriteResult) :=
  if events.length = 0 then some (table, ⟨0, 0⟩)
  else
    match execInsert U table (insertText events.length) (insertArgs events) with
    | none => none
    | some (after, affected) => some (after, ⟨affected, events.length - affected⟩)

end Database

section Reading

theorem readPlaceholder_append (n : ℕ) {t : Bytes} (ht : Stops Digit.ofByte? t) :
    readPlaceholder (placeholder n ++ t) = some (n, t) := by
  obtain ⟨d, ds, hscan, hval⟩ := scanDigits1_decimal n ht
  rw [readPlaceholder, placeholder, List.cons_append, scanByte_cons]
  dsimp only
  rw [hscan, Option.map_some, hval]

theorem readPlaceholders_append (n : ℕ) (ns : List ℕ) {t : Bytes} (ht : Stops Digit.ofByte? t) :
    readPlaceholders (ns.length + 1) (joinCommas ((n :: ns).map placeholder) ++ t) =
      some (n :: ns, t) := by
  induction ns generalizing n with
  | nil =>
    rw [List.map_singleton, joinCommas, List.length_nil, zero_add, readPlaceholders,
      readPlaceholder_append n ht, Option.map_some]
  | cons m ns ih =>
    have hcomma : Stops Digit.ofByte? (0x2c :: (joinCommas ((m :: ns).map placeholder) ++ t)) := by
      rw [stops_cons]
      rfl
    rw [List.length_cons, readPlaceholders, List.map_cons, List.map_cons, joinCommas,
      List.append_assoc, List.cons_append, ← List.map_cons, readPlaceholder_append n hcomma]
    · dsimp only
      rw [scanByte_cons]
      dsimp only
      rw [ih m, Option.map_some]
    · intro h
      cases h

theorem readRow_append {ns : List ℕ} (hns : ns.length = 6) (t : Bytes) :
    readRow (rowText ns ++ t) = some (ns, t) := by
  cases ns with
  | nil => cases hns
  | cons n ns =>
    have hlen : ns.length + 1 = 6 := hns
    have hstop : Stops Digit.ofByte? (0x29 :: t) := by
      rw [stops_cons]
      rfl
    have hread := readPlaceholders_append n ns hstop
    rw [hlen] at hread
    rw [readRow, rowText, List.cons_append, scanByte_cons, List.append_assoc, List.singleton_append]
    dsimp only
    rw [hread]
    dsimp only
    rw [scanByte_cons, Option.map_some]

theorem readRows_append {fuel : ℕ} {rows : List (List ℕ)} (hfuel : rows.length ≤ fuel)
    (hne : rows ≠ []) (hrows : ∀ ns ∈ rows, ns.length = 6) {t : Bytes}
    (ht : scanByte 0x2c t = none) :
    readRows fuel (joinCommas (rows.map rowText) ++ t) = some (rows, t) := by
  induction rows generalizing fuel with
  | nil => exact absurd rfl hne
  | cons ns rows ih =>
    obtain ⟨fuel, rfl⟩ : ∃ f, fuel = f + 1 := ⟨fuel - 1, by simp at hfuel; omega⟩
    obtain ⟨hns, hrest⟩ := List.forall_mem_cons.mp hrows
    cases rows with
    | nil =>
      rw [List.map_singleton, joinCommas, readRows, readRow_append hns]
      dsimp only
      rw [ht]
    | cons ms rows =>
      rw [List.map_cons, List.map_cons, joinCommas, List.append_assoc, List.cons_append,
        ← List.map_cons, readRows, readRow_append hns]
      · dsimp only
        rw [scanByte_cons]
        dsimp only
        rw [ih (Nat.le_of_succ_le_succ hfuel) (by simp) hrest, Option.map_some]
      · intro h
        cases h

private theorem length_le_commas (rows : List (List ℕ)) :
    rows.length ≤ (joinCommas (rows.map rowText)).length := by
  induction rows with
  | nil => exact Nat.zero_le _
  | cons ns rows ih =>
    cases rows with
    | nil => simp [joinCommas, rowText]
    | cons ms rows =>
      rw [List.map_cons, List.map_cons, joinCommas, ← List.map_cons, List.length_append]
      · simp only [List.length_cons] at ih ⊢
        omega
      · intro h
        cases h

theorem readInsert_insertText {n : ℕ} (hn : 0 < n) :
    readInsert (insertText n) = some ((List.range n).map rowParams) := by
  have hne : (List.range n).map rowParams ≠ [] := by
    rw [Ne, List.map_eq_nil_iff, List.range_eq_nil]
    omega
  have hlen : ∀ ns ∈ (List.range n).map rowParams, ns.length = 6 := by
    intro ns hns
    obtain ⟨i, -, rfl⟩ := List.mem_map.mp hns
    rfl
  have htext : insertText n =
      insertHead ++ (joinCommas (((List.range n).map rowParams).map rowText) ++ conflictTail) := by
    rw [insertText, List.map_map]
    rfl
  have hfuel : ((List.range n).map rowParams).length ≤ (insertText n).length := by
    have hle := length_le_commas ((List.range n).map rowParams)
    rw [htext, List.length_append, List.length_append]
    omega
  have htail : scanByte 0x2c conflictTail = none := by decide
  have hhead : insertHead.isPrefixOf (insertText n) = true := by
    rw [List.isPrefixOf_iff_prefix, insertText]
    exact List.prefix_append _ _
  have hdrop : (insertText n).drop insertHead.length =
      joinCommas (((List.range n).map rowParams).map rowText) ++ conflictTail := by
    rw [htext, List.drop_left]
  rw [readInsert, if_pos hhead, hdrop, readRows_append hfuel hne hlen htail]
  exact if_pos rfl

private theorem length_insertArgs (events : List Envelope) :
    (insertArgs events).length = events.length * 6 := by
  simp [insertArgs, List.length_flatMap, columns]

private theorem argument_of_row (before : List Envelope) (e : Envelope) (after : List Envelope)
    {j : ℕ} (hj : j < 6) :
    argument (insertArgs (before ++ e :: after)) (before.length * 6 + (j + 1)) =
      (columns e)[j]? := by
  have hlen := length_insertArgs before
  have hsplit : insertArgs (before ++ e :: after) =
      insertArgs before ++ (columns e ++ insertArgs after) := by
    rw [insertArgs, insertArgs, insertArgs, List.flatMap_append, List.flatMap_cons]
  rw [argument, if_neg (by omega), hsplit, ← Nat.add_assoc, Nat.add_sub_cancel,
    List.getElem?_append_right (by omega), List.getElem?_append_left (by simp [columns]; omega)]
  congr 1
  omega

private theorem mapM_rowParams (before : List Envelope) (e : Envelope) (after : List Envelope) :
    (rowParams before.length).mapM (argument (insertArgs (before ++ e :: after))) =
      some (columns e) := by
  have harg := fun j (hj : j < 6) => argument_of_row before e after hj
  have h0 := harg 0 (by decide)
  have h1 := harg 1 (by decide)
  have h2 := harg 2 (by decide)
  have h3 := harg 3 (by decide)
  have h4 := harg 4 (by decide)
  have h5 := harg 5 (by decide)
  simp only [Nat.reduceAdd] at h0 h1 h2 h3 h4 h5
  simp [rowParams, List.mapM_cons, h0, h1, h2, h3, h4, h5, columns]

private theorem mapM_rows (before after : List Envelope) :
    ((List.range' before.length after.length).map rowParams).mapM
        (fun ns => ns.mapM (argument (insertArgs (before ++ after)))) =
      some (after.map columns) := by
  induction after generalizing before with
  | nil => rfl
  | cons e after ih =>
    have hrest := ih (before ++ [e])
    rw [List.length_append, List.length_singleton, List.append_assoc,
      List.singleton_append] at hrest
    rw [List.length_cons, List.range'_succ, List.map_cons, List.mapM_cons,
      mapM_rowParams, hrest, List.map_cons]
    rfl

/-- The six columns of row `i` are bound to event `i`. -/
theorem bind_insertText {events : List Envelope} (h : events ≠ []) :
    bind (insertText events.length) (insertArgs events) = some (events.map columns) := by
  have hrows := mapM_rows [] events
  rw [List.length_nil, ← List.range_eq_range', List.nil_append] at hrows
  unfold bind
  rw [readInsert_insertText (List.length_pos_of_ne_nil h)]
  exact hrows

end Reading

section Effects
variable (U : UUID.Codec)

theorem mapM_ofParams (events : List Envelope) :
    (events.map columns).mapM (Row.ofParams U) = some (events.map Row.ofEnvelope) := by
  induction events with
  | nil => rfl
  | cons e events ih =>
    have hrow : Row.ofParams U (columns e) = some (Row.ofEnvelope e) := by
      rw [columns, Row.ofParams, U.unmarshalText_string, Option.map_some]
      rfl
    rw [List.map_cons, List.mapM_cons, hrow, ih]
    rfl

theorem execInsert_eq (table : List Row) {events : List Envelope} (h : events ≠ []) :
    execInsert U table (insertText events.length) (insertArgs events) =
      some (insertRows table (events.map Row.ofEnvelope)) := by
  unfold execInsert
  rw [bind_insertText h]
  dsimp only
  rw [mapM_ofParams, Option.map_some]

/-- The statement does what `writeBatch` says. -/
theorem execBatch_eq (table : List Row) (events : List Envelope) :
    execBatch U table events = some (writeBatch table events) := by
  rw [execBatch]
  split_ifs with h
  · rw [List.length_eq_zero_iff.mp h, writeBatch]
    simp [Replay.insertAll]
  · rw [execInsert_eq U table (fun hnil => h (by rw [hnil]; rfl))]
    rfl

end Effects

end IngestKit.Persistence
