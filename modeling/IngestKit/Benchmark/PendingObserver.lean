import IngestKit.Benchmark.Observation

/-! `PendingObserver` and the `observe` function of `RunPipeline`: a session deletes an ID from its
temporary table once it has seen the stored row, and a session that failed is replaced. -/
namespace IngestKit.Benchmark
open Event Transition

/-- One database session: its temporary table and how many queries it sent. -/
structure PendingObserver where
  table : List UUID
  queries : ℕ := 0

/-- How the transaction of one `Observe` ends. A commit may fail although the server performed
it. -/
inductive Transaction
  | beginFailed (err : GoError)
  | deleteFailed (err : GoError)
  | clockFailed (err : GoError)
  | commitFailed (err : GoError) (performed : Bool)
  | committed (clock : ℤ)

/-- The clock is asked only if there is a row to stamp. -/
def Transaction.possible (out : List TableRow) : Transaction → Bool
  | .clockFailed _ => !out.isEmpty
  | _ => true

namespace PendingObserver

/-- `NewPendingObserver`, where the session, its table and the copy succeed. -/
def new (ids : List UUID) : PendingObserver := { table := uniqueIDs ids }

/-- The rows the `DELETE` joins with the pending IDs. -/
def joined (o : PendingObserver) (events : List TableRow) : List TableRow :=
  events.filter (·.id ∈ o.table)

def delete (o : PendingObserver) (events : List TableRow) : PendingObserver :=
  { o with table := o.table.filter (· ∉ events.map (·.id)) }

def sent (o : PendingObserver) (queries : ℕ) : PendingObserver :=
  { o with queries := o.queries + queries }

/-- `Observe`, where the server returns the joined rows in the order `out`. -/
def observe (o : PendingObserver) (events out : List TableRow) :
    Transaction → PendingObserver × List StoredObservation × Option GoError
  | .beginFailed err => (o.sent 1, [], some err)
  | .deleteFailed err => (o.sent 2, [], some err)
  | .clockFailed err => (o.sent 3, [], some err)
  | .commitFailed err performed =>
    let o' := if performed then o.delete events else o
    (o'.sent (if out = [] then 3 else 4), [], some err)
  | .committed clock =>
    ((o.delete events).sent (if out = [] then 3 else 4),
      out.map fun row => ⟨row.id, row.receivedAt, some clock⟩, none)

theorem mem_delete (o : PendingObserver) (events : List TableRow) (id : UUID) :
    id ∈ (o.delete events).table ↔ id ∈ o.table ∧ id ∉ events.map (·.id) := by
  simp only [delete, List.mem_filter, decide_eq_true_eq]

/-- Whatever its outcome, `Observe` adds no ID to the table, and a failed one returns no row. -/
theorem observe_cases (o : PendingObserver) (events out : List TableRow) (tx : Transaction) :
    (∃ err o', o'.table ⊆ o.table ∧ o.observe events out tx = (o', [], some err)) ∨
      ∃ clock n, o.observe events out tx = ((o.delete events).sent n,
        out.map fun row => ⟨row.id, row.receivedAt, some clock⟩, none) := by
  cases tx with
  | beginFailed err => exact .inl ⟨err, o.sent 1, List.Subset.refl _, rfl⟩
  | deleteFailed err => exact .inl ⟨err, o.sent 2, List.Subset.refl _, rfl⟩
  | clockFailed err => exact .inl ⟨err, o.sent 3, List.Subset.refl _, rfl⟩
  | commitFailed err performed =>
    refine .inl ⟨err, _, ?_, rfl⟩
    cases performed with
    | false => exact List.Subset.refl _
    | true => exact List.filter_subset_self _
  | committed clock => exact .inr ⟨clock, _, rfl⟩

end PendingObserver

/-- What `observe` shares between its calls, beside the events table and what it returned. -/
structure Watch where
  events : List TableRow := []
  pending : Option PendingObserver
  alreadyObserved : List UUID := []
  totalQueries : ℕ := 0
  results : List (List StoredObservation × Option GoError) := []

namespace Watch

/-- `observe alive created out tx` is one call: whether its context is still alive afterwards, why
no session could be created, and what the transaction did. -/
inductive Action
  | store (row : TableRow)
  | observe (alive : Bool) (created : Option GoError) (out : List TableRow) (tx : Transaction)

def Action.alive : Action → Bool
  | .store _ => true
  | .observe alive _ _ _ => alive

def start (ids : List UUID) : Watch := { pending := some (.new ids) }

def remaining (ids : List UUID) (w : Watch) : List UUID := ids.filter (· ∉ w.alreadyObserved)

/-- The current session or, without one, the next that is created. -/
def session (ids : List UUID) (w : Watch) : PendingObserver :=
  w.pending.getD (.new (w.remaining ids))

theorem session_of_some (ids : List UUID) {w : Watch} {o : PendingObserver}
    (h : w.pending = some o) : w.session ids = o := by
  rw [session, h, Option.getD_some]

theorem session_of_none {ids : List UUID} {w : Watch} (h : w.pending = none) :
    w.session ids = .new (w.remaining ids) := by
  rw [session, h, Option.getD_none]

def closeObserver (w : Watch) : Watch :=
  match w.pending with
  | none => w
  | some o => { w with pending := none, totalQueries := w.totalQueries + o.queries }

def query (reconnects : Bool) (w : Watch) (o : PendingObserver) (out : List TableRow)
    (tx : Transaction) : Watch × List StoredObservation × Option GoError :=
  let (o', rows, err) := o.observe w.events out tx
  let w := { w with pending := some o' }
  if err.isSome && reconnects then
    (w.closeObserver, [], some (.sentinel .observerUnavailable))
  else ({ w with alreadyObserved := w.alreadyObserved ++ rows.map (·.id) }, rows, err)

/-- `observe`: `reconnects` is `cfg.ReconnectObserver && ctx.Err() == nil`. -/
def observe (ids : List UUID) (reconnects : Bool) (w : Watch) (created : Option GoError)
    (out : List TableRow) (tx : Transaction) : Watch × List StoredObservation × Option GoError :=
  match w.pending, created with
  | some o, _ => w.query reconnects o out tx
  | none, some err => (w, [], some (if reconnects then .sentinel .observerUnavailable else err))
  | none, none =>
    { w with totalQueries := w.totalQueries + 2 }.query reconnects (.new (w.remaining ids)) out tx

/-- The events table has one row for each ID, and gains rows at any time. -/
def step (ids : List UUID) (reconnect : Bool) (w : Watch) : Action → Option Watch
  | .store row =>
    if ∀ r ∈ w.events, r.id ≠ row.id then some { w with events := w.events ++ [row] } else none
  | .observe alive created out tx =>
    if out.Perm ((w.session ids).joined w.events) ∧ tx.possible out then
      let (w', rows, err) := w.observe ids (reconnect && alive) created out tx
      some { w' with results := w.results ++ [(rows, err)] }
    else none

/-- The IDs returned so far. -/
def returned (w : Watch) : List UUID := w.results.flatMap (·.1.map (·.id))

/-- What one call can do. -/
inductive Outcome (ids : List UUID) (reconnects : Bool) (w w' : Watch) : Prop
  | failed (err : GoError) (hevents : w'.events = w.events)
    (hobserved : w'.alreadyObserved = w.alreadyObserved)
    (hresults : w'.results = w.results ++ [([], some err)])
    (hpending : ∀ o, w'.pending = some o →
      reconnects = false ∧ o.table ⊆ (w.session ids).table)
  | ok (out : List TableRow) (clock : ℤ) (queries : ℕ) (hevents : w'.events = w.events)
    (hout : out.Perm ((w.session ids).joined w.events))
    (hobserved : w'.alreadyObserved = w.alreadyObserved ++ out.map (·.id))
    (hresults : w'.results =
      w.results ++ [(out.map fun row => ⟨row.id, row.receivedAt, some clock⟩, none)])
    (hpending : w'.pending = some (((w.session ids).delete w.events).sent queries))

section Steps
variable {ids : List UUID} {reconnect reconnects : Bool} {w w' : Watch}

theorem query_cases (out : List TableRow) (tx : Transaction)
    (hout : out.Perm ((w.session ids).joined w.events)) {v : Watch} (hevents : v.events = w.events)
    (hobserved : v.alreadyObserved = w.alreadyObserved) :
    Outcome ids reconnects w { (v.query reconnects (w.session ids) out tx).1 with
      results := w.results ++ [(v.query reconnects (w.session ids) out tx).2] } := by
  unfold query
  rw [hevents]
  obtain ⟨err, o', hsub, heq⟩ | ⟨clock, n, heq⟩ :=
    (w.session ids).observe_cases w.events out tx
  · rw [heq]
    cases reconnects with
    | true => exact .failed _ rfl hobserved rfl (by simp [closeObserver])
    | false =>
      refine .failed err rfl ?_ rfl ?_
      · simpa using hobserved
      · rintro o ⟨⟩
        exact ⟨rfl, hsub⟩
  · rw [heq]
    refine .ok out clock n rfl hout ?_ rfl rfl
    simp [hobserved, List.map_map, Function.comp_def]

theorem step_observe {alive : Bool} {created : Option GoError} {out : List TableRow}
    {tx : Transaction} (h : w.step ids reconnect (.observe alive created out tx) = some w') :
    Outcome ids (reconnect && alive) w w' := by
  simp only [step, Option.ite_none_right_eq_some] at h
  obtain ⟨⟨hout, -⟩, h⟩ := h
  rw [← Option.some.inj h]
  unfold observe
  cases hp : w.pending with
  | some o =>
    rw [← session_of_some ids hp]
    exact query_cases out tx hout rfl rfl
  | none =>
    cases created with
    | some err => exact .failed _ rfl rfl rfl (by simp [hp])
    | none =>
      rw [← session_of_none hp]
      exact query_cases out tx hout rfl rfl

theorem step_store {row : TableRow} (h : w.step ids reconnect (.store row) = some w') :
    (∀ r ∈ w.events, r.id ≠ row.id) ∧ w' = { w with events := w.events ++ [row] } := by
  simp only [step, Option.ite_none_right_eq_some] at h
  exact ⟨h.1, (Option.some.inj h.2).symm⟩

end Steps

section Rows
variable {x : Setup} {reconnect : Bool} {w w' : Watch}

/-- Every answer so far is one that the observer of a repetition may give. -/
structure Answers (x : Setup) (w : Watch) : Prop where
  planned : (w.session x.ids).table ⊆ x.ids
  answers : ∀ r ∈ w.results, (∀ o ∈ r.1, x.Observes w.events o) ∧ (r.2.isSome → r.1 = [])

theorem new_subset (ids : List UUID) : (PendingObserver.new ids).table ⊆ ids :=
  List.dedup_subset ids

/-- One more answer of the kind. -/
theorem Answers.snoc (h : Answers x w) {r : List StoredObservation × Option GoError}
    (hevents : w'.events = w.events) (hresults : w'.results = w.results ++ [r])
    (hrows : ∀ o ∈ r.1, x.Observes w.events o) (herr : r.2.isSome → r.1 = []) :
    ∀ r ∈ w'.results, (∀ o ∈ r.1, x.Observes w'.events o) ∧ (r.2.isSome → r.1 = []) := by
  rw [hresults, hevents]
  intro r' hr'
  obtain hr' | hr' := List.mem_append.mp hr'
  · exact h.answers r' hr'
  · rw [List.mem_singleton.mp hr']
    exact ⟨hrows, herr⟩

theorem Answers.outcome {reconnects : Bool} (h : Answers x w)
    (ho : Outcome x.ids reconnects w w') : Answers x w' := by
  cases ho with
  | failed err hevents hobserved hresults hpending =>
    refine ⟨?_, h.snoc hevents hresults (by simp) fun _ => rfl⟩
    cases hp : w'.pending with
    | none =>
      rw [session_of_none hp]
      exact List.Subset.trans (new_subset _) (List.filter_subset_self _)
    | some o =>
      rw [session_of_some _ hp]
      exact List.Subset.trans (hpending o hp).2 h.planned
  | ok out clock queries hevents hout hobserved hresults hpending =>
    refine ⟨?_, h.snoc hevents hresults (fun o ho => ?_) (by simp)⟩
    · rw [session_of_some _ hpending]
      exact List.Subset.trans (List.filter_subset_self _) h.planned
    · obtain ⟨row, hrow, rfl⟩ := List.mem_map.mp ho
      obtain ⟨hstored, htable⟩ := List.mem_filter.mp (hout.subset hrow)
      exact ⟨h.planned (of_decide_eq_true htable), rfl, row, hstored, rfl, rfl⟩

theorem Answers.step (h : Answers x w) {a : Action} (hs : w.step x.ids reconnect a = some w') :
    Answers x w' := by
  cases a with
  | store row =>
    obtain ⟨-, rfl⟩ := step_store hs
    exact ⟨h.planned, fun r hr => ⟨fun o ho => ((h.answers r hr).1 o ho).mono
      (List.subset_append_left _ _), (h.answers r hr).2⟩⟩
  | observe alive created out tx => exact h.outcome (step_observe hs)

/-- The calls of `observe` refine the observer of `Sample`: whatever one returns, with or without
reconnecting, is a step `Action.observed` that `Sample.step` allows. -/
theorem answers_of_execute {trace : List Action}
    (h : execute (Watch.step x.ids reconnect) (start x.ids) trace = some w) : Answers x w := by
  refine execute_invariant (I := fun _ w => Answers x w) ?_ (fun _ _ _ _ hw hs => hw.step hs) h
  exact ⟨new_subset x.ids, by simp [start]⟩

end Rows

section Reconnecting
variable {ids : List UUID} {w w' : Watch}

/-- With a session that is replaced after every failure, the IDs still to be seen are those not
returned. -/
structure Tracks (ids : List UUID) (w : Watch) : Prop where
  events : (w.events.map (·.id)).Nodup
  marked : w.alreadyObserved = w.returned
  nodup : w.returned.Nodup
  pending : ∀ id, id ∈ (w.session ids).table ↔ id ∈ ids ∧ id ∉ w.returned

theorem mem_new (ids : List UUID) (id : UUID) : id ∈ (PendingObserver.new ids).table ↔ id ∈ ids :=
  List.mem_dedup

theorem returned_snoc {r : List StoredObservation × Option GoError}
    (h : w'.results = w.results ++ [r]) : w'.returned = w.returned ++ r.1.map (·.id) := by
  simp [returned, h]

theorem tracks_start (ids : List UUID) : Tracks ids (start ids) where
  events := List.nodup_nil
  marked := rfl
  nodup := List.nodup_nil
  pending id := by simp [start, session, mem_new, returned]

/-- The rows of a successful call are those stored for an ID not returned before. -/
theorem Tracks.mem_out (h : Tracks ids w) {out : List TableRow}
    (hout : out.Perm ((w.session ids).joined w.events)) (id : UUID) :
    id ∈ out.map (·.id) ↔ id ∈ w.events.map (·.id) ∧ id ∈ ids ∧ id ∉ w.returned := by
  rw [(hout.map _).mem_iff, ← h.pending id]
  simp only [PendingObserver.joined, List.mem_map, List.mem_filter, decide_eq_true_eq]
  constructor
  · rintro ⟨row, ⟨hrow, htable⟩, rfl⟩
    exact ⟨⟨row, hrow, rfl⟩, htable⟩
  · rintro ⟨⟨row, hrow, rfl⟩, htable⟩
    exact ⟨row, ⟨hrow, htable⟩, rfl⟩

theorem Tracks.outcome (h : Tracks ids w) (ho : Outcome ids true w w') : Tracks ids w' := by
  cases ho with
  | failed err hevents hobserved hresults hpending =>
    have hreturned : w'.returned = w.returned := by rw [returned_snoc hresults]; simp
    have hnone : w'.pending = none := by
      cases hp : w'.pending with
      | none => rfl
      | some o => cases (hpending o hp).1
    refine ⟨hevents ▸ h.events, by rw [hobserved, h.marked, hreturned], hreturned ▸ h.nodup, ?_⟩
    intro id
    rw [session_of_none hnone, mem_new, remaining, List.mem_filter, decide_eq_true_eq, hobserved,
      h.marked, hreturned]
  | ok out clock queries hevents hout hobserved hresults hpending =>
    have hreturned : w'.returned = w.returned ++ out.map (·.id) := by
      rw [returned_snoc hresults, List.map_map]
      rfl
    refine ⟨hevents ▸ h.events, by rw [hobserved, h.marked, hreturned], ?_, ?_⟩
    · rw [hreturned, List.nodup_append']
      refine ⟨h.nodup, ?_, fun id hid hout' => ((h.mem_out hout id).mp hout').2.2 hid⟩
      exact ((hout.map _).nodup_iff).mpr (h.events.sublist (List.filter_sublist.map _))
    · intro id
      rw [session_of_some _ hpending, hreturned, List.mem_append, h.mem_out hout id]
      change id ∈ ((w.session ids).delete w.events).table ↔ _
      rw [PendingObserver.mem_delete, h.pending id]
      tauto

theorem Tracks.step (h : Tracks ids w) {a : Action} (ha : a.alive = true)
    (hs : w.step ids true a = some w') : Tracks ids w' := by
  cases a with
  | store row =>
    obtain ⟨hnew, rfl⟩ := step_store hs
    refine ⟨?_, h.marked, h.nodup, h.pending⟩
    rw [List.map_append, List.nodup_append']
    refine ⟨h.events, List.nodup_singleton _, ?_⟩
    simpa [List.disjoint_singleton] using hnew
  | observe alive created out tx =>
    obtain rfl : alive = true := ha
    exact h.outcome (step_observe hs)

theorem tracks_of_execute {trace : List Action}
    (h : execute (Watch.step ids true) (start ids) trace = some w)
    (halive : ∀ a ∈ trace, a.alive = true) : Tracks ids w :=
  execute_invariant_when (C := fun _ a => a.alive = true) (tracks_start ids)
    (fun _ _ _ hw ha hs => hw.step ha hs) h
    fun _ a _ _ heq _ => halive a (by rw [heq]; exact List.mem_append_right _ List.mem_cons_self)

/-- Whatever fails, and however often, each ID is returned at most once, the IDs not returned are
the pending ones of the current session or the next, and a call that succeeds leaves no stored row
of a planned ID unreturned. -/
theorem reconnecting_observer_loses_no_row {trace : List Action}
    (h : execute (Watch.step ids true) (start ids) trace = some w)
    (halive : ∀ a ∈ trace, a.alive = true) :
    w.returned.Nodup ∧
      (∀ id, id ∈ (w.session ids).table ↔ id ∈ ids ∧ id ∉ w.returned) ∧
      ∀ created out tx rows w', w.step ids true (.observe true created out tx) = some w' →
        w'.results = w.results ++ [(rows, none)] →
        ∀ row ∈ w.events, row.id ∈ ids → row.id ∈ w'.returned := by
  have ht := tracks_of_execute h halive
  refine ⟨ht.nodup, ht.pending, ?_⟩
  intro created out tx rows w' hs hrows row hrow hid
  cases step_observe hs with
  | failed err _ _ hresults _ =>
    rw [hresults, List.append_cancel_left_eq] at hrows
    cases hrows
  | ok out clock queries _ hout _ hresults _ =>
    rw [returned_snoc hresults, List.map_map, List.mem_append]
    by_cases hmem : row.id ∈ w.returned
    · exact .inl hmem
    · exact .inr ((ht.mem_out hout row.id).mpr ⟨List.mem_map_of_mem hrow, hid, hmem⟩)

def pendingRow : TableRow := ⟨⟨UUID.nil, [], Time.zero, []⟩, 0⟩

/-- A row whose delete was committed but not acknowledged is returned by the session after next. -/
def lostCommit : List Action :=
  [.store pendingRow,
    .observe true none [pendingRow] (.commitFailed (.text "connection reset") true),
    .observe true (some (.text "connection refused")) [pendingRow] (.committed 0),
    .observe true none [pendingRow] (.committed 1)]

theorem reconnecting_observer_loses_no_row_lostCommit :
    ∃ w, execute (Watch.step [UUID.nil] true) (start [UUID.nil]) lostCommit = some w ∧
      w.returned = [UUID.nil] ∧ w.returned.Nodup ∧
      (∀ id, id ∈ (w.session [UUID.nil]).table ↔ id ∈ [UUID.nil] ∧ id ∉ w.returned) ∧
      ∀ created out tx rows w',
        w.step [UUID.nil] true (.observe true created out tx) = some w' →
        w'.results = w.results ++ [(rows, none)] →
        ∀ row ∈ w.events, row.id ∈ [UUID.nil] → row.id ∈ w'.returned := by
  have hrun : ∃ w, execute (Watch.step [UUID.nil] true) (start [UUID.nil]) lostCommit = some w ∧
      w.returned = [UUID.nil] := ⟨_, rfl, rfl⟩
  obtain ⟨w, h, hreturned⟩ := hrun
  exact ⟨w, h, hreturned, reconnecting_observer_loses_no_row h (by decide)⟩

end Reconnecting

end Watch

end IngestKit.Benchmark
