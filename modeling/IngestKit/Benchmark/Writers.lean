import IngestKit.Benchmark.Reconcile
import IngestKit.Persistence.Statement
import Mathlib.Data.List.Find

/-! The three ways to write events that the benchmark compares, and the deployed one: they leave the
same table and count the same insertions. -/
namespace IngestKit.Benchmark
open Event Persistence

section Writers
variable (U : UUID.Codec)

/-- Stage the rows with COPY, then merge the staging table in its order. -/
def writeCopyMerge (table : List Row) (events : List Envelope) : Option (List Row × WriteResult) :=
  if events.length = 0 then some (table, ⟨0, 0⟩)
  else
    match (events.map columns).mapM (Row.ofParams U) with
    | none => none
    | some stage =>
      let (after, affected) := insertRows table stage
      some (after, ⟨affected, events.length - affected⟩)

/-- The statement of `EventStore.WriteBatch`, without its check for an empty batch. -/
def writeInsert (table : List Row) (es : List Envelope) : Option (List Row × ℕ) :=
  execInsert U table (insertText es.length) (insertArgs es)

/-- One statement for each event. -/
def writeSingly (table : List Row) (total : ℕ) : List Envelope → Option (List Row × ℕ)
  | [] => some (table, total)
  | v :: es =>
    match writeInsert U table [v] with
    | none => none
    | some (after, n) => writeSingly after (total + n) es

def writeMethod (table : List Row) (method : Method) (es : List Envelope) :
    Option (List Row × ℕ) :=
  match method with
  | .copyMerge => (writeCopyMerge U table es).map fun r => (r.1, r.2.inserted)
  | .insert => writeSingly U table 0 es
  | .batchInsert => writeInsert U table es
  | .unknown => none

/-- The writers that are compared. -/
inductive Writer
  | store
  | method (m : Method) (known : m ≠ .unknown)

def Writer.write (w : Writer) (table : List Row) (es : List Envelope) : Option (List Row × ℕ) :=
  match w with
  | .store => (execBatch U table es).map fun r => (r.1, r.2.inserted)
  | .method m _ => writeMethod U table m es

/-- Write one batch after the other and add up what was inserted. -/
def Writer.writeAll (w : Writer) (table : List Row) (total : ℕ) :
    List (List Envelope) → Option (List Row × ℕ)
  | [] => some (table, total)
  | es :: batches =>
    match w.write U table es with
    | none => none
    | some (after, n) => w.writeAll after (total + n) batches

end Writers

/-- What a table should hold after events were offered to it. -/
structure Merged (table : List Row) (es : List Envelope) (after : List Row) : Prop where
  unchanged : table <+: after
  unique : (after.map Row.key).Nodup
  first : ∀ k, after.find? (fun r => r.key = k) = (table.find? fun r => r.key = k).or
    ((es.find? fun e => (e.tenantID, e.eventID) = k).map Row.ofEnvelope)

section Specs
variable (U : UUID.Codec) (table : List Row)

/-- Offering rows in two parts is offering them at once. -/
theorem insertRows_append (rows rows' : List Row) :
    insertRows table (rows ++ rows') = ((insertRows (insertRows table rows).1 rows').1,
      (insertRows table rows).2 + (insertRows (insertRows table rows).1 rows').2) := by
  have hfirst := (Replay.prefix_insertAll Row.key table rows).length_le
  have hsecond := (Replay.prefix_insertAll Row.key (Replay.insertAll Row.key table rows)
    rows').length_le
  simp only [insertRows, Replay.insertAll_append, Prod.mk.injEq, true_and]
  omega

theorem writeCopyMerge_eq {es : List Envelope} (h : es ≠ []) :
    writeCopyMerge U table es = some ((insertRows table (es.map Row.ofEnvelope)).1,
      ⟨(insertRows table (es.map Row.ofEnvelope)).2,
        es.length - (insertRows table (es.map Row.ofEnvelope)).2⟩) := by
  rw [writeCopyMerge, if_neg (fun h0 => h (List.length_eq_zero_iff.mp h0)), mapM_ofParams]

theorem writeInsert_eq {es : List Envelope} (h : es ≠ []) :
    writeInsert U table es = some (insertRows table (es.map Row.ofEnvelope)) := by
  unfold writeInsert
  rw [execInsert_eq U table h]

theorem writeSingly_eq (total : ℕ) (es : List Envelope) : writeSingly U table total es =
    some ((insertRows table (es.map Row.ofEnvelope)).1,
      total + (insertRows table (es.map Row.ofEnvelope)).2) := by
  induction es generalizing table total with
  | nil => simp [writeSingly, insertRows, Replay.insertAll]
  | cons e es ih =>
    have happend := insertRows_append table [Row.ofEnvelope e] (es.map Row.ofEnvelope)
    rw [List.singleton_append] at happend
    rw [writeSingly, writeInsert_eq U table (List.cons_ne_nil e []), List.map_singleton]
    dsimp only
    rw [ih, List.map_cons, happend, Nat.add_assoc]

/-- Every writer offers the rows of a batch in order. -/
theorem Writer.write_eq (w : Writer) {es : List Envelope} (h : es ≠ []) :
    w.write U table es = some (insertRows table (es.map Row.ofEnvelope)) := by
  cases w with
  | store =>
    rw [Writer.write, execBatch_eq, Option.map_some]
    rfl
  | method m known =>
    cases m with
    | insert =>
      rw [Writer.write, writeMethod, writeSingly_eq, Nat.zero_add]
    | batchInsert => exact writeInsert_eq U table h
    | copyMerge =>
      rw [Writer.write, writeMethod, writeCopyMerge_eq U table h, Option.map_some]
    | unknown => exact absurd rfl known

theorem Writer.writeAll_eq (w : Writer) (total : ℕ) {batches : List (List Envelope)}
    (h : ∀ es ∈ batches, es ≠ []) : w.writeAll U table total batches =
      some ((insertRows table (batches.flatten.map Row.ofEnvelope)).1,
        total + (insertRows table (batches.flatten.map Row.ofEnvelope)).2) := by
  induction batches generalizing table total with
  | nil => simp [Writer.writeAll, insertRows, Replay.insertAll]
  | cons es batches ih =>
    obtain ⟨hes, hrest⟩ := List.forall_mem_cons.mp h
    rw [Writer.writeAll, w.write_eq U table hes]
    dsimp only
    rw [ih _ _ hrest, List.flatten_cons, List.map_append, insertRows_append, Nat.add_assoc]

theorem merged_insertRows (h : (table.map Row.key).Nodup) (es : List Envelope) :
    Merged table es (insertRows table (es.map Row.ofEnvelope)).1 where
  unchanged := Replay.prefix_insertAll Row.key table _
  unique := Replay.nodup_insertAll Row.key h _
  first := by
    intro k
    rw [insertRows, Replay.find?_insertAll, List.find?_append, List.find?_map]
    rfl

theorem inserted_add_duplicates (es : List Envelope) :
    (insertRows table (es.map Row.ofEnvelope)).2 +
      (es.length - (insertRows table (es.map Row.ofEnvelope)).2) = es.length := by
  have hle := Replay.length_insertAll_le Row.key table (es.map Row.ofEnvelope)
  rw [List.length_map] at hle
  simp only [insertRows]
  omega

theorem find?_insertRows_nil {es : List Envelope} {tenant : Bytes}
    (h : ∀ e ∈ es, e.tenantID = tenant) (id : UUID) :
    (insertRows [] (es.map Row.ofEnvelope)).1.find? (fun r => r.key = (tenant, id)) =
      (expectedEvents es id).map Row.ofEnvelope := by
  have hid : es.find? (fun e => (e.tenantID, e.eventID) = (tenant, id)) = expectedEvents es id :=
    List.find?_congr fun e he => by simp [h e he]
  rw [(merged_insertRows [] List.nodup_nil es).first, hid, List.find?_nil, Option.none_or]

/-- In an empty table the rows of one tenant are the expected events. -/
theorem mem_insertRows_nil {es : List Envelope} {tenant : Bytes}
    (h : ∀ e ∈ es, e.tenantID = tenant) (r : Row) :
    r ∈ (insertRows [] (es.map Row.ofEnvelope)).1 ↔
      ∃ id, (expectedEvents es id).map Row.ofEnvelope = some r := by
  have hmerged := merged_insertRows [] List.nodup_nil es
  constructor
  · intro hr
    have hsome := Replay.find?_of_mem Row.key hmerged.unique hr
    have hfirst := hmerged.first r.key
    rw [hsome, List.find?_nil, Option.none_or] at hfirst
    obtain ⟨e, he, rfl⟩ := Option.map_eq_some_iff.mp hfirst.symm
    have hkey : (Row.ofEnvelope e).key = (tenant, e.eventID) := by
      rw [← h e (List.mem_of_find?_eq_some he)]
      rfl
    refine ⟨e.eventID, ?_⟩
    rw [← find?_insertRows_nil h, ← hkey]
    exact hsome
  · rintro ⟨id, hid⟩
    rw [← find?_insertRows_nil h] at hid
    exact List.mem_of_find?_eq_some hid

theorem execBatch_counts (es : List Envelope) : ∃ r, execBatch U table es = some r ∧
    r.2.inserted + r.2.duplicates = es.length := by
  refine ⟨writeBatch table es, execBatch_eq U table es, ?_⟩
  exact inserted_add_duplicates table es

theorem writeCopyMerge_counts {es : List Envelope} (h : es ≠ []) :
    ∃ r, writeCopyMerge U table es = some r ∧ r.2.inserted + r.2.duplicates = es.length := by
  refine ⟨_, writeCopyMerge_eq U table h, ?_⟩
  exact inserted_add_duplicates table es

/-- However a list of events is cut into batches, every writer leaves the same table and counts the
same insertions, and a statement binds its rows to its events. -/
theorem writers_agree (hkeys : (table.map Row.key).Nodup) (batches : List (List Envelope))
    (hne : ∀ es ∈ batches, es ≠ []) :
    ∃ after, (∀ w : Writer,
        w.writeAll U table 0 batches = some (after, after.length - table.length)) ∧
      Merged table batches.flatten after ∧
      (∀ es ∈ batches, ∀ t,
        (∃ r, execBatch U t es = some r ∧ r.2.inserted + r.2.duplicates = es.length) ∧
        (∃ r, writeCopyMerge U t es = some r ∧ r.2.inserted + r.2.duplicates = es.length) ∧
        bind (insertText es.length) (insertArgs es) = some (es.map columns)) ∧
      ∀ tenant, table = [] → (∀ e ∈ batches.flatten, e.tenantID = tenant) →
        ∀ r, r ∈ after ↔
          ∃ id, (expectedEvents batches.flatten id).map Row.ofEnvelope = some r := by
  refine ⟨(insertRows table (batches.flatten.map Row.ofEnvelope)).1, ?_, ?_, ?_, ?_⟩
  · intro w
    rw [w.writeAll_eq U table 0 hne, Nat.zero_add]
    rfl
  · exact merged_insertRows table hkeys batches.flatten
  · intro es hes t
    exact ⟨execBatch_counts U t es, writeCopyMerge_counts U t (hne es hes),
      bind_insertText (hne es hes)⟩
  · intro tenant htable htenant
    subst htable
    exact mem_insertRows_nil htenant

end Specs

theorem writers_agree_repeated : ∃ after, (∀ w : Writer,
    w.writeAll UUID.standard [] 0 [[orderEnvelope], [orderEnvelope]] =
      some (after, after.length)) ∧ Row.ofEnvelope orderEnvelope ∈ after := by
  have hne : ∀ es ∈ [[orderEnvelope], [orderEnvelope]], es ≠ [] := by simp
  have htenant : ∀ e ∈ [[orderEnvelope], [orderEnvelope]].flatten,
      e.tenantID = orderEnvelope.tenantID := by simp
  obtain ⟨after, hall, -, -, hafter⟩ := writers_agree UUID.standard [] List.nodup_nil _ hne
  refine ⟨after, hall, ?_⟩
  rw [hafter _ rfl htenant]
  refine ⟨orderEnvelope.eventID, ?_⟩
  simp [expectedEvents]

end IngestKit.Benchmark
