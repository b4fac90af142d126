import IngestKit.Messaging.Invariant
import IngestKit.Transition.Runs

/-! Commit safety and first-content-wins for every run of any number of consumers. -/
namespace IngestKit.Messaging
open Event Persistence Replay

section World
variable (U : UUID.Codec) (log : Log)

/-- Written to the table, or refused and copied to the quarantine topic. -/
def World.finished (w : World) : Set Record :=
  {r | match decodeEnvelope U r.value with
    | .ok _ => r ∈ w.written
    | .error cause => quarantined r cause ∈ w.dlq}

/-- Nothing goes wrong whenever the call takes effect. -/
def Call.Safe (F : Set Record) : Call → Prop
  | .write events source =>
    List.Forall₂ (fun e r => decodeEnvelope U r.value = .ok e) events source ∧
      (∀ r ∈ source, r ∈ log.records r.partition) ∧ Closed log.before F source
  | .commit records => ∀ r ∈ records.getLast?,
      ∀ s ∈ log.records r.partition, s.offset ≤ r.offset → s ∈ F
  | .quarantine rec cause => decodeEnvelope U rec.value = .error cause

def rowOf (r : Record) : Option Row :=
  match decodeEnvelope U r.value with
  | .ok e => some (Row.ofEnvelope e)
  | .error _ => none

def Record.Valid (r : Record) : Prop := ∃ e, decodeEnvelope U r.value = .ok e

def validBefore (s r : Record) : Prop := log.before s r ∧ s.Valid U

structure WorldInv (table : List Row) (w : World) : Prop where
  committed : ∀ p n, w.committed p = some n → ∀ r ∈ log.records p, r.offset < n → r ∈ w.finished U
  consumers : ∀ k c, w.consumers k = some c → ReaderInv U log (w.finished U) c.next c.state
  inflight : ∀ call ∈ w.inflight, call.Safe U log (w.finished U)
  written : Closed (validBefore U log) ∅ w.written
  source : ∀ r ∈ w.written, r ∈ log.records r.partition ∧ r.Valid U
  table : w.table = insertAll Row.key table (w.written.filterMap (rowOf U))

variable {U log} {table : List Row} {w : World}

theorem mem_finished_of_ok {r : Record} {e : Envelope} (h : decodeEnvelope U r.value = .ok e) :
    r ∈ w.finished U ↔ r ∈ w.written := by
  rw [World.finished, Set.mem_ofPred_eq, h]

theorem mem_finished_of_error {r : Record} {cause : Error}
    (h : decodeEnvelope U r.value = .error cause) :
    r ∈ w.finished U ↔ quarantined r cause ∈ w.dlq := by
  rw [World.finished, Set.mem_ofPred_eq, h]

theorem Call.Safe.mono {F F' : Set Record} {call : Call} (h : call.Safe U log F) (hF : F ⊆ F') :
    call.Safe U log F' := by
  cases call with
  | write events source => exact ⟨h.1, h.2.1, h.2.2.mono hF⟩
  | commit records => exact fun r hr s hs hle => hF (h r hr s hs hle)
  | quarantine rec cause => exact h

/-- Everything up to a finished record whose predecessors are finished is finished. -/
private theorem below_of_before {F : Set Record} {r : Record} (hmem : r ∈ log.records r.partition)
    (hr : r ∈ F) (hb : ∀ s, log.before s r → s ∈ F) :
    ∀ s ∈ log.records r.partition, s.offset ≤ r.offset → s ∈ F := by
  intro s hs hle
  rcases Nat.lt_or_eq_of_le hle with hlt | heq
  · exact hb s ⟨hs, hlt⟩
  · rw [log.eq_of_offset hs hmem heq]
    exact hr

/-- The call a reader waits for is safe. -/
theorem ReaderInv.safe {F : Set Record} {next : ℕ → Option ℕ} {s : State} {call : Call}
    (h : ReaderInv U log F next s) (hc : s.call? = some call) : call.Safe U log F := by
  obtain ⟨hmem, hclosed, -, hsound⟩ := h
  cases s <;> simp only [State.call?, reduceCtorEq, Option.some.injEq] at hc <;> subst hc
  case write c s k backoff =>
    exact ⟨hsound.1, fun r hr => hmem r (List.mem_append_left _ hr), (closed_append.mp hclosed).1⟩
  case commit c s k =>
    intro r hr
    obtain ⟨ys, hys⟩ := List.getLast?_eq_some_iff.mp hr
    have hsplit : (State.commit c s k).pending =
        ys ++ r :: (k.records ++ (s.rest ++ c.queue.flatten)) := by
      rw [State.pending, hys, List.append_assoc, List.singleton_append]
    rw [hsplit] at hclosed
    refine below_of_before (hmem r (by rw [hsplit]; simp)) (hsound.2.2 r (by rw [hys]; simp))
      fun t ht => ?_
    rcases hclosed.mem_of_before ht with hF | hm
    · exact hF
    · exact hsound.2.2 t (by rw [hys]; exact List.mem_append_left _ hm)
  case quarantine c s rec cause => exact hsound.2.2
  case commitPoison c s rec =>
    intro r hr
    cases hr
    exact below_of_before (hmem rec (by simp [State.pending])) hsound.2.2 hclosed.1

private theorem rows_of_forall₂ {events : List Envelope} {source : List Record}
    (h : List.Forall₂ (fun e r => decodeEnvelope U r.value = .ok e) events source) :
    source.filterMap (rowOf U) = events.map Row.ofEnvelope := by
  induction h with
  | nil => rfl
  | cons hd _ ih => rw [List.filterMap_cons, rowOf, hd, List.map_cons, ih]

private theorem valid_of_forall₂ {events : List Envelope} {source : List Record}
    (h : List.Forall₂ (fun e r => decodeEnvelope U r.value = .ok e) events source) :
    ∀ r ∈ source, r.Valid U := by
  induction h with
  | nil => simp
  | cons hd _ ih => exact List.forall_mem_cons.mpr ⟨⟨_, hd⟩, ih⟩

private theorem written_write (events : List Envelope) (source : List Record) :
    (w.perform (.write events source)).written = w.written ++ source := by
  simp [World.perform, World.written]

/-- No record stops being finished. -/
theorem finished_perform (call : Call) : w.finished U ⊆ (w.perform call).finished U := by
  intro r hr
  cases hd : decodeEnvelope U r.value with
  | ok e =>
    rw [mem_finished_of_ok hd] at hr ⊢
    cases call with
    | write events source =>
      rw [written_write]
      exact List.mem_append_left _ hr
    | commit records =>
      simp only [World.perform]
      split <;> exact hr
    | quarantine rec cause => exact hr
  | error cause =>
    rw [mem_finished_of_error hd] at hr ⊢
    cases call with
    | write events source => exact hr
    | commit records =>
      simp only [World.perform]
      split <;> exact hr
    | quarantine rec cause => exact List.mem_append_left _ hr

theorem finishes_perform {call : Call} (hs : call.Safe U log (w.finished U)) :
    call.Finishes ((w.perform call).finished U) := by
  cases call with
  | write events source =>
    intro r hr
    obtain ⟨e, he⟩ := valid_of_forall₂ hs.1 r hr
    rw [mem_finished_of_ok he, written_write]
    exact List.mem_append_right _ hr
  | commit records => trivial
  | quarantine rec cause =>
    refine (mem_finished_of_error hs).mpr ?_
    exact List.mem_append_right _ (List.mem_singleton_self _)

private theorem inflight_perform (call : Call) : (w.perform call).inflight = w.inflight := by
  cases call with
  | commit records => simp only [World.perform]; split <;> rfl
  | _ => rfl

private theorem consumers_perform (call : Call) : (w.perform call).consumers = w.consumers := by
  cases call with
  | commit records => simp only [World.perform]; split <;> rfl
  | _ => rfl

/-- A safe call may take effect at any time. -/
theorem WorldInv.perform (h : WorldInv U log table w) {call : Call}
    (hs : call.Safe U log (w.finished U)) : WorldInv U log table (w.perform call) := by
  have hsub := finished_perform (U := U) (w := w) call
  have hconsumers : ∀ k c, (w.perform call).consumers k = some c →
      ReaderInv U log ((w.perform call).finished U) c.next c.state := by
    rw [consumers_perform]
    exact fun k c hk => (h.consumers k c hk).mono hsub
  have hinflight : ∀ c ∈ (w.perform call).inflight,
      c.Safe U log ((w.perform call).finished U) := by
    rw [inflight_perform]
    exact fun c hc => (h.inflight c hc).mono hsub
  cases call with
  | write events source =>
    obtain ⟨hdec, hmem, hclosed⟩ := hs
    refine ⟨fun p n hn r hr hlt => hsub (h.committed p n hn r hr hlt), hconsumers, hinflight,
      ?_, ?_, ?_⟩
    · rw [written_write, closed_append, Set.empty_union]
      refine ⟨h.written, hclosed.restrict fun s r hsr => ⟨hsr.1, fun hf => ?_⟩⟩
      obtain ⟨e, he⟩ := hsr.2
      exact (mem_finished_of_ok he).mp hf
    · rw [written_write]
      refine List.forall_mem_append.mpr ⟨h.source, fun r hr => ⟨hmem r hr, ?_⟩⟩
      exact valid_of_forall₂ hdec r hr
    · rw [written_write, List.filterMap_append, insertAll_append, ← h.table, rows_of_forall₂ hdec]
      rfl
  | commit records =>
    cases hl : records.getLast? with
    | none =>
      have hw : w.perform (.commit records) = w := by simp only [World.perform, hl]
      rw [hw]
      exact h
    | some r =>
      have hw : w.perform (.commit records) = { w with
          committed := Function.update w.committed r.partition (some (r.offset + 1)) } := by
        simp only [World.perform, hl]
      rw [hw] at hconsumers hinflight ⊢
      refine ⟨fun p n hn s hsm hlt => ?_, hconsumers, hinflight, h.written, h.source, h.table⟩
      by_cases hp : p = r.partition
      · subst hp
        simp only [Function.update_self, Option.some.injEq] at hn
        exact hs r hl s hsm (by omega)
      · simp only [Function.update_of_ne hp] at hn
        exact h.committed p n hn s hsm hlt
  | quarantine rec cause =>
    exact ⟨fun p n hn r hr hlt => hsub (h.committed p n hn r hr hlt), hconsumers, hinflight,
      h.written, h.source, h.table⟩

theorem WorldInv.setConsumer (h : WorldInv U log table w) (k : ℕ) {c : Option Consumer}
    (hc : ∀ d ∈ c, ReaderInv U log (w.finished U) d.next d.state) :
    WorldInv U log table (w.setConsumer k c) := by
  refine ⟨h.committed, fun j d hj => ?_, h.inflight, h.written, h.source, h.table⟩
  by_cases hjk : j = k
  · subst hjk
    simp only [World.setConsumer, Function.update_self] at hj
    exact hc d hj
  · simp only [World.setConsumer, Function.update_of_ne hjk] at hj
    exact h.consumers j d hj

theorem WorldInv.addInflight (h : WorldInv U log table w) {call : Call}
    (hc : call.Safe U log (w.finished U)) :
    WorldInv U log table { w with inflight := call :: w.inflight } :=
  ⟨h.committed, h.consumers, List.forall_mem_cons.mpr ⟨hc, h.inflight⟩, h.written, h.source,
    h.table⟩

theorem worldInv_start (table : List Row) : WorldInv U log table (World.start table) where
  committed := fun p n hn => by cases hn
  consumers := fun k c hk => by cases hk
  inflight := fun c hc => by cases hc
  written := closed_nil
  source := fun r hr => by cases hr
  table := rfl

private theorem ReaderInv.reassign {F : Set Record} {next : ℕ → Option ℕ} {s : State} {p : ℕ}
    {q : Option ℕ} (h : ReaderInv U log F next s)
    (hq : ∀ n ∈ q, ∀ r ∈ log.records p, r.offset < n → r ∈ F) :
    ReaderInv U log F (Function.update next p q) s := by
  refine ⟨h.mem, h.closed, fun hl p' n hn r hr hlt => ?_, h.sound⟩
  by_cases hp : p' = p
  · subst hp
    rw [Function.update_self] at hn
    exact Or.inl (hq n hn r hr hlt)
  · rw [Function.update_of_ne hp] at hn
    exact h.below hl p' n hn r hr hlt

/-- Every step of the world keeps the invariant. -/
theorem WorldInv.step {config : ReaderConfig} {w' : World} (h : WorldInv U log table w)
    (hstep : Step U config log w w') : WorldInv U log table w' := by
  cases hstep with
  | start hk =>
    refine h.setConsumer _ fun d hd => ?_
    cases hd
    exact ⟨by simp [State.pending], closed_nil, fun _ p n hn => (by cases hn), trivial⟩
  | @assign k c p hk =>
    refine h.setConsumer _ fun d hd => ?_
    cases hd
    refine (h.consumers k c hk).reassign fun n hn r hr hlt => ?_
    cases hn
    cases hcom : w.committed p with
    | none => simp [hcom] at hlt
    | some m => exact h.committed p m hcom r hr (by simpa [hcom] using hlt)
  | @revoke k c p hk =>
    refine h.setConsumer _ fun d hd => ?_
    cases hd
    exact (h.consumers k c hk).reassign fun n hn => by cases hn
  | @advance k c a s out hk hc ha hs =>
    refine h.setConsumer _ fun d hd => ?_
    cases hd
    exact (h.consumers k c hk).step ha hs fun _ call hcall => by
      rw [hc] at hcall
      cases hcall
  | @poll k c f next s out hk hf hb hs =>
    refine h.setConsumer _ fun d hd => ?_
    cases hd
    exact (h.consumers k c hk).poll hf hs
  | @succeed k c call s out hk hc hs =>
    have hinv := h.consumers k c hk
    have hsafe := hinv.safe hc
    refine (h.perform hsafe).setConsumer _ fun d hd => ?_
    cases hd
    refine (hinv.mono (finished_perform call)).step (by simp) hs fun _ call' hcall' => ?_
    rw [hc] at hcall'
    cases hcall'
    exact finishes_perform hsafe
  | @fail k c s out hk hs =>
    refine h.setConsumer _ fun d hd => ?_
    cases hd
    exact (h.consumers k c hk).step (by simp) hs fun he => by cases he
  | @late k c call s out hk hc hs =>
    have hinv := h.consumers k c hk
    refine (h.addInflight (hinv.safe hc)).setConsumer _ fun d hd => ?_
    cases hd
    exact hinv.step (by simp) hs fun he => by cases he
  | crash k => exact h.setConsumer k fun d hd => by cases hd
  | @abandon k c call hk hc =>
    exact (h.addInflight ((h.consumers k c hk).safe hc)).setConsumer _ fun d hd => by cases hd
  | @deliver a b call ha =>
    have hsafe := h.inflight call (by rw [ha]; simp)
    have hp := h.perform hsafe
    refine ⟨hp.committed, hp.consumers, fun c hc => hp.inflight c ?_, hp.written, hp.source,
      hp.table⟩
    rw [inflight_perform, ha]
    rcases List.mem_append.mp hc with hm | hm
    · exact List.mem_append_left _ hm
    · exact List.mem_append_right _ (List.mem_cons_of_mem _ hm)

theorem worldInv_of_reachable {config : ReaderConfig} (h : Reachable U config log table w) :
    WorldInv U log table w :=
  Transition.run_invariant (worldInv_start table) (fun _ _ => WorldInv.step) h

theorem mem_table_perform (call : Call) {row : Row} (h : row ∈ w.table) :
    row ∈ (w.perform call).table := by
  cases call with
  | write events source => exact mem_insertAll Row.key h
  | commit records =>
    simp only [World.perform]
    split <;> exact h
  | quarantine rec cause => exact h

/-- No step removes or changes a row. -/
theorem mem_table_step {config : ReaderConfig} {w' : World} (h : Step U config log w w') {row : Row}
    (hr : row ∈ w.table) : row ∈ w'.table := by
  cases h with
  | succeed _ _ _ => exact mem_table_perform _ hr
  | deliver _ => exact mem_table_perform _ hr
  | _ => exact hr

/-- A finished record is handled. -/
theorem WorldInv.handled (h : WorldInv U log table w) {r : Record} (hr : r ∈ w.finished U) :
    Handled U w r := by
  unfold Handled
  cases hd : decodeEnvelope U r.value with
  | ok e =>
    have hrow : Row.ofEnvelope e ∈ w.written.filterMap (rowOf U) :=
      List.mem_filterMap.mpr ⟨r, (mem_finished_of_ok hd).mp hr, by rw [rowOf, hd]⟩
    simp only [h.table]
    exact key_mem_insertAll Row.key table hrow
  | error cause => exact (mem_finished_of_error hd).mp hr

/-- Whatever must precede a record of a statement was written by an earlier statement or
stands in the same one. -/
theorem WorldInv.closed_statements (h : WorldInv U log table w) {a b : List (List Record)}
    {stmt : List Record} (hs : w.statements = a ++ stmt :: b) {r s : Record} (hr : r ∈ stmt)
    (hb : validBefore U log s r) : s ∈ a.flatten ∨ s ∈ stmt := by
  obtain ⟨x, y, rfl⟩ := List.append_of_mem hr
  have hw : w.written = a.flatten ++ x ++ r :: (y ++ b.flatten) := by
    simp [World.written, hs]
  have hc := h.written
  rw [hw] at hc
  rcases hc.mem_of_before hb with hm | hm
  · exact absurd hm (Set.notMem_empty s)
  · exact (List.mem_append.mp hm).imp_right fun hx => List.mem_append_left _ hx

theorem WorldInv.nodup_keys (h : WorldInv U log [] w) : (w.table.map Row.key).Nodup := by
  rw [h.table]
  exact nodup_insertAll Row.key (t := []) (by simp) _

/-- The row under a key is that of the lowest-offset valid record with the key. -/
theorem WorldInv.lowest_offset (h : WorldInv U log [] w) {row : Row} (hrow : row ∈ w.table) :
    ∃ r ∈ w.written, rowOf U r = some row ∧ ∀ s, validBefore U log s r →
      ∀ t, rowOf U s = some t → t.key ≠ row.key := by
  have hfind := find?_of_mem Row.key h.nodup_keys hrow
  have htable : (w.table.find? fun s => s.key = row.key) =
      (w.written.filterMap (rowOf U)).find? fun s => s.key = row.key := by
    rw [h.table]
    exact find?_insertAll Row.key [] _ _
  rw [htable, List.find?_filterMap, Option.bind_eq_some_iff] at hfind
  obtain ⟨r, hr, hrrow⟩ := hfind
  refine ⟨r, List.mem_of_find?_eq_some hr, hrrow, fun s hs t ht hk => ?_⟩
  have hfirst := h.written.first hr hs
  simp [ht, hk] at hfirst

end World

section Guarantees
variable (U : UUID.Codec) (config : ReaderConfig) (log : Log)

/-- Every record below a committed position is handled. -/
theorem commit_safety (table : List Row) (w : World) (h : Reachable U config log table w) (p n : ℕ)
    (hn : w.committed p = some n) (r : Record) (hr : r ∈ log.records p) (hlt : r.offset < n) :
    Handled U w r := by
  have hinv := worldInv_of_reachable h
  exact hinv.handled (hinv.committed p n hn r hr hlt)

/-- The table is a function of the log: valid records are written in offset order, rows never
change, and each key holds the content of its lowest-offset valid record. -/
theorem first_content_wins
    (hkey : ∀ p q, ∀ r ∈ log.records p, ∀ s ∈ log.records q, ∀ e f,
      decodeEnvelope U r.value = .ok e → decodeEnvelope U s.value = .ok f →
      (Row.ofEnvelope e).key = (Row.ofEnvelope f).key → p = q)
    (w : World) (h : Reachable U config log [] w) :
    (∀ a stmt b, w.statements = a ++ stmt :: b → ∀ r ∈ stmt, ∀ s ∈ log.records r.partition,
      s.Valid U → s.offset < r.offset → s ∈ a.flatten ∨ s ∈ stmt) ∧
    (∀ w', Relation.ReflTransGen (Step U config log) w w' → ∀ row ∈ w.table, row ∈ w'.table) ∧
    (w.table.map Row.key).Nodup ∧
    (∀ r ∈ w.written, ∀ e, decodeEnvelope U r.value = .ok e →
      ∃ row ∈ w.table, row.key = (Row.ofEnvelope e).key) ∧
    (∀ row ∈ w.table, ∃ p, ∃ r ∈ log.records p, ∃ e, decodeEnvelope U r.value = .ok e ∧
      row = Row.ofEnvelope e ∧ ∀ q, ∀ s ∈ log.records q, ∀ f, decodeEnvelope U s.value = .ok f →
        (Row.ofEnvelope f).key = row.key → q = p ∧ r.offset ≤ s.offset) := by
  have hinv := worldInv_of_reachable h
  refine ⟨fun a stmt b hs r hr s hsm hv hlt => hinv.closed_statements hs hr ⟨⟨hsm, hlt⟩, hv⟩,
    ?_, hinv.nodup_keys, ?_, ?_⟩
  · intro w' hw row hrow
    exact Transition.run_invariant (I := fun v => row ∈ v.table) hrow
      (fun _ _ hr hs => mem_table_step hs hr) hw
  · intro r hr e he
    have hh := hinv.handled ((mem_finished_of_ok he).mpr hr)
    unfold Handled at hh
    rw [he] at hh
    exact hh
  · intro row hrow
    obtain ⟨r, hr, hrr, hmin⟩ := hinv.lowest_offset hrow
    obtain ⟨hlog, e, he⟩ := hinv.source r hr
    have hre : Row.ofEnvelope e = row := by
      rw [rowOf, he] at hrr
      exact Option.some.inj hrr
    refine ⟨r.partition, r, hlog, e, he, hre.symm, fun q s hs f hf hk => ?_⟩
    have hq : q = r.partition := hkey q r.partition s hs r hlog f e hf he (by rw [hk, hre])
    refine ⟨hq, ?_⟩
    by_contra hlt
    subst hq
    exact hmin s ⟨⟨hs, by omega⟩, f, hf⟩ (Row.ofEnvelope f) (by rw [rowOf, hf]) hk

end Guarantees

section TwoRecords

def orderSource : Record := ⟨[], 0, 0, [], [], orderRecord⟩

def poisonSource : Record := ⟨[], 0, 1, [], [], []⟩

/-- A valid record and one that is not JSON. -/
def twoRecords : Log where
  records p := if p = 0 then [orderSource, poisonSource] else []
  sorted p := by split_ifs <;> simp [orderSource, poisonSource]
  partition p r hr := by
    split_ifs at hr with hp
    · simp only [List.mem_cons, List.not_mem_nil, or_false] at hr
      rcases hr with rfl | rfl <;> simp [orderSource, poisonSource, hp]
    · cases hr

def smallConfig : ReaderConfig := ⟨[[1]], [1], [2], [3], 500, 1, 1, 1, 1⟩

theorem decode_order : decodeEnvelope UUID.standard orderSource.value =
    .ok orderEnvelope := by
  simp only [orderSource, decode_orderRecord]

theorem decode_poison : decodeEnvelope UUID.standard poisonSource.value =
    .error (invalid "invalid event JSON or field") := by
  decide +kernel

/-- One consumer stores the first record, quarantines the second and commits both. -/
theorem run_twoRecords : ∃ w, Reachable UUID.standard smallConfig twoRecords [] w ∧
    w.committed 0 = some 2 ∧ w.table = [Row.ofEnvelope orderEnvelope] := by
  let c : Cycle := ⟨[], [], false⟩
  let k : After := .poison poisonSource (invalid "invalid event JSON or field")
  let full : Segment := ⟨[], [orderEnvelope], [orderSource]⟩
  have hvalid : step UUID.standard smallConfig (.record c ⟨[orderSource, poisonSource], [], []⟩)
      (.flag false) = some (.record c ⟨[poisonSource], [orderEnvelope], [orderSource]⟩, []) := by
    simp only [step, visit, decode_order]
    rfl
  have hpoison : step UUID.standard smallConfig
      (.record c ⟨[poisonSource], [orderEnvelope], [orderSource]⟩) (.flag false) =
        some (.flush c full k, []) := by
    simp only [step, visit, decode_poison]
    rfl
  have h0 : Reachable UUID.standard smallConfig twoRecords [] (World.start []) := .refl
  have h1 := h0.tail (.start (k := 0) rfl)
  have h2 := h1.tail (.assign (k := 0) 0 rfl)
  have h3 := h2.tail (.advance (k := 0) (a := .flag false) (s := .stopBefore) rfl rfl (by simp) rfl)
  have h4 := h3.tail (.advance (k := 0) (a := .flag false) (s := .poll) rfl rfl (by simp) rfl)
  have h5 := h4.tail (.poll (k := 0) (f := ⟨[[orderSource, poisonSource]], []⟩) rfl
    (.chunk (p := 0) (n := 0) 2 rfl (.nil _)) (by decide) rfl)
  have h6 := h5.tail (.advance (k := 0) (a := .flag false)
    (s := .each ⟨[[orderSource, poisonSource]], [], false⟩) rfl rfl (by simp) rfl)
  have h7 := h6.tail (.advance (k := 0) (a := .tau)
    (s := .record c ⟨[orderSource, poisonSource], [], []⟩) rfl rfl (by simp) rfl)
  have h8 := h7.tail (.advance (k := 0) rfl rfl (by simp) hvalid)
  have h9 := h8.tail (.advance (k := 0) rfl rfl (by simp) hpoison)
  have h10 := h9.tail (.advance (k := 0) (a := .tau) (s := .persist c full k 1) rfl rfl
    (by simp) rfl)
  have h11 := h10.tail (.advance (k := 0) (a := .flag false) (s := .write c full k 1) rfl rfl
    (by simp) rfl)
  have h12 := h11.tail (.succeed (k := 0) (s := .commit c full k) rfl rfl rfl)
  have h13 := h12.tail (.succeed (k := 0) (s := .quarantine c ⟨[], [], []⟩ poisonSource
    (invalid "invalid event JSON or field")) rfl rfl rfl)
  have h14 := h13.tail (.succeed (k := 0) (s := .commitPoison c ⟨[], [], []⟩ poisonSource)
    rfl rfl rfl)
  have h15 := h14.tail (.succeed (k := 0) (s := .record c ⟨[], [], []⟩) rfl rfl rfl)
  exact ⟨_, h15, rfl, rfl⟩

theorem commit_safety_twoRecords : ∃ w, Reachable UUID.standard smallConfig twoRecords [] w ∧
    w.committed 0 = some 2 ∧ ∀ r ∈ twoRecords.records 0, Handled UUID.standard w r := by
  obtain ⟨w, hw, hc, -⟩ := run_twoRecords
  refine ⟨w, hw, hc, fun r hr => ?_⟩
  have hlt : r.offset < 2 := by
    simp only [twoRecords, if_true, List.mem_cons, List.not_mem_nil, or_false] at hr
    rcases hr with rfl | rfl <;> simp [orderSource, poisonSource]
  exact commit_safety UUID.standard smallConfig twoRecords [] w hw 0 2 hc r hr hlt

/-- The same event with another payload. -/
def repeatedEnvelope : Envelope :=
  ⟨{ orderInput with payload := [0x7b, 0x7d] }, ascii ['d'], midnight 0⟩

def repeatedSource : Record :=
  ⟨[], 0, 1, [], [], 0x7b :: (memberText Name.tenantID (quoted (ascii ['d'])) ++ 0x2c ::
    (memberText Name.receivedAt (quoted (midnight 0).text) ++ 0x2c ::
      (bodyText (ascii ['+', '0', '5', ':', '3', '0']) [0x7b, 0x7d]).tail))⟩

/-- Two valid records of one key. -/
def repeatedRecords : Log where
  records p := if p = 0 then [orderSource, repeatedSource] else []
  sorted p := by split_ifs <;> simp [orderSource, repeatedSource]
  partition p r hr := by
    split_ifs at hr with hp
    · simp only [List.mem_cons, List.not_mem_nil, or_false] at hr
      rcases hr with rfl | rfl <;> simp [orderSource, repeatedSource, hp]
    · cases hr

theorem decode_repeated : decodeEnvelope UUID.standard repeatedSource.value =
    .ok repeatedEnvelope := by
  decide +kernel

/-- What a reader holds once it has read both. -/
def bothRead : Segment := ⟨[], [orderEnvelope, repeatedEnvelope], [orderSource, repeatedSource]⟩

/-- A reader that is started anew at the beginning comes to its commit of both records. -/
theorem run_repeatedRecords (w : World) (k : ℕ) (hcommitted : w.committed 0 = none) : ∃ next,
    Relation.ReflTransGen (Step UUID.standard smallConfig repeatedRecords) w
      ((w.perform (.write bothRead.valid bothRead.source)).setConsumer k
        (some ⟨.commit ⟨[], [], false⟩ bothRead .done, next⟩)) := by
  let c : Cycle := ⟨[], [], false⟩
  have hfirst : step UUID.standard smallConfig (.record c ⟨[orderSource, repeatedSource], [], []⟩)
      (.flag false) = some (.record c ⟨[repeatedSource], [orderEnvelope], [orderSource]⟩, []) := by
    simp only [step, visit, decode_order]
    rfl
  have hsecond : step UUID.standard smallConfig
      (.record c ⟨[repeatedSource], [orderEnvelope], [orderSource]⟩) (.flag false) =
        some (.record c bothRead, []) := by
    simp only [step, visit, decode_repeated]
    rfl
  have hadvance : ∀ {s t : State} {a : Answer}, s.call? = none → (∀ f, a ≠ .fetched f) →
      step UUID.standard smallConfig s a = some (t, []) →
      Reaches UUID.standard smallConfig repeatedRecords (fun _ => True) k s t [] := reaches_advance
  have heach := hadvance (s := .polled ⟨[[orderSource, repeatedSource]], []⟩) (a := .flag false)
    (t := .each ⟨[[orderSource, repeatedSource]], [], false⟩) rfl (by simp) rfl
  have hloop := heach.trans (hadvance (a := .tau) rfl (by simp) rfl)
  have hread := (hloop.trans (hadvance rfl (by simp) hfirst)).trans (hadvance rfl (by simp) hsecond)
  have hflush := hread.trans (hadvance (a := .tau) (t := .flush c bothRead .done) rfl (by simp) rfl)
  have hpersist := hflush.trans (hadvance (a := .tau) rfl (by simp) rfl)
  have hready := hpersist.trans (hadvance (a := .flag false) (t := .write c bothRead .done 1) rfl
    (by simp) rfl)
  have hwrite := hready.trans (reaches_call (t := .commit c bothRead .done)
    (.write bothRead.valid bothRead.source) rfl rfl (by simp))
  have hpolled : Polled repeatedRecords (Function.update (fun _ => none) 0 (some 0))
      [[orderSource, repeatedSource]] _ := .chunk (p := 0) (n := 0) 2 rfl (.nil _)
  have hstart := @run_start UUID.standard smallConfig repeatedRecords (fun _ => True) w k 0
  rw [hcommitted] at hstart
  have hrun := (hstart.tail (accepting_poll (f := ⟨[[orderSource, repeatedSource]], []⟩) hpolled
    (by decide))).trans (hwrite w _)
  exact ⟨_, hrun.lift id fun _ _ h => h.1⟩

theorem first_content_wins_repeatedRecords : ∃ w,
    Reachable UUID.standard smallConfig repeatedRecords [] w ∧
      w.statements = [[orderSource, repeatedSource], [orderSource, repeatedSource]] ∧
      w.table = [Row.ofEnvelope orderEnvelope] ∧
      ∀ row ∈ w.table, ∃ p, ∃ r ∈ repeatedRecords.records p, ∃ e,
        decodeEnvelope UUID.standard r.value = .ok e ∧ row = Row.ofEnvelope e ∧
        ∀ q, ∀ s ∈ repeatedRecords.records q, ∀ f, decodeEnvelope UUID.standard s.value = .ok f →
          (Row.ofEnvelope f).key = row.key → q = p ∧ r.offset ≤ s.offset := by
  have hkey : ∀ p q, ∀ r ∈ repeatedRecords.records p, ∀ s ∈ repeatedRecords.records q, ∀ e f,
      decodeEnvelope UUID.standard r.value = .ok e → decodeEnvelope UUID.standard s.value = .ok f →
      (Row.ofEnvelope e).key = (Row.ofEnvelope f).key → p = q := by
    intro p q r hr s hs _ _ _ _ _
    have hzero : ∀ n, ∀ t ∈ repeatedRecords.records n, n = 0 := by
      intro n t ht
      by_contra hn
      simp [repeatedRecords, hn] at ht
    rw [hzero p r hr, hzero q s hs]
  obtain ⟨next₁, hfirst⟩ := run_repeatedRecords (World.start []) 0 rfl
  obtain ⟨next₂, hsecond⟩ := run_repeatedRecords (World.setConsumer
    ((World.start []).perform (.write bothRead.valid bothRead.source)) 0 none) 1 rfl
  have hcrash := hfirst.tail (.crash 0)
  rw [World.setConsumer_setConsumer] at hcrash
  have hrun := hcrash.trans hsecond
  have htable : (writeBatch (writeBatch [] bothRead.valid).1 bothRead.valid).1 =
      [Row.ofEnvelope orderEnvelope] := by decide +kernel
  exact ⟨_, hrun, rfl, htable,
    (first_content_wins UUID.standard smallConfig repeatedRecords hkey _ hrun).2.2.2.2⟩

end TwoRecords

end IngestKit.Messaging
