import IngestKit.Messaging.Progress
import IngestKit.Outbox.Settled

/-! From the outbox to the events table: consumers that read what the collector published store each
acknowledged order once, with the content that was saved. -/
namespace IngestKit.Outbox
open Json Event Api Checkout Messaging Persistence Replay

section Records
variable {U : UUID.Codec} {app : App} {topic : Bytes} {rps : ℕ} {client : Client}
  {out : Outside} {w : World} {events : List OrderEvent}

/-- The saved payload has no blanks to remove. -/
theorem compact_payload (e : OrderEvent) : compact e.payload.dumps = some e.payload.dumps := by
  have hparse : parse? e.payload.dumps = some ⟨[], e.payload.tree, []⟩ := by
    have hdepth : (Value.object e.payloadMembers).depth = 1 := rfl
    rw [parse?_eq_some_iff, e.payload_tree, hdepth]
    exact ⟨by simp [Doc.print, Blank.print, Python.Object.dumps, e.payload_tree], by decide⟩
  have hstrip : e.payload.tree.strip = e.payload.tree := by
    rw [e.payload_tree]
    rfl
  rw [compact, hparse, Option.map_some, hstrip]
  rfl

/-- Whatever was handed to the producer, acknowledged or not, is a saved event. -/
theorem WorldInv.produced (h : WorldInv U app topic rps client out w events)
    {req : Request} {x : Exchange} (hx : (req, x) ∈ w.served) {record : BrokerRecord}
    (hr : record ∈ x.produced) : ∃ e ∈ events, ∃ tenant envelope,
      decodeEnvelope U record.value = .ok envelope ∧ SameEvent envelope e.input tenant := by
  obtain ⟨hsent, b, now, received, hclock, hrun⟩ := h.served _ hx
  obtain ⟨chosen, hchosen, rfl⟩ := h.sent req hsent
  have hinv := Exchange.inv_of_run hrun
  have hprepared : ∀ s ids, x.publication = some s →
      Api.serve U app topic rps b now (request client (batchOf chosen)) received =
        .ok (s.records, ids) → ∃ e ∈ events, ∃ tenant envelope,
          decodeEnvelope U record.value = .ok envelope ∧ SameEvent envelope e.input tenant := by
    intro s ids hs hserve
    rw [Exchange.produced, hs] at hr
    rw [serve_eq_prepare (length_batchOf_le chosen hchosen.length)] at hserve
    obtain ⟨tenant, inputs, -, hdec, -, hall⟩ := prepare_eq_ok hserve
    have hinputs : inputs = chosen.map OrderEvent.input :=
      Except.ok.inj (hdec.symm.trans (decodeBatch_saved chosen U hchosen.nonempty hchosen.length))
    rw [hinputs, List.forall₂_map_left_iff] at hall
    obtain ⟨e, he, envelope, hdecode, hsame⟩ :=
      exists_of_mem_left hall.flip (List.mem_of_mem_take hr)
    exact ⟨e, hchosen.saved e he, tenant, envelope, hdecode, hsame⟩
  cases x with
  | sending ids s => exact hprepared s ids rfl hinv.2
  | answered r p =>
    cases p with
    | none => cases hr
    | some s =>
      obtain ⟨-, ids, res, hstart, -⟩ := hinv
      exact hprepared s ids rfl hstart

/-- The log holds what the broker acknowledged, and under this tenant nothing but what was handed to
the producer. -/
structure Carries (U : UUID.Codec) (w : World) (tenant : Bytes) (log : Log) : Prop where
  kept : ∀ req r s k record, (req, Exchange.answered r (some s)) ∈ w.served →
    s.records[k]? = some record → (k, none) ∈ s.reported →
      ∃ p, ∃ m ∈ log.records p, m.value = record.value
  source : ∀ p, ∀ m ∈ log.records p, ∀ envelope, decodeEnvelope U m.value = .ok envelope →
    envelope.tenantID = tenant →
      ∃ req x record, (req, x) ∈ w.served ∧ record ∈ x.produced ∧ record.value = m.value

/-- The events table row of a saved order. -/
structure OrderEvent.Stored (e : OrderEvent) (stored : Row) : Prop where
  eventID : stored.eventID = e.eventID
  eventType : stored.eventType = Name.orderCompleted
  occurredAt : stored.occurredAt = microseconds e.occurredAt
  payload : stored.payload = e.payload.dumps

theorem stored_of_sameEvent {e : OrderEvent} {envelope : Envelope} {tenant : Bytes}
    (h : SameEvent envelope e.input tenant) : e.Stored (Row.ofEnvelope envelope) where
  eventID := h.eventID
  eventType := h.eventType
  occurredAt := congrArg microseconds h.occurredAt
  payload := Option.some.inj (h.payload.symm.trans (compact_payload e))

variable {config : ReaderConfig} {log : Log} {v : Messaging.World} {tenant : Bytes}

/-- A row of the tenant is that of a saved order. -/
theorem exists_stored (hinv : WorldInv U app topic rps client out w events)
    (hcarries : Carries U w tenant log) (hv : Messaging.WorldInv U log [] v) {stored : Row}
    (hstored : stored ∈ v.table) (htenant : stored.tenantID = tenant) :
    ∃ e ∈ events, e.Stored stored := by
  obtain ⟨m, hm, hrow, -⟩ := hv.lowest_offset hstored
  obtain ⟨hlog, envelope, hdecode⟩ := hv.source m hm
  rw [rowOf, hdecode, Option.some.injEq] at hrow
  subst hrow
  obtain ⟨req, x, record, hx, hrecord, hvalue⟩ :=
    hcarries.source m.partition m hlog envelope hdecode htenant
  obtain ⟨e, he, tenant', envelope', hdecode', hsame⟩ := hinv.produced hx hrecord
  rw [hvalue, hdecode, Except.ok.injEq] at hdecode'
  subst hdecode'
  exact ⟨e, he, stored_of_sameEvent hsame⟩

/-- Once the consumers are at the end of the log, and as long as no gateway acknowledges what it
did not pass on, every acknowledged order is in the events table exactly once, and every row of the
tenant is a saved order with the content it was saved with, however often it was sent, published and
consumed. -/
theorem acknowledged_orders_are_stored_once (hgateway : ∀ ids, ids ≠ [] → ¬out.Acknowledges ids)
    (h : Reachable U app topic rps client out w)
    (htenant : apiKeyAuth app (bearer ++ client.key) = .ok tenant)
    (hcarries : Carries U w tenant log) (hv : Messaging.Reachable U config log [] v)
    (hconsumed : ∀ p, v.Consumed log p) :
    (∀ row ∈ w.db.outbox, row.state = .acknowledged → ∃! stored, stored ∈ v.table ∧
      stored.tenantID = tenant ∧ stored.eventID.string = row.eventID) ∧
    ∀ stored ∈ v.table, stored.tenantID = tenant →
      ∃ e : OrderEvent, e.Stored stored ∧ ∃ row ∈ w.db.outbox, e.Saved row := by
  obtain ⟨events, hinv⟩ := worldInv_of_reachable h
  have hvinv := Messaging.worldInv_of_reachable hv
  constructor
  · intro row hrow hstate
    obtain ⟨chosen, hchosen, hmem, hack⟩ := hinv.acknowledged row hrow hstate
    obtain ⟨e, he, hid⟩ := List.mem_map.mp hmem
    have hcollector : w.Acknowledged client chosen := by
      refine hack.resolve_right (hgateway _ ?_)
      exact List.ne_nil_of_mem hmem
    obtain ⟨tenant', hauth, req, r, s, k, record, envelope, hserved, hk, hreported, hdecode,
      hsame⟩ := hinv.published hchosen hcollector he
    rw [htenant, Except.ok.injEq] at hauth
    subst hauth
    obtain ⟨p, m, hm, hvalue⟩ := hcarries.kept req r s k record hserved hk hreported
    obtain ⟨n, hn, hlt⟩ := hconsumed p m hm
    have hhandled := hvinv.handled (hvinv.committed p n hn m hm hlt)
    rw [Handled, hvalue, hdecode] at hhandled
    obtain ⟨stored, hstored, hkey⟩ := hhandled
    rw [Row.key, Row.key, Prod.mk.injEq] at hkey
    have hsid : stored.eventID.string = row.eventID := by
      rw [hkey.2, ← hid]
      exact congrArg UUID.string hsame.eventID
    refine ⟨stored, ⟨hstored, hkey.1.trans hsame.tenantID, hsid⟩, ?_⟩
    rintro other ⟨hother, hotenant, hoid⟩
    refine List.inj_on_of_nodup_map hvinv.nodup_keys hother hstored ?_
    rw [Row.key, Row.key, hotenant, hkey.1.trans hsame.tenantID,
      UUID.string_injective (hoid.trans hsid.symm)]
  · intro stored hstored hst
    obtain ⟨e, he, hcontent⟩ := exists_stored hinv hcarries hvinv hstored hst
    obtain ⟨row, hrow, hsaved⟩ := exists_of_mem_left hinv.holds.outbox he
    exact ⟨e, hcontent, row, hrow, hsaved⟩

end Records

section Sample

/-- All records that were handed to the producer. -/
def World.produced (w : World) : List BrokerRecord := w.served.flatMap fun p => p.2.produced

/-- One partition with these records. -/
def logOf (records : List BrokerRecord) : Log where
  records p := if p = 0 then records.mapIdx fun k r => ⟨r.topic, 0, k, r.key, [], r.value⟩ else []
  sorted p := by
    split_ifs
    · rw [List.pairwise_iff_getElem]
      intro i j hi hj hij
      rw [List.getElem_mapIdx, List.getElem_mapIdx]
      exact hij
    · exact .nil
  partition p r hr := by
    split_ifs at hr with hp
    · obtain ⟨k, hk, rfl⟩ := List.mem_mapIdx.mp hr
      exact hp.symm
    · cases hr

variable {U : UUID.Codec} {app : App} {topic : Bytes} {rps : ℕ} {client : Client}
  {out : Outside} {w : World} {events : List OrderEvent}

theorem WorldInv.carries (h : WorldInv U app topic rps client out w events) (tenant : Bytes) :
    Carries U w tenant (logOf w.produced) := by
  constructor
  · intro req r s k record hserved hk _
    obtain ⟨-, b, now, received, -, hrun⟩ := h.served _ hserved
    obtain ⟨-, ids, res, -, hres, -⟩ := Exchange.inv_of_run hrun
    have hcomplete := Exchange.complete_of_run hrun s rfl (by rw [hres]; simp)
    have hmem : record ∈ w.produced := by
      refine List.mem_flatMap.mpr ⟨_, hserved, ?_⟩
      change record ∈ s.records.take s.produced
      rw [hcomplete, List.take_length]
      exact List.mem_of_getElem? hk
    obtain ⟨i, hi, rfl⟩ := List.getElem_of_mem hmem
    exact ⟨0, _, List.mem_mapIdx.mpr ⟨i, hi, rfl⟩, rfl⟩
  · intro p m hm envelope _ _
    by_cases hp : p = 0
    · subst hp
      obtain ⟨i, hi, rfl⟩ := List.mem_mapIdx.mp hm
      obtain ⟨pair, hserved, hrecord⟩ := List.mem_flatMap.mp (List.getElem_mem hi)
      exact ⟨pair.1, pair.2, _, hserved, hrecord, rfl⟩
    · simp only [logOf, if_neg hp, List.not_mem_nil] at hm

theorem acknowledged_orders_are_stored_once_sample : ∃ w log v,
    Reachable UUID.standard demoApp [] 1 sampleClient sampleOutside w ∧
    Messaging.Reachable UUID.standard smallConfig log [] v ∧
    ∃ row ∈ w.db.outbox, ∃ stored ∈ v.table, stored.eventID.string = row.eventID := by
  obtain ⟨w, d, r, hw, -, -, -, -, -, hdb⟩ := reachable_dispatched
  obtain ⟨events, hinv⟩ := worldInv_of_reachable hw
  obtain ⟨v, haccepted, hconsumed, -⟩ := @run_partitions UUID.standard smallConfig
    (logOf w.produced) (fun _ => True) (by decide) [0] (fun _ _ _ _ _ _ => trivial)
    (Messaging.World.start [])
  have hv := steps_of_accepting haccepted
  have hall : ∀ p, v.Consumed (logOf w.produced) p := by
    intro p
    by_cases hp : p = 0
    · rw [hp]
      exact hconsumed 0 (List.mem_singleton_self 0)
    · intro m hm
      simp only [logOf, if_neg hp, List.not_mem_nil] at hm
  have hauth : apiKeyAuth demoApp (bearer ++ sampleClient.key) = .ok (ascii ['d']) := by decide
  have hrow : { laterEvent.outboxRow with state := .acknowledged, attempts := 1 } ∈
      w.db.outbox := by
    rw [hdb]
    exact List.mem_cons_of_mem _ (List.mem_singleton_self _)
  have hgateway : ∀ ids, ids ≠ [] → ¬sampleOutside.Acknowledges ids := by
    rintro ids - ⟨raw, hraw, -⟩
    exact absurd hraw (by decide : (202 : ℕ) ≠ 502)
  obtain ⟨stored, ⟨hstored, -, hid⟩, -⟩ := (acknowledged_orders_are_stored_once hgateway hw hauth
    (hinv.carries _) hv hall).1 _ hrow rfl
  exact ⟨w, _, v, hw, hv, _, hrow, stored, hstored, hid⟩

end Sample

end IngestKit.Outbox
