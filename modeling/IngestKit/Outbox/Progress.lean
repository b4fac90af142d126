import IngestKit.Outbox.Safety

/-! From every reachable world the queue can be drained: a dispatcher that is left alone with a
collector that works acknowledges what it selects. -/
namespace IngestKit.Outbox
open Json Event Api Checkout Messaging

section Collector

/-- The publication after `k` records were handed over. -/
private def producing (records : List BrokerRecord) (k : ℕ) : Sending :=
  ⟨records, k, List.range k, [], [], 0, none⟩

/-- The publication after `k` callbacks, in order and without error. -/
private def calling (records : List BrokerRecord) (k : ℕ) : Sending :=
  ⟨records, records.length, (List.range records.length).drop k,
    (List.range k).map fun i => (i, none), List.replicate k none, 0, none⟩

/-- The publication after `k` results were taken from the channel. -/
private def taking (records : List BrokerRecord) (k : ℕ) : Sending :=
  ⟨records, records.length, [], (List.range records.length).map fun i => (i, none),
    List.replicate (records.length - k) none, k, none⟩

private theorem step_producing {records : List BrokerRecord} {k : ℕ} (h : k < records.length) :
    Sending.Step (producing records k) (producing records (k + 1)) := by
  have hnext : producing records (k + 1) = { producing records k with
      produced := k + 1, waiting := List.range k ++ [k] } := by
    rw [producing, producing, List.range_succ]
  rw [hnext]
  exact .produce rfl h

private theorem step_calling {records : List BrokerRecord} {k : ℕ} (h : k < records.length) :
    Sending.Step (calling records k) (calling records (k + 1)) := by
  have hdrop : (List.range records.length).drop k =
      k :: (List.range records.length).drop (k + 1) := by
    rw [List.drop_eq_getElem_cons (by rw [List.length_range]; exact h), List.getElem_range]
  have hnext : calling records (k + 1) = { calling records k with
      waiting := ((List.range records.length).drop k).erase k
      reported := ((List.range k).map fun i => (i, none)) ++ [(k, none)]
      channel := List.replicate k none ++ [none] } := by
    rw [calling, calling, hdrop, List.erase_cons_head, List.range_succ, List.map_append,
      List.map_singleton, List.replicate_succ']
  rw [hnext]
  refine .callback (s := calling records k) none ?_ ?_
  · rw [calling, hdrop]
    exact List.mem_cons_self
  · rw [calling, Sending.capacity, List.length_replicate]
    exact h

private theorem step_taking {records : List BrokerRecord} {k : ℕ} (h : k < records.length) :
    Sending.Step (taking records k) (taking records (k + 1)) := by
  have hchannel : List.replicate (records.length - k) (none : Option BrokerError) =
      none :: List.replicate (records.length - (k + 1)) none := by
    rw [show records.length - k = records.length - (k + 1) + 1 by omega, List.replicate_succ]
  exact .receive (s := taking records k) rfl rfl h hchannel

private theorem run_sending {f : ℕ → Sending} {n : ℕ} (ids : List Bytes)
    (h : ∀ k < n, Sending.Step (f k) (f (k + 1))) :
    Relation.ReflTransGen Exchange.Step (.sending ids (f 0)) (.sending ids (f n)) := by
  induction n with
  | zero => exact .refl
  | succ n ih =>
    exact (ih fun k hk => h k (by omega)).tail (.send (h n (Nat.lt_succ_self n)))

/-- A publication whose records are all acknowledged in time is answered 202. -/
theorem run_acknowledged (records : List BrokerRecord) (ids : List Bytes) :
    ∃ s, Relation.ReflTransGen Exchange.Step (.sending ids (.start records))
      (.answered ⟨202, .accepted ids⟩ (some s)) := by
  have hproduce := run_sending (f := producing records) ids fun k hk => step_producing hk
  have hcall := run_sending (f := calling records) ids fun k hk => step_calling hk
  have htake := run_sending (f := taking records) ids fun k hk => step_taking hk
  have hmiddle : producing records records.length = calling records 0 := rfl
  have hlast : calling records records.length = taking records 0 := by
    rw [calling, taking, List.drop_of_length_le (by rw [List.length_range]), Nat.sub_zero]
  rw [← hmiddle, hlast] at hcall
  have hfinish : Sending.Step (taking records records.length)
      { taking records records.length with result := some (.ok ()) } := .finish rfl rfl rfl
  have hrespond : Exchange.Step
      (.sending ids { taking records records.length with result := some (.ok ()) })
      (.answered ⟨202, .accepted ids⟩
        (some { taking records records.length with result := some (.ok ()) })) :=
    .respond (r := .ok ()) rfl
  exact ⟨_, (((hproduce.trans hcall).trans htake).tail (.send hfinish)).tail hrespond⟩

end Collector

section Dispatch
variable {U : UUID.Codec} {app : App} {topic : Bytes} {rps : ℕ} {client : Client}
  {out : Outside} {w : World} {events chosen : List OrderEvent}

/-- The collector knows the client's key, has a token left and a clock it can write. -/
structure Works (app : App) (rps : ℕ) (client : Client) (b : Bucket) (now : ℤ) (received : Time) :
    Prop where
  key : ∃ tenant, apiKeyAuth app (bearer ++ client.key) = .ok tenant
  allowed : (b.allow rps now).1.allowed = true
  clock : received.isZero = false
  marshals : received.utc.Marshals

theorem run_serve {req : Request} {x y : Exchange} (h : Relation.ReflTransGen Exchange.Step x y)
    {a : List (Request × Exchange)} (hw : w.served = a ++ [(req, x)]) :
    Relation.ReflTransGen (Step U app topic rps client out) w
      { w with served := a ++ [(req, y)] } := by
  induction h with
  | refl =>
    rw [← hw]
  | tail _ hstep ih => exact ih.tail (.serve rfl hstep)

variable {b : Bucket} {now : ℤ} {received : Time}

/-- The answer to a request that meets a working collector. -/
theorem run_request (hworks : Works app rps client b now received) (hne : chosen ≠ [])
    (hlen : chosen.length ≤ 100) (hsent : request client (batchOf chosen) ∈ w.sent) :
    ∃ p, Relation.ReflTransGen (Step U app topic rps client out) w { w with
      served := w.served ++ [(request client (batchOf chosen),
        .answered ⟨202, .accepted (identifiers chosen)⟩ p)] } := by
  obtain ⟨tenant, hauth⟩ := hworks.key
  obtain ⟨records, hserve⟩ : ∃ records, serve U app topic rps b now
      (request client (batchOf chosen)) received = .ok (records, identifiers chosen) :=
    serve_saved_eq_ok hne hlen hworks.clock hworks.marshals hauth hworks.allowed
  obtain ⟨s, hrun⟩ := run_acknowledged records (identifiers chosen)
  have hdeliver : Step U app topic rps client out w { w with
      served := w.served ++ [(request client (batchOf chosen),
        .start (serve U app topic rps b now (request client (batchOf chosen)) received))] } :=
    .deliver hsent b now received hworks.clock
  rw [hserve] at hdeliver
  exact ⟨some s, (Relation.ReflTransGen.single hdeliver).trans (run_serve hrun rfl)⟩

theorem afterReply_accepted (hlen : chosen.length ≤ 100) {requestID : Bytes}
    (hvalid : Utf8.valid requestID = true) (hsize : requestID.length ≤ 1000) (n : ℕ) :
    Dispatcher.afterReply out.loader client n
      (.response 202 (acceptedBody (identifiers chosen) requestID) false)
      ⟨chosen.map OrderEvent.row, identifiers chosen, batchOf chosen, .waiting n⟩ =
        ⟨chosen.map OrderEvent.row, identifiers chosen, batchOf chosen,
          .updating ⟨.acknowledged, none⟩⟩ := by
  have hids : Dispatcher.ids ⟨chosen.map OrderEvent.row, identifiers chosen, batchOf chosen,
      .waiting n⟩ = identifiers chosen := ids_of_rows chosen
  have hanswer : Outcome.ofAnswer (identifiers chosen) (.ok (identifiers chosen)) =
      ⟨.acknowledged, none⟩ := if_neg (not_not.mpr rfl)
  rw [Dispatcher.afterReply, attempt_acceptedBody out.loader hlen hvalid hsize, afterAttempt]
  dsimp only
  rw [hids, hanswer]

/-- A dispatcher from its first attempt to its result. -/
theorem run_attempt (hworks : Works app rps client b now received) (hne : chosen ≠ [])
    (hlen : chosen.length ≤ 100) {k : ℕ} (hk : w.dispatchers k = some
      ⟨chosen.map OrderEvent.row, identifiers chosen, batchOf chosen, .attempting 0⟩) :
    ∃ w' r, Relation.ReflTransGen (Step U app topic rps client out) w w' ∧
      w'.dispatchers k = some
        ⟨chosen.map OrderEvent.row, identifiers chosen, batchOf chosen, .done r⟩ ∧
      r.error = none ∧ w'.db = w.db.update ⟨.acknowledged, none⟩ (identifiers chosen) := by
  have hsend : Step U app topic rps client out w _ := .send hk rfl
  obtain ⟨p, hrequest⟩ := run_request (U := U) (w := { w with
    sent := w.sent ++ [request client (batchOf chosen)] }.setDispatcher k (some
      ⟨chosen.map OrderEvent.row, identifiers chosen, batchOf chosen, .waiting 0⟩))
    hworks hne hlen (List.mem_append_right _ (List.mem_singleton_self _))
  have hanswered := hrequest.head hsend
  have hreply := hanswered.tail (.reply
    (ρ := .response 202 (acceptedBody (identifiers chosen) []) false)
    (World.setDispatcher_self _ k _) rfl
    (Or.inr ⟨_, p, List.mem_append_right _ (List.mem_singleton_self _), rfl,
      fun ids hids => ⟨[], by cases hids; rfl⟩⟩))
  rw [afterReply_accepted hlen rfl (Nat.zero_le _)] at hreply
  have hupdate := hreply.tail (.update (World.setDispatcher_self _ k _) rfl)
  have hcount := hupdate.tail (.count (World.setDispatcher_self _ k _) rfl)
  have hids : Dispatcher.ids ⟨chosen.map OrderEvent.row, identifiers chosen, batchOf chosen,
      .updating ⟨.acknowledged, none⟩⟩ = identifiers chosen := ids_of_rows chosen
  refine ⟨_, _, hcount, World.setDispatcher_self _ k _, rfl, ?_⟩
  rw [← hids]
  rfl

/-- A dispatch that is left alone acknowledges what it selected. -/
theorem run_dispatch (hinv : WorldInv U app topic rps client out w events)
    (hworks : Works app rps client b now received) {k size : ℕ} (hk : w.dispatchers k = none)
    (hlow : 1 ≤ size) (hhigh : size ≤ 100) :
    ∃ w' d r, Relation.ReflTransGen (Step U app topic rps client out) w w' ∧
      w'.dispatchers k = some d ∧ d.selected = w.db.pending size ∧ d.phase = .done r ∧
      r.error = none ∧
      w'.db = w.db.update ⟨.acknowledged, none⟩ ((w.db.pending size).map Prod.fst) := by
  obtain ⟨chosen, hpending, hlen, -⟩ := pending_eq hinv.holds size
  have hstart : Step U app topic rps client out w _ := .dispatch size hk hlow hhigh
  rw [hpending] at hstart ⊢
  by_cases hne : chosen = []
  · subst hne
    have hcount : Step U app topic rps client out _ _ :=
      .count (World.setDispatcher_self w k (Dispatcher.start out.loader [])) rfl
    exact ⟨_, _, _, .tail (.single hstart) hcount, World.setDispatcher_self _ k _, rfl, rfl, rfl,
      rfl⟩
  · rw [start_saved chosen out.loader hne] at hstart
    obtain ⟨w', r, hrun, hd, herror, hdb⟩ := @run_attempt U app topic rps client out _ chosen b
      now received hworks hne (hlen.trans hhigh) k (World.setDispatcher_self w k _)
    rw [ids_of_rows]
    exact ⟨w', _, r, hrun.head hstart, hd, rfl, rfl, herror, hdb⟩

end Dispatch

section Draining

/-- A pending row was acknowledged, or nothing happened to the row. -/
def OutboxRow.Drained (r r' : OutboxRow) : Prop :=
  r' = r ∨ r.state = .pending ∧ r.Later r' ∧ r'.state = .acknowledged

theorem OutboxRow.Drained.trans {r s t : OutboxRow} (h : r.Drained s) (h' : s.Drained t) :
    r.Drained t := by
  rcases h with rfl | ⟨hr, hlater, hs⟩
  · exact h'
  · rcases h' with rfl | ⟨hs', -⟩
    · exact Or.inr ⟨hr, hlater, hs⟩
    · rw [hs] at hs'
      cases hs'

theorem forall₂_drained_trans {a b c : List OutboxRow} (h : List.Forall₂ OutboxRow.Drained a b)
    (h' : List.Forall₂ OutboxRow.Drained b c) : List.Forall₂ OutboxRow.Drained a c := by
  induction h generalizing c with
  | nil =>
    cases h'
    exact .nil
  | cons hr _ ih =>
    cases h' with
    | cons hr' hrest => exact .cons (hr.trans hr') (ih hrest)

theorem drained_update (ids : List Bytes) (db : Database) :
    List.Forall₂ OutboxRow.Drained db.outbox (db.update ⟨.acknowledged, none⟩ ids).outbox := by
  change List.Forall₂ OutboxRow.Drained db.outbox (ids.foldl _ db.outbox)
  generalize db.outbox = rows
  induction ids generalizing rows with
  | nil => exact List.forall₂_same.mpr fun r _ => Or.inl rfl
  | cons id ids ih =>
    refine forall₂_drained_trans ?_ (ih _)
    rw [List.forall₂_map_right_iff, List.forall₂_same]
    intro r _
    have hlater := later_settle ⟨.acknowledged, none⟩ id r
    unfold Outcome.settle at hlater ⊢
    split_ifs at hlater ⊢ with hmatch
    · exact Or.inr ⟨hmatch.2, hlater, rfl⟩
    · exact Or.inl rfl

theorem countP_pending_le {rows rows' : List OutboxRow}
    (h : List.Forall₂ OutboxRow.Drained rows rows') :
    (rows'.countP fun row => row.state == .pending) ≤
      rows.countP fun row => row.state == .pending := by
  induction h with
  | nil => exact Nat.le_refl 0
  | cons hr _ ih =>
    rw [List.countP_cons, List.countP_cons]
    rcases hr with rfl | ⟨-, -, hstate⟩
    · exact Nat.add_le_add_right ih _
    · rw [hstate]
      exact ih.trans (Nat.le_add_right _ _)

theorem countP_pending_lt {rows rows' : List OutboxRow}
    (h : List.Forall₂ OutboxRow.Drained rows rows') {ids : List Bytes}
    (hsettled : ∀ r ∈ rows', r.eventID ∈ ids → r.state ≠ .pending)
    (hpending : ∃ r ∈ rows, r.state = .pending ∧ r.eventID ∈ ids) :
    (rows'.countP fun row => row.state == .pending) <
      rows.countP fun row => row.state == .pending := by
  induction h with
  | nil =>
    obtain ⟨r, hr, -⟩ := hpending
    cases hr
  | @cons r r' rs rs' hr hrest ih =>
    obtain ⟨hr', hrs'⟩ := List.forall_mem_cons.mp hsettled
    obtain ⟨s, hs, hstate, hid⟩ := hpending
    rw [List.countP_cons, List.countP_cons]
    rcases List.mem_cons.mp hs with rfl | hs
    · have hle := countP_pending_le hrest
      rcases hr with rfl | ⟨-, -, hacked⟩
      · exact absurd hstate (hr' hid)
      · rw [hacked, hstate]
        exact Nat.lt_succ_of_le hle
    · have hlt := ih hrs' ⟨s, hs, hstate, hid⟩
      rcases hr with rfl | ⟨-, -, hacked⟩
      · exact Nat.add_lt_add_right hlt _
      · rw [hacked]
        exact hlt.trans_le (Nat.le_add_right _ _)

/-- A dispatch makes the queue shorter. -/
theorem count_update_lt {db : Database} {size : ℕ} (hsize : 1 ≤ size)
    (hpending : db.count .pending ≠ 0) :
    (db.update ⟨.acknowledged, none⟩ ((db.pending size).map Prod.fst)).count .pending <
      db.count .pending := by
  refine countP_pending_lt (drained_update _ db) (settled_update (by decide)) ?_
  have hne : (db.outbox.filter fun row => row.state == .pending) ≠ [] := by
    rw [Database.count, List.countP_eq_length_filter] at hpending
    exact fun hnil => hpending (by rw [hnil]; rfl)
  obtain ⟨r, rs, hrows⟩ := List.exists_cons_of_ne_nil hne
  have hr : r ∈ db.outbox.filter fun row => row.state == .pending := by
    rw [hrows]
    exact List.mem_cons_self
  obtain ⟨hmem, hstate⟩ := List.mem_filter.mp hr
  obtain ⟨n, rfl⟩ := Nat.exists_eq_add_of_le' hsize
  refine ⟨r, hmem, beq_iff_eq.mp hstate, ?_⟩
  rw [Database.pending, hrows, List.take_succ_cons, List.map_cons, List.map_cons]
  exact List.mem_cons_self

variable {U : UUID.Codec} {app : App} {topic : Bytes} {rps : ℕ} {client : Client}
  {out : Outside} {w : World} {b : Bucket} {now : ℤ} {received : Time}

/-- One dispatch after the other until nothing is pending. -/
theorem run_drain (hworks : Works app rps client b now received) (n : ℕ) :
    ∀ (w : World) (events : List OrderEvent), WorldInv U app topic rps client out w events →
      w.dispatchers 0 = none → w.db.count .pending = n →
      ∃ w', Relation.ReflTransGen (Step U app topic rps client out) w w' ∧
        List.Forall₂ OutboxRow.Drained w.db.outbox w'.db.outbox ∧ w'.db.count .pending = 0 := by
  induction n using Nat.strong_induction_on with
  | h n ih =>
    intro w events hinv hk hn
    by_cases hzero : n = 0
    · exact ⟨w, .refl, List.forall₂_same.mpr fun r _ => Or.inl rfl, hn.trans hzero⟩
    · obtain ⟨w₁, d, r, hrun, hd, -, -, -, hdb⟩ := run_dispatch hinv hworks hk
        (by decide : 1 ≤ 100) (by decide)
      have hrun' := hrun.tail (.stop 0)
      obtain ⟨events', hinv'⟩ := hinv.run hrun'
      have hlt : (w₁.setDispatcher 0 none).db.count .pending < n := by
        change w₁.db.count .pending < n
        rw [hdb, ← hn]
        exact count_update_lt (by decide) (by rw [hn]; exact hzero)
      obtain ⟨w₂, hrest, hdrained, hcount⟩ := ih _ hlt _ _ hinv'
        (World.setDispatcher_self w₁ 0 none) rfl
      refine ⟨w₂, hrun'.trans hrest, forall₂_drained_trans ?_ hdrained, hcount⟩
      change List.Forall₂ OutboxRow.Drained w.db.outbox w₁.db.outbox
      rw [hdb]
      exact drained_update _ w.db

/-- Whatever happened before, a worker that is started anew and meets a collector that works gets
every pending row acknowledged; no other row changes. -/
theorem queue_can_be_drained (hworks : Works app rps client b now received)
    (h : Reachable U app topic rps client out w) :
    ∃ w', Relation.ReflTransGen (Step U app topic rps client out) w w' ∧
      List.Forall₂ (fun r r' => r.Later r' ∧ (r.state = .pending → r'.state = .acknowledged))
        w.db.outbox w'.db.outbox := by
  have hstop : Relation.ReflTransGen (Step U app topic rps client out) w _ := .single (.stop 0)
  obtain ⟨events, hinv⟩ := worldInv_of_reachable (h.trans hstop)
  obtain ⟨w', hrun, hdrained, hcount⟩ := run_drain hworks _ _ _ hinv
    (World.setDispatcher_self w 0 none) rfl
  have hnone : ∀ r ∈ w'.db.outbox, ¬r.state = .pending := by
    intro r hr hstate
    exact List.countP_eq_zero.mp hcount r hr (beq_iff_eq.mpr hstate)
  have hboth := (List.forall₂_and_left _ _).mpr ⟨hnone, hdrained.flip⟩
  refine ⟨w', hstop.trans hrun, hboth.flip.imp ?_⟩
  rintro r r' ⟨hstate, rfl | ⟨-, hlater, hacked⟩⟩
  · exact ⟨.refl r', fun hpending => absurd hpending hstate⟩
  · exact ⟨hlater, fun _ => hacked⟩

end Draining

section Sample

theorem works_sample : Works demoApp 1 sampleClient (.new 1 0) 0 (midnight 0) where
  key := ⟨ascii ['d'], by decide⟩
  allowed := by decide +kernel
  clock := by decide
  marshals := by decide

/-- A gateway that answers 502 with any text. -/
def sampleOutside : Outside := ⟨.plain, fun status _ => status = 502⟩

/-- Two orders were saved, and nothing else happened. -/
def savedWorld : World where
  db := ⟨[sampleEvent.orderRow, laterEvent.orderRow], [sampleEvent.outboxRow, laterEvent.outboxRow]⟩
  returned := [(sampleEvent.order.orderID, sampleEvent.eventID.string),
    (laterEvent.order.orderID, laterEvent.eventID.string)]
  sent := []
  served := []
  dispatchers := fun _ => none

theorem reachable_savedWorld :
    Reachable UUID.standard demoApp [] 1 sampleClient sampleOutside savedWorld :=
  .tail (.single (.create (e := sampleEvent) true rfl)) (.create (e := laterEvent) true rfl)

theorem queue_can_be_drained_sample : ∃ w',
    Relation.ReflTransGen (Step UUID.standard demoApp [] 1 sampleClient sampleOutside)
      savedWorld w' ∧
    List.Forall₂ (fun r r' => r.Later r' ∧ (r.state = .pending → r'.state = .acknowledged))
      [sampleEvent.outboxRow, laterEvent.outboxRow] w'.db.outbox :=
  queue_can_be_drained works_sample reachable_savedWorld

/-- Both orders are dispatched and acknowledged. -/
theorem reachable_dispatched : ∃ w d r,
    Reachable UUID.standard demoApp [] 1 sampleClient sampleOutside w ∧
    Relation.ReflTransGen (Step UUID.standard demoApp [] 1 sampleClient sampleOutside)
      savedWorld w ∧
    w.dispatchers 0 = some d ∧ d.selected = [sampleEvent.row, laterEvent.row] ∧
    d.phase = .done r ∧ r.error = none ∧
    w.db = ⟨[sampleEvent.orderRow, laterEvent.orderRow],
      [{ sampleEvent.outboxRow with state := .acknowledged, attempts := 1 },
        { laterEvent.outboxRow with state := .acknowledged, attempts := 1 }]⟩ := by
  obtain ⟨events, hinv⟩ := worldInv_of_reachable reachable_savedWorld
  obtain ⟨w, d, r, hrun, hd, hselected, hphase, herror, hdb⟩ := run_dispatch (k := 0) hinv
    works_sample rfl (by decide : 1 ≤ 2) (by decide)
  refine ⟨w, d, r, reachable_savedWorld.trans hrun, hrun, hd, hselected, hphase, herror, ?_⟩
  rw [hdb]
  rfl

end Sample

end IngestKit.Outbox
