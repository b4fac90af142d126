import IngestKit.Outbox.Progress

/-! What every run of the outbox guarantees: one frozen event for each order, rows that leave
`pending` once, and an acknowledgement only for what the broker took. -/
namespace IngestKit.Outbox
open Event Api Checkout Messaging Replay

section Results
variable {U : UUID.Codec} {app : App} {topic : Bytes} {rps : ℕ} {client : Client}
  {out : Outside} {w w' : World}

/-- Rows persist in their order; new ones come behind them. -/
def Database.Extends (db db' : Database) : Prop :=
  ∃ rows new, List.Forall₂ OutboxRow.Later db.outbox rows ∧ db'.outbox = rows ++ new

theorem Database.Extends.refl (db : Database) : db.Extends db :=
  ⟨db.outbox, [], forall₂_later_refl _, (List.append_nil _).symm⟩

theorem Database.Extends.trans {a b c : Database} (h : a.Extends b) (h' : b.Extends c) :
    a.Extends c := by
  obtain ⟨rows, new, hrows, hb⟩ := h
  obtain ⟨rows', new', hrows', hc⟩ := h'
  have hleft := List.forall₂_take rows.length hrows'
  rw [hb, List.take_left] at hleft
  refine ⟨rows'.take rows.length, rows'.drop rows.length ++ new',
    forall₂_later_trans hrows hleft, ?_⟩
  rw [← List.append_assoc, List.take_append_drop, hc]

theorem extends_step (hs : Step U app topic rps client out w w') : w.db.Extends w'.db := by
  cases hs with
  | @create e id db answered hc =>
    change w.db.Extends db
    unfold Database.createOrder at hc
    split at hc
    · split_ifs at hc
      cases hc
      exact .refl _
    · split_ifs at hc
      cases hc
      exact ⟨w.db.outbox, [e.outboxRow], forall₂_later_refl _, rfl⟩
  | update hd hp => exact ⟨_, [], later_update _ _ w.db, (List.append_nil _).symm⟩
  | _ => exact .refl _

theorem extends_run (h : Relation.ReflTransGen (Step U app topic rps client out) w w') :
    w.db.Extends w'.db := by
  refine Transition.run_invariant (I := fun v => w.db.Extends v.db) (.refl _) ?_ h
  exact fun a b ha hs => ha.trans (extends_step hs)

/-- The outbox has one row for each order, with its identifiers and a body that was made for them,
and a caller of `create_order` was only ever given the identifier in that row. -/
theorem one_row_per_order (h : Reachable U app topic rps client out w) :
    List.Forall₂ (fun order row => ∃ e : OrderEvent, order = e.orderRow ∧ e.Saved row)
      w.db.orders w.db.outbox ∧
    (w.db.orders.map OrderRow.orderID).Nodup ∧ (w.db.outbox.map OutboxRow.eventID).Nodup ∧
    ∀ p ∈ w.returned, ∃ row ∈ w.db.outbox, p = (row.orderID, row.eventID) := by
  obtain ⟨events, hinv⟩ := worldInv_of_reachable h
  have hsaved := hinv.holds.outbox
  refine ⟨?_, ?_, ?_, fun p hp => ?_⟩
  · rw [hinv.holds.orders, List.forall₂_map_left_iff]
    exact hsaved.imp fun e row hs => ⟨e, rfl, hs⟩
  · rw [hinv.holds.orders, List.map_map]
    exact hinv.holds.orderIDs
  · have hnodup := hinv.holds.eventIDs.map UUID.string_injective
    rw [List.map_map] at hnodup
    rw [map_eventID hsaved]
    exact hnodup
  · obtain ⟨e, he, rfl⟩ := hinv.returned p hp
    obtain ⟨row, hrow, hs⟩ := exists_of_mem_left hsaved he
    exact ⟨row, hrow, by rw [hs.orderID, hs.eventID]⟩

theorem one_row_per_order_sample :
    List.Forall₂ (fun order row => ∃ e : OrderEvent, order = e.orderRow ∧ e.Saved row)
      savedWorld.db.orders savedWorld.db.outbox ∧
    (savedWorld.db.orders.map OrderRow.orderID).Nodup ∧ savedWorld.db.orders.length = 2 := by
  obtain ⟨hrows, horders, -, -⟩ := one_row_per_order reachable_savedWorld
  exact ⟨hrows, horders, rfl⟩

/-- Whatever happens later, a row keeps its identifiers and its body, a row that left `pending` is
never touched again, and saving its order once more gives its identifier and changes nothing. -/
theorem saved_rows_are_kept (h : Reachable U app topic rps client out w)
    (hrun : Relation.ReflTransGen (Step U app topic rps client out) w w') :
    w.db.Extends w'.db ∧ ∀ e eventID db, w'.db.createOrder e = .ok (eventID, db) →
      ∀ row ∈ w.db.outbox, row.orderID = e.order.orderID → eventID = row.eventID ∧ db = w'.db := by
  have hextends := extends_run hrun
  refine ⟨hextends, fun e eventID db hc row hrow horder => ?_⟩
  obtain ⟨events, hinv⟩ := worldInv_of_reachable (h.trans hrun)
  obtain ⟨rows, new, hlater, houtbox⟩ := hextends
  obtain ⟨row', hrow', hl⟩ := exists_of_mem_left hlater hrow
  obtain ⟨e', he', hs⟩ := hinv.holds.mem_outbox
    (by rw [houtbox]; exact List.mem_append_left new hrow')
  have hsame : e'.order.orderID = e.order.orderID := by
    rw [← hs.orderID, hl.orderID, horder]
  have hnodup := hinv.holds.orderIDs
  rcases createOrder_eq_ok hinv.holds hc with ⟨rfl, e'', he'', horder'', rfl⟩ | ⟨hholds, -⟩
  · have heq : e' = e'' := List.inj_on_of_nodup_map hnodup he' he'' (by rw [hsame, horder''])
    rw [← hl.eventID, hs.eventID, heq]
    exact ⟨rfl, rfl⟩
  · have hfresh := hholds.orderIDs
    rw [List.map_append, List.map_singleton, List.nodup_append] at hfresh
    exact absurd hsame (hfresh.2.2 _ (List.mem_map_of_mem he') _ (List.mem_singleton_self _))

theorem saved_rows_are_kept_sample : ∃ w row,
    Relation.ReflTransGen (Step UUID.standard demoApp [] 1 sampleClient sampleOutside)
      savedWorld w ∧ savedWorld.db.Extends w.db ∧
    w.db.createOrder sampleEvent = .ok (row.eventID, w.db) ∧ row ∈ savedWorld.db.outbox := by
  obtain ⟨w, d, r, -, hrun, -, -, -, -, hdb⟩ := reachable_dispatched
  obtain ⟨hextends, hagain⟩ := saved_rows_are_kept reachable_savedWorld hrun
  have hcreate : w.db.createOrder sampleEvent = .ok (sampleEvent.eventID.string, w.db) := by
    rw [hdb]
    rfl
  obtain ⟨hid, -⟩ := hagain sampleEvent _ _ hcreate sampleEvent.outboxRow List.mem_cons_self rfl
  rw [hid] at hcreate
  exact ⟨w, _, hrun, hextends, hcreate, List.mem_cons_self⟩

/-- The broker acknowledged a record that the consumer decodes to this event of this tenant. -/
def World.Published (U : UUID.Codec) (w : World) (tenant : Bytes) (e : OrderEvent) : Prop :=
  ∃ req r s k record envelope, (req, Exchange.answered r (some s)) ∈ w.served ∧
    s.records[k]? = some record ∧ (k, none) ∈ s.reported ∧
    decodeEnvelope U record.value = .ok envelope ∧ SameEvent envelope e.input tenant

theorem WorldInv.published {events chosen : List OrderEvent}
    (h : WorldInv U app topic rps client out w events) (hc : Chosen events chosen)
    (hack : w.Acknowledged client chosen) {e : OrderEvent} (he : e ∈ chosen) :
    ∃ tenant, apiKeyAuth app (bearer ++ client.key) = .ok tenant ∧ w.Published U tenant e := by
  obtain ⟨p, hmem⟩ := hack
  rcases h.answer hc.nonempty hc.length hmem with hother | ⟨-, s, tenant, rfl, hauth, hpub⟩
  · exact absurd hother (by decide : 202 ∉ [401, 429, 503])
  · obtain ⟨k, hk, rfl⟩ := List.getElem_of_mem he
    have hlen := hpub.records.length_eq
    have hks : k < s.records.length := by rw [← hlen]; exact hk
    obtain ⟨envelope, hdec, hsame⟩ := (List.forall₂_iff_get.mp hpub.records).2 k hk hks
    exact ⟨tenant, hauth, _, _, s, k, _, envelope, hmem, List.getElem?_eq_getElem hks,
      hpub.acknowledged k hks, hdec, hsame⟩

/-- A row is acknowledged only if the broker acknowledged a record of its event, under the tenant of
the client's key, or if a gateway gave the acknowledgement of a request with it. -/
theorem acknowledged_row_is_published (h : Reachable U app topic rps client out w) :
    ∀ row ∈ w.db.outbox, row.state = .acknowledged → ∃ e : OrderEvent, e.Saved row ∧
      ((∃ tenant, apiKeyAuth app (bearer ++ client.key) = .ok tenant ∧
        w.Published U tenant e) ∨ ∃ ids, row.eventID ∈ ids ∧ out.Acknowledges ids) := by
  intro row hrow hstate
  obtain ⟨events, hinv⟩ := worldInv_of_reachable h
  obtain ⟨chosen, hc, hmem, hack⟩ := hinv.acknowledged row hrow hstate
  obtain ⟨e, he, hid⟩ := List.mem_map.mp hmem
  obtain ⟨e', he', hs⟩ := hinv.holds.mem_outbox hrow
  have heq : e' = e := by
    refine List.inj_on_of_nodup_map hinv.holds.eventIDs he' (hc.saved e he) ?_
    exact UUID.string_injective (by rw [← hs.eventID, hid])
  rw [heq] at hs
  refine ⟨e, hs, ?_⟩
  rcases hack with hcollector | hgateway
  · exact Or.inl (hinv.published hc hcollector he)
  · exact Or.inr ⟨_, hmem, hgateway⟩

theorem acknowledged_row_is_published_sample : ∃ w row,
    Reachable UUID.standard demoApp [] 1 sampleClient sampleOutside w ∧ row ∈ w.db.outbox ∧
    ∃ e : OrderEvent, e.Saved row ∧
      ∃ tenant, apiKeyAuth demoApp (bearer ++ sampleClient.key) = .ok tenant ∧
        w.Published UUID.standard tenant e := by
  obtain ⟨w, d, r, hw, -, -, -, -, -, hdb⟩ := reachable_dispatched
  have hrow : { laterEvent.outboxRow with state := .acknowledged, attempts := 1 } ∈
      w.db.outbox := by
    rw [hdb]
    exact List.mem_cons_of_mem _ (List.mem_singleton_self _)
  obtain ⟨e, hs, hpublished | ⟨ids, -, raw, hraw, -⟩⟩ :=
    acknowledged_row_is_published hw _ hrow rfl
  · exact ⟨w, _, hw, hrow, e, hs, hpublished⟩
  · exact absurd hraw (by decide : (202 : ℕ) ≠ 502)

/-- As long as no gateway answers 400 or 413 on its own account, no saved order is ever rejected,
and a dispatch that reports no error has had every row it selected acknowledged. -/
theorem dispatch_without_error_acknowledges (hgateway : ¬out.Rejects)
    (h : Reachable U app topic rps client out w) :
    (∀ row ∈ w.db.outbox, row.state ≠ .rejected) ∧
    ∀ k d r, w.dispatchers k = some d → d.phase = .done r → r.error = none →
      r.attempted = d.selected.length ∧
      ∀ p ∈ d.selected, ∃ row ∈ w.db.outbox, p = (row.eventID, row.body) ∧
        row.state = .acknowledged := by
  obtain ⟨events, hinv⟩ := worldInv_of_reachable h
  have hrejected : ∀ row ∈ w.db.outbox, row.state ≠ .rejected := by
    intro row hrow hstate
    exact hgateway (hinv.rejected row hrow hstate)
  refine ⟨hrejected, fun k d r hd hp herr => ?_⟩
  obtain ⟨chosen, -, hsaved, hselected, hphase⟩ := hinv.dispatchers k d hd
  rw [Dispatcher.PhaseInv, hp] at hphase
  obtain ⟨hattempted, hsettled⟩ := hphase
  refine ⟨by rw [hattempted, hselected, List.length_map], fun p hp => ?_⟩
  rw [hselected] at hp
  obtain ⟨e, he, rfl⟩ := List.mem_map.mp hp
  obtain ⟨row, hrow, hs⟩ := exists_of_mem_left hinv.holds.outbox (hsaved e he)
  have hstate := hsettled herr row hrow (by rw [hs.eventID]; exact List.mem_map_of_mem he)
  refine ⟨row, hrow, by rw [hs.eventID, hs.body]; rfl, ?_⟩
  cases hrow' : row.state with
  | pending => exact absurd hrow' hstate
  | acknowledged => rfl
  | rejected => exact absurd hrow' (hrejected row hrow)

theorem dispatch_without_error_acknowledges_sample : ∃ w row,
    Reachable UUID.standard demoApp [] 1 sampleClient sampleOutside w ∧ row ∈ w.db.outbox ∧
    laterEvent.row = (row.eventID, row.body) ∧ row.state = .acknowledged := by
  obtain ⟨w, d, r, hw, -, hd, hselected, hphase, herror, -⟩ := reachable_dispatched
  have hgateway : ¬sampleOutside.Rejects := by
    rintro ⟨raw, hraw | hraw⟩
    · exact absurd hraw (by decide : (400 : ℕ) ≠ 502)
    · exact absurd hraw (by decide : (413 : ℕ) ≠ 502)
  obtain ⟨-, hall⟩ := dispatch_without_error_acknowledges hgateway hw
  obtain ⟨row, hrow, heq, hstate⟩ := (hall 0 d r hd hphase herror).2 laterEvent.row
    (by rw [hselected]; exact List.mem_cons_of_mem _ (List.mem_singleton_self _))
  exact ⟨w, row, hw, hrow, heq, hstate⟩

end Results

end IngestKit.Outbox
