import IngestKit.Outbox.Invariant

/-! Every step of every party keeps the invariant of the outbox. -/
namespace IngestKit.Outbox
open Event Api Checkout Messaging
open Json.Python (Loader)

section Updates

/-- A row after the update is an old one, or a selected one that took the outcome. -/
theorem mem_update {o : Outcome} {ids : List Bytes} {db : Database} {row : OutboxRow}
    (h : row ∈ (db.update o ids).outbox) :
    row ∈ db.outbox ∨ row.eventID ∈ ids ∧ row.state = o.state := by
  change row ∈ ids.foldl _ db.outbox at h
  generalize db.outbox = rows at h ⊢
  induction ids generalizing rows with
  | nil => exact Or.inl h
  | cons id ids ih =>
    rcases ih (rows.map (o.settle id)) h with hmem | ⟨hid, hstate⟩
    · obtain ⟨r, hr, rfl⟩ := List.mem_map.mp hmem
      unfold Outcome.settle
      split_ifs with hmatch
      · exact Or.inr ⟨by rw [hmatch.1]; exact List.mem_cons_self, rfl⟩
      · exact Or.inl hr
    · exact Or.inr ⟨List.mem_cons_of_mem id hid, hstate⟩

/-- A row keeps its state while others are updated, once it is not pending. -/
private theorem settled_foldl {o : Outcome} {id : Bytes} (ids : List Bytes) {rows : List OutboxRow}
    (h : ∀ r ∈ rows, r.eventID = id → r.state ≠ .pending) :
    ∀ r ∈ ids.foldl (fun rows id => rows.map (o.settle id)) rows,
      r.eventID = id → r.state ≠ .pending := by
  induction ids generalizing rows with
  | nil => exact h
  | cons id' ids ih =>
    refine ih fun r hr hid => ?_
    obtain ⟨r', hr', rfl⟩ := List.mem_map.mp hr
    have hlater := later_settle o id' r'
    rw [hlater.eventID] at hid
    have hstate := h r' hr' hid
    rw [hlater.settled hstate]
    exact hstate

theorem settled_update {o : Outcome} (ho : o.state ≠ .pending) {ids : List Bytes} {db : Database} :
    ∀ r ∈ (db.update o ids).outbox, r.eventID ∈ ids → r.state ≠ .pending := by
  change ∀ r ∈ ids.foldl _ db.outbox, _
  generalize db.outbox = rows
  induction ids generalizing rows with
  | nil => exact fun r _ hid => absurd hid List.not_mem_nil
  | cons id ids ih =>
    intro r hr hid
    rcases List.mem_cons.mp hid with heq | hid
    · refine settled_foldl ids (fun s hs hsid => ?_) r hr heq
      obtain ⟨s', -, rfl⟩ := List.mem_map.mp hs
      unfold Outcome.settle at hsid ⊢
      split_ifs at hsid ⊢ with hmatch
      · exact ho
      · exact fun hpending => hmatch ⟨hsid, hpending⟩
    · exact ih (rows.map (o.settle id)) r hr hid

variable {w w' : World} {chosen : List OrderEvent}

theorem settled_of_later (h : List.Forall₂ OutboxRow.Later w.db.outbox w'.db.outbox)
    (hs : w.Settled chosen) : w'.Settled chosen := by
  unfold World.Settled at hs ⊢
  generalize w.db.outbox = rows at h hs
  generalize w'.db.outbox = rows' at h ⊢
  induction h with
  | nil => exact fun row hrow => absurd hrow List.not_mem_nil
  | @cons r r' rs rs' hlater _ ih =>
    obtain ⟨hr, hrs⟩ := List.forall_mem_cons.mp hs
    refine List.forall_mem_cons.mpr ⟨fun hid => ?_, ih hrs⟩
    rw [hlater.eventID] at hid
    have hstate := hr hid
    rw [hlater.settled hstate]
    exact hstate

end Updates

section Replies
variable {J : Loader}

theorem attempt_eq_ok {expected ids : List Bytes} {ρ : Reply}
    (h : attempt J expected ρ = .ok ids) :
    ids = expected ∧ ∃ raw, ρ = .response 202 raw false ∧ acknowledges J expected raw = true := by
  cases ρ with
  | untrusted => cases h
  | failed => cases h
  | response status raw late =>
    rw [attempt] at h
    split_ifs at h with hstatus hack hlate
    rw [ne_eq, not_not] at hstatus
    rw [Bool.not_eq_false] at hack
    rw [Bool.not_eq_true] at hlate
    cases h
    exact ⟨rfl, raw, by rw [hstatus, hlate], hack⟩

/-- Only a response carries a status, and then that of an error or 202. -/
theorem status_of_attempt {expected : List Bytes} {ρ : Reply} {e : IngestError} {status : ℕ}
    (h : attempt J expected ρ = .error e) (hs : e.status = some status) :
    ∃ raw late, ρ = .response status raw late := by
  cases ρ with
  | untrusted =>
    cases h
    cases hs
  | failed =>
    cases h
    cases hs
  | response status' raw late =>
    rw [attempt] at h
    split_ifs at h with hstatus hack hlate
    · cases h
      cases hs
      exact ⟨raw, late, rfl⟩
    · cases h
      cases hs
      rw [ne_eq, not_not] at hstatus
      exact ⟨raw, late, by rw [hstatus]⟩
    · cases h
      cases hs

theorem rejected_of_error {e : IngestError} (h : (Outcome.ofError e).state = .rejected) :
    e.status = some 400 ∨ e.status = some 413 := by
  unfold Outcome.ofError at h
  dsimp only at h
  split_ifs at h with hstatus
  exact hstatus.imp (fun h => (Option.filter_eq_some_iff.mp h).1)
    fun h => (Option.filter_eq_some_iff.mp h).1

theorem acknowledged_of_error (e : IngestError) : (Outcome.ofError e).state ≠ .acknowledged := by
  unfold Outcome.ofError
  dsimp only
  split_ifs <;> decide

theorem code_of_error (e : IngestError) : (Outcome.ofError e).code ≠ none := by
  unfold Outcome.ofError
  exact Option.some_ne_none _

end Replies

section Steps
variable {U : UUID.Codec} {app : App} {topic : Bytes} {rps : ℕ} {client : Client}
  {out : Outside} {w w' : World} {events chosen : List OrderEvent}

/-- What the collector answers to the request of a dispatch. -/
theorem WorldInv.answer (h : WorldInv U app topic rps client out w events)
    (hne : chosen ≠ []) (hlen : chosen.length ≤ 100) {r : Response} {p : Option Sending}
    (hmem : (request client (batchOf chosen), Exchange.answered r p) ∈ w.served) :
    r.status ∈ [401, 429, 503] ∨ r = ⟨202, .accepted (identifiers chosen)⟩ ∧
      ∃ s tenant, p = some s ∧ apiKeyAuth app (bearer ++ client.key) = .ok tenant ∧
        Published U tenant chosen s := by
  obtain ⟨-, b, now, received, hclock, hrun⟩ := h.served _ hmem
  exact answer_saved hne hlen hclock hrun

/-- The outcome of a dispatch rests on what was answered. -/
theorem justified_of_reply (h : WorldInv U app topic rps client out w events)
    (hne : chosen ≠ []) (hlen : chosen.length ≤ 100) {ρ : Reply}
    (hρ : w.Answers out (request client (batchOf chosen)) ρ) :
    (Outcome.ofAnswer (identifiers chosen)
      (attempt out.loader (identifiers chosen) ρ)).Justified client out w chosen := by
  cases hattempt : attempt out.loader (identifiers chosen) ρ with
  | ok ids =>
    obtain ⟨rfl, raw, rfl, hack⟩ := attempt_eq_ok hattempt
    have hout : Outcome.ofAnswer (identifiers chosen) (.ok (identifiers chosen)) =
        ⟨.acknowledged, none⟩ := if_neg (not_not.mpr rfl)
    rw [hout]
    refine ⟨fun _ => ?_, fun hs => (by cases hs), fun _ => rfl⟩
    rcases hρ with hgateway | ⟨r, p, hmem, hstatus, -⟩
    · exact Or.inr ⟨raw, hgateway, hack⟩
    · rcases h.answer hne hlen hmem with hother | ⟨rfl, -⟩
      · rw [← hstatus] at hother
        exact absurd hother (by decide)
      · exact Or.inl ⟨p, hmem⟩
  | error e =>
    refine ⟨fun hs => absurd hs (acknowledged_of_error e), fun hs => ?_,
      fun hc => absurd hc (code_of_error e)⟩
    have hcollector : ∀ status, status = 400 ∨ status = 413 → e.status = some status →
        ∃ raw, out.gateway status raw := by
      intro status hbad hstatus
      obtain ⟨raw, late, rfl⟩ := status_of_attempt hattempt hstatus
      rcases hρ with hgateway | ⟨r, p, hmem, hr, -⟩
      · exact ⟨raw, hgateway⟩
      · rcases h.answer hne hlen hmem with hother | ⟨rfl, -⟩
        · rw [← hr] at hother
          rcases hbad with rfl | rfl
          · exact absurd hother (by decide)
          · exact absurd hother (by decide)
        · rcases hbad with rfl | rfl
          · cases hr
          · cases hr
    rcases rejected_of_error hs with hs | hs
    · obtain ⟨raw, hraw⟩ := hcollector 400 (Or.inl rfl) hs
      exact ⟨raw, Or.inl hraw⟩
    · obtain ⟨raw, hraw⟩ := hcollector 413 (Or.inr rfl) hs
      exact ⟨raw, Or.inr hraw⟩

theorem ids_of_rows (chosen : List OrderEvent) :
    (chosen.map OrderEvent.row).map Prod.fst = identifiers chosen := by
  rw [List.map_map]
  rfl

/-- A dispatcher after the reply to an attempt. -/
theorem inv_afterReply (h : WorldInv U app topic rps client out w events) {d : Dispatcher}
    {n : ℕ} (hd : d.Inv client out w events) (hp : d.phase = .waiting n) {ρ : Reply}
    (hρ : w.Answers out (request client d.body) ρ) :
    (d.afterReply out.loader client n ρ).Inv client out w events := by
  obtain ⟨chosen, hlen, hsaved, hselected, hphase⟩ := hd
  rw [Dispatcher.PhaseInv, hp] at hphase
  obtain ⟨hn, hne, hexpected, hbody⟩ := hphase
  rw [hbody] at hρ
  have hids : d.ids = identifiers chosen := by rw [Dispatcher.ids, hselected, ids_of_rows]
  have hjust := justified_of_reply h hne hlen hρ
  unfold Dispatcher.afterReply
  rw [hexpected, hids]
  cases hafter : afterAttempt client.maxAttempts n (attempt out.loader (identifiers chosen) ρ) with
  | none =>
    have hnext : n + 1 < client.maxAttempts := by
      unfold afterAttempt at hafter
      split at hafter
      · cases hafter
      · split_ifs at hafter with hretry hmore
        exact hmore
    exact ⟨chosen, hlen, hsaved, hselected, hnext, hne, rfl, hbody⟩
  | some answer =>
    have hanswer : answer = attempt out.loader (identifiers chosen) ρ := by
      unfold afterAttempt at hafter
      split at hafter
      next ids heq =>
        cases hafter
        exact heq.symm
      next e heq =>
        split_ifs at hafter with hretry hmore
        · cases hafter
          exact heq.symm
        · cases hafter
          exact heq.symm
    rw [hanswer]
    exact ⟨chosen, hlen, hsaved, hselected, hne, hjust⟩

theorem WorldInv.setDispatcher (h : WorldInv U app topic rps client out w events) {k : ℕ}
    {d : Option Dispatcher} (hd : ∀ d' ∈ d, d'.Inv client out w events) :
    WorldInv U app topic rps client out (w.setDispatcher k d) events := by
  refine ⟨h.holds, h.returned, h.sent, h.served, fun j d' hj => ?_, h.acknowledged, h.rejected⟩
  have hinv : d'.Inv client out w events := by
    by_cases hjk : j = k
    · subst hjk
      rw [World.setDispatcher_self] at hj
      exact hd d' hj
    · rw [World.setDispatcher_of_ne w hjk] at hj
      exact h.dispatchers j d' hj
  exact hinv.mono (fun _ => id) (fun _ => id) (fun _ _ => id)

/-- Saving an order leaves the rest of the world as it is. -/
theorem WorldInv.create (h : WorldInv U app topic rps client out w events) {e : OrderEvent}
    {eventID : Bytes} {db : Database} (hc : w.db.createOrder e = .ok (eventID, db))
    (answered : Bool) :
    ∃ new, WorldInv U app topic rps client out { w with
      db := db
      returned := if answered then w.returned ++ [(e.order.orderID, eventID)] else w.returned }
      (events ++ new) := by
  have hreturned : ∀ new, (∃ e' ∈ events ++ new, e'.order.orderID = e.order.orderID ∧
      eventID = e'.eventID.string) →
      ∀ p ∈ (if answered then w.returned ++ [(e.order.orderID, eventID)] else w.returned),
        ∃ e' ∈ events ++ new, p = (e'.order.orderID, e'.eventID.string) := by
    intro new hnew p hp
    have hold : ∀ p ∈ w.returned, ∃ e' ∈ events ++ new,
        p = (e'.order.orderID, e'.eventID.string) := by
      intro p hp
      obtain ⟨e', he', heq⟩ := h.returned p hp
      exact ⟨e', List.mem_append_left new he', heq⟩
    split_ifs at hp
    · rcases List.mem_append.mp hp with hp | hp
      · exact hold p hp
      · obtain ⟨e', he', horder, hid⟩ := hnew
        rw [List.mem_singleton.mp hp, ← horder, hid]
        exact ⟨e', he', rfl⟩
    · exact hold p hp
  rcases createOrder_eq_ok h.holds hc with ⟨rfl, e', he', horder, hid⟩ | ⟨hholds, hid, houtbox⟩
  · refine ⟨[], ?_⟩
    have hr := hreturned [] ⟨e', List.mem_append_left [] he', by rw [horder], hid⟩
    rw [List.append_nil] at hr ⊢
    exact ⟨h.holds, hr, h.sent, h.served, fun k d hk => (h.dispatchers k d hk).mono (fun _ => id)
      (fun _ => id) (fun _ _ => id), h.acknowledged, h.rejected⟩
  · refine ⟨[e], hholds, hreturned [e] ⟨e, by simp, rfl, hid⟩, fun req hreq => ?_, h.served,
      fun k d hk => ?_, fun row hrow hstate => ?_, fun row hrow hstate => ?_⟩
    · obtain ⟨chosen, hchosen, heq⟩ := h.sent req hreq
      exact ⟨chosen, hchosen.mono fun e' => List.mem_append_left [e], heq⟩
    · refine (h.dispatchers k d hk).mono (fun e' => List.mem_append_left [e]) (fun _ => id)
        fun chosen hsaved hsettled row hrow hmem => ?_
      rw [houtbox, List.mem_append, List.mem_singleton] at hrow
      rcases hrow with hrow | rfl
      · exact hsettled row hrow hmem
      · obtain ⟨e', he', heq⟩ := List.mem_map.mp hmem
        have hfresh := hholds.eventIDs
        rw [List.map_append, List.map_singleton, List.nodup_append] at hfresh
        exact absurd (UUID.string_injective heq)
          (hfresh.2.2 _ (List.mem_map_of_mem (hsaved e' he')) _ (List.mem_singleton_self _))
    · rw [houtbox, List.mem_append, List.mem_singleton] at hrow
      rcases hrow with hrow | rfl
      · obtain ⟨chosen, hchosen, hmem, hack⟩ := h.acknowledged row hrow hstate
        exact ⟨chosen, hchosen.mono fun e' => List.mem_append_left [e], hmem, hack⟩
      · cases hstate
    · rw [houtbox, List.mem_append, List.mem_singleton] at hrow
      rcases hrow with hrow | rfl
      · exact h.rejected row hrow hstate
      · cases hstate

/-- A selection starts a dispatcher that can be trusted. -/
theorem WorldInv.start (h : WorldInv U app topic rps client out w events) {size : ℕ}
    (hsize : size ≤ 100) :
    ∀ d ∈ Dispatcher.start out.loader (w.db.pending size), d.Inv client out w events := by
  obtain ⟨chosen, hpending, hlen, hsaved⟩ := pending_eq h.holds size
  intro d hd
  rw [hpending] at hd
  refine ⟨chosen, hlen.trans hsize, hsaved, ?_⟩
  by_cases hne : chosen = []
  · subst hne
    cases hd
    exact ⟨rfl, rfl⟩
  · rw [start_saved chosen out.loader hne] at hd
    cases hd
    exact ⟨rfl, client.range.1, hne, rfl, rfl⟩

theorem WorldInv.send (h : WorldInv U app topic rps client out w events) {d : Dispatcher}
    {n : ℕ} (hd : d.Inv client out w events) (hp : d.phase = .attempting n) (k : ℕ) :
    WorldInv U app topic rps client out ({ w with sent := w.sent ++ [request client d.body] }
      |>.setDispatcher k (some { d with phase := .waiting n })) events := by
  obtain ⟨chosen, hlen, hsaved, hselected, hphase⟩ := hd
  rw [Dispatcher.PhaseInv, hp] at hphase
  obtain ⟨hn, hne, hexpected, hbody⟩ := hphase
  have hworld : WorldInv U app topic rps client out
      { w with sent := w.sent ++ [request client d.body] } events := by
    refine ⟨h.holds, h.returned, fun req hreq => ?_, fun p hp => ?_, fun j d' hj => ?_,
      h.acknowledged, h.rejected⟩
    · rcases List.mem_append.mp hreq with hreq | hreq
      · exact h.sent req hreq
      · rw [List.mem_singleton.mp hreq, hbody]
        exact ⟨chosen, ⟨hne, hlen, hsaved⟩, rfl⟩
    · obtain ⟨hsent, hserved⟩ := h.served p hp
      exact ⟨List.mem_append_left _ hsent, hserved⟩
    · exact (h.dispatchers j d' hj).mono (fun _ => id) (fun _ => id) (fun _ _ => id)
  refine hworld.setDispatcher fun d' hd' => ?_
  cases hd'
  exact ⟨chosen, hlen, hsaved, hselected, hn, hne, hexpected, hbody⟩

/-- More requests reach the collector, or those there get further. -/
theorem WorldInv.serving (h : WorldInv U app topic rps client out w events)
    {served : List (Request × Exchange)}
    (hserved : ∀ p ∈ served, p.1 ∈ w.sent ∧ Served U app topic rps p.1 p.2)
    (hack : ∀ req r p, (req, Exchange.answered r p) ∈ w.served →
      ∃ p', (req, Exchange.answered r p') ∈ served) :
    WorldInv U app topic rps client out { w with served := served } events := by
  have hmono : ∀ chosen, w.Confirmed client out chosen →
      World.Confirmed client out { w with served := served } chosen := by
    rintro chosen (⟨p, hp⟩ | hgateway)
    · exact Or.inl (hack _ _ p hp)
    · exact Or.inr hgateway
  refine ⟨h.holds, h.returned, h.sent, hserved, fun k d hk => ?_, fun row hrow hstate => ?_,
    h.rejected⟩
  · exact (h.dispatchers k d hk).mono (fun _ => id) hmono (fun _ _ => id)
  · obtain ⟨chosen, hchosen, hmem, hacked⟩ := h.acknowledged row hrow hstate
    exact ⟨chosen, hchosen, hmem, hmono chosen hacked⟩

theorem WorldInv.deliver (h : WorldInv U app topic rps client out w events) {req : Request}
    (hreq : req ∈ w.sent) (b : Bucket) (now : ℤ) {received : Time}
    (hclock : received.isZero = false) :
    WorldInv U app topic rps client out { w with
      served := w.served ++ [(req, .start (serve U app topic rps b now req received))] }
      events := by
  refine h.serving (fun p hp => ?_) fun req r p hp => ⟨p, List.mem_append_left _ hp⟩
  rcases List.mem_append.mp hp with hp | hp
  · exact h.served p hp
  · rw [List.mem_singleton.mp hp]
    exact ⟨hreq, b, now, received, hclock, .refl⟩

theorem WorldInv.serve (h : WorldInv U app topic rps client out w events)
    {a b : List (Request × Exchange)} {req : Request} {x y : Exchange}
    (hw : w.served = a ++ (req, x) :: b) (hx : Exchange.Step x y) :
    WorldInv U app topic rps client out { w with served := a ++ (req, y) :: b } events := by
  refine h.serving (fun p hp => ?_) fun req' r p hp => ?_
  · rw [List.mem_append, List.mem_cons] at hp
    rcases hp with hp | rfl | hp
    · exact h.served p (by rw [hw]; exact List.mem_append_left _ hp)
    · obtain ⟨hsent, bucket, now, received, hclock, hrun⟩ := h.served (req, x) (by rw [hw]; simp)
      exact ⟨hsent, bucket, now, received, hclock, hrun.tail hx⟩
    · exact h.served p (by rw [hw]; exact List.mem_append_right _ (List.mem_cons_of_mem _ hp))
  · rw [hw, List.mem_append, List.mem_cons] at hp
    rcases hp with hp | heq | hp
    · exact ⟨p, List.mem_append_left _ hp⟩
    · cases heq
      cases hx with
      | late hs => exact ⟨_, List.mem_append_right _ List.mem_cons_self⟩
    · exact ⟨p, List.mem_append_right _ (List.mem_cons_of_mem _ hp)⟩

theorem WorldInv.update (h : WorldInv U app topic rps client out w events) {d : Dispatcher}
    {o : Outcome} (hd : d.Inv client out w events) (hp : d.phase = .updating o) (k : ℕ) :
    WorldInv U app topic rps client out ({ w with db := w.db.update o d.ids }
      |>.setDispatcher k (some { d with phase := .counting (some o) })) events := by
  obtain ⟨chosen, hlen, hsaved, hselected, hphase⟩ := hd
  rw [Dispatcher.PhaseInv, hp] at hphase
  obtain ⟨hne, hjust⟩ := hphase
  have hids : d.ids = identifiers chosen := by rw [Dispatcher.ids, hselected, ids_of_rows]
  rw [hids]
  have hworld : WorldInv U app topic rps client out
      { w with db := w.db.update o (identifiers chosen) } events := by
    refine ⟨h.holds.update o _, h.returned, h.sent, h.served, fun j d' hj => ?_,
      fun row hrow hstate => ?_, fun row hrow hstate => ?_⟩
    · exact (h.dispatchers j d' hj).mono (fun _ => id) (fun _ => id)
        fun chosen' _ => settled_of_later (later_update o _ w.db)
    · rcases mem_update hrow with hold | ⟨hmem, hout⟩
      · exact h.acknowledged row hold hstate
      · exact ⟨chosen, ⟨hne, hlen, hsaved⟩, hmem, hjust.acknowledged (hout.symm.trans hstate)⟩
    · rcases mem_update hrow with hold | ⟨-, hout⟩
      · exact h.rejected row hold hstate
      · exact hjust.rejected (hout.symm.trans hstate)
  refine hworld.setDispatcher fun d' hd' => ?_
  cases hd'
  exact ⟨chosen, hlen, hsaved, hselected, hjust.mono id, fun ho => settled_update ho⟩

theorem WorldInv.count (h : WorldInv U app topic rps client out w events) {d : Dispatcher}
    {o : Option Outcome} (hd : d.Inv client out w events) (hp : d.phase = .counting o) (k : ℕ) :
    WorldInv U app topic rps client out (w.setDispatcher k
      (some { d with phase := .done (Outcome.result d.selected.length o w.db) })) events := by
  obtain ⟨chosen, hlen, hsaved, hselected, hphase⟩ := hd
  rw [Dispatcher.PhaseInv, hp] at hphase
  refine h.setDispatcher fun d' hd' => ?_
  cases hd'
  refine ⟨chosen, hlen, hsaved, hselected, ?_, fun herr => ?_⟩
  · rw [Outcome.result, hselected, List.length_map]
  · cases o with
    | none =>
      have hnone : chosen = [] := hphase
      rw [hnone]
      exact fun row _ hmem => absurd hmem List.not_mem_nil
    | some o =>
      have hstate := hphase.1.code herr
      exact hphase.2 (by rw [hstate]; decide)

theorem WorldInv.step (h : WorldInv U app topic rps client out w events)
    (hs : Step U app topic rps client out w w') :
    ∃ new, WorldInv U app topic rps client out w' (events ++ new) := by
  have hsame : WorldInv U app topic rps client out w' events →
      ∃ new, WorldInv U app topic rps client out w' (events ++ new) := by
    intro hw
    exact ⟨[], by rw [List.append_nil]; exact hw⟩
  cases hs with
  | create answered hc => exact h.create hc answered
  | dispatch size hk hlow hhigh => exact hsame (h.setDispatcher (h.start hhigh))
  | send hd hp => exact hsame (h.send (h.dispatchers _ _ hd) hp _)
  | deliver hreq b now received hclock => exact hsame (h.deliver hreq b now hclock)
  | serve hw hx => exact hsame (h.serve hw hx)
  | reply hd hp hρ =>
    refine hsame (h.setDispatcher fun d' hd' => ?_)
    cases hd'
    exact inv_afterReply h (h.dispatchers _ _ hd) hp hρ
  | update hd hp => exact hsame (h.update (h.dispatchers _ _ hd) hp _)
  | count hd hp => exact hsame (h.count (h.dispatchers _ _ hd) hp _)
  | stop k => exact hsame (h.setDispatcher fun d' hd' => by cases hd')

theorem WorldInv.run (h : WorldInv U app topic rps client out w events)
    (hrun : Relation.ReflTransGen (Step U app topic rps client out) w w') :
    ∃ events', WorldInv U app topic rps client out w' events' := by
  refine Transition.run_invariant (I := fun w => ∃ events, WorldInv U app topic rps client out w
    events) ⟨events, h⟩ ?_ hrun
  rintro a b ⟨events, ha⟩ hs
  obtain ⟨new, hb⟩ := ha.step hs
  exact ⟨events ++ new, hb⟩

theorem worldInv_of_reachable (h : Reachable U app topic rps client out w) :
    ∃ events, WorldInv U app topic rps client out w events := worldInv_start.run h

end Steps

end IngestKit.Outbox
