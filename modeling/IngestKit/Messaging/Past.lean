import IngestKit.Messaging.Safety

/-! A group that is past given positions never goes back: no reader, crash, reassignment or late
call brings a record below them again. -/
namespace IngestKit.Messaging
open Event Persistence

section Past
variable (U : UUID.Codec) (log : Log) (ends : ℕ → ℕ)

/-- A record of the log at or behind the position of its partition. -/
def Newer (r : Record) : Prop := r ∈ log.records r.partition ∧ ends r.partition ≤ r.offset

/-- A reader that neither holds a record below these positions nor fetches one. -/
structure Consumer.Past (c : Consumer) : Prop where
  next : ∀ p n, c.next p = some n → ends p ≤ n
  pending : ∀ r ∈ c.state.pending, Newer log ends r
  sound : c.state.Sound U Set.univ

/-- The call is about newer records. -/
def Call.Past : Call → Prop
  | .write events source =>
    List.Forall₂ (fun e r => decodeEnvelope U r.value = .ok e) events source ∧
      ∀ r ∈ source, Newer log ends r
  | .commit records => ∀ r ∈ records, Newer log ends r
  | .quarantine rec _ => Newer log ends rec

/-- The group is past these positions: it committed them, and nothing below them is held by a reader
or on its way. -/
structure World.Past (w : World) : Prop where
  committed : ∀ p, ends p ≤ (w.committed p).getD 0
  consumers : ∀ k c, w.consumers k = some c → Consumer.Past U log ends c
  inflight : ∀ call ∈ w.inflight, call.Past U log ends

variable {U log ends} {config : ReaderConfig}

theorem Consumer.Past.call {c : Consumer} (h : c.Past U log ends) {call : Call}
    (hc : c.state.call? = some call) : call.Past U log ends := by
  obtain ⟨state, next⟩ := c
  obtain ⟨-, hpending, hsound⟩ := h
  cases state <;> simp only [State.call?, reduceCtorEq, Option.some.injEq] at hc <;> subst hc
  case write c s k backoff =>
    exact ⟨hsound.1, fun r hr => hpending r (List.mem_append_left _ hr)⟩
  case commit c s k => exact fun r hr => hpending r (List.mem_append_left _ hr)
  case quarantine c s rec cause => exact hpending rec List.mem_cons_self
  case commitPoison c s rec =>
    exact List.forall_mem_singleton.mpr (hpending rec List.mem_cons_self)

theorem Consumer.Past.step {c : Consumer} (h : c.Past U log ends) {a : Answer} {s : State}
    {out : List Output} (ha : ∀ f, a ≠ .fetched f)
    (hs : step U config c.state a = some (s, out)) :
    Consumer.Past U log ends { c with state := s } := by
  have hfinishes : ∀ call : Call, call.Finishes Set.univ := by
    intro call
    cases call with
    | write events source => exact fun r _ => Set.mem_univ r
    | commit records => trivial
    | quarantine rec cause => exact Set.mem_univ rec
  obtain ⟨hprogress, hsound⟩ := step_progress h.sound ha hs fun _ call _ => hfinishes call
  refine ⟨h.next, fun r hr => h.pending r ?_, hsound⟩
  rcases hprogress with ⟨done, hp, -⟩ | ⟨hp, -⟩
  · rw [hp]
    exact List.mem_append_right done hr
  · change r ∈ s.pending at hr
    rw [hp] at hr
    cases hr

/-- A poll from these positions on brings nothing below them. -/
theorem polled_past {next next' : ℕ → Option ℕ} {chunks : List (List Record)}
    (h : Polled log next chunks next') (hnext : ∀ p n, next p = some n → ends p ≤ n) :
    (∀ r ∈ chunks.flatten, Newer log ends r) ∧
      ∀ p n, next' p = some n → ends p ≤ n := by
  induction h with
  | nil next => exact ⟨by simp, hnext⟩
  | @chunk next next' p n chunks size hp hs ih =>
    have hle := hnext p n hp
    have hchunk : ∀ r ∈ (log.fetchFrom p n).take size, Newer log ends r ∧ r.partition = p := by
      intro r hr
      obtain ⟨hmem, hoffset⟩ := List.mem_filter.mp (List.mem_of_mem_take hr)
      have hpart := log.partition p r hmem
      rw [Newer, hpart]
      exact ⟨⟨hmem, hle.trans (decide_eq_true_iff.mp hoffset)⟩, rfl⟩
    have hposition : ends p ≤ nextPosition n ((log.fetchFrom p n).take size) := by
      unfold nextPosition
      split
      · exact hle
      next r hr =>
        obtain ⟨hnewer, hpart⟩ := hchunk r (List.mem_of_getLast? hr)
        rw [← hpart]
        exact hnewer.2.trans (Nat.le_succ _)
    obtain ⟨hrest, hnext'⟩ := ih fun q m hq => by
      by_cases hqp : q = p
      · subst hqp
        rw [Function.update_self, Option.some.injEq] at hq
        rw [← hq]
        exact hposition
      · rw [Function.update_of_ne hqp] at hq
        exact hnext q m hq
    refine ⟨fun r hr => ?_, hnext'⟩
    rcases List.mem_append.mp hr with hr | hr
    · exact (hchunk r hr).1
    · exact hrest r hr

theorem World.Past.setConsumer {w : World} (h : w.Past U log ends) (k : ℕ) {c : Option Consumer}
    (hc : ∀ d ∈ c, d.Past U log ends) : World.Past U log ends (w.setConsumer k c) := by
  refine ⟨h.committed, fun j d hj => ?_, h.inflight⟩
  by_cases hjk : j = k
  · subst hjk
    simp only [World.setConsumer, Function.update_self] at hj
    exact hc d hj
  · simp only [World.setConsumer, Function.update_of_ne hjk] at hj
    exact h.consumers j d hj

theorem World.Past.perform {w : World} (h : w.Past U log ends) {call : Call}
    (hc : call.Past U log ends) : World.Past U log ends (w.perform call) := by
  cases call with
  | write events source => exact ⟨h.committed, h.consumers, h.inflight⟩
  | quarantine rec cause => exact ⟨h.committed, h.consumers, h.inflight⟩
  | commit records =>
    cases hl : records.getLast? with
    | none =>
      have hw : w.perform (.commit records) = w := by simp only [World.perform, hl]
      rw [hw]
      exact h
    | some r =>
      have hw : w.perform (.commit records) = { w with
          committed := Function.update w.committed r.partition (some (r.offset + 1)) } := by
        simp only [World.perform, hl]
      rw [hw]
      refine ⟨fun p => ?_, h.consumers, h.inflight⟩
      by_cases hp : p = r.partition
      · subst hp
        simp only [Function.update_self, Option.getD_some]
        exact (hc r (List.mem_of_getLast? hl)).2.trans (Nat.le_succ _)
      · simp only [Function.update_of_ne hp]
        exact h.committed p

theorem World.Past.addInflight {w : World} (h : w.Past U log ends) {call : Call}
    (hc : call.Past U log ends) :
    World.Past U log ends { w with inflight := call :: w.inflight } :=
  ⟨h.committed, h.consumers, List.forall_mem_cons.mpr ⟨hc, h.inflight⟩⟩

/-- No step of a reader, no crash and no late call brings the group back. -/
theorem World.Past.step {w w' : World} (h : w.Past U log ends) (hs : Step U config log w w') :
    World.Past U log ends w' := by
  cases hs with
  | start hk =>
    refine h.setConsumer _ fun d hd => ?_
    cases hd
    exact ⟨fun p n hn => (by cases hn), by simp [State.pending], trivial⟩
  | @assign k c p hk =>
    have hc := h.consumers k c hk
    refine h.setConsumer _ fun d hd => ?_
    cases hd
    refine ⟨fun q n hn => ?_, hc.pending, hc.sound⟩
    by_cases hqp : q = p
    · subst hqp
      simp only [Function.update_self, Option.some.injEq] at hn
      rw [← hn]
      exact h.committed q
    · simp only [Function.update_of_ne hqp] at hn
      exact hc.next q n hn
  | @revoke k c p hk =>
    have hc := h.consumers k c hk
    refine h.setConsumer _ fun d hd => ?_
    cases hd
    refine ⟨fun q n hn => ?_, hc.pending, hc.sound⟩
    by_cases hqp : q = p
    · subst hqp
      simp only [Function.update_self, reduceCtorEq] at hn
    · simp only [Function.update_of_ne hqp] at hn
      exact hc.next q n hn
  | @advance k c a s out hk hc ha hs =>
    refine h.setConsumer _ fun d hd => ?_
    cases hd
    exact (h.consumers k c hk).step ha hs
  | @poll k c f next s out hk hf hb hs =>
    have hc := h.consumers k c hk
    obtain ⟨hrecords, hnext⟩ := polled_past hf hc.next
    refine h.setConsumer _ fun d hd => ?_
    cases hd
    cases hstate : c.state <;>
      simp only [hstate, Messaging.step, reduceCtorEq, Option.some.injEq, Prod.mk.injEq] at hs
    obtain ⟨rfl, -⟩ := hs
    exact ⟨hnext, hrecords, trivial⟩
  | @succeed k c call s out hk hcall hs =>
    have hc := h.consumers k c hk
    refine (h.perform (hc.call hcall)).setConsumer _ fun d hd => ?_
    cases hd
    exact hc.step (by simp) hs
  | @fail k c s out hk hs =>
    refine h.setConsumer _ fun d hd => ?_
    cases hd
    exact (h.consumers k c hk).step (by simp) hs
  | @late k c call s out hk hcall hs =>
    have hc := h.consumers k c hk
    refine (h.addInflight (hc.call hcall)).setConsumer _ fun d hd => ?_
    cases hd
    exact hc.step (by simp) hs
  | crash k => exact h.setConsumer k fun d hd => by cases hd
  | @abandon k c call hk hcall =>
    have hc := h.consumers k c hk
    exact (h.addInflight (hc.call hcall)).setConsumer _ fun d hd => by cases hd
  | @deliver a b call ha =>
    have hp := h.perform (h.inflight call (by rw [ha]; simp))
    refine ⟨hp.committed, hp.consumers, fun call' hcall' => h.inflight call' ?_⟩
    rw [ha]
    rcases List.mem_append.mp hcall' with hm | hm
    · exact List.mem_append_left _ hm
    · exact List.mem_append_right _ (List.mem_cons_of_mem _ hm)

/-- A row that a step adds comes from a newer record. -/
theorem World.Past.newRow {w w' : World} (h : w.Past U log ends)
    (hs : Step U config log w w') {row : Row} (hrow : row ∈ w'.table) :
    row ∈ w.table ∨ ∃ r, Newer log ends r ∧ rowOf U r = some row := by
  have hperform : ∀ call, call.Past U log ends → row ∈ (w.perform call).table →
      row ∈ w.table ∨ ∃ r, Newer log ends r ∧ rowOf U r = some row := by
    intro call hcall hmem
    cases call with
    | write events source =>
      rcases Replay.mem_of_mem_insertAll Row.key hmem with hold | hnew
      · exact Or.inl hold
      · obtain ⟨e, he, rfl⟩ := List.mem_map.mp hnew
        obtain ⟨r, hr, hdecode⟩ := Replay.exists_of_mem_left hcall.1 he
        exact Or.inr ⟨r, hcall.2 r hr, by rw [rowOf, hdecode]⟩
    | commit records =>
      simp only [World.perform] at hmem
      split at hmem <;> exact Or.inl hmem
    | quarantine rec cause => exact Or.inl hmem
  cases hs with
  | @succeed k c call s out hk hcall hs =>
    exact hperform call ((h.consumers k c hk).call hcall) hrow
  | @deliver a b call ha => exact hperform call (h.inflight call (by rw [ha]; simp)) hrow
  | _ => exact Or.inl hrow

end Past

end IngestKit.Messaging
