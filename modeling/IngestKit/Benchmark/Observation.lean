import IngestKit.Benchmark.Sample

/-! Every observation result is recorded once and in order: what the main loop knows of stored
rows is what the observer returned to it. -/
namespace IngestKit.Benchmark
open Event

/-- Results the observer still holds back. -/
def ObserverPhase.held : ObserverPhase → List ObservationResult
  | .holding v => [v]
  | _ => []

/-- Observation results that are not recorded yet, oldest first. -/
def Sample.unread (s : Sample) : List ObservationResult :=
  s.observer.results ++ s.observer.phase.held

/-- The rows all observer queries of a run returned. -/
def returnedRows (trace : List Action) : List StoredObservation :=
  trace.flatMap fun
    | .observed rows _ => rows
    | _ => []

/-- Some row was not received later than the SQL clock of its first observation. -/
def Measured (rows : List StoredObservation) : Prop :=
  ∃ before o after, rows = before ++ o :: after ∧ (∀ p ∈ before, p.id ≠ o.id) ∧
    ∃ clock, o.observedAt = some clock ∧ o.receivedAt ≤ clock

theorem measured_snoc (rows : List StoredObservation) (o : StoredObservation) :
    Measured (rows ++ [o]) ↔ Measured rows ∨
      ((∀ p ∈ rows, p.id ≠ o.id) ∧ ∃ clock, o.observedAt = some clock ∧ o.receivedAt ≤ clock) := by
  constructor
  · rintro ⟨before, q, after, he, hfresh, hq⟩
    rcases List.eq_nil_or_concat after with rfl | ⟨after, z, rfl⟩
    · obtain ⟨rfl, hqo⟩ := List.append_inj' he rfl
      rw [List.cons.injEq] at hqo
      obtain ⟨rfl, -⟩ := hqo
      exact Or.inr ⟨hfresh, hq⟩
    · have hz : rows = before ++ q :: after := by
        rw [List.concat_eq_append, ← List.cons_append, ← List.append_assoc] at he
        exact (List.append_inj' he rfl).1
      exact Or.inl ⟨before, q, after, hz, hfresh, hq⟩
  · rintro (⟨before, q, after, rfl, hfresh, hq⟩ | ⟨hfresh, hq⟩)
    · exact ⟨before, q, after ++ [o], by simp, hfresh, hq⟩
    · exact ⟨rows, o, [], rfl, hfresh, hq⟩

/-- What the main loop knows after it has recorded `rows`. -/
structure Observed (rows : List StoredObservation) (l : Loop) : Prop where
  mem_seen : ∀ id, id ∈ l.seen ↔ ∃ o ∈ rows, o.id = id
  nodup : l.seen.Nodup
  stored : l.run.storedIDs = l.seen
  nonneg : ∀ ns ∈ l.run.visibilityNS, 0 ≤ ns
  sampled_le : l.run.visibilityNS.length ≤ l.seen.length
  sampled : l.observationError = none → l.run.visibilityNS.length = l.seen.length
  measured : l.run.visibilityNS ≠ [] ↔ Measured rows

/-- A row that was seen before changes nothing. -/
private theorem Observed.again {rows : List StoredObservation} {l : Loop} (h : Observed rows l)
    {o : StoredObservation} (hold : o.id ∈ l.seen) : Observed (rows ++ [o]) l where
  mem_seen id := by
    rw [h.mem_seen]
    refine ⟨fun ⟨p, hp, e⟩ => ⟨p, by simp [hp], e⟩, ?_⟩
    rintro ⟨p, hp, rfl⟩
    rcases List.mem_append.mp hp with hp | hp
    · exact ⟨p, hp, rfl⟩
    · rw [List.mem_singleton.mp hp]
      exact (h.mem_seen o.id).mp hold
  nodup := h.nodup
  stored := h.stored
  nonneg := h.nonneg
  sampled_le := h.sampled_le
  sampled := h.sampled
  measured := by
    rw [measured_snoc, h.measured]
    obtain ⟨p, hp, e⟩ := (h.mem_seen o.id).mp hold
    exact ⟨Or.inl, fun hm => hm.elim (fun hm => hm) fun hm => absurd e (hm.1 p hp)⟩

theorem Observed.recordRow {rows : List StoredObservation} {l : Loop} (h : Observed rows l)
    {o : StoredObservation} (ho : o.observedAt.isSome) (finished : ℤ) :
    Observed (rows ++ [o]) (l.recordRow finished o) := by
  obtain ⟨clock, hclock⟩ := Option.isSome_iff_exists.mp ho
  unfold Loop.recordRow
  by_cases hold : o.id ∈ l.seen
  · rw [if_pos hold]
    exact h.again hold
  · rw [if_neg hold]
    have hmem : ∀ id, id ∈ l.seen ++ [o.id] ↔ ∃ p ∈ rows ++ [o], p.id = id := by
      intro id
      simp only [List.mem_append, List.mem_singleton, h.mem_seen, or_and_right, exists_or,
        exists_eq_left, eq_comm (a := id)]
    have hnodup : (l.seen ++ [o.id]).Nodup := by
      rw [List.nodup_append]
      refine ⟨h.nodup, List.nodup_singleton _, fun a ha b hb e => hold ?_⟩
      rwa [← List.mem_singleton.mp hb, ← e]
    have hfresh : ∀ p ∈ rows, p.id ≠ o.id := fun p hp e => hold ((h.mem_seen _).mpr ⟨p, hp, e⟩)
    have hlen := h.sampled_le
    dsimp only
    rw [hclock, Option.getD_some]
    split_ifs with hneg
    · refine ⟨hmem, hnodup, by rw [h.stored], h.nonneg, by simp; omega, by simp, ?_⟩
      rw [measured_snoc, h.measured]
      refine ⟨Or.inl, fun hm => hm.elim (fun hm => hm) ?_⟩
      rintro ⟨-, c, hc, hle⟩
      rw [hclock, Option.some.injEq] at hc
      omega
    · refine ⟨hmem, hnodup, by rw [h.stored], ?_, by simp; omega, ?_, ?_⟩
      · simpa [or_imp, forall_and] using ⟨h.nonneg, by omega⟩
      · intro herr
        simp [h.sampled herr]
      · rw [measured_snoc]
        exact ⟨fun _ => Or.inr ⟨hfresh, clock, hclock, by omega⟩, fun _ => by simp⟩

theorem Observed.recordRows {rows : List StoredObservation} {l : Loop} (h : Observed rows l)
    {more : List StoredObservation} (ho : ∀ o ∈ more, o.observedAt.isSome) (finished : ℤ) :
    Observed (rows ++ more) (more.foldl (Loop.recordRow finished) l) := by
  induction more generalizing rows l with
  | nil => simpa using h
  | cons o more ih =>
    rw [List.foldl_cons, ← List.singleton_append, ← List.append_assoc]
    exact ih (h.recordRow (ho o (by simp)) finished) fun p hp => ho p (by simp [hp])

theorem Observed.recordQuery {rows : List StoredObservation} {l : Loop} (h : Observed rows l)
    (c : PipelineConfig) (v : ObservationResult) (b : Bool) :
    Observed rows (l.recordQuery c v b) := by
  refine ⟨h.mem_seen, h.nodup, h.stored, h.nonneg, h.sampled_le, fun herr => h.sampled ?_,
    h.measured⟩
  unfold Loop.recordQuery at herr
  dsimp only at herr
  split_ifs at herr with hv
  · simp [herr] at hv
  · exact herr

theorem Observed.recordObservation {rows : List StoredObservation} {l : Loop} (h : Observed rows l)
    (c : PipelineConfig) (started : ℤ) {v : ObservationResult} (b : Bool)
    (ho : ∀ o ∈ v.rows, o.observedAt.isSome) :
    Observed (rows ++ v.rows) (l.recordObservation c started v b) := by
  have h' := (h.recordQuery c v b).recordRows ho v.finished
  exact ⟨h'.mem_seen, h'.nodup, h'.stored, h'.nonneg, h'.sampled_le, h'.sampled, h'.measured⟩

/-- The recorded samples, followed by the results still to come, are in order of time. -/
structure Timeline (x : Setup) (now : ℤ) (l : Loop) (unread : List ObservationResult) : Prop where
  ordered : (l.run.backlog.map (·.elapsedNS) ++
    unread.map (·.finished - x.started)).Pairwise (· ≤ ·)
  bounded : ∀ ns ∈ l.run.backlog.map (·.elapsedNS) ++ unread.map (·.finished - x.started),
    0 ≤ ns ∧ ns ≤ now - x.started
  visible : (l.run.backlog.map (·.visible)).Pairwise (· ≤ ·)
  visible_le : ∀ b ∈ l.run.backlog, b.visible ≤ l.seen.length
  observing : ∀ b ∈ l.run.backlog, b.finalVerification = false

/-- `rows` are the rows recorded so far. -/
structure Observing (x : Setup) (trace : List Action) (rows : List StoredObservation)
    (s : Sample) : Prop where
  started : x.started ≤ s.now
  observed : Observed rows s.loop
  returned : returnedRows trace = rows ++ s.unread.flatMap (·.rows)
  committed : ∀ o ∈ returnedRows trace, x.Observes s.table o
  timeline : Timeline x s.now s.loop s.unread
  closed : s.loop.observationsOpen = false → s.observer.phase = .exited ∧ s.observer.results = []

theorem seen_recordRow (finished : ℤ) (l : Loop) (o : StoredObservation) :
    l.seen.length ≤ (l.recordRow finished o).seen.length ∧
      (l.recordRow finished o).run.backlog = l.run.backlog ∧
      (l.recordRow finished o).observationsOpen = l.observationsOpen := by
  unfold Loop.recordRow
  dsimp only
  split_ifs <;> simp

theorem seen_recordRows (finished : ℤ) (rows : List StoredObservation) (l : Loop) :
    l.seen.length ≤ (rows.foldl (Loop.recordRow finished) l).seen.length ∧
      (rows.foldl (Loop.recordRow finished) l).run.backlog = l.run.backlog ∧
      (rows.foldl (Loop.recordRow finished) l).observationsOpen = l.observationsOpen := by
  induction rows generalizing l with
  | nil => exact ⟨le_rfl, rfl, rfl⟩
  | cons o rows ih =>
    obtain ⟨h1, h2, h3⟩ := seen_recordRow finished l o
    obtain ⟨i1, i2, i3⟩ := ih (l.recordRow finished o)
    exact ⟨h1.trans i1, i2.trans h2, i3.trans h3⟩

/-- One observation adds one sample, which counts everything seen so far. -/
theorem backlog_recordObservation (c : PipelineConfig) (started : ℤ) (v : ObservationResult)
    (b : Bool) (l : Loop) :
    let m := l.recordObservation c started v b
    l.seen.length ≤ m.seen.length ∧ m.observationsOpen = l.observationsOpen ∧
      ∃ s : BacklogSample, m.run.backlog = l.run.backlog ++ [s] ∧
        s.elapsedNS = v.finished - started ∧ s.visible = m.seen.length ∧
          s.finalVerification = false := by
  obtain ⟨hseen, hbacklog, hopen⟩ := seen_recordRows v.finished v.rows (l.recordQuery c v b)
  exact ⟨hseen, hopen, _, congrArg (· ++ [_]) hbacklog, rfl, rfl, rfl⟩

theorem Timeline.record {x : Setup} {now : ℤ} {l : Loop} {v : ObservationResult}
    {rest : List ObservationResult} (h : Timeline x now l (v :: rest)) (b : Bool) :
    Timeline x now (l.recordObservation x.config x.started v b) rest := by
  obtain ⟨hseen, -, s, hbacklog, hns, hvisible, hfinal⟩ :=
    backlog_recordObservation x.config x.started v b l
  have hle : ∀ b ∈ l.run.backlog, b.visible ≤ s.visible :=
    fun b hb => (h.visible_le b hb).trans (hvisible ▸ hseen)
  have hlist : ((l.run.backlog ++ [s]).map (·.elapsedNS) ++ rest.map (·.finished - x.started)) =
      l.run.backlog.map (·.elapsedNS) ++ (v :: rest).map (·.finished - x.started) := by
    simp [hns]
  constructor
  · rw [hbacklog, hlist]
    exact h.ordered
  · rw [hbacklog, hlist]
    exact h.bounded
  · rw [hbacklog, List.map_append, List.pairwise_append]
    refine ⟨h.visible, by simp, ?_⟩
    simpa using hle
  · rw [hbacklog, ← hvisible]
    simpa [or_imp, forall_and] using hle
  · rw [hbacklog]
    simpa [or_imp, forall_and, hfinal] using h.observing

section Steps
variable {x : Setup} {trace : List Action} {rows : List StoredObservation} {s t : Sample}

theorem returnedRows_snoc (a : Action) : returnedRows (trace ++ [a]) = returnedRows trace ++
    match a with
    | .observed rows _ => rows
    | _ => [] := by
  simp [returnedRows]

theorem observing_start (x : Setup) : Observing x [] [] (Sample.start x) where
  started := le_rfl
  observed := ⟨by simp [Sample.start], by simp [Sample.start], rfl, by simp [Sample.start],
    by simp [Sample.start], by simp [Sample.start], by simp [Sample.start, Measured]⟩
  returned := rfl
  committed := by simp [returnedRows]
  timeline := by constructor <;> simp [Sample.start, Sample.unread, ObserverPhase.held]
  closed := by simp [Sample.start]

theorem Setup.Observes.mono {table table' : List TableRow} {o : StoredObservation}
    (h : x.Observes table o) (hsub : table ⊆ table') : x.Observes table' o :=
  ⟨h.1, h.2.1, h.2.2.imp fun _ hr => ⟨hsub hr.1, hr.2⟩⟩

/-- What other steps leave alone in the main loop. -/
def Loop.observations (l : Loop) :=
  (l.seen, l.run.storedIDs, l.run.visibilityNS, l.run.backlog)

/-- A step that neither returns nor records rows. -/
theorem Observing.frame (h : Observing x trace rows s) (hnow : s.now ≤ t.now)
    (hloop : t.loop.observations = s.loop.observations)
    (herr : t.loop.observationError = none → s.loop.observationError = none)
    (htable : s.table ⊆ t.table) (hunread : t.unread = s.unread)
    (hclosed : t.loop.observationsOpen = false →
      t.observer.phase = .exited ∧ t.observer.results = []) {a : Action}
    (ha : ∀ rows err, a ≠ .observed rows err) : Observing x (trace ++ [a]) rows t := by
  simp only [Loop.observations, Prod.mk.injEq] at hloop
  obtain ⟨h1, h2, h3, h4⟩ := hloop
  have hrows : returnedRows (trace ++ [a]) = returnedRows trace := by
    rw [returnedRows_snoc]
    split
    next r e => exact absurd rfl (ha r e)
    next => exact List.append_nil _
  exact
    { started := h.started.trans hnow
      observed :=
        ⟨h1 ▸ h.observed.mem_seen, h1 ▸ h.observed.nodup, by rw [h1, h2, h.observed.stored],
          h3 ▸ h.observed.nonneg, by rw [h1, h3]; exact h.observed.sampled_le,
          fun e => by rw [h1, h3]; exact h.observed.sampled (herr e),
          by rw [h3]; exact h.observed.measured⟩
      returned := by rw [hrows, hunread, h.returned]
      committed := by
        rw [hrows]
        exact fun o ho => (h.committed o ho).mono htable
      timeline := by
        obtain ⟨t1, t2, t3, t4, t5⟩ := h.timeline
        rw [hunread]
        refine ⟨h4 ▸ t1, fun ns hns => ?_, h4 ▸ t3, by rw [h4, h1]; exact t4, h4 ▸ t5⟩
        obtain ⟨u1, u2⟩ := t2 ns (h4 ▸ hns)
        exact ⟨u1, by omega⟩
      closed := hclosed }

/-- The observer moves on without a new result. -/
private theorem Observing.observer (h : Observing x trace rows s) (o : Observer)
    (hunread : o.results ++ o.phase.held = s.unread) (hp : s.observer.phase ≠ .exited) {a : Action}
    (ha : ∀ rows err, a ≠ .observed rows err) :
    Observing x (trace ++ [a]) rows { s with observer := o } := by
  have hclosed : s.loop.observationsOpen = false → o.phase = .exited ∧ o.results = [] :=
    fun hc => absurd (h.closed hc).1 hp
  exact h.frame (t := { s with observer := o }) le_rfl rfl (fun e => e) (fun _ hr => hr) hunread
    hclosed ha

theorem Observing.observerTake (h : Observing x trace rows s) (hs : s.observerTake = some t) :
    Observing x (trace ++ [Action.observerTake]) rows t := by
  unfold Sample.observerTake at hs
  split at hs
  next n hp hn =>
    cases hs
    exact h.observer _ (by simp [Sample.unread, hp, ObserverPhase.held]) (by simp [hp]) (by simp)
  next => cases hs

theorem Observing.observerStart (h : Observing x trace rows s) (hs : s.observerStart = some t) :
    Observing x (trace ++ [Action.observerStart]) rows t := by
  unfold Sample.observerStart at hs
  split at hs
  next hp =>
    split_ifs at hs
    cases hs
    exact h.observer _ (by simp [Sample.unread, hp, ObserverPhase.held]) (by simp [hp]) (by simp)
  next => cases hs

theorem Observing.observerPush (h : Observing x trace rows s) (hs : s.observerPush = some t) :
    Observing x (trace ++ [Action.observerPush]) rows t := by
  unfold Sample.observerPush at hs
  split at hs
  next v hp hr =>
    cases hs
    exact h.observer _ (by simp [Sample.unread, hp, hr, ObserverPhase.held])
      (by simp [hp]) (by simp)
  next => cases hs

theorem Observing.observerExit (h : Observing x trace rows s) (hs : s.observerExit = some t) :
    Observing x (trace ++ [Action.observerExit]) rows t := by
  unfold Sample.observerExit at hs
  split at hs
  case h_3 => cases hs
  all_goals
    next hp =>
      split_ifs at hs
      cases hs
      exact h.observer _ (by simp [Sample.unread, hp, ObserverPhase.held]) (by simp [hp]) (by simp)

/-- A query ends: its rows are committed, and it ends after everything before it. -/
theorem Observing.query (h : Observing x trace rows s) {new : List StoredObservation}
    {err : Option GoError} (hs : s.observed x new err = some t) :
    Observing x (trace ++ [Action.observed new err]) rows t := by
  unfold Sample.observed at hs
  split at hs
  next since hp =>
    split_ifs at hs with hnew
    cases hs
    have hrows : returnedRows (trace ++ [Action.observed new err]) = returnedRows trace ++ new :=
      returnedRows_snoc _
    have hunread : s.unread = s.observer.results := by simp [Sample.unread, hp, ObserverPhase.held]
    have hreturned := h.returned
    obtain ⟨t1, t2, t3, t4, t5⟩ := h.timeline
    rw [hunread] at t1 t2 hreturned
    have hstart := h.started
    exact
      { h with
        returned := by
          rw [hrows, hreturned]
          simp [Sample.unread, ObserverPhase.held]
        committed := by
          rw [hrows]
          exact fun o ho => (List.mem_append.mp ho).elim (h.committed o) (hnew.1 o)
        timeline := by
          obtain ⟨v, hv, hf⟩ : ∃ v : ObservationResult, v = ⟨since, s.now, new, err⟩ ∧
            v.finished = s.now := ⟨_, rfl, rfl⟩
          have hlist : ∀ l : List ℤ,
              l ++ (s.observer.results ++ [v]).map (fun v => v.finished - x.started) =
                (l ++ s.observer.results.map fun v => v.finished - x.started) ++
                  [s.now - x.started] := by
            simp [hf]
          rw [← hv]
          refine ⟨?_, ?_, t3, t4, t5⟩
          · change (_ ++ (s.observer.results ++ [v]).map _).Pairwise _
            rw [hlist, List.pairwise_append]
            refine ⟨t1, List.pairwise_singleton _ _, fun a ha b hb => ?_⟩
            rw [List.mem_singleton.mp hb]
            exact (t2 a ha).2
          · change ∀ ns ∈ _ ++ (s.observer.results ++ [v]).map _, _
            rw [hlist]
            intro ns hns
            rcases List.mem_append.mp hns with hns | hns
            · exact t2 ns hns
            · rw [List.mem_singleton.mp hns]
              exact ⟨by omega, le_rfl⟩
        closed := fun hc => absurd (h.closed hc).1 (by simp [hp]) }
  next => cases hs

private theorem Observing.record (h : Observing x trace rows s) {v : ObservationResult}
    {rest : List ObservationResult} (hr : s.observer.results = v :: rest) (b : Bool) :
    Observing x (trace ++ [Action.onObservation]) (rows ++ v.rows) (s.record x b v rest) := by
  have hunread : s.unread = v :: (s.record x b v rest).unread := by
    simp [Sample.unread, Sample.record, hr]
  have hrows : returnedRows (trace ++ [Action.onObservation]) = returnedRows trace := by
    simp [returnedRows_snoc]
  have hreturned := h.returned
  have htimeline := h.timeline
  rw [hunread] at hreturned htimeline
  have hclock : ∀ o ∈ v.rows, o.observedAt.isSome := fun o ho =>
    (h.committed o (by rw [hreturned]; simp [ho])).2.1
  obtain ⟨-, hopen, -⟩ := backlog_recordObservation x.config x.started v b s.loop
  exact
    { started := h.started
      observed := h.observed.recordObservation _ _ b hclock
      returned := by
        rw [hrows, hreturned]
        simp
      committed := by
        rw [hrows]
        exact h.committed
      timeline := htimeline.record b
      closed := fun hc => by
        have := (h.closed (hopen ▸ hc)).2
        simp [hr] at this }

theorem Observing.onObservation (h : Observing x trace rows s) (hs : s.onObservation x = some t) :
    ∃ rows', Observing x (trace ++ [Action.onObservation]) rows' t := by
  unfold Sample.onObservation at hs
  split at hs
  next b hp =>
    split at hs
    next v rest _ hr =>
      cases hs
      exact ⟨_, h.record hr b⟩
    next => cases hs
  next =>
    split at hs
    · split at hs
      next v rest hr =>
        cases hs
        exact ⟨_, h.record hr false⟩
      next hr hp =>
        cases hs
        exact ⟨rows, h.frame (t := { s with loop := { s.loop with observationsOpen := false } })
          (a := .onObservation) le_rfl rfl (fun e => e) (fun _ hr => hr) rfl (fun _ => ⟨hp, hr⟩)
          (by simp)⟩
      next => cases hs
    · cases hs

end Steps

end IngestKit.Benchmark
