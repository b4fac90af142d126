import IngestKit.Messaging.Draining

/-! The invariant of a draining reader, and what it gives when `Run` returns. -/
namespace IngestKit.Messaging
open Event Persistence

section Marks
variable {U : UUID.Codec} {marks : List Mark} {r : Record}

theorem Saved.append (h : Saved U marks r) (new : List Mark) : Saved U (marks ++ new) r := by
  unfold Saved at h ⊢
  cases hd : decodeEnvelope U r.value with
  | ok e =>
    rw [hd] at h
    obtain ⟨events, source, hcall, hmem⟩ := h
    exact ⟨events, source, List.mem_append_left new hcall, hmem⟩
  | error cause =>
    rw [hd] at h
    exact List.mem_append_left new h

theorem Settled.append (h : Settled U marks r) (new : List Mark) : Settled U (marks ++ new) r := by
  obtain ⟨before, after, records, rfl, hr, hsaved⟩ := h
  refine ⟨before, after ++ new, records, ?_, hr, hsaved⟩
  rw [List.append_assoc, List.cons_append]

theorem Settled.saved (h : Settled U marks r) : Saved U marks r := by
  obtain ⟨before, after, records, rfl, -, hsaved⟩ := h
  exact hsaved.append _

theorem releases_snoc (marks : List Mark) (m : Mark) : releases (marks ++ [m]) =
    match m with
    | .poll => some 0
    | .release => (releases marks).map (· + 1)
    | _ => releases marks := by
  unfold releases
  rw [List.foldl_append]
  cases m <;> rfl

theorem releases_append_poll (mid : List Mark) (h : Mark.poll ∉ mid) :
    releases (marks ++ .poll :: mid) = some (mid.count .release) := by
  induction mid using List.reverseRecOn with
  | nil => exact releases_snoc marks .poll
  | append_singleton mid m ih =>
    rw [List.mem_append, not_or, List.mem_singleton] at h
    rw [← List.cons_append, ← List.append_assoc, releases_snoc, ih h.1, List.count_append]
    cases m with
    | poll => exact absurd rfl h.2
    | _ => rfl

/-- The polls and the return that a release must come before. -/
def Mark.ends : Mark → Bool
  | .poll | .returned _ => true
  | _ => false

/-- Before a poll or the return there was no poll, or one release since. -/
def Released (n : Option ℕ) : Prop := n = none ∨ n = some 1

def Bracketed (marks : List Mark) : Prop :=
  ∀ a m b, marks = a ++ m :: b → m.ends = true → Released (releases a)

theorem Bracketed.snoc (h : Bracketed marks) {m : Mark}
    (hm : m.ends = true → Released (releases marks)) : Bracketed (marks ++ [m]) := by
  intro a m' b heq hends
  rcases List.eq_nil_or_concat b with rfl | ⟨b, last, rfl⟩
  · obtain ⟨rfl, hm'⟩ := List.append_inj' heq rfl
    cases hm'
    exact hm hends
  · rw [List.concat_eq_append, ← List.cons_append, ← List.append_assoc] at heq
    obtain ⟨rfl, -⟩ := List.append_inj' heq rfl
    exact h a m' b rfl hends

end Marks

/-- Releases since the last poll, by where the reader is. -/
def State.Balanced (n : Option ℕ) : State → Prop
  | .head | .stopBefore | .returned _ => Released n
  | .stopAfter => n = some 1
  | _ => n = some 0

structure Session.Inv (U : UUID.Codec) (s : Session) : Prop where
  canceled : s.pollCanceled = true → s.stop = true
  calm : s.reader.Calm s.stop
  sound : s.reader.Sound U {r | Saved U s.marks r}
  owed : ∀ f, Mark.fetched f ∈ s.marks → ∀ r ∈ f.partitions.flatten,
    r ∈ s.reader.pending ∨ Settled U s.marks r
  seen : Mark.stopSeen ∈ s.marks → s.stop = true ∧ s.reader.late = true
  order : s.marks.Pairwise fun x y => x = .stopSeen → y ≠ .poll
  balance : s.reader.Balanced (releases s.marks)
  bracketed : Bracketed s.marks

section Advance
variable {U : UUID.Codec} {config : ReaderConfig} {stop : Bool} {s s' : State}
  {marks new : List Mark}

theorem Advance.calm (h : Advance U config stop s s' new) (hc : s.Calm stop) : s'.Calm stop := by
  cases h with
  | process _ _ _ _ hc' => exact hc'
  | polled f => exact hc
  | leave => rfl
  | _ => trivial

theorem Advance.fetched_not_mem (h : Advance U config stop s s' new) {f : Fetch} :
    Mark.fetched f ∉ new := by
  cases h with
  | polled f => cases stop <;> simp
  | _ => simp

private theorem Segment.Buffered.exists_envelope {seg : Segment} (h : seg.Buffered U)
    {r : Record} (hr : r ∈ seg.source) : ∃ e ∈ seg.valid, decodeEnvelope U r.value = .ok e := by
  obtain ⟨i, hi, rfl⟩ := List.mem_iff_getElem.mp hr
  have hlen := List.Forall₂.length_eq h
  exact ⟨seg.valid[i], List.getElem_mem _, List.Forall₂.get h (by omega) hi⟩

/-- A call that succeeded has saved its records. -/
private theorem finishes_called {call : Call} (hsound : s.Sound U {r | Saved U marks r})
    (hcall : s.call? = some call) :
    call.Finishes {r | Saved U (marks ++ [Mark.called call]) r} := by
  have hlast : Mark.called call ∈ marks ++ [Mark.called call] := by simp
  cases s with
  | write c seg k backoff =>
    cases hcall
    intro r hr
    obtain ⟨e, he, hd⟩ := Segment.Buffered.exists_envelope hsound.1 hr
    change Saved U _ r
    unfold Saved
    rw [hd]
    exact ⟨seg.valid, seg.source, hlast, he, hr⟩
  | quarantine c seg rec cause =>
    cases hcall
    change Saved U _ rec
    unfold Saved
    rw [hsound.2.2]
    exact hlast
  | commit | commitPoison =>
    cases hcall
    trivial
  | _ => cases hcall

private theorem State.Sound.saved {F : Set Record} (h : s.Sound U F) {records : List Record}
    (hcall : s.call? = some (.commit records)) : ∀ r ∈ records, r ∈ F := by
  cases s with
  | commit c seg k =>
    cases hcall
    exact h.2.2
  | commitPoison c seg rec =>
    cases hcall
    simpa using h.2.2
  | _ => cases hcall

/-- A record the reader no longer owes was committed after it was saved. -/
theorem Advance.owed (h : Advance U config stop s s' new)
    (hsound : s.Sound U {r | Saved U marks r}) :
    s'.Sound U {r | Saved U (marks ++ new) r} ∧
      ∀ r ∈ s.pending, r ∈ s'.pending ∨ Settled U (marks ++ new) r := by
  cases h with
  | process hp ha hs hp' hc' =>
    have hsound' := hsound.mono fun r hr => hr.append (s.call?.map Mark.called).toList
    refine ⟨(step_progress hsound' (answer_ne_fetched ha) hs ?_).2, ?_⟩
    · intro _ call hcall
      rw [hcall]
      exact finishes_called hsound hcall
    · intro r hr
      rcases pending_process hsound hp' hc' ha hs with heq | ⟨records, hcall, heq⟩
      · exact Or.inl (heq ▸ hr)
      · rw [heq] at hr
        refine (List.mem_append.mp hr).symm.imp_right fun hmem => ?_
        exact ⟨marks, [], records, by rw [hcall]; rfl, hmem, hsound.saved hcall r hmem⟩
  | leave s hstop hs =>
    rcases hs with rfl | rfl
    · exact ⟨trivial, fun r hr => Or.inl hr⟩
    · exact ⟨trivial, fun r hr => Or.inl hr⟩
  | _ => exact ⟨trivial, fun r hr => Or.inl hr⟩

private theorem late_of_processing (h : s.processing = true) : s.late = true := by
  cases s <;> first | rfl | cases h

/-- Once the stop was seen the reader stays on its way out. -/
theorem Advance.seen (h : Advance U config stop s s' new)
    (hseen : Mark.stopSeen ∈ marks → stop = true ∧ s.late = true)
    (horder : marks.Pairwise fun x y => x = .stopSeen → y ≠ .poll) :
    (Mark.stopSeen ∈ marks ++ new → stop = true ∧ s'.late = true) ∧
      (marks ++ new).Pairwise fun x y => x = .stopSeen → y ≠ .poll := by
  have hlate : s.late = false → Mark.stopSeen ∉ marks := by
    intro hearly hmem
    rw [hearly] at hseen
    exact absurd (hseen hmem).2 (by decide)
  have happend : new.Pairwise (fun x y => x = .stopSeen → y ≠ .poll) →
      (Mark.poll ∈ new → Mark.stopSeen ∉ marks) →
      (marks ++ new).Pairwise fun x y => x = .stopSeen → y ≠ .poll := by
    intro hnew hpoll
    refine List.pairwise_append.mpr ⟨horder, hnew, ?_⟩
    rintro x hx y hy rfl rfl
    exact hpoll hy hx
  cases h with
  | enter => exact ⟨fun hmem => absurd (by simpa using hmem) (hlate rfl), happend .nil (by simp)⟩
  | poll hstop =>
    exact ⟨fun hmem => absurd (by simpa using hmem) (hlate rfl),
      happend (by simp) fun _ => hlate rfl⟩
  | polled f =>
    cases stop with
    | false => exact ⟨fun hmem => absurd (by simpa using hmem) (hlate rfl), happend .nil (by simp)⟩
    | true => exact ⟨fun _ => ⟨rfl, rfl⟩, happend (by simp) (by simp)⟩
  | process hp ha hs hp' hc' =>
    have hquiet : ∀ m ∈ (s.call?.map Mark.called).toList, m ≠ .stopSeen ∧ m ≠ .poll := by simp
    refine ⟨fun hmem => ?_, happend ?_ fun hpoll => absurd rfl (hquiet _ hpoll).2⟩
    · rcases List.mem_append.mp hmem with hmem | hmem
      · exact ⟨(hseen hmem).1, late_of_processing hp'⟩
      · exact absurd rfl (hquiet _ hmem).1
    · refine List.pairwise_of_forall_mem_list fun x hx y _ hstop => ?_
      exact absurd hstop (hquiet x hx).1
  | release =>
    exact ⟨fun hmem => ⟨(hseen (by simpa using hmem)).1, rfl⟩, happend (by simp) (by simp)⟩
  | again hstop =>
    refine ⟨fun hmem => ?_, happend .nil (by simp)⟩
    have hstop' := (hseen (by simpa using hmem)).1
    rw [hstop] at hstop'
    cases hstop'
  | leave s hstop hs => exact ⟨fun _ => ⟨hstop, rfl⟩, happend (by simp) (by simp)⟩

private theorem balanced_of_processing (h : s.processing = true) (n : Option ℕ) :
    s.Balanced n ↔ n = some 0 := by
  cases s <;> first | exact Iff.rfl | cases h

theorem Advance.balance (h : Advance U config stop s s' new)
    (hbalance : s.Balanced (releases marks)) (hbracketed : Bracketed marks) :
    s'.Balanced (releases (marks ++ new)) ∧ Bracketed (marks ++ new) := by
  cases h with
  | enter => simpa using ⟨hbalance, hbracketed⟩
  | poll hstop => exact ⟨releases_snoc marks .poll, hbracketed.snoc fun _ => hbalance⟩
  | polled f =>
    cases stop with
    | false => simpa using ⟨hbalance, hbracketed⟩
    | true => exact ⟨(releases_snoc marks .stopSeen).trans hbalance,
      hbracketed.snoc (by simp [Mark.ends])⟩
  | process hp ha hs hp' hc' =>
    rw [balanced_of_processing hp] at hbalance
    rw [balanced_of_processing hp']
    cases s.call? with
    | none => simpa using ⟨hbalance, hbracketed⟩
    | some call =>
      exact ⟨(releases_snoc marks (.called call)).trans hbalance,
        hbracketed.snoc (by simp [Mark.ends])⟩
  | release =>
    refine ⟨(releases_snoc marks .release).trans ?_, hbracketed.snoc (by simp [Mark.ends])⟩
    rw [show releases marks = some 0 from hbalance]
    rfl
  | again hstop =>
    rw [List.append_nil]
    exact ⟨Or.inr hbalance, hbracketed⟩
  | leave s hstop hs =>
    have hreleased : Released (releases marks) := by
      rcases hs with rfl | rfl
      · exact hbalance
      · exact Or.inr hbalance
    have hstopSeen : releases (marks ++ [Mark.stopSeen]) = releases marks :=
      releases_snoc marks .stopSeen
    have hsplit : marks ++ [Mark.stopSeen, .returned none] =
        (marks ++ [Mark.stopSeen]) ++ [Mark.returned none] := by simp
    rw [hsplit]
    refine ⟨?_, (hbracketed.snoc (by simp [Mark.ends])).snoc fun _ => hstopSeen ▸ hreleased⟩
    rw [releases_snoc, hstopSeen]
    exact hreleased

end Advance

section Runs
variable {U : UUID.Codec} {config : ReaderConfig} {s t : Session}

theorem Session.inv_start : Session.start.Inv U where
  canceled := by simp [Session.start]
  calm := trivial
  sound := trivial
  owed := by simp [Session.start]
  seen := by simp [Session.start]
  order := .nil
  balance := Or.inl rfl
  bracketed := by
    intro a m b heq
    simp [Session.start] at heq

theorem Session.Inv.stopPolling (h : s.Inv U) : { s with stop := true : Session }.Inv U where
  canceled := fun _ => rfl
  calm := by
    have hcalm := h.calm
    cases hr : s.reader with
    | polled f =>
      rw [hr] at hcalm
      exact fun e he => ⟨rfl, (hcalm e he).2⟩
    | _ =>
      rw [hr] at hcalm
      exact hcalm
  sound := h.sound
  owed := h.owed
  seen := fun hmem => ⟨rfl, (h.seen hmem).2⟩
  order := h.order
  balance := h.balance
  bracketed := h.bracketed

theorem Session.Inv.fetch (h : s.Inv U) {f : Fetch} (hf : s.allows f) {r : State}
    {out : List Output} (hs : Messaging.step U config s.reader (.fetched f) = some (r, out)) :
    { s with reader := r, marks := s.marks ++ [.fetched f] : Session }.Inv U := by
  obtain ⟨hreader, hr⟩ : s.reader = .poll ∧ r = .polled f := by
    cases hreader : s.reader <;> rw [hreader] at hs <;> simp [Messaging.step] at hs
    exact ⟨rfl, hs.1.symm⟩
  subst hr
  have hunseen : Mark.stopSeen ∉ s.marks := by
    intro hmem
    have hlate := (h.seen hmem).2
    rw [hreader] at hlate
    cases hlate
  constructor
  · exact h.canceled
  · intro e he
    rcases hf with hnil | ⟨hcancel, hall⟩
    · rw [hnil] at he
      cases he
    · exact ⟨h.canceled hcancel, hall e he⟩
  · trivial
  · intro g hg r hr
    rcases List.mem_append.mp hg with hg | hg
    · have howed := h.owed g hg r hr
      rw [hreader] at howed
      exact Or.inr ((howed.resolve_left List.not_mem_nil).append _)
    · cases List.mem_singleton.mp hg
      exact Or.inl hr
  · intro hmem
    exact absurd (by simpa using hmem) hunseen
  · refine List.pairwise_append.mpr ⟨h.order, List.pairwise_singleton _ _, ?_⟩
    rintro x hx y - rfl
    exact absurd hx hunseen
  · have hbalance := h.balance
    rw [hreader] at hbalance
    exact (releases_snoc s.marks (.fetched f)).trans hbalance
  · exact h.bracketed.snoc (by simp [Mark.ends])

theorem Session.Inv.advance (h : s.Inv U) {r : State} {new : List Mark}
    (ha : Advance U config s.stop s.reader r new) :
    { s with reader := r, marks := s.marks ++ new : Session }.Inv U := by
  obtain ⟨hsound, howed⟩ := ha.owed h.sound
  obtain ⟨hseen, horder⟩ := ha.seen h.seen h.order
  obtain ⟨hbalance, hbracketed⟩ := ha.balance h.balance h.bracketed
  refine ⟨h.canceled, ha.calm h.calm, hsound, ?_, hseen, horder, hbalance, hbracketed⟩
  intro f hf r hr
  have hf' : Mark.fetched f ∈ s.marks := (List.mem_append.mp hf).resolve_right ha.fetched_not_mem
  rcases h.owed f hf' r hr with hpending | hsettled
  · exact howed r hpending
  · exact Or.inr (hsettled.append new)

theorem Session.Inv.step (h : s.Inv U) {a : SessionAction} (hs : s.step U config a = some t) :
    t.Inv U := by
  cases a with
  | stopPolling =>
    cases hs
    exact h.stopPolling
  | cancelPoll =>
    simp only [Session.step, Option.ite_none_right_eq_some, Option.some.injEq] at hs
    obtain ⟨hstop, rfl⟩ := hs
    exact { h with canceled := fun _ => hstop }
  | fetch f =>
    simp only [Session.step, Option.ite_none_right_eq_some, Option.map_eq_some_iff] at hs
    obtain ⟨hf, ⟨r, out⟩, hstep, rfl⟩ := hs
    exact h.fetch hf hstep
  | advance =>
    simp only [Session.step, Option.bind_eq_some_iff, Option.map_eq_some_iff] at hs
    obtain ⟨a, ha, ⟨r, out⟩, hstep, rfl⟩ := hs
    exact h.advance (advance_cases h.calm ha hstep)

theorem Session.inv_of_execute {as : List SessionAction}
    (h : Transition.execute (Session.step U config) .start as = some t) : t.Inv U :=
  Transition.execute_invariant (I := fun _ s => s.Inv U) Session.inv_start
    (fun _ _ _ _ hi hs => hi.step hs) h

theorem Handled.perform {w : World} {r : Record} (h : Handled U w r) (call : Call) :
    Handled U (w.perform call) r := by
  unfold Handled at h ⊢
  cases hd : decodeEnvelope U r.value with
  | ok e =>
    rw [hd] at h
    obtain ⟨row, hrow, hkey⟩ := h
    exact ⟨row, mem_table_perform call hrow, hkey⟩
  | error cause =>
    rw [hd] at h
    cases call with
    | write events source => exact h
    | commit records =>
      simp only [World.perform]
      split <;> exact h
    | quarantine rec cause => exact List.mem_append_left _ h

private theorem performed_snoc (table : List Row) (marks : List Mark) (m : Mark) :
    performed table (marks ++ [m]) =
      match m with
      | .called call => (performed table marks).perform call
      | _ => performed table marks := by
  unfold performed
  rw [List.foldl_append]
  rfl

/-- What was saved is in the table or in the quarantine topic. -/
theorem Saved.handled {marks : List Mark} {r : Record} (h : Saved U marks r) (table : List Row) :
    Handled U (performed table marks) r := by
  induction marks using List.reverseRecOn with
  | nil =>
    unfold Saved at h
    split at h
    · obtain ⟨events, source, hcall, -⟩ := h
      cases hcall
    · cases h
  | append_singleton marks m ih =>
    have hkeep : Saved U marks r → Handled U (performed table (marks ++ [m])) r := by
      intro hsaved
      rw [performed_snoc]
      cases m with
      | called call => exact (ih hsaved).perform call
      | _ => exact ih hsaved
    unfold Saved at h hkeep
    cases hd : decodeEnvelope U r.value with
    | ok e =>
      rw [hd] at h hkeep
      obtain ⟨events, source, hcall, he, hr⟩ := h
      rcases List.mem_append.mp hcall with hcall | hcall
      · exact hkeep ⟨events, source, hcall, he, hr⟩
      · cases List.mem_singleton.mp hcall
        rw [performed_snoc, Handled, hd]
        exact Replay.key_mem_insertAll Row.key _ (List.mem_map_of_mem he)
    | error cause =>
      rw [hd] at h hkeep
      rcases List.mem_append.mp h with hcall | hcall
      · exact hkeep hcall
      · cases List.mem_singleton.mp hcall
        rw [performed_snoc, Handled, hd]
        exact List.mem_append_right _ List.mem_cons_self

/-- A reader that is told to stop returns no error, has saved and committed every record it polled,
does not poll once it has seen the stop, and releases the rebalance once after each poll. -/
theorem drain_loses_nothing (as : List SessionAction) (s : Session)
    (h : Transition.execute (Session.step U config) .start as = some s) :
    (∀ result, s.reader = .returned result → result = none ∧
      ∀ f, .fetched f ∈ s.marks → ∀ records ∈ f.partitions, ∀ r ∈ records,
        Settled U s.marks r ∧ ∀ table, Handled U (performed table s.marks) r) ∧
    (∀ a b, s.marks = a ++ .stopSeen :: b → .poll ∉ b) ∧
    ∀ a mid m b, s.marks = a ++ .poll :: (mid ++ m :: b) → .poll ∉ mid →
      (m = .poll ∨ ∃ result, m = .returned result) → mid.count .release = 1 := by
  have hinv := Session.inv_of_execute h
  refine ⟨?_, ?_, ?_⟩
  · intro result hreader
    have hcalm := hinv.calm
    rw [hreader] at hcalm
    refine ⟨hcalm, fun f hf records hrecords r hr => ?_⟩
    have howed := hinv.owed f hf r (List.mem_flatten.mpr ⟨records, hrecords, hr⟩)
    rw [hreader] at howed
    have hsettled := howed.resolve_left List.not_mem_nil
    exact ⟨hsettled, hsettled.saved.handled⟩
  · intro a b heq hpoll
    have horder := hinv.order
    rw [heq, List.pairwise_append] at horder
    exact (List.pairwise_cons.mp horder.2.1).1 .poll hpoll rfl rfl
  · intro a mid m b heq hmid hm
    have hends : m.ends = true := by
      rcases hm with rfl | ⟨result, rfl⟩
      · rfl
      · rfl
    rw [← List.cons_append, ← List.append_assoc] at heq
    have hreleased := hinv.bracketed _ m b heq hends
    rw [releases_append_poll mid hmid] at hreleased
    exact Option.some.inj (hreleased.resolve_left (by simp))

end Runs

/-- The stop comes during a poll, which then returns a record together with its cancellation. -/
theorem drain_loses_nothing_duringPoll : ∃ s : Session,
    Transition.execute (Session.step UUID.standard smallConfig) .start
      ([.advance, .advance, .stopPolling, .cancelPoll, .fetch ⟨[[poisonSource]], [.canceled]⟩] ++
        List.replicate 15 .advance) = some s ∧
    s.reader = .returned none ∧ Settled UUID.standard s.marks poisonSource ∧
    s.marks.count .release = 1 := by
  have hrun : ∃ s ∈ Transition.execute (Session.step UUID.standard smallConfig) .start
      (([.advance, .advance, .stopPolling, .cancelPoll, .fetch ⟨[[poisonSource]], [.canceled]⟩] :
        List SessionAction) ++ List.replicate 15 .advance), s.reader = .returned none ∧
      Mark.fetched ⟨[[poisonSource]], [.canceled]⟩ ∈ s.marks ∧ s.marks.count .release = 1 := by
    decide +kernel
  obtain ⟨s, hs, hreader, hmem, hcount⟩ := hrun
  have hdrained := drain_loses_nothing _ s hs
  refine ⟨s, hs, hreader, ?_, hcount⟩
  exact (((hdrained.1 none hreader).2 _ hmem _ List.mem_cons_self _ List.mem_cons_self)).1

end IngestKit.Messaging
