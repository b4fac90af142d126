import IngestKit.Messaging.Delivery
import IngestKit.Replay.Closed

/-! What a reader still owes: the records it fetched and has not finished. Each step
of the reader either leaves them, finishes some at the front, or gives up. -/
namespace IngestKit.Messaging
open Event Persistence

def After.records : After → List Record
  | .poison rec _ => [rec]
  | _ => []

/-- Fetched records in the order the reader goes through them. -/
def State.pending : State → List Record
  | .polled f => f.partitions.flatten
  | .each c => c.queue.flatten
  | .record c s => s.source ++ (s.rest ++ c.queue.flatten)
  | .flush c s k | .persist c s k _ | .write c s k _ | .writeFailed c s k _ | .wait c s k _
  | .commit c s k => s.source ++ (k.records ++ (s.rest ++ c.queue.flatten))
  | .quarantine c s rec _ | .commitPoison c s rec => rec :: (s.rest ++ c.queue.flatten)
  | _ => []

/-- The reader may poll again. -/
def State.alive : State → Bool
  | .release (some _) | .returned _ => false
  | _ => true

section
variable (U : UUID.Codec) (F : Set Record)

/-- The buffered envelopes are the decoded source records. -/
def Segment.Buffered (s : Segment) : Prop :=
  List.Forall₂ (fun e r => decodeEnvelope U r.value = .ok e) s.valid s.source

def After.Justified (s : Segment) : After → Prop
  | .poison rec cause => decodeEnvelope U rec.value = .error cause
  | .next => True
  | .done => s.rest = []

/-- Facts about the reader's own variables, where `F` is the set of finished records. -/
def State.Sound : State → Prop
  | .record _ s => s.Buffered U
  | .flush _ s k | .persist _ s k _ | .write _ s k _ | .writeFailed _ s k _ | .wait _ s k _ =>
    s.Buffered U ∧ k.Justified U s
  | .commit _ s k => s.Buffered U ∧ k.Justified U s ∧ ∀ r ∈ s.source, r ∈ F
  | .quarantine _ s rec cause =>
    s.Buffered U ∧ s.source = [] ∧ decodeEnvelope U rec.value = .error cause
  | .commitPoison _ s rec => s.Buffered U ∧ s.source = [] ∧ rec ∈ F
  | _ => True

/-- What a call that took effect has finished. -/
def Call.Finishes : Call → Prop
  | .write _ source => ∀ r ∈ source, r ∈ F
  | .commit _ => True
  | .quarantine rec _ => rec ∈ F

/-- The reader finished some records at the front, or gave up. -/
def Progress (s s' : State) : Prop :=
  (∃ a, s.pending = a ++ s'.pending ∧ ∀ r ∈ a, r ∈ F) ∨ (s'.pending = [] ∧ s'.alive = false)

variable {U F}

theorem Progress.same {s s' : State} (h : s.pending = s'.pending) : Progress F s s' :=
  Or.inl ⟨[], h, by simp⟩

theorem Progress.gaveUp {s : State} (f : Failure) : Progress F s (.release (some f)) :=
  Or.inr ⟨rfl, rfl⟩

private theorem visit_spec (config : ReaderConfig) {c : Cycle} {s : Segment} {rec : Record}
    {rest : List Record} (hb : s.Buffered U) (hr : s.rest = rec :: rest) :
    (State.record c s).pending = (visit U config c s rec rest).pending ∧
      (visit U config c s rec rest).Sound U F := by
  unfold visit
  cases hd : decodeEnvelope U rec.value with
  | error cause =>
    refine ⟨?_, hb, hd⟩
    simp [State.pending, After.records, hr]
  | ok e =>
    have hb' : (⟨rest, s.valid ++ [e], s.source ++ [rec]⟩ : Segment).Buffered U :=
      List.rel_append hb (.cons hd .nil)
    dsimp only
    split_ifs
    · exact ⟨by simp [State.pending, After.records, hr], hb', trivial⟩
    · exact ⟨by simp [State.pending, hr], hb'⟩

private theorem resume_spec {c : Cycle} {s : Segment} {k : After} (hb : s.Buffered U)
    (hk : k.Justified U s) (hs : s.source = []) :
    (resume c s k).pending = k.records ++ (s.rest ++ c.queue.flatten) ∧
      (resume c s k).Sound U F := by
  cases k with
  | poison rec cause => exact ⟨rfl, hb, hs, hk⟩
  | next => exact ⟨by simp [resume, State.pending, After.records, hs], hb⟩
  | done =>
    have hrest : s.rest = [] := hk
    exact ⟨by simp [resume, State.pending, After.records, hrest], trivial⟩

/-- Every step except a poll: `F` already holds what a successful call finished. -/
theorem step_progress {config : ReaderConfig} {s s' : State} {a : Answer} {out : List Output}
    (h : s.Sound U F) (ha : ∀ f, a ≠ .fetched f) (hs : step U config s a = some (s', out))
    (hF : a = .result true → ∀ call, s.call? = some call → call.Finishes F) :
    Progress F s s' ∧ s'.Sound U F := by
  cases s with
  | head =>
    cases a <;> simp only [step, reduceCtorEq, Option.some.injEq, Prod.mk.injEq] at hs
    obtain ⟨rfl, -⟩ := hs
    split_ifs <;> exact ⟨.same rfl, trivial⟩
  | stopBefore =>
    cases a <;> simp only [step, reduceCtorEq, Option.some.injEq, Prod.mk.injEq] at hs
    obtain ⟨rfl, -⟩ := hs
    split_ifs <;> exact ⟨.same rfl, trivial⟩
  | poll =>
    cases a <;> simp only [step, reduceCtorEq] at hs
    next f => exact absurd rfl (ha f)
  | polled f =>
    cases a <;> simp only [step, reduceCtorEq, Option.some.injEq, Prod.mk.injEq] at hs
    obtain ⟨rfl, -⟩ := hs
    exact ⟨.same rfl, trivial⟩
  | each c =>
    cases a <;> simp only [step, reduceCtorEq] at hs
    split at hs <;> simp only [Option.some.injEq, Prod.mk.injEq] at hs <;> obtain ⟨rfl, -⟩ := hs
    next hq => exact ⟨.same (by simp [State.pending, hq]), trivial⟩
    next q hq => exact ⟨.same (by simp [State.pending, hq]), trivial⟩
    next recs q hne hq => exact ⟨.same (by simp [State.pending, hq]), .nil⟩
  | record c s =>
    cases a <;> simp only [step, reduceCtorEq] at hs
    · split at hs <;> simp only [reduceCtorEq, Option.some.injEq, Prod.mk.injEq] at hs
      next hr =>
        obtain ⟨rfl, -⟩ := hs
        exact ⟨.same (by simp [State.pending, After.records]), h, hr⟩
    · split at hs <;> simp only [reduceCtorEq, Option.some.injEq, Prod.mk.injEq] at hs
      next rec rest hr =>
        obtain ⟨rfl, -⟩ := hs
        split_ifs
        · exact ⟨.gaveUp _, trivial⟩
        · obtain ⟨hp, hsound⟩ := visit_spec config (c := c) (F := F) h hr
          exact ⟨.same hp, hsound⟩
  | flush c s k =>
    obtain ⟨hb, hk⟩ := h
    cases a <;> simp only [step, reduceCtorEq] at hs
    split at hs <;> simp only [Option.some.injEq, Prod.mk.injEq] at hs <;> obtain ⟨rfl, -⟩ := hs
    next hsrc =>
      obtain ⟨hp, hsound⟩ := resume_spec (c := c) (F := F) hb hk hsrc
      exact ⟨.same (by rw [hp]; simp [State.pending, hsrc]), hsound⟩
    next => exact ⟨.same rfl, hb, hk⟩
  | persist c s k backoff =>
    cases a <;> simp only [step, reduceCtorEq, Option.some.injEq, Prod.mk.injEq] at hs
    obtain ⟨rfl, -⟩ := hs
    split_ifs
    · exact ⟨.gaveUp _, trivial⟩
    · exact ⟨.same rfl, h⟩
  | write c s k backoff =>
    cases a <;> simp only [step, reduceCtorEq, Option.some.injEq, Prod.mk.injEq] at hs
    next ok =>
      obtain ⟨rfl, -⟩ := hs
      split_ifs with hok
      · exact ⟨.same rfl, h.1, h.2, hF (by rw [hok]) _ rfl⟩
      · exact ⟨.same rfl, h⟩
  | writeFailed c s k backoff =>
    cases a <;> simp only [step, reduceCtorEq, Option.some.injEq, Prod.mk.injEq] at hs
    obtain ⟨rfl, -⟩ := hs
    split_ifs
    · exact ⟨.gaveUp _, trivial⟩
    · exact ⟨.same rfl, h⟩
  | wait c s k backoff =>
    cases a <;> simp only [step, reduceCtorEq, Option.some.injEq, Prod.mk.injEq] at hs
    obtain ⟨rfl, -⟩ := hs
    split_ifs
    · exact ⟨.gaveUp _, trivial⟩
    · exact ⟨.same rfl, h⟩
  | commit c s k =>
    obtain ⟨hb, hk, hfin⟩ := h
    cases a <;> simp only [step, reduceCtorEq, Option.some.injEq, Prod.mk.injEq] at hs
    obtain ⟨rfl, -⟩ := hs
    split_ifs
    · have hk' : k.Justified U ⟨s.rest, [], []⟩ := by cases k <;> exact hk
      obtain ⟨hp, hsound⟩ := resume_spec (c := c) (s := ⟨s.rest, [], []⟩) (F := F) .nil hk' rfl
      exact ⟨Or.inl ⟨s.source, by rw [hp]; rfl, hfin⟩, hsound⟩
    · exact ⟨.gaveUp _, trivial⟩
  | quarantine c s rec cause =>
    obtain ⟨hb, hsrc, hd⟩ := h
    cases a <;> simp only [step, reduceCtorEq, Option.some.injEq, Prod.mk.injEq] at hs
    next ok =>
      obtain ⟨rfl, -⟩ := hs
      split_ifs with hok
      · exact ⟨.same rfl, hb, hsrc, hF (by rw [hok]) _ rfl⟩
      · exact ⟨.gaveUp _, trivial⟩
  | commitPoison c s rec =>
    obtain ⟨hb, hsrc, hfin⟩ := h
    cases a <;> simp only [step, reduceCtorEq, Option.some.injEq, Prod.mk.injEq] at hs
    obtain ⟨rfl, -⟩ := hs
    split_ifs
    · exact ⟨Or.inl ⟨[rec], by simp [State.pending, hsrc], by simpa using hfin⟩, hb⟩
    · exact ⟨.gaveUp _, trivial⟩
  | errors c =>
    cases a <;> simp only [step, reduceCtorEq] at hs
    split at hs
    · simp only [Option.some.injEq, Prod.mk.injEq] at hs
      obtain ⟨rfl, -⟩ := hs
      exact ⟨.same rfl, trivial⟩
    · split_ifs at hs <;> simp only [Option.some.injEq, Prod.mk.injEq] at hs <;>
        obtain ⟨rfl, -⟩ := hs
      · exact ⟨.same rfl, trivial⟩
      · exact ⟨.gaveUp _, trivial⟩
  | canceled c =>
    cases a <;> simp only [step, reduceCtorEq, Option.some.injEq, Prod.mk.injEq] at hs
    obtain ⟨rfl, -⟩ := hs
    split_ifs
    · exact ⟨.gaveUp _, trivial⟩
    · exact ⟨.same rfl, trivial⟩
  | finish =>
    cases a <;> simp only [step, reduceCtorEq, Option.some.injEq, Prod.mk.injEq] at hs
    obtain ⟨rfl, -⟩ := hs
    split_ifs
    · exact ⟨.gaveUp _, trivial⟩
    · exact ⟨.same rfl, trivial⟩
  | release result =>
    cases a <;> simp only [step, reduceCtorEq] at hs
    split at hs <;> simp only [Option.some.injEq, Prod.mk.injEq] at hs <;> obtain ⟨rfl, -⟩ := hs
    · exact ⟨.same rfl, trivial⟩
    · exact ⟨.same rfl, trivial⟩
  | stopAfter =>
    cases a <;> simp only [step, reduceCtorEq, Option.some.injEq, Prod.mk.injEq] at hs
    obtain ⟨rfl, -⟩ := hs
    split_ifs <;> exact ⟨.same rfl, trivial⟩
  | returned result => cases a <;> simp only [step, reduceCtorEq] at hs

end

end IngestKit.Messaging
