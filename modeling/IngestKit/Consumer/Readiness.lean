import IngestKit.Consumer.Process
import IngestKit.Transition.Runs

/-! Readiness against what each partition still waits for: failures are kept by the kind of
operation alone, so a success in one partition clears the failure of another. -/
namespace IngestKit.Consumer
open Event Messaging Service

/-- Whether the last operation of this kind on records of this partition failed. -/
def latest (ops : List Operation) (kind : Kind) (partition : ℕ) : Option Bool :=
  (ops.filter fun op => op.kind = kind ∧ op.partition = partition).getLast?.map (·.failed)

def Failing (ops : List Operation) (kind : Kind) (partition : ℕ) : Prop :=
  latest ops kind partition = some true

instance (ops : List Operation) (kind : Kind) (partition : ℕ) :
    Decidable (Failing ops kind partition) := inferInstanceAs (Decidable (_ = _))

/-- Whether the last operation of this kind failed, whatever its partition. -/
def FailedLast (ops : List Operation) (kind : Kind) : Prop :=
  (ops.filter fun op => op.kind = kind).getLast?.map (·.failed) = some true

/-- `run` has told the health state of the shutdown. -/
def Main.observed : Main → Bool
  | .serving | .cancelWorker | .observe => false
  | _ => true

/-- The operation a reader waits for, and the record it is reported under. -/
def performing : State → Option (Kind × Record)
  | .write _ s _ _ => s.source.head?.map (.storage, ·)
  | .commit _ s _ => s.source.getLast?.map (.progress, ·)
  | .quarantine _ _ rec _ => some (.quarantine, rec)
  | .commitPoison _ _ rec => some (.progress, rec)
  | _ => none

/-- What a reader reports when it is told the outcome. -/
def due (s : State) (a : Answer) : List Operation :=
  match performing s, a with
  | some (kind, rec), .result ok => [operation kind rec ok]
  | _, _ => []

namespace Process

/-- The process is not ready while an operation of some partition has failed last. -/
def Guarded (p : Process) : Prop :=
  ∀ kind partition, Failing p.operations kind partition → p.health.ready = false

/-- What is kept under each key. -/
def HealthInv (p : Process) : Prop :=
  (∀ kind, .operation kind ∈ p.health.failed ↔ FailedLast p.operations kind) ∧
    (.shutdown ∈ p.health.failed ↔ p.main.observed = true)

/-- If the action is the success of an operation, then either no other pair of operation and
partition has failed last, or the last operation of another kind failed, or the process is shutting
down. -/
def Clears (p : Process) (a : Action) : Prop :=
  ∀ id s kind rec, p.supervise = .attempt (.run id s) →
    a = .attempt (.reader (.result true)) → performing s = some (kind, rec) →
    (∀ k j, Failing p.operations k j → k = kind ∧ j = rec.partition) ∨
      (∃ k, k ≠ kind ∧ FailedLast p.operations k) ∨ p.main.observed = true

end Process

section Steps
variable {U : UUID.Codec} {config : ReaderConfig} {p q : Process}

private theorem last_snoc (P : Operation → Bool) (ops : List Operation) (op : Operation) :
    ((ops ++ [op]).filter P).getLast?.map (·.failed) =
      if P op then some op.failed else (ops.filter P).getLast?.map (·.failed) := by
  rw [List.filter_append]
  split_ifs with h
  · rw [List.filter_cons_of_pos h, List.filter_nil, List.getLast?_append_cons]
    rfl
  · rw [List.filter_cons_of_neg h, List.filter_nil, List.append_nil]

theorem failedLast_snoc (ops : List Operation) (op : Operation) (kind : Kind) :
    FailedLast (ops ++ [op]) kind ↔
      if op.kind = kind then op.failed = true else FailedLast ops kind := by
  unfold FailedLast
  rw [last_snoc]
  by_cases h : op.kind = kind
  · simp [h]
  · simp [h]

theorem failing_snoc (ops : List Operation) (op : Operation) (kind : Kind) (partition : ℕ) :
    Failing (ops ++ [op]) kind partition ↔
      if op.kind = kind ∧ op.partition = partition then op.failed = true
      else Failing ops kind partition := by
  unfold Failing latest
  rw [last_snoc]
  by_cases h : op.kind = kind ∧ op.partition = partition
  · simp [h]
  · simp [h]

private theorem reported_notify (kind : Kind) (rec : Option Record) (ok : Bool) :
    Process.reported (notify kind rec ok) = (rec.map (operation kind · ok)).toList := by
  cases rec <;> rfl

/-- A step of a reader reports the operation it waited for, and nothing else. -/
theorem step_reported {s s' : State} {a : Answer} {out : List Output}
    (h : Messaging.step U config s a = some (s', out)) :
    Process.reported out = due s a := by
  cases s <;> cases a <;> simp only [Messaging.step, reduceCtorEq, Option.some.injEq,
    Prod.mk.injEq] at h
  case write.result c seg k backoff ok =>
    obtain ⟨-, rfl⟩ := h
    rw [reported_notify]
    cases hhead : seg.source.head? <;> simp [due, performing, hhead]
  case commit.result c seg k ok =>
    obtain ⟨-, rfl⟩ := h
    rw [reported_notify]
    cases hlast : seg.source.getLast? <;> simp [due, performing, hlast]
  case quarantine.result =>
    obtain ⟨-, rfl⟩ := h
    rfl
  case commitPoison.result =>
    obtain ⟨-, rfl⟩ := h
    rfl
  case each.tau | record.tau | record.flag | flush.tau | release.tau =>
    split at h <;> cases h <;> rfl
  case errors.tau =>
    split at h
    · cases h
      rfl
    · split_ifs at h <;> cases h <;> rfl
  all_goals
    obtain ⟨-, rfl⟩ := h
    rfl

/-- Every other step of the process reports nothing, and can only observe the shutdown. -/
theorem quiet_step {a : Action} (hs : p.step U config a = some q)
    (ha : ∀ id s x, p.supervise = .attempt (.run id s) → a ≠ .attempt (.reader x)) :
    q.operations = p.operations ∧
      (q.health = p.health ∧ q.main.observed = p.main.observed ∨
        q.health = p.health.observe .shutdown true ∧ q.main.observed = true) := by
  cases a with
  | signal | serveFails =>
    cases hs
    exact ⟨rfl, Or.inl ⟨rfl, rfl⟩⟩
  | main c =>
    cases c <;> simp only [Process.step, Process.mainStep] at hs
    case serveDone | ctxDone | deadline =>
      split_ifs at hs with hmain
      cases hs
      exact ⟨rfl, Or.inl ⟨rfl, by simp [hmain, Main.observed]⟩⟩
    case workerDone =>
      split at hs <;> cases hs
      rename_i hmain _
      exact ⟨rfl, Or.inl ⟨rfl, by simp [hmain, Main.observed]⟩⟩
    case go =>
      split at hs <;> cases hs
      case h_2 => exact ⟨rfl, Or.inr ⟨rfl, rfl⟩⟩
      all_goals
        rename_i hmain
        exact ⟨rfl, Or.inl ⟨rfl, by simp [hmain, Main.observed]⟩⟩
  | supervise c =>
    simp only [Process.step, Process.superviseStep, Option.map_eq_some_iff] at hs
    obtain ⟨s, -, rfl⟩ := hs
    exact ⟨rfl, Or.inl ⟨rfl, rfl⟩⟩
  | attempt x =>
    simp only [Process.step] at hs
    split at hs
    next s hp =>
      cases s <;> cases x <;> simp only [Process.attemptStep, reduceCtorEq, Option.some.injEq] at hs
      case run.reader id s x => exact absurd rfl (ha id s x hp)
      case run.go id s =>
        cases s <;> simp only [reduceCtorEq, Option.some.injEq] at hs
        subst hs
        exact ⟨rfl, Or.inl ⟨rfl, rfl⟩⟩
      all_goals
        subst hs
        try split_ifs
        all_goals exact ⟨rfl, Or.inl ⟨rfl, rfl⟩⟩
    next => cases hs

private theorem guarded_of_quiet (h : p.Guarded) (hops : q.operations = p.operations)
    (hhealth : q.health = p.health ∨ q.health = p.health.observe .shutdown true) : q.Guarded := by
  intro kind partition hfailing
  rcases hhealth with heq | heq
  · rw [hops] at hfailing
    rw [heq]
    exact h kind partition hfailing
  · rw [heq, ProcessingHealth.ready_eq_false_iff]
    exact ⟨.shutdown, by simp [ProcessingHealth.mem_observe]⟩

private theorem healthInv_of_quiet (h : p.HealthInv) (hops : q.operations = p.operations)
    (hhealth : q.health = p.health ∧ q.main.observed = p.main.observed ∨
      q.health = p.health.observe .shutdown true ∧ q.main.observed = true) : q.HealthInv := by
  unfold Process.HealthInv
  rcases hhealth with ⟨heq, hmain⟩ | ⟨heq, hmain⟩
  · rw [hops, heq, hmain]
    exact h
  · rw [hops, heq, hmain]
    refine ⟨fun kind => ?_, by simp [ProcessingHealth.mem_observe]⟩
    rw [ProcessingHealth.mem_observe, if_neg (by simp)]
    exact h.1 kind

/-- An operation is kept under its kind. -/
private theorem healthInv_report (h : p.HealthInv) (op : Operation)
    (hops : q.operations = p.operations ++ [op]) (hmain : q.main = p.main)
    (hhealth : q.health = p.health.observe (.operation op.kind) op.failed) : q.HealthInv := by
  constructor
  · intro kind
    rw [hhealth, hops, ProcessingHealth.mem_observe, failedLast_snoc, ← h.1 kind]
    by_cases hk : op.kind = kind
    · simp [hk]
    · have hne : HealthKey.operation kind ≠ .operation op.kind := fun he =>
        hk (HealthKey.operation.inj he).symm
      rw [if_neg hk, if_neg hne]
  · rw [hhealth, ProcessingHealth.mem_observe, if_neg (by simp), hmain]
    exact h.2

/-- A success of one operation keeps the process guarded exactly if it clears nothing else. -/
private theorem guarded_success (h : p.HealthInv) (kind : Kind) (rec : Record)
    (hops : q.operations = p.operations ++ [operation kind rec true])
    (hhealth : q.health = p.health.observe (.operation kind) false) :
    q.Guarded ↔ (∀ k j, Failing p.operations k j → k = kind ∧ j = rec.partition) ∨
      (∃ k, k ≠ kind ∧ FailedLast p.operations k) ∨ p.main.observed = true := by
  have hfailing : ∀ k j, Failing q.operations k j ↔
      ¬ (k = kind ∧ j = rec.partition) ∧ Failing p.operations k j := by
    intro k j
    rw [hops, failing_snoc]
    split_ifs with heq
    · obtain ⟨rfl, rfl⟩ := heq
      simp [operation]
    · have hne : ¬ (k = kind ∧ j = rec.partition) := fun hk => heq ⟨hk.1.symm, hk.2.symm⟩
      simp [hne]
  have hready : q.health.ready = false ↔
      (∃ k, k ≠ kind ∧ FailedLast p.operations k) ∨ p.main.observed = true := by
    rw [hhealth, ProcessingHealth.ready_eq_false_iff]
    constructor
    · rintro ⟨key, hkey⟩
      rw [ProcessingHealth.mem_observe] at hkey
      split_ifs at hkey with hne
      cases key with
      | operation k => exact Or.inl ⟨k, fun hk => hne (by rw [hk]), (h.1 k).mp hkey⟩
      | shutdown => exact Or.inr (h.2.mp hkey)
    · rintro (⟨k, hk, hlast⟩ | hmain)
      · refine ⟨.operation k, ?_⟩
        rw [ProcessingHealth.mem_observe, if_neg fun he => hk (HealthKey.operation.inj he)]
        exact (h.1 k).mpr hlast
      · refine ⟨.shutdown, ?_⟩
        rw [ProcessingHealth.mem_observe, if_neg (by simp)]
        exact h.2.mpr hmain
  constructor
  · intro hq
    by_cases hother : ∃ k j, Failing p.operations k j ∧ ¬ (k = kind ∧ j = rec.partition)
    · obtain ⟨k, j, hf, hne⟩ := hother
      exact Or.inr (hready.mp (hq k j ((hfailing k j).mpr ⟨hne, hf⟩)))
    · left
      intro k j hf
      by_contra hne
      exact hother ⟨k, j, hf, hne⟩
  · rintro (honly | hkey) k j hf
    · obtain ⟨hne, hf⟩ := (hfailing k j).mp hf
      exact absurd (honly k j hf) hne
    · exact hready.mpr hkey

/-- What a step of the reader reports is kept. -/
theorem healthInv_step (h : p.HealthInv) {a : Action} (hs : p.step U config a = some q) :
    q.HealthInv := by
  by_cases ha : ∃ id s x, p.supervise = .attempt (.run id s) ∧ a = .attempt (.reader x)
  · obtain ⟨id, s, x, hp, rfl⟩ := ha
    simp only [Process.step, hp, Process.attemptStep, Option.ite_none_right_eq_some,
      Option.map_eq_some_iff] at hs
    obtain ⟨-, ⟨s', out⟩, hstep, rfl⟩ := hs
    have hreported := step_reported hstep
    unfold due at hreported
    split at hreported
    · rename_i kind rec ok _
      exact healthInv_report h (operation kind rec ok)
        (by simp [Process.onOperation, Process.inAttempt, hreported]) rfl
        (by simp [Process.onOperation, Process.inAttempt, hreported])
    · refine healthInv_of_quiet h ?_ (Or.inl ⟨?_, rfl⟩)
      · simp [Process.onOperation, Process.inAttempt, hreported]
      · simp [Process.onOperation, Process.inAttempt, hreported]
  · have hquiet := quiet_step hs fun id s x hp hx => ha ⟨id, s, x, hp, hx⟩
    exact healthInv_of_quiet h hquiet.1 hquiet.2

theorem guarded_step (h : p.Guarded) (hinv : p.HealthInv) {a : Action}
    (hs : p.step U config a = some q) : q.Guarded ↔ p.Clears a := by
  by_cases ha : ∃ id s x, p.supervise = .attempt (.run id s) ∧ a = .attempt (.reader x)
  · obtain ⟨id, s, x, hp, rfl⟩ := ha
    simp only [Process.step, hp, Process.attemptStep, Option.ite_none_right_eq_some,
      Option.map_eq_some_iff] at hs
    obtain ⟨-, ⟨s', out⟩, hstep, rfl⟩ := hs
    have hreported := step_reported hstep
    have hnothing : due s x = [] → ((p.inAttempt (.run id s')).onOperation out).Guarded := by
      intro hdue
      rw [hdue] at hreported
      exact guarded_of_quiet h (by simp [Process.onOperation, Process.inAttempt, hreported])
        (Or.inl (by simp [Process.onOperation, Process.inAttempt, hreported]))
    cases hperf : performing s with
    | none =>
      refine iff_of_true (hnothing (by simp [due, hperf])) ?_
      intro id' s' kind rec hp' _ hperf'
      cases hp.symm.trans hp'
      cases hperf.symm.trans hperf'
    | some due =>
      obtain ⟨kind, rec⟩ := due
      cases x with
      | result ok =>
        simp only [Consumer.due, hperf] at hreported
        cases ok with
        | true =>
          rw [guarded_success (p := p) (q := (p.inAttempt (.run id s')).onOperation out) hinv kind
            rec (by simp [Process.onOperation, Process.inAttempt, hreported])
            (by simp [Process.onOperation, Process.inAttempt, hreported, operation])]
          constructor
          · intro hclears id' s' k r hp' _ hperf'
            cases hp.symm.trans hp'
            cases hperf.symm.trans hperf'
            exact hclears
          · intro hclears
            exact hclears id s kind rec hp rfl hperf
        | false =>
          refine iff_of_true ?_ (by simp [Process.Clears])
          intro _ _ _
          rw [ProcessingHealth.ready_eq_false_iff]
          exact ⟨.operation kind, by simp [Process.onOperation, hreported, operation,
            ProcessingHealth.mem_observe]⟩
      | tau | flag b | fetched f =>
        exact iff_of_true (hnothing (by simp [Consumer.due, hperf])) (by simp [Process.Clears])
  · obtain ⟨hops, hhealth⟩ := quiet_step hs fun id s x hp hx => ha ⟨id, s, x, hp, hx⟩
    refine iff_of_true (guarded_of_quiet h hops (hhealth.imp And.left And.left)) ?_
    intro id s kind rec hp hx
    exact absurd ⟨id, s, _, hp, hx⟩ ha

theorem Process.guarded_start : Process.start.Guarded ∧ Process.start.HealthInv := by
  refine ⟨fun kind partition h => ?_, fun kind => ?_, ?_⟩
  · cases h
  · simp [Process.start, ProcessingHealth.new, FailedLast]
  · simp [Process.start, ProcessingHealth.new, Main.observed]

/-- Failed operations keep the process from being ready all along a run exactly if every success
along it clears nothing but itself. -/
theorem ready_guarded_iff (as : List Action) (p : Process)
    (h : Transition.execute (Process.step U config) .start as = some p) :
    (∀ a b q, as = a ++ b → Transition.execute (Process.step U config) .start a = some q →
        q.Guarded) ↔
      ∀ a x b q, as = a ++ x :: b →
        Transition.execute (Process.step U config) .start a = some q → q.Clears x := by
  have hinv : ∀ a q, Transition.execute (Process.step U config) .start a = some q →
      q.HealthInv := fun a q hq =>
    Transition.execute_invariant (I := fun _ q => q.HealthInv) Process.guarded_start.2
      (fun _ _ _ _ hu hs => healthInv_step hu hs) hq
  rw [← Transition.execute_forall_iff (P := fun q => q.Guarded ∧ q.HealthInv)
    Process.guarded_start (fun u a v hu hs => ?_) h]
  · constructor
    · exact fun hall a b q heq hq => ⟨hall a b q heq hq, hinv a q hq⟩
    · exact fun hall a b q heq hq => (hall a b q heq hq).1
  · rw [and_iff_left (healthInv_step hu.2 hs)]
    exact guarded_step hu.1 hu.2 hs

end Steps

/-- A record of a partition that is not JSON. -/
def poison (partition : ℕ) : Record := ⟨[1], partition, 0, [], [], []⟩

/-- From the start of an attempt to the reader's first step. -/
def openReader : List Action :=
  [.supervise .go, .supervise .go, .attempt (.result true), .attempt .go, .attempt (.result true),
    .attempt .go, .attempt .go]

/-- A poll that returns one such record, up to the outcome of its quarantine. -/
def quarantineOne (partition : ℕ) (ok : Bool) : List Action :=
  [.attempt (.reader (.flag false)), .attempt (.reader (.flag false)),
    .attempt (.reader (.fetched ⟨[[poison partition]], []⟩)), .attempt (.reader (.flag false)),
    .attempt (.reader .tau), .attempt (.reader (.flag false)), .attempt (.reader .tau),
    .attempt (.reader (.result ok))]

/-- The reader has failed: it is closed and the next attempt is due. -/
def closeReader : List Action :=
  [.attempt (.reader .tau), .attempt .go, .attempt .go, .attempt .go, .supervise .go,
    .supervise .go, .supervise .timer]

/-- The quarantine of partition 0 fails, and the next reader comes to partition 1 first. -/
def otherPartition : List Action :=
  openReader ++ quarantineOne 0 false ++ closeReader ++ openReader ++ quarantineOne 1 true

theorem other_partition_restores_readiness : ∃ p ∈ Transition.execute
    (Process.step UUID.standard ⟨[[1]], [1], [2], [3], 500, 1, 1, 1, 1⟩) .start otherPartition,
    p.health.ready = true ∧ Failing p.operations .quarantine 0 := by
  decide +kernel

/-- The quarantine of partition 0 fails, and the next reader comes to the same record. -/
def samePartition : List Action :=
  openReader ++ quarantineOne 0 false ++ closeReader ++ openReader ++
    (quarantineOne 0 true).dropLast

/-- The operation that the reader of the process waits for. -/
def Process.awaited (p : Process) : Option (Kind × Record) :=
  match p.supervise with
  | .attempt (.run _ s) => performing s
  | _ => none

/-- The failure is kept until the quarantine of the same partition succeeds. -/
theorem ready_guarded_failure : ∃ p q, Transition.execute
    (Process.step UUID.standard ⟨[[1]], [1], [2], [3], 500, 1, 1, 1, 1⟩) .start
      samePartition = some p ∧ Failing p.operations .quarantine 0 ∧ p.health.ready = false ∧
    Transition.execute (Process.step UUID.standard ⟨[[1]], [1], [2], [3], 500, 1, 1, 1, 1⟩) .start
      (samePartition ++ [.attempt (.reader (.result true))]) = some q ∧ q.Guarded ∧
    q.health.ready = true := by
  have hrun : ∃ p ∈ Transition.execute
      (Process.step UUID.standard ⟨[[1]], [1], [2], [3], 500, 1, 1, 1, 1⟩) .start samePartition,
      p.operations = [operation .quarantine (poison 0) false] ∧
        p.awaited = some (.quarantine, poison 0) := by
    decide +kernel
  have hend : ∃ q ∈ Transition.execute
      (Process.step UUID.standard ⟨[[1]], [1], [2], [3], 500, 1, 1, 1, 1⟩) .start
        (samePartition ++ [.attempt (.reader (.result true))]), q.health.ready = true := by
    decide +kernel
  obtain ⟨p, hp, hops, hwaits⟩ := hrun
  obtain ⟨q, hq, hready⟩ := hend
  have honly : ∀ k j, Failing p.operations k j → k = .quarantine ∧ j = 0 := by
    intro k j hf
    rw [hops, ← List.nil_append [_], failing_snoc] at hf
    split_ifs at hf with heq
    · exact ⟨heq.1.symm, heq.2.symm⟩
    · cases hf
  have hclears : ∀ a x b u, samePartition ++ [.attempt (.reader (.result true))] = a ++ x :: b →
      Transition.execute (Process.step UUID.standard ⟨[[1]], [1], [2], [3], 500, 1, 1, 1, 1⟩)
        .start a = some u → u.Clears x := by
    intro a x b u heq hu id s kind rec hs hx hperf
    rcases List.eq_nil_or_concat b with rfl | ⟨b, y, rfl⟩
    · obtain ⟨rfl, -⟩ := List.append_inj' heq rfl
      cases hp.symm.trans hu
      rw [Process.awaited, hs] at hwaits
      cases hwaits.symm.trans hperf
      exact Or.inl honly
    · have hmem : x ∈ samePartition := by
        rw [List.concat_eq_append, ← List.cons_append, ← List.append_assoc] at heq
        rw [(List.append_inj' heq rfl).1]
        simp
      rw [hx] at hmem
      exact absurd hmem (by decide)
  have hguarded := (ready_guarded_iff _ q hq).mpr hclears
  have hfailing : Failing p.operations .quarantine 0 := by
    rw [hops]
    decide
  exact ⟨p, q, hp, hfailing, hguarded _ _ p rfl hp .quarantine 0 hfailing, hq,
    hguarded _ [] q (List.append_nil _).symm hq, hready⟩

end IngestKit.Consumer
