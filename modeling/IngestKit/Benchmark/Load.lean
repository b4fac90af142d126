import IngestKit.Benchmark.Replies
import Mathlib.Algebra.BigOperators.Group.List.Basic
import Mathlib.Algebra.Order.Group.Multiset
import Mathlib.Tactic.Abel

/-! The offered load is conserved: every planned ID is missed, queued, held by a worker, in an
unread result or recorded, and what is recorded follows the results in the order they were read. -/
namespace IngestKit.Benchmark
open Event

namespace Worker

def ids : Worker → List UUID
  | .took job => job
  | .sending job _ => job
  | .replied v => v.ids
  | .idle | .exited => []

def replies : Worker → List SendResult
  | .replied v => [v]
  | _ => []

end Worker

namespace Sample

/-- IDs that were queued and are not recorded yet. -/
def underway (s : Sample) : Multiset UUID :=
  ↑(s.results.flatMap (·.ids)) + (s.workers.map fun w => (↑w.ids : Multiset UUID)).sum +
    ↑s.jobs.flatten

/-- Replies that are not recorded yet. -/
def replies (s : Sample) : Multiset SendResult :=
  ↑s.results + (s.workers.map fun w => (↑w.replies : Multiset SendResult)).sum

end Sample

theorem sum_map_set {α M : Type*} [AddCommMonoid M] (f : α → M) {l : List α} {i : ℕ} {a b : α}
    (h : l[i]? = some a) : ((l.set i b).map f).sum + f a = (l.map f).sum + f b := by
  induction l generalizing i with
  | nil => simp at h
  | cons c l ih =>
    cases i with
    | zero =>
      have hc : c = a := by simpa using h
      rw [List.set_cons_zero, List.map_cons, List.map_cons, List.sum_cons, List.sum_cons, hc]
      abel
    | succ i =>
      have hl : l[i]? = some a := by simpa using h
      rw [List.set_cons_succ, List.map_cons, List.map_cons, List.sum_cons, List.sum_cons, add_assoc,
        ih hl, add_assoc]

/-- A worker that goes on exchanges its replies. -/
theorem Sample.replies_setWorker {s : Sample} {w : ℕ} {v : Worker} (v' : Worker)
    (hw : s.workers[w]? = some v) :
    (s.setWorker w v').replies + ↑v.replies = s.replies + ↑v'.replies := by
  have hsum := sum_map_set (fun w => (↑w.replies : Multiset SendResult)) (b := v') hw
  simp only [Sample.replies, Sample.setWorker, add_assoc, hsum]

/-- A worker without a reply goes on to a state without one. -/
theorem Sample.replies_move (s : Sample) {w : ℕ} {v : Worker} (v' : Worker)
    (hw : s.workers[w]? = some v) (hr : v.replies = []) (hr' : v'.replies = []) :
    (s.setWorker w v').replies = s.replies := by
  have hset := s.replies_setWorker v' hw
  rwa [hr, hr', Multiset.coe_nil, add_zero, add_zero] at hset

/-- A delivered reply is still unrecorded. -/
theorem Sample.replies_deliver {s : Sample} {w : ℕ} {v : SendResult}
    (hw : s.workers[w]? = some (.replied v)) :
    { s.setWorker w .idle with results := s.results ++ [v] }.replies = s.replies := by
  have hset := s.replies_setWorker .idle hw
  change (s.setWorker w .idle).replies + {v} = s.replies + 0 at hset
  rw [add_zero] at hset
  rw [← hset]
  simp only [Sample.replies, Sample.setWorker, ← Multiset.coe_add, Multiset.coe_singleton]
  abel

theorem Sample.replies_cons {s : Sample} {v : SendResult} {results : List SendResult}
    (hr : s.results = v :: results) :
    s.replies = { s with results := results }.replies + {v} := by
  simp only [Sample.replies, hr, ← Multiset.cons_coe, ← Multiset.singleton_add]
  abel

def Worker.Good (x : Setup) (now : ℤ) : Worker → Prop
  | .took job => Sized x job
  | .sending job started => Sized x job ∧ x.started ≤ started ∧ started ≤ now
  | _ => True

theorem Worker.Good.mono {x : Setup} {now now' : ℤ} {w : Worker} (h : w.Good x now)
    (hle : now ≤ now') : w.Good x now' := by
  cases w with
  | sending job started => exact ⟨h.1, h.2.1, h.2.2.trans hle⟩
  | took job => exact h
  | idle => trivial
  | replied v => trivial
  | exited => trivial

/-- Some request was answered 202 with exactly the IDs it sent. -/
def Acknowledged (trace : List Action) : Prop :=
  ∃ w job, Action.reply w job (.answered 202 (some job)) ∈ trace

/-- `vs` are the replies the main loop has recorded. -/
structure Load (x : Setup) (trace : List Action) (vs : List SendResult) (s : Sample) : Prop where
  started : x.started ≤ s.now
  recorded : Recorded x vs s.loop
  replies_good : ∀ v ∈ (↑vs + s.replies : Multiset SendResult), v.Good x s.now
  workers_good : ∀ w ∈ s.workers, w.Good x s.now
  jobs_sized : ∀ job ∈ s.jobs, Sized x job
  within : ↑(vs.flatMap (·.ids)) + s.underway ≤ (↑(x.ids.take s.scheduler.next) : Multiset UUID)
  conserved : (vs.flatMap (·.ids)).length + s.underway.card + s.scheduler.missed =
    if s.scheduler.phase = .done then x.ids.length else min s.scheduler.next x.ids.length
  behind : s.scheduler.phase = .sleeping ∨ s.scheduler.phase = .timing ∨
    s.scheduler.phase = .offering → s.scheduler.next < x.ids.length
  exited : Worker.exited ∈ s.workers → s.jobs = [] ∧ s.scheduler.phase = .done
  closed : s.resultsClosed = true → ∀ w ∈ s.workers, w = .exited
  length_workers : s.workers.length = x.config.concurrency
  acknowledged : (∃ v ∈ (↑vs + s.replies : Multiset SendResult), v.accepted = true) ↔
    Acknowledged trace

section Steps
variable {x : Setup} {trace : List Action} {vs : List SendResult} {s t : Sample}

theorem acknowledged_snoc {a : Action} (ha : ∀ w job r, a ≠ .reply w job r) :
    Acknowledged (trace ++ [a]) ↔ Acknowledged trace := by
  simp only [Acknowledged, List.mem_append, List.mem_singleton]
  refine ⟨fun ⟨w, job, h⟩ => ⟨w, job, h.resolve_right fun e => ha _ _ _ e.symm⟩, ?_⟩
  rintro ⟨w, job, h⟩
  exact ⟨w, job, Or.inl h⟩

theorem acknowledged_reply {w : ℕ} {job : List UUID} {r : Reply} :
    Acknowledged (trace ++ [Action.reply w job r]) ↔
      Acknowledged trace ∨ r = .answered 202 (some job) := by
  simp only [Acknowledged, List.mem_append, List.mem_singleton, Action.reply.injEq, exists_or]
  refine or_congr_right ⟨?_, fun h => ⟨w, job, rfl, rfl, h.symm⟩⟩
  rintro ⟨_, _, -, rfl, h⟩
  exact h.symm

theorem load_start (x : Setup) : Load x [] [] (Sample.start x) := by
  have hu : (Sample.start x).underway = 0 := by
    simp [Sample.start, Sample.underway, Worker.ids]
  have hr : (Sample.start x).replies = 0 := by
    simp [Sample.start, Sample.replies, Worker.replies]
  constructor
  case started => exact le_rfl
  case recorded => constructor <;> rfl
  case workers_good =>
    intro w hw
    rw [List.eq_of_mem_replicate hw]
    trivial
  case exited => exact fun hw => by simpa using List.eq_of_mem_replicate hw
  case length_workers => simp [Sample.start]
  case jobs_sized => simp [Sample.start]
  case behind => simp [Sample.start]
  case closed => simp [Sample.start]
  case replies_good => simp [hr]
  case within =>
    rw [hu]
    exact Multiset.zero_le _
  case acknowledged => simp [hr, Acknowledged]
  case conserved =>
    rw [hu]
    rfl

/-- The part of the state that the offered load lives in. -/
def Sample.load (s : Sample) :
    Scheduler × List (List UUID) × List Worker × List SendResult × Bool :=
  (s.scheduler, s.jobs, s.workers, s.results, s.resultsClosed)

/-- A step of another component. -/
theorem Load.frame (h : Load x trace vs s) (hload : t.load = s.load) (hnow : s.now ≤ t.now)
    (hrec : t.loop.requests = s.loop.requests) {a : Action}
    (ha : ∀ w job r, a ≠ .reply w job r) : Load x (trace ++ [a]) vs t := by
  obtain ⟨now, cancelled, table, scheduler, jobs, workers, results, closed, observer, oc, loop,
    phase⟩ := t
  simp only [Sample.load, Prod.mk.injEq] at hload
  obtain ⟨rfl, rfl, rfl, rfl, rfl⟩ := hload
  exact
    { h with
      started := h.started.trans hnow
      recorded := h.recorded.congr hrec
      replies_good := fun v hv => (h.replies_good v hv).mono hnow
      workers_good := fun w hw => (h.workers_good w hw).mono hnow
      acknowledged := h.acknowledged.trans (acknowledged_snoc ha).symm }

/-- The scheduler queues the next batch, or counts it or the whole rest as missed. -/
private theorem Load.offer (h : Load x trace vs s) (hp : s.scheduler.phase = .offering)
    (hs : s.schedule x = some t) : Load x (trace ++ [Action.schedule]) vs t := by
  have hack := h.acknowledged.trans (acknowledged_snoc (a := .schedule) (by simp)).symm
  have hcons := h.conserved
  have hlt := h.behind (by simp [hp])
  have hbatch : 0 < x.config.batchSize := x.valid.2.2.2.2.2.2.1
  simp only [hp, reduceCtorEq, if_false] at hcons
  have hexit : Worker.exited ∉ s.workers := fun hw => absurd (h.exited hw).2 (by simp [hp])
  simp only [Sample.schedule, hp] at hs
  obtain ⟨job, hjobdef⟩ : ∃ job, job = (x.ids.drop s.scheduler.next).take x.config.batchSize :=
    ⟨_, rfl⟩
  rw [← hjobdef] at hs
  have htake : x.ids.take (s.scheduler.next + x.config.batchSize) =
      x.ids.take s.scheduler.next ++ job := by rw [hjobdef, List.take_add]
  have hjob : job.length = min x.config.batchSize (x.ids.length - s.scheduler.next) := by
    rw [hjobdef, List.length_take, List.length_drop]
  have hsized : Sized x job := ⟨by omega, by omega⟩
  split_ifs at hs with h1 h2 <;> cases hs
  · have hall : (vs.flatMap (·.ids)).length + s.underway.card +
        (s.scheduler.missed + (x.ids.length - s.scheduler.next)) = x.ids.length := by omega
    exact { h with
      acknowledged := hack
      conserved := hall
      behind := by simp
      exited := fun hw => absurd hw hexit }
  · have hu : { s with jobs := s.jobs ++ [job] }.underway = s.underway + ↑job := by
      simp [Sample.underway, ← Multiset.coe_add, add_assoc]
    have hwithin := add_le_add_left h.within (↑job : Multiset UUID)
    rw [add_assoc, ← hu, Multiset.coe_add, ← htake] at hwithin
    have hcard := congrArg Multiset.card hu
    rw [Multiset.card_add, Multiset.coe_card, hjob] at hcard
    have hsum : (vs.flatMap (·.ids)).length + { s with jobs := s.jobs ++ [job] }.underway.card +
        s.scheduler.missed = min (s.scheduler.next + x.config.batchSize) x.ids.length := by omega
    exact { h with
      acknowledged := hack
      jobs_sized := by simpa [or_imp, forall_and] using ⟨h.jobs_sized, hsized⟩
      within := hwithin
      conserved := hsum
      behind := by simp
      exited := fun hw => absurd hw hexit }
  · have hmore : (↑(x.ids.take s.scheduler.next) : Multiset UUID) ≤
        ↑(x.ids.take (s.scheduler.next + x.config.batchSize)) := by
      rw [htake, ← Multiset.coe_add]
      exact Multiset.le_add_right _ _
    have hsum : (vs.flatMap (·.ids)).length + s.underway.card + (s.scheduler.missed + job.length) =
        min (s.scheduler.next + x.config.batchSize) x.ids.length := by omega
    exact { h with
      acknowledged := hack
      within := h.within.trans hmore
      conserved := hsum
      behind := by simp
      exited := fun hw => absurd hw hexit }

theorem Load.schedule (h : Load x trace vs s) (hs : s.schedule x = some t) :
    Load x (trace ++ [Action.schedule]) vs t := by
  have hack := h.acknowledged.trans (acknowledged_snoc (a := .schedule) (by simp)).symm
  have hcons := h.conserved
  cases hp : s.scheduler.phase with
  | waiting =>
    simp only [Sample.schedule, hp] at hs
    simp only [hp, reduceCtorEq, if_false] at hcons
    split_ifs at hs with h1 h2 <;> cases hs
    · have hall : (vs.flatMap (·.ids)).length + s.underway.card + s.scheduler.missed =
          x.ids.length := by omega
      exact { h with
        acknowledged := hack
        conserved := hall
        behind := by simp
        exited := fun hw => ⟨(h.exited hw).1, rfl⟩ }
    · exact { h with
        acknowledged := hack
        conserved := hcons
        behind := fun _ => not_le.mp h1
        exited := fun hw => absurd (h.exited hw).2 (by simp [hp]) }
    · exact { h with
        acknowledged := hack
        conserved := hcons
        behind := fun _ => not_le.mp h1
        exited := fun hw => absurd (h.exited hw).2 (by simp [hp]) }
  | sleeping =>
    simp only [Sample.schedule, hp] at hs
    simp only [hp, reduceCtorEq, if_false] at hcons
    split_ifs at hs
    cases hs
    exact { h with
      acknowledged := hack
      conserved := hcons
      behind := fun _ => h.behind (by simp [hp])
      exited := fun hw => absurd (h.exited hw).2 (by simp [hp]) }
  | timing =>
    simp only [Sample.schedule, hp] at hs
    simp only [hp, reduceCtorEq, if_false] at hcons
    cases hs
    exact { h with
      acknowledged := hack
      conserved := hcons
      behind := fun _ => h.behind (by simp [hp])
      exited := fun hw => absurd (h.exited hw).2 (by simp [hp]) }
  | offering => exact h.offer hp hs
  | done => simp [Sample.schedule, hp] at hs

theorem Load.abandonSchedule (h : Load x trace vs s) (hs : s.abandonSchedule x = some t) :
    Load x (trace ++ [Action.abandonSchedule]) vs t := by
  have hack := h.acknowledged.trans (acknowledged_snoc (a := .abandonSchedule) (by simp)).symm
  have hcons := h.conserved
  simp only [Sample.abandonSchedule] at hs
  split_ifs at hs with hp
  cases hs
  have hlt := h.behind (Or.inl hp.1)
  simp only [hp.1, reduceCtorEq, if_false] at hcons
  have hall : (vs.flatMap (·.ids)).length + s.underway.card +
      (s.scheduler.missed + (x.ids.length - s.scheduler.next)) = x.ids.length := by omega
  exact { h with
    acknowledged := hack
    conserved := hall
    behind := by simp
    exited := fun hw => ⟨(h.exited hw).1, rfl⟩ }

/-- A worker goes on without finishing a reply, taking IDs from the queue or keeping its own. -/
private theorem Load.move (h : Load x trace vs s) {w : ℕ} {v : Worker} (v' : Worker)
    (jobs : List (List UUID)) (hw : s.workers[w]? = some v)
    (hids : v.ids ++ s.jobs.flatten = v'.ids ++ jobs.flatten)
    (hjobs : ∀ job ∈ jobs, job ∈ s.jobs) (hnew : v'.Good x s.now) (hr : v.replies = [])
    (hr' : v'.replies = []) (hexit : v' = .exited → jobs = [] ∧ s.scheduler.phase = .done)
    (hopen : v ≠ .exited) {a : Action} (ha : ∀ w job r, a ≠ .reply w job r) :
    Load x (trace ++ [a]) vs { s.setWorker w v' with jobs := jobs } := by
  have hu : { s.setWorker w v' with jobs := jobs }.underway = s.underway := by
    have hsum := sum_map_set (fun w => (↑w.ids : Multiset UUID)) (b := v') hw
    have hids' := congrArg (fun l : List UUID => (↑l : Multiset UUID)) hids
    simp only [← Multiset.coe_add] at hids'
    refine add_right_cancel (b := (↑v.ids : Multiset UUID)) ?_
    calc ↑(s.results.flatMap (·.ids)) +
          ((s.workers.set w v').map fun w => (↑w.ids : Multiset UUID)).sum + ↑jobs.flatten + ↑v.ids
        = ↑(s.results.flatMap (·.ids)) +
          (((s.workers.set w v').map fun w => (↑w.ids : Multiset UUID)).sum + ↑v.ids) +
            ↑jobs.flatten := by abel
      _ = ↑(s.results.flatMap (·.ids)) + (s.workers.map fun w => (↑w.ids : Multiset UUID)).sum +
          (↑v'.ids + ↑jobs.flatten) := by rw [hsum]; abel
      _ = s.underway + ↑v.ids := by rw [← hids', Sample.underway]; abel
  have hreplies : { s.setWorker w v' with jobs := jobs }.replies = s.replies :=
    s.replies_move _ hw hr hr'
  have hmem : ∀ u ∈ s.workers.set w v', u ∈ s.workers ∨ u = v' :=
    fun u hu => List.mem_or_eq_of_mem_set hu
  exact
    { started := h.started
      recorded := h.recorded
      replies_good := by rw [hreplies]; exact h.replies_good
      workers_good := fun u hu => (hmem u hu).elim (h.workers_good u) (· ▸ hnew)
      jobs_sized := fun job hj => h.jobs_sized job (hjobs job hj)
      within := by rw [hu]; exact h.within
      conserved := by rw [hu]; exact h.conserved
      behind := h.behind
      exited := fun he => (hmem _ he).elim
        (fun hold => ⟨List.eq_nil_iff_forall_not_mem.mpr fun job hj => by
          simpa [(h.exited hold).1] using hjobs job hj, (h.exited hold).2⟩) fun e => hexit e.symm
      closed := fun hc => absurd (h.closed hc v (List.mem_of_getElem? hw)) hopen
      length_workers := by simpa [Sample.setWorker] using h.length_workers
      acknowledged := by
        rw [hreplies]
        exact h.acknowledged.trans (acknowledged_snoc ha).symm }

theorem Load.take (h : Load x trace vs s) {w : ℕ} (hs : s.take w = some t) :
    Load x (trace ++ [Action.take w]) vs t := by
  unfold Sample.take at hs
  split at hs
  next job jobs hw hjobs =>
    cases hs
    have hsized : Sized x job := h.jobs_sized job (by simp [hjobs])
    exact h.move (.took job) jobs hw (by simp [Worker.ids, hjobs])
      (fun j hj => by simp [hjobs, hj]) hsized rfl rfl (by simp) (by simp) (by simp)
  next => cases hs

theorem Load.begin (h : Load x trace vs s) {w : ℕ} (hs : s.begin w = some t) :
    Load x (trace ++ [Action.begin w]) vs t := by
  unfold Sample.begin at hs
  split at hs
  next job hw =>
    cases hs
    have hsized : Sized x job := h.workers_good _ (List.mem_of_getElem? hw)
    exact h.move (.sending job s.now) s.jobs hw (by simp [Worker.ids]) (fun _ hj => hj)
      ⟨hsized, h.started, le_rfl⟩ rfl rfl (by simp) (by simp) (by simp)
  next => cases hs

theorem Load.exit (h : Load x trace vs s) {w : ℕ} (hs : s.exit w = some t) :
    Load x (trace ++ [Action.exit w]) vs t := by
  unfold Sample.exit at hs
  split at hs
  next hw hjobs =>
    split_ifs at hs with hdone
    cases hs
    exact h.move .exited s.jobs hw (by simp [Worker.ids]) (fun _ hj => hj) trivial rfl rfl
      (fun _ => ⟨hjobs, hdone⟩) (by simp) (by simp)
  next => cases hs

theorem Load.reply (h : Load x trace vs s) {w : ℕ} {job : List UUID} {r : Reply}
    (hs : s.reply w job r = some t) : Load x (trace ++ [Action.reply w job r]) vs t := by
  unfold Sample.reply at hs
  split at hs
  next job' started hw =>
    split_ifs at hs with hjob
    subst hjob
    cases hs
    obtain ⟨hsized, hst, hnow⟩ := h.workers_good _ (List.mem_of_getElem? hw)
    obtain ⟨v, hv⟩ : ∃ v : SendResult, v = { send job r with
      ids := job, started := started, finished := s.now, elapsedNS := s.now - started } := ⟨_, rfl⟩
    rw [← hv]
    have hids : v.ids = job := by rw [hv]
    have hacc : v.accepted = true ↔ r = .answered 202 (some job) := by
      rw [hv]
      exact send_accepted job r
    have hgood : v.Good x s.now := by
      subst hv
      exact ⟨hsized, hst, hnow, le_rfl, rfl, send_exclusive job r⟩
    have hmem : ∀ u ∈ s.workers.set w (.replied v), u ∈ s.workers ∨ u = .replied v :=
      fun u hu => List.mem_or_eq_of_mem_set hu
    have hu : (s.setWorker w (.replied v)).underway = s.underway := by
      have hsum := sum_map_set (fun w => (↑w.ids : Multiset UUID)) (b := .replied v) hw
      change _ + (↑job : Multiset UUID) = _ + (↑v.ids : Multiset UUID) at hsum
      rw [hids, add_left_inj] at hsum
      simp only [Sample.underway, Sample.setWorker, hsum]
    have hreplies : (s.setWorker w (.replied v)).replies = s.replies + {v} := by
      have hset := s.replies_setWorker (.replied v) hw
      change _ + (0 : Multiset SendResult) = _ + {v} at hset
      rwa [add_zero] at hset
    exact
      { h with
        replies_good := by
          intro u hu
          rw [hreplies, ← add_assoc, Multiset.mem_add, Multiset.mem_singleton] at hu
          exact hu.elim (h.replies_good u) fun e => e ▸ hgood
        workers_good := fun u hu => (hmem u hu).elim (h.workers_good u) fun e => by
          rw [e]
          trivial
        within := by rw [hu]; exact h.within
        conserved := by rw [hu]; exact h.conserved
        exited := fun he => h.exited ((hmem _ he).resolve_right (by simp))
        closed := fun hc => absurd (h.closed hc _ (List.mem_of_getElem? hw)) (by simp)
        length_workers := by simpa [Sample.setWorker] using h.length_workers
        acknowledged := by
          rw [acknowledged_reply, ← h.acknowledged, hreplies, ← add_assoc]
          simp only [Multiset.mem_add, Multiset.mem_singleton, or_and_right, exists_or,
            exists_eq_left, hacc] }
  next => cases hs

theorem Load.deliver (h : Load x trace vs s) {w : ℕ} (hs : s.deliver x w = some t) :
    Load x (trace ++ [Action.deliver w]) vs t := by
  unfold Sample.deliver at hs
  split at hs
  next v hw =>
    split_ifs at hs
    cases hs
    have hmem : ∀ u ∈ s.workers.set w .idle, u ∈ s.workers ∨ u = .idle :=
      fun u hu => List.mem_or_eq_of_mem_set hu
    have hu : { s.setWorker w .idle with results := s.results ++ [v] }.underway = s.underway := by
      have hsum := sum_map_set (fun w => (↑w.ids : Multiset UUID)) (b := .idle) hw
      change _ + (↑v.ids : Multiset UUID) = _ + (0 : Multiset UUID) at hsum
      rw [add_zero] at hsum
      simp only [Sample.underway, Sample.setWorker, ← hsum, List.flatMap_append,
        List.flatMap_singleton, ← Multiset.coe_add]
      abel
    have hreplies := Sample.replies_deliver hw
    exact
      { h with
        replies_good := by rw [hreplies]; exact h.replies_good
        workers_good := fun u hu => (hmem u hu).elim (h.workers_good u) fun e => by
          rw [e]
          trivial
        within := by rw [hu]; exact h.within
        conserved := by rw [hu]; exact h.conserved
        exited := fun he => h.exited ((hmem _ he).resolve_right (by simp))
        closed := fun hc => absurd (h.closed hc _ (List.mem_of_getElem? hw)) (by simp)
        length_workers := by simpa [Sample.setWorker] using h.length_workers
        acknowledged := by
          rw [hreplies, acknowledged_snoc (by simp)]
          exact h.acknowledged }
  next => cases hs

theorem Load.closeResults (h : Load x trace vs s) (hs : s.closeResults = some t) :
    Load x (trace ++ [Action.closeResults]) vs t := by
  unfold Sample.closeResults at hs
  split_ifs at hs with hall
  cases hs
  rw [List.all_eq_true] at hall
  exact { h with
    closed := fun _ w hw => by
      have := hall w hw
      split at this
      · rfl
      · cases this
    acknowledged := h.acknowledged.trans (acknowledged_snoc (by simp)).symm }

/-- The main loop reads a result, or sees that there will be no more. -/
theorem Load.onResult (h : Load x trace vs s) (hs : s.onResult x = some t) :
    ∃ vs', Load x (trace ++ [Action.onResult]) vs' t := by
  unfold Sample.onResult at hs
  split at hs
  next v results _ _ hr =>
    cases hs
    have hu : s.underway = { s with results := results }.underway + ↑v.ids := by
      simp only [Sample.underway, hr, List.flatMap_cons, ← Multiset.coe_add]
      abel
    have hreplies := Sample.replies_cons hr
    have hall : (↑((vs ++ [v]).flatMap (·.ids)) : Multiset UUID) +
        { s with results := results }.underway = ↑(vs.flatMap (·.ids)) + s.underway := by
      rw [hu, List.flatMap_append, List.flatMap_singleton, ← Multiset.coe_add]
      abel
    have hreplied : (↑(vs ++ [v]) : Multiset SendResult) + { s with results := results }.replies =
        ↑vs + s.replies := by
      rw [hreplies, ← Multiset.coe_add, Multiset.coe_singleton]
      abel
    refine ⟨vs ++ [v], { h with
      recorded := h.recorded.record v
      replies_good := ?_
      within := ?_
      conserved := ?_
      acknowledged := ?_ }⟩
    · exact fun u hu => h.replies_good u (hreplied ▸ hu)
    · exact hall ▸ h.within
    · have hcons := h.conserved
      have hcard := congrArg Multiset.card hall
      simp only [Multiset.card_add, Multiset.coe_card] at hcard
      rw [← hcard] at hcons
      exact hcons
    · rw [acknowledged_snoc (by simp), ← h.acknowledged, ← hreplied]
      rfl
  next =>
    split_ifs at hs
    cases hs
    exact ⟨vs, { h with
      recorded := h.recorded.congr rfl
      acknowledged := h.acknowledged.trans (acknowledged_snoc (by simp)).symm }⟩
  next => cases hs

end Steps

end IngestKit.Benchmark
