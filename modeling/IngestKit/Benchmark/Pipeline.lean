import IngestKit.Benchmark.Settled
import IngestKit.Benchmark.Workload

/-! `RunPipeline`: a warm-up and the repetitions of one case. -/
namespace IngestKit.Benchmark
open Event

/-- What the scheduler's arithmetic and the clock give a repetition. -/
structure Timing where
  due : ℕ → ℤ
  interval : ℤ
  started : ℤ

/-- The fixed data of repetition `rep` of a configuration, with the dataset generated for it. -/
def Timing.setup (t : Timing) (c : PipelineConfig) (hc : c.Valid) (rep : ℕ)
    (expected : List Envelope) : Setup :=
  ⟨c, hc, rep, expected, t.due, t.interval, t.started⟩

/-- What happens in one repetition once its dataset is generated: rows of it exist already or cannot
be read, its observer cannot be created, or it is sampled. `finished` is the error of the hook that
waits for the consumer. -/
inductive Repetition
  | refused (err : GoError)
  | unobserved (err : GoError) (finished : Option GoError)
  | sampled (timing : Timing) (actions : List Action) (finished : Option GoError)

namespace PipelineConfig

/-- A namespace that was not given is drawn at random. -/
def named (c : PipelineConfig) (fresh : Bytes) : PipelineConfig :=
  if c.space = [] then { c with space := fresh } else c

def workloadConfig (P : Platform) (c : PipelineConfig) (rep : ℕ) : WorkloadConfig where
  space := c.space
  payloadProfile := c.payloadProfile.orVaried
  seed := c.seed + rep
  count := P.offered c.rate c.duration
  payloadBytes := c.payloadBytes
  duplicateFraction := 0

def warm (c : PipelineConfig) : PipelineConfig :=
  { c with
    duration := c.warmup
    seed := c.seed - 1000000 }

theorem Valid.warm {c : PipelineConfig} (h : c.Valid) (hw : 0 < c.warmup) : c.warm.Valid := by
  obtain ⟨h1, h2, h3, -, h5⟩ := h
  exact ⟨h1, h2, h3, hw, h5⟩

end PipelineConfig

/-- The closure `run`: one repetition and its error, if it comes to an end. -/
def runOnce (P : Platform) (c : PipelineConfig) (hc : c.Valid) (rep : ℕ) (a : Repetition) :
    Option (PipelineRun × Option GoError) :=
  match workload P (c.workloadConfig P rep), a with
  | .error err, _ => some ({}, some err)
  | .ok _, .refused err => some ({}, some err)
  | .ok _, .unobserved err finished => some ({}, GoError.join [some err, finished])
  | .ok expected, .sampled timing actions finished =>
    (Sample.recordedRun P (timing.setup c hc rep expected) actions).map fun p =>
      (p.1, GoError.join [p.2, finished])

/-- The loop over the repetitions from number `i` on. It goes on after an observation error. -/
def repeatRuns (P : Platform) (c : PipelineConfig) (hc : c.Valid) (i : ℕ) (runs : List PipelineRun)
    (observationErrors : Option GoError) :
    List Repetition → Option (List PipelineRun × Option GoError)
  | [] => if c.repetitions < i then some (runs, observationErrors) else none
  | a :: rest =>
    if c.repetitions < i then none
    else
      match runOnce P c hc i a with
      | none => none
      | some (v, none) => repeatRuns P c hc (i + 1) (runs ++ [v]) observationErrors rest
      | some (v, some err) =>
        if err.observationOnly then
          repeatRuns P c hc (i + 1) (runs ++ [v]) (GoError.join [observationErrors, some err]) rest
        else if rest.isEmpty then some (runs ++ [v], some err) else none

/-- What happens in one call. `refusal` is an error of the workload's or the transport's check. -/
structure PipelineCall where
  fresh : Bytes
  refusal : Option GoError
  warmup : Repetition
  repetitions : List Repetition

/-- `RunPipeline`: its report and error. -/
def runPipeline (P : Platform) (c : PipelineConfig) (call : PipelineCall) :
    Option (PipelineReport × Option GoError) :=
  let c := c.named call.fresh
  if hc : c.Valid then
    match call.refusal with
    | some err => some (⟨[]⟩, some err)
    | none =>
      let warmErr := if hw : 0 < c.warmup then
          (runOnce P c.warm (hc.warm hw) 0 call.warmup).map Prod.snd
        else some none
      match warmErr with
      | none => none
      | some err =>
        if observationOnly err || err.isNone then
          (repeatRuns P c hc 1 [] none call.repetitions).map fun p => (⟨p.1⟩, p.2)
        else some (⟨[]⟩, err.map (.wrap "warm-up: "))
  else some (⟨[]⟩, some (.text "invalid pipeline configuration"))

section Specs
variable {P : Platform} {c : PipelineConfig} {hc : c.Valid}

/-- Run `j` was returned by repetition `j + 1`, and without an error unless there is `err`. -/
def Returned (P : Platform) (c : PipelineConfig) (hc : c.Valid) (reps : List Repetition)
    (err : Option GoError) (runs : List PipelineRun) : Prop :=
  ∀ (j : ℕ) (r : PipelineRun), runs[j]? = some r → ∃ a e, reps[j]? = some a ∧
    runOnce P c hc (j + 1) a = some (r, e) ∧ (err = none → e = none)

theorem returned_snoc {reps : List Repetition} {a : Repetition} {runs : List PipelineRun}
    {v : PipelineRun} {e errs err : Option GoError} (hruns : Returned P c hc reps errs runs)
    (ha : reps[runs.length]? = some a) (hv : runOnce P c hc (runs.length + 1) a = some (v, e))
    (he : err = none → errs = none ∧ e = none) : Returned P c hc reps err (runs ++ [v]) := by
  intro j r hr
  rcases lt_or_ge j runs.length with hj | hj
  · rw [List.getElem?_append_left hj] at hr
    obtain ⟨b, e', hb, hrun, he'⟩ := hruns j r hr
    exact ⟨b, e', hb, hrun, fun hn => he' (he hn).1⟩
  · rw [List.getElem?_append_right hj, List.getElem?_singleton] at hr
    split_ifs at hr with h0
    cases hr
    have hlast : j = runs.length := by omega
    subst hlast
    exact ⟨a, e, ha, hv, fun hn => (he hn).2⟩

theorem returned_of_repeatRuns {reps rest : List Repetition} {i : ℕ}
    {runs runs' : List PipelineRun} {errs err : Option GoError}
    (h : repeatRuns P c hc i runs errs rest = some (runs', err)) (hi : i = runs.length + 1)
    (hrest : reps.drop runs.length = rest) (hruns : Returned P c hc reps errs runs) :
    Returned P c hc reps err runs' := by
  induction rest generalizing i runs errs with
  | nil =>
    rw [repeatRuns] at h
    split_ifs at h
    cases h
    exact hruns
  | cons a rest ih =>
    have ha : reps[runs.length]? = some a := by
      rw [← List.head?_drop, hrest]
      rfl
    have hdrop (v : PipelineRun) : reps.drop (runs ++ [v]).length = rest := by
      rw [List.length_append, List.length_singleton, ← List.drop_drop, hrest]
      rfl
    have hnext (v : PipelineRun) : i + 1 = (runs ++ [v]).length + 1 := by
      rw [List.length_append, List.length_singleton, hi]
    subst hi
    rw [repeatRuns] at h
    by_cases hlast : c.repetitions < runs.length + 1
    · rw [if_pos hlast] at h
      cases h
    rw [if_neg hlast] at h
    cases hrun : runOnce P c hc (runs.length + 1) a with
    | none => simp [hrun] at h
    | some p =>
      obtain ⟨v, _ | verr⟩ := p
      · simp only [hrun] at h
        exact ih h (hnext v) (hdrop v) (returned_snoc hruns ha hrun fun hn => ⟨hn, rfl⟩)
      · simp only [hrun] at h
        split_ifs at h
        · refine ih h (hnext v) (hdrop v) (returned_snoc hruns ha hrun fun hn => ?_)
          rw [GoError.join_eq_none_iff] at hn
          exact ⟨hn errs (by simp), hn (some verr) (by simp)⟩
        · cases h
          exact returned_snoc hruns ha hrun fun hn => by cases hn

/-- A run of a repetition that passed its delivery was sampled. -/
theorem sampled_of_passed {rep : ℕ} {a : Repetition} {r : PipelineRun} {e : Option GoError}
    (h : runOnce P c hc rep a = some (r, e)) (hd : r.deliveryStatus = .passed) :
    ∃ expected timing actions finished e', a = .sampled timing actions finished ∧
      workload P (c.workloadConfig P rep) = .ok expected ∧
      Sample.recordedRun P (timing.setup c hc rep expected) actions = some (r, e') := by
  unfold runOnce at h
  split at h
  · cases h
    cases hd
  · cases h
    cases hd
  · cases h
    cases hd
  next expected timing actions finished hexpected =>
    obtain ⟨⟨r', e'⟩, hr, he⟩ := Option.map_eq_some_iff.mp h
    cases he
    exact ⟨expected, timing, actions, finished, e', rfl, hexpected, hr⟩

theorem passed_of_runOnce {rep : ℕ} {a : Repetition} {r : PipelineRun}
    (h : runOnce P c hc rep a = some (r, none)) : r.deliveryStatus = .passed := by
  unfold runOnce at h
  split at h
  · cases h
  · cases h
  · rw [Option.some.injEq, Prod.mk.injEq, GoError.join_eq_none_iff] at h
    cases h.2 _ List.mem_cons_self
  · obtain ⟨⟨r', e'⟩, hr, he⟩ := Option.map_eq_some_iff.mp h
    rw [Prod.mk.injEq, GoError.join_eq_none_iff] at he
    obtain ⟨rfl, hnone⟩ := he
    have he' := hnone _ List.mem_cons_self
    dsimp only at he'
    exact passed_of_recordedRun (he' ▸ hr)

end Specs

end IngestKit.Benchmark
