import Mathlib.Data.List.Basic

/-! What the services share: the health state that outlives a failed attempt, and the loop that
starts one attempt after the other. -/
namespace IngestKit.Service

/-- The operations whose last outcome was a failure. -/
structure ProcessingHealth (κ : Type*) where
  failed : List κ
  deriving DecidableEq

namespace ProcessingHealth
variable {κ : Type*}

def new : ProcessingHealth κ := ⟨[]⟩

def observe [DecidableEq κ] (h : ProcessingHealth κ) (operation : κ) (err : Bool) : ProcessingHealth κ :=
  if err then ⟨h.failed.insert operation⟩ else ⟨h.failed.filter (· ≠ operation)⟩

def ready (h : ProcessingHealth κ) : Bool := h.failed.length == 0

theorem mem_observe [DecidableEq κ] (h : ProcessingHealth κ) (operation k : κ) (err : Bool) :
    k ∈ (h.observe operation err).failed ↔
      if k = operation then err = true else k ∈ h.failed := by
  cases err <;> by_cases hk : k = operation <;> simp [observe, hk]

theorem ready_eq_false_iff (h : ProcessingHealth κ) : h.ready = false ↔ ∃ k, k ∈ h.failed := by
  rw [ready, beq_eq_false_iff_ne, ne_eq, List.length_eq_zero_iff,
    List.eq_nil_iff_forall_not_mem, not_forall_not]

end ProcessingHealth

section Supervise
variable {α ε : Type*}

/-- Where `Supervise` is; `attempt` holds the state of the attempt it waits for, and errors are
listed as `errors.Join` lists them. -/
inductive Supervise (α ε : Type*)
  | checkWork
  | checkStop
  | attempt (a : α)
  | afterWork (err : Option ε)
  | afterStop (err : Option ε)
  | backoff (err : Option ε)
  | returned (errs : List ε)
  deriving DecidableEq

/-- `go` is a check of a context; the other three are the cases of the select. -/
inductive SuperviseChoice
  | go
  | stopDone
  | workDone
  | timer
  deriving DecidableEq

/-- The loop outside the attempts; the flags say that the contexts are cancelled. -/
def Supervise.step (first : α) (canceled : ε) (stopCtx workCtx : Bool) :
    Supervise α ε → SuperviseChoice → Option (Supervise α ε)
  | .checkWork, .go => some (if workCtx then .returned [canceled] else .checkStop)
  | .checkStop, .go => some (if stopCtx then .returned [] else .attempt first)
  | .afterWork err, .go =>
    some (if workCtx then .returned (err.toList ++ [canceled]) else .afterStop err)
  | .afterStop err, .go => some (if stopCtx then .returned err.toList else .backoff err)
  | .backoff err, .stopDone => if stopCtx then some (.returned err.toList) else none
  | .backoff _, .workDone => if workCtx then some (.returned [canceled]) else none
  | .backoff _, .timer => some .checkWork
  | _, _ => none

/-- The step found a context cancelled. -/
def Supervise.sees (stopCtx workCtx : Bool) : Supervise α ε → SuperviseChoice → Bool
  | .checkWork, .go | .afterWork _, .go | .backoff _, .workDone => workCtx
  | .checkStop, .go | .afterStop _, .go | .backoff _, .stopDone => stopCtx
  | _, _ => false

/-- `Supervise` returns when it finds a context cancelled, and starts an attempt only after both
contexts were found alive. -/
theorem Supervise.step_spec {first : α} {canceled : ε} {stopCtx workCtx : Bool}
    {s t : Supervise α ε} {c : SuperviseChoice}
    (h : s.step first canceled stopCtx workCtx c = some t) :
    (s.sees stopCtx workCtx c = true → ∃ errs, t = .returned errs) ∧
      ∀ a, t = .attempt a → s = .checkStop ∧ a = first := by
  cases s <;> cases c <;> simp only [step, reduceCtorEq, Option.some.injEq,
    Option.ite_none_right_eq_some] at h <;> simp only [sees]
  case checkWork.go | afterWork.go =>
    subst h
    cases workCtx <;> simp
  case checkStop.go =>
    subst h
    cases stopCtx <;> simp
  case afterStop.go =>
    subst h
    cases stopCtx <;> simp
  case backoff.timer =>
    subst h
    simp
  case backoff.stopDone | backoff.workDone =>
    obtain ⟨-, rfl⟩ := h
    simp

end Supervise

end IngestKit.Service
