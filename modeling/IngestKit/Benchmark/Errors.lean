import Mathlib.Data.List.ReduceOption

/-! Error values of the benchmark driver: trees built by `errors.Join`, and the class of errors
that only spoil visibility measurements. -/
namespace IngestKit.Benchmark

/-- The errors the driver tells apart with `errors.Is`. -/
inductive Sentinel
  | canceled | deadlineExceeded | observerUnavailable
  deriving DecidableEq

inductive GoError
  | text (message : String)
  | sentinel (s : Sentinel)
  | wrap (message : String) (cause : GoError)
  | observation (cause : GoError)
  | joined (children : List GoError)

namespace GoError

/-- `errors.Join`: absent errors are dropped, and nothing is left of none. -/
def join (errs : List (Option GoError)) : Option GoError :=
  match errs.reduceOption with
  | [] => none
  | es => some (.joined es)

mutual

/-- `errors.Is` for one of the sentinels. -/
def is (s : Sentinel) : GoError → Bool
  | .text _ => false
  | .sentinel t => s == t
  | .wrap _ cause => is s cause
  | .observation cause => is s cause
  | .joined children => isAny s children

def isAny (s : Sentinel) : List GoError → Bool
  | [] => false
  | e :: es => is s e || isAny s es

end

mutual

/-- `observationOnly` of an error that is not nil. -/
def observationOnly : GoError → Bool
  | .observation _ => true
  | .joined [] => false
  | .joined (e :: es) => observationOnly e && observationOnlyAll es
  | .text _ => false
  | .sentinel _ => false
  | .wrap _ _ => false

def observationOnlyAll : List GoError → Bool
  | [] => true
  | e :: es => observationOnly e && observationOnlyAll es

end

theorem observationOnlyAll_iff (es : List GoError) :
    observationOnlyAll es = true ↔ ∀ e ∈ es, observationOnly e = true := by
  induction es with
  | nil => simp [observationOnlyAll]
  | cons e es ih => simp [observationOnlyAll, ih]

theorem observationOnly_joined (es : List GoError) :
    observationOnly (.joined es) = true ↔ es ≠ [] ∧ ∀ e ∈ es, observationOnly e = true := by
  cases es with
  | nil => simp [observationOnly]
  | cons e es => simp [observationOnly, observationOnlyAll_iff]

/-- A join is observation-only when each of its parts is. -/
theorem observationOnly_join {errs : List (Option GoError)} {e : GoError}
    (h : join errs = some e) :
    observationOnly e = true ↔ ∀ x, some x ∈ errs → observationOnly x = true := by
  unfold join at h
  split at h
  · cases h
  · next hne =>
    cases h
    rw [observationOnly_joined]
    simp only [List.reduceOption_mem_iff]
    exact and_iff_right hne

theorem join_eq_none_iff (errs : List (Option GoError)) :
    join errs = none ↔ ∀ e ∈ errs, e = none := by
  have hnil : errs.reduceOption = [] ↔ ∀ e ∈ errs, e = none := by
    rw [List.reduceOption, List.filterMap_eq_nil_iff]
    rfl
  rw [← hnil]
  unfold join
  split
  · simp [*]
  · simp_all

end GoError

/-- `observationOnly`, with nil as `none`. -/
def observationOnly (e : Option GoError) : Bool := e.any GoError.observationOnly

end IngestKit.Benchmark
