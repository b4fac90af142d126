import Mathlib.Algebra.Order.Field.Basic
import Mathlib.Tactic.Linarith
import Mathlib.Tactic.Ring

/-! A token bucket whose callers may present their clock readings in any order. -/
namespace IngestKit.Rate

structure TokenBucket (K : Type*) where
  tokens : K
  stamp : K

namespace TokenBucket
variable {K : Type*} [Field K]

/-- What an answer costs, in tokens. -/
def cost (allowed : Bool) : K := if allowed then 1 else 0

theorem count_cons_cost (allowed : Bool) (answers : List Bool) :
    ((allowed :: answers).count true : K) = cost allowed + (answers.count true : K) := by
  cases allowed <;> simp [cost, add_comm]

variable [LinearOrder K] (cap rate : K)

/-- The tokens at time `now`, at most `cap`; an earlier reading takes tokens away. -/
def refill (now : K) (b : TokenBucket K) : TokenBucket K :=
  ⟨min (b.tokens + (now - b.stamp) * rate) cap, now⟩

/-- Take one token if there is one. -/
def take (now : K) (b : TokenBucket K) : Bool × TokenBucket K :=
  let b := b.refill cap rate now
  if 1 ≤ b.tokens then (true, ⟨b.tokens - 1, b.stamp⟩) else (false, b)

/-- The answers to callers with the given readings, and the bucket after them. -/
def run (b : TokenBucket K) : List K → List Bool × TokenBucket K
  | [] => ([], b)
  | t :: ts =>
    let r := b.take cap rate t
    let rest := run r.2 ts
    (r.1 :: rest.1, rest.2)

variable (b : TokenBucket K)

theorem take_eq (now : K) : b.take cap rate now =
    if 1 ≤ min (b.tokens + (now - b.stamp) * rate) cap then
      (true, ⟨min (b.tokens + (now - b.stamp) * rate) cap - 1, now⟩)
    else (false, ⟨min (b.tokens + (now - b.stamp) * rate) cap, now⟩) := rfl

@[simp] theorem run_nil : b.run cap rate [] = ([], b) := rfl

@[simp] theorem run_cons (t : K) (ts : List K) : b.run cap rate (t :: ts) =
    ((b.take cap rate t).1 :: ((b.take cap rate t).2.run cap rate ts).1,
      ((b.take cap rate t).2.run cap rate ts).2) := rfl

theorem run_append (ts us : List K) : b.run cap rate (ts ++ us) =
    ((b.run cap rate ts).1 ++ ((b.run cap rate ts).2.run cap rate us).1,
      ((b.run cap rate ts).2.run cap rate us).2) := by
  induction ts generalizing b with
  | nil => rfl
  | cons t ts ih => rw [List.cons_append, run_cons, ih, run_cons, List.cons_append]

theorem length_run (ts : List K) : (b.run cap rate ts).1.length = ts.length := by
  induction ts generalizing b with
  | nil => rfl
  | cons t ts ih => rw [run_cons, List.length_cons, ih, List.length_cons]

/-- The answers to a block of callers are those of the bucket the callers before it left. -/
theorem run_block {before block after : List K} {p q r : List Bool} {b' : TokenBucket K}
    (h : b.run cap rate (before ++ block ++ after) = (p ++ q ++ r, b'))
    (hp : p.length = before.length) (hq : q.length = block.length) :
    ((b.run cap rate before).2.run cap rate block).1 = q := by
  rw [run_append, run_append, Prod.mk.injEq] at h
  have hpq := (List.append_inj_left h.1 (by simp [length_run, hp, hq]))
  exact List.append_inj_right hpq (by rw [length_run, hp])

@[simp] theorem stamp_take (now : K) : (b.take cap rate now).2.stamp = now := by
  rw [take_eq]
  split_ifs <;> rfl

theorem stamp_run (ts : List K) (t : K) : (b.run cap rate (ts ++ [t])).2.stamp = t := by
  rw [run_append, run_cons, run_nil, stamp_take]

theorem take_tokens_le (now : K) : (b.take cap rate now).2.tokens + cost (b.take cap rate now).1 ≤
    min (b.tokens + (now - b.stamp) * rate) cap := by
  rw [take_eq]
  split_ifs
  · simp only [cost, if_true, sub_add_cancel, le_refl]
  · simp only [cost, Bool.false_eq_true, if_false, add_zero, le_refl]

section Bounds
variable [IsStrictOrderedRing K]

theorem cost_nonneg (allowed : Bool) : (0 : K) ≤ cost allowed := by
  cases allowed
  · exact le_refl 0
  · exact zero_le_one

theorem take_le_cap (now : K) : (b.take cap rate now).2.tokens ≤ cap := by
  have hle := (b.take_tokens_le cap rate now).trans (min_le_right _ _)
  have hcost := cost_nonneg (K := K) (b.take cap rate now).1
  linarith

theorem run_le_cap (h : b.tokens ≤ cap) (ts : List K) : (b.run cap rate ts).2.tokens ≤ cap := by
  induction ts generalizing b with
  | nil => exact h
  | cons t ts ih => exact ih _ (b.take_le_cap cap rate t)

/-- Tokens less the time they stand for: every granted call takes one away, whatever the
readings. -/
theorem run_potential (ts : List K) :
    (b.run cap rate ts).2.tokens - (b.run cap rate ts).2.stamp * rate +
      ((b.run cap rate ts).1.count true : K) ≤ b.tokens - b.stamp * rate := by
  induction ts generalizing b with
  | nil => simp
  | cons t ts ih =>
    have hrest := ih (b.take cap rate t).2
    have hfirst := (b.take_tokens_le cap rate t).trans (min_le_left _ _)
    rw [stamp_take] at hrest
    rw [run_cons, count_cons_cost]
    linarith

theorem take_nonneg {now : K} (h : (b.take cap rate now).1 = true) :
    0 ≤ (b.take cap rate now).2.tokens := by
  rw [take_eq] at h ⊢
  split_ifs at h ⊢ with hone
  exact sub_nonneg.mpr hone

/-- Among consecutive callers the last of whom is granted a token, at most a full bucket and what
the readings of the first and the last caller are apart are granted. -/
theorem granted_le {ts : List K} {first last : K} (hfirst : ts.head? = some first)
    (hlast : ts.getLast? = some last) (hgranted : (b.run cap rate ts).1.getLast? = some true) :
    ((b.run cap rate ts).1.count true : K) ≤ cap + (last - first) * rate := by
  have hend : 0 ≤ (b.run cap rate ts).2.tokens ∧ (b.run cap rate ts).2.stamp = last := by
    obtain ⟨us, rfl⟩ := List.getLast?_eq_some_iff.mp hlast
    refine ⟨?_, stamp_run cap rate b us last⟩
    rw [run_append, run_cons, run_nil, List.getLast?_append, List.getLast?_singleton,
      Option.some_or, Option.some.injEq] at hgranted
    rw [run_append, run_cons, run_nil]
    exact take_nonneg cap rate _ hgranted
  obtain ⟨us, rfl⟩ := List.head?_eq_some_iff.mp hfirst
  have hrest := run_potential cap rate (b.take cap rate first).2 us
  have htake := (b.take_tokens_le cap rate first).trans (min_le_right _ _)
  rw [stamp_take] at hrest
  rw [run_cons] at hend ⊢
  dsimp only at hend ⊢
  rw [hend.2] at hrest
  rw [count_cons_cost]
  linarith [hend.1]

end Bounds

end TokenBucket

end IngestKit.Rate
