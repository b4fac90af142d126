import IngestKit.Api.RateLimit
import Mathlib.Data.List.Dedup

/-! The rate limiter with whole calls: `allow` and `cleanup` one after the other, and one bucket
that is never evicted as the reference of what a tenant is told. -/
namespace IngestKit.Api

/-- The map of the limiter. -/
abbrev Limiters := Bytes → Option Bucket

namespace Limiters

def empty : Limiters := fun _ => none

def allow (rps : ℕ) (tenant : Bytes) (now : ℤ) (m : Limiters) : Allowance × Limiters :=
  let b := (m tenant).getD (.new rps now)
  let r := b.allow rps now
  (r.1, Function.update m tenant (some r.2))

/-- Buckets that were idle for longer than `bucketTTL` are dropped. -/
def cleanup (bucketTTL : ℤ) (now : ℤ) (m : Limiters) : Limiters :=
  fun tenant => (m tenant).filter fun b => ¬now - b.lastAccess > bucketTTL

inductive Op
  | allow (tenant : Bytes) (now : ℤ)
  | cleanup (now : ℤ)

namespace Op

def now : Op → ℤ
  | .allow _ now => now
  | .cleanup now => now

/-- The time of a call of this tenant. -/
def callTime (tenant : Bytes) : Op → Option ℤ
  | .allow t now => if t = tenant then some now else none
  | .cleanup _ => none

end Op

def apply (rps : ℕ) (bucketTTL : ℤ) (m : Limiters) : Op → List (Bytes × Allowance) × Limiters
  | .allow tenant now => ([(tenant, (m.allow rps tenant now).1)], (m.allow rps tenant now).2)
  | .cleanup now => ([], m.cleanup bucketTTL now)

/-- What the calls return, with the tenant each was for. -/
def serve (rps : ℕ) (bucketTTL : ℤ) (m : Limiters) : List Op → List (Bytes × Allowance)
  | [] => []
  | op :: ops => (m.apply rps bucketTTL op).1 ++ serve rps bucketTTL (m.apply rps bucketTTL op).2 ops

/-- The results given to one tenant. -/
def resultsOf (tenant : Bytes) (results : List (Bytes × Allowance)) : List Allowance :=
  (results.filter (·.1 = tenant)).map Prod.snd

end Limiters

/-- What one bucket answers to calls at these times. -/
def Bucket.answers (rps : ℕ) (b : Bucket) : List ℤ → List Allowance
  | [] => []
  | t :: ts => (b.allow rps t).1 :: (b.allow rps t).2.answers rps ts

/-- A single bucket, made at the first of these calls unless `b` is it already. -/
def answersFrom (rps : ℕ) (b : Option Bucket) : List ℤ → List Allowance
  | [] => []
  | t :: ts => (b.getD (.new rps t)).answers rps (t :: ts)

/-- The never evicted bucket of a tenant with calls at these times. -/
def neverEvicted (rps : ℕ) (times : List ℤ) : List Allowance := answersFrom rps none times

theorem answersFrom_cons (rps : ℕ) (b : Option Bucket) (t : ℤ) (ts : List ℤ) :
    answersFrom rps b (t :: ts) = ((b.getD (.new rps t)).allow rps t).1 ::
      answersFrom rps (some ((b.getD (.new rps t)).allow rps t).2) ts := by
  cases ts <;> rfl

namespace Bucket
variable {rps : ℕ} {now : ℤ} {b : Bucket}

theorem lastUpdate_allow (rps : ℕ) (now : ℤ) (b : Bucket) :
    (b.allow rps now).2.lastUpdate = now ∧ (b.allow rps now).2.lastAccess = now := by
  unfold allow
  dsimp only
  split_ifs <;> exact ⟨rfl, rfl⟩

/-- The refilled and capped tokens. -/
private theorem allow_congr {b c : Bucket}
    (h : min (b.tokens + seconds (now - b.lastUpdate) * rps) (rps : ℚ) =
      min (c.tokens + seconds (now - c.lastUpdate) * rps) (rps : ℚ)) :
    b.allow rps now = c.allow rps now := by
  have hmin : ∀ x : ℚ, (if x > rps then (rps : ℚ) else x) = min x rps := by
    intro x
    rw [min_def]
    split_ifs <;> first | rfl | linarith
  simp only [seconds] at h
  unfold allow
  dsimp only
  rw [hmin, hmin, h]

theorem seconds_nonneg {t : ℤ} (h : 0 ≤ t) : 0 ≤ seconds t :=
  div_nonneg (Int.cast_nonneg h) (by norm_num)

theorem one_le_seconds {t : ℤ} (h : 1000000000 ≤ t) : 1 ≤ seconds t := by
  rw [seconds, le_div_iff₀ (by norm_num), one_mul]
  exact_mod_cast h

/-- A bucket that was left alone for a second is as good as a new one. -/
theorem allow_of_idle (htokens : 0 ≤ b.tokens) (hidle : b.lastUpdate + 1000000000 ≤ now) :
    b.allow rps now = (new rps now).allow rps now := by
  apply allow_congr
  have hrps : (0 : ℚ) ≤ rps := Nat.cast_nonneg rps
  have hone : 1 ≤ seconds (now - b.lastUpdate) := one_le_seconds (by omega)
  have hfull : (rps : ℚ) ≤ seconds (now - b.lastUpdate) * rps := le_mul_of_one_le_left hrps hone
  have hnew : seconds (now - (new rps now).lastUpdate) = 0 := by
    rw [new, sub_self, seconds, Int.cast_zero, zero_div]
  rw [min_eq_right (by linarith), hnew, zero_mul, add_zero, new, min_self]

theorem tokens_allow_nonneg (htokens : 0 ≤ b.tokens) (hle : b.lastUpdate ≤ now) :
    0 ≤ (b.allow rps now).2.tokens := by
  have hrps : (0 : ℚ) ≤ rps := Nat.cast_nonneg rps
  have helapsed : 0 ≤ seconds (now - b.lastUpdate) * rps :=
    mul_nonneg (seconds_nonneg (by omega)) hrps
  rw [seconds] at helapsed
  unfold allow
  dsimp only
  split_ifs with h1 h2 h2 <;> dsimp only <;> linarith

end Bucket

namespace Limiters
variable {rps : ℕ} {bucketTTL now t : ℤ} {b g : Option Bucket}

/-- `b` is the tenant's bucket in the map at `now` and `g` its bucket that is never evicted. They
are the same, or `b` was evicted when `g` had been idle for too long. -/
structure Agrees (bucketTTL now : ℤ) (b g : Option Bucket) : Prop where
  kept : ∀ c ∈ b, g = some c
  evicted : b = none → ∀ c ∈ g, c.lastAccess + bucketTTL < now
  sound : ∀ c ∈ g, 0 ≤ c.tokens ∧ c.lastUpdate = c.lastAccess ∧ c.lastAccess ≤ now

theorem agrees_none (bucketTTL now : ℤ) : Agrees bucketTTL now none none where
  kept _ h := by cases h
  evicted _ _ h := by cases h
  sound _ h := by cases h

theorem Agrees.mono (h : Agrees bucketTTL now b g) (hle : now ≤ t) : Agrees bucketTTL t b g :=
  ⟨h.kept, fun hb c hc => (h.evicted hb c hc).trans_le hle,
    fun c hc => ⟨(h.sound c hc).1, (h.sound c hc).2.1, (h.sound c hc).2.2.trans hle⟩⟩

theorem Agrees.cleanup (h : Agrees bucketTTL now b g) (hle : now ≤ t) :
    Agrees bucketTTL t (b.filter fun b => ¬t - b.lastAccess > bucketTTL) g := by
  have hlater := h.mono hle
  cases b with
  | none => exact hlater
  | some c =>
    rw [Option.filter_some]
    split_ifs with hidle
    · exact hlater
    · refine ⟨fun _ hd => (by cases hd), fun _ d hd => ?_, hlater.sound⟩
      rw [h.kept c rfl, Option.mem_some_iff] at hd
      subst hd
      rw [decide_eq_true_eq, not_not] at hidle
      omega

/-- A call gets the same answer from both buckets and leaves them the same. -/
theorem Agrees.allow (rps : ℕ) (h : Agrees bucketTTL now b g) (httl : 1000000000 ≤ bucketTTL)
    (hle : now ≤ t) :
    (b.getD (.new rps t)).allow rps t = (g.getD (.new rps t)).allow rps t := by
  cases b with
  | some c => rw [h.kept c rfl]
  | none =>
    cases g with
    | none => rfl
    | some c =>
      obtain ⟨htokens, hupdate, -⟩ := h.sound c rfl
      have hidle := h.evicted rfl c rfl
      exact (Bucket.allow_of_idle htokens (by omega)).symm

theorem Agrees.after (rps : ℕ) (h : Agrees bucketTTL now b g) (hle : now ≤ t) :
    Agrees bucketTTL t (some ((g.getD (.new rps t)).allow rps t).2)
      (some ((g.getD (.new rps t)).allow rps t).2) := by
  have hsound : 0 ≤ (g.getD (.new rps t)).tokens ∧ (g.getD (.new rps t)).lastUpdate ≤ t := by
    cases g with
    | none => exact ⟨Nat.cast_nonneg rps, le_rfl⟩
    | some c =>
      obtain ⟨htokens, hupdate, haccess⟩ := h.sound c rfl
      exact ⟨htokens, hupdate ▸ haccess.trans hle⟩
  obtain ⟨hupdate, haccess⟩ := (g.getD (.new rps t)).lastUpdate_allow rps t
  refine ⟨fun c hc => hc, fun hnone => (by cases hnone), fun c hc => ?_⟩
  rw [Option.mem_some_iff] at hc
  subst hc
  exact ⟨Bucket.tokens_allow_nonneg hsound.1 hsound.2, hupdate.trans haccess.symm, haccess.le⟩

theorem resultsOf_append (tenant : Bytes) (p q : List (Bytes × Allowance)) :
    resultsOf tenant (p ++ q) = resultsOf tenant p ++ resultsOf tenant q := by
  rw [resultsOf, List.filter_append, List.map_append, ← resultsOf, ← resultsOf]

theorem allow_self (m : Limiters) (rps : ℕ) (tenant : Bytes) (t : ℤ) :
    (m.allow rps tenant t).2 tenant = some (((m tenant).getD (.new rps t)).allow rps t).2 :=
  Function.update_self _ _ _

theorem allow_of_ne (m : Limiters) (rps : ℕ) (t : ℤ) {tenant other : Bytes} (h : other ≠ tenant) :
    (m.allow rps other t).2 tenant = m tenant := Function.update_of_ne (Ne.symm h) _ _

theorem cleanup_of_none (bucketTTL now : ℤ) {m : Limiters} {tenant : Bytes} (h : m tenant = none) :
    m.cleanup bucketTTL now tenant = none := by
  rw [cleanup, h, Option.filter_none]

theorem cleanup_of_some (bucketTTL now : ℤ) {m : Limiters} {tenant : Bytes} {b : Bucket}
    (h : m tenant = some b) : m.cleanup bucketTTL now tenant =
      if now - b.lastAccess > bucketTTL then none else some b := by
  rw [cleanup, h, Option.filter_some]
  by_cases hstale : now - b.lastAccess > bucketTTL
  · rw [if_pos hstale, if_neg (by rwa [decide_eq_true_eq, not_not])]
  · rw [if_neg hstale, if_pos (by rwa [decide_eq_true_eq])]

/-- From agreeing buckets on, the tenant is told what its never evicted bucket answers. -/
theorem resultsOf_serve (httl : 1000000000 ≤ bucketTTL) (tenant : Bytes) {m : Limiters}
    {ops : List Op} (h : Agrees bucketTTL now (m tenant) g)
    (htimes : (now :: ops.map Op.now).Pairwise (· ≤ ·)) :
    resultsOf tenant (serve rps bucketTTL m ops) =
      answersFrom rps g (ops.filterMap (Op.callTime tenant)) := by
  induction ops generalizing m g now with
  | nil => rfl
  | cons op ops ih =>
    rw [List.map_cons, List.pairwise_cons] at htimes
    obtain ⟨hnow, htimes⟩ := htimes
    rw [serve, resultsOf_append]
    cases op with
    | cleanup t =>
      have hle : now ≤ t := hnow _ List.mem_cons_self
      have hcleaned : Agrees bucketTTL t ((m.cleanup bucketTTL t) tenant) g := h.cleanup hle
      exact ih hcleaned htimes
    | allow other t =>
      have hle : now ≤ t := hnow _ List.mem_cons_self
      by_cases hother : other = tenant
      · subst hother
        have hanswer := h.allow rps httl hle
        have hnext := h.after rps hle
        rw [← hanswer] at hnext
        nth_rewrite 1 [← m.allow_self] at hnext
        have hrest := ih hnext htimes
        rw [List.filterMap_cons_some (b := t) (by simp [Op.callTime]), answersFrom_cons,
          ← hanswer, ← hrest]
        simp [apply, resultsOf, allow]
      · have hnext := h.mono hle
        rw [← m.allow_of_ne rps t hother] at hnext
        rw [List.filterMap_cons_none (by simp [Op.callTime, hother]), ← ih hnext htimes]
        simp [apply, resultsOf, hother]

/-- Eviction is invisible and tenants are isolated: whatever is called in between, each tenant is
told what a single bucket, made at its first call and never evicted, tells to its own calls. -/
theorem eviction_is_invisible {ops : List Op} (httl : 1000000000 ≤ bucketTTL)
    (htimes : (ops.map Op.now).Pairwise (· ≤ ·)) (tenant : Bytes) :
    resultsOf tenant (serve rps bucketTTL empty ops) =
      neverEvicted rps (ops.filterMap (Op.callTime tenant)) := by
  cases ops with
  | nil => rfl
  | cons op ops =>
    refine resultsOf_serve httl tenant (agrees_none bucketTTL op.now) ?_
    rw [List.map_cons] at htimes ⊢
    refine htimes.cons fun t ht => ?_
    rcases List.mem_cons.mp ht with rfl | ht
    · exact le_rfl
    · exact (List.pairwise_cons.mp htimes).1 t ht

/-- Two tenants, the first of which is evicted between its calls. -/
theorem eviction_is_invisible_twoTenants :
    let ops : List Op := [.allow [1] 0, .allow [2] 5, .cleanup 3000000000, .allow [1] 3000000001]
    (ops.map Op.now).Pairwise (· ≤ ·) ∧
      resultsOf [1] (serve 2 1000000000 empty ops) = neverEvicted 2 [0, 3000000001] :=
  ⟨by decide, eviction_is_invisible (by decide) (by decide) [1]⟩

end Limiters

namespace RateLimiter
open Transition
variable {rps : ℕ} {bucketTTL : ℤ} {s : RateLimiter}

/-- The map of the limiter and what it points to. -/
def view (s : RateLimiter) : Limiters := fun tenant => (s.limiters tenant).map (s.buckets tenant)

/-- What one call of `allow` leaves, if it serves the tenant from bucket `b` and nobody else. -/
theorem view_eq_allow {s' : RateLimiter} {tenant : Bytes} {now : ℤ} {b : Bucket}
    (hb : (s.view tenant).getD (.new rps now) = b)
    (hself : s'.view tenant = some (b.allow rps now).2)
    (hother : ∀ t, t ≠ tenant → s'.view t = s.view t) :
    s'.view = (s.view.allow rps tenant now).2 := by
  funext t
  by_cases ht : t = tenant
  · rw [ht, hself, Limiters.allow_self, hb]
  · rw [hother t ht, Limiters.allow_of_ne _ _ _ (Ne.symm ht)]

/-- `allow` without interruption takes both of its locks. -/
theorem execute_allow (rps : ℕ) (bucketTTL : ℤ) (hidle : s.waiting = []) (tenant : Bytes)
    (now : ℤ) :
    ∃ s', execute (step rps bucketTTL) s [.find tenant now, .use 0] = some s' ∧
      s'.waiting = [] ∧ s'.view = (s.view.allow rps tenant now).2 ∧
      s'.log.map (fun c => (c.tenant, c.answer)) = s.log.map (fun c => (c.tenant, c.answer)) ++
        [(tenant, (s.view.allow rps tenant now).1)] := by
  cases hk : s.limiters tenant with
  | some k =>
    have hview : s.view tenant = some (s.buckets tenant k) := by rw [view, hk]; rfl
    have hrun : execute (step rps bucketTTL) s [.find tenant now, .use 0] = some { s with
        buckets := s.setBucket tenant k ((s.buckets tenant k).allow rps now).2
        waiting := []
        log := s.log ++ [⟨⟨tenant, k, now⟩, ((s.buckets tenant k).allow rps now).1⟩] } := by
      simp [execute, step, hk, hidle, setBucket]
    refine ⟨_, hrun, rfl, view_eq_allow (congrArg (Option.getD · _) hview) ?_ ?_, ?_⟩
    · simp only [view, hk, Option.map_some, setBucket_self, Option.getD_some]
    · intro t ht
      simp only [view, setBucket, Function.update_of_ne ht]
    · rw [List.map_append, Limiters.allow, hview]
      rfl
  | none =>
    have hview : s.view tenant = none := by rw [view, hk]; rfl
    have hrun : execute (step rps bucketTTL) s [.find tenant now, .use 0] = some { s with
        limiters := Function.update s.limiters tenant (some (s.created tenant))
        created := Function.update s.created tenant (s.created tenant + 1)
        buckets := s.setBucket tenant (s.created tenant) ((Bucket.new rps now).allow rps now).2
        waiting := []
        log := s.log ++ [⟨⟨tenant, s.created tenant, now⟩,
          ((Bucket.new rps now).allow rps now).1⟩] } := by
      simp [execute, step, hk, hidle, setBucket]
    refine ⟨_, hrun, rfl, view_eq_allow (congrArg (Option.getD · _) hview) ?_ ?_, ?_⟩
    · simp only [view, Function.update_self, Option.map_some, setBucket_self, Option.getD_none]
    · intro t ht
      simp only [view, setBucket, Function.update_of_ne ht]
    · rw [List.map_append, Limiters.allow, hview]
      rfl

/-- The cleanup loop visits one tenant. -/
theorem execute_evict (rps : ℕ) (bucketTTL : ℤ) (s : RateLimiter) (now : ℤ) (tenant : Bytes) :
    ∃ trace s', execute (step rps bucketTTL) s trace = some s' ∧ s'.waiting = s.waiting ∧
      s'.log = s.log ∧
      s'.view = Function.update s.view tenant (s.view.cleanup bucketTTL now tenant) := by
  cases hk : s.limiters tenant with
  | none =>
    have hview : s.view tenant = none := by rw [view, hk]; rfl
    refine ⟨[], s, rfl, rfl, rfl, ?_⟩
    rw [Limiters.cleanup_of_none _ _ hview, ← hview, Function.update_eq_self]
  | some k =>
    have hview : s.view tenant = some (s.buckets tenant k) := by rw [view, hk]; rfl
    rw [Limiters.cleanup_of_some _ _ hview]
    by_cases hstale : now - (s.buckets tenant k).lastAccess > bucketTTL
    · refine ⟨[.evict tenant now], { s with limiters := Function.update s.limiters tenant none },
        ?_, rfl, rfl, ?_⟩
      · simp only [execute, step, hk, if_pos hstale, Option.bind_some]
      · rw [if_pos hstale]
        funext t
        by_cases ht : t = tenant
        · simp only [view, ht, Function.update_self, Option.map_none]
        · simp only [view, Function.update_of_ne ht]
    · refine ⟨[], s, rfl, rfl, rfl, ?_⟩
      rw [if_neg hstale, ← hview, Function.update_eq_self]

/-- A round of the cleanup loop over these tenants, in their order. -/
theorem execute_cleanup (rps : ℕ) (bucketTTL : ℤ) (s : RateLimiter) (now : ℤ)
    {tenants : List Bytes} (hnodup : tenants.Nodup) :
    ∃ trace s', execute (step rps bucketTTL) s trace = some s' ∧ s'.waiting = s.waiting ∧
      s'.log = s.log ∧ ∀ t, s'.view t =
        if t ∈ tenants then s.view.cleanup bucketTTL now t else s.view t := by
  induction tenants generalizing s with
  | nil => exact ⟨[], s, rfl, rfl, rfl, fun t => by simp⟩
  | cons tenant tenants ih =>
    obtain ⟨hfresh, hnodup⟩ := List.nodup_cons.mp hnodup
    obtain ⟨trace, u, hu, hwaiting, hlog, hview⟩ := execute_evict rps bucketTTL s now tenant
    obtain ⟨rest, v, hv, hwaiting', hlog', hview'⟩ := ih u hnodup
    refine ⟨trace ++ rest, v, execute_append_of hu hv, hwaiting'.trans hwaiting, hlog'.trans hlog,
      fun t => ?_⟩
    rw [hview', hview]
    by_cases ht : t = tenant
    · subst ht
      rw [if_neg hfresh, if_pos List.mem_cons_self, Function.update_self]
    · simp only [List.mem_cons, ht, false_or, Limiters.cleanup, Function.update_of_ne ht]

/-- Whole calls one after the other are one of the orders in which the locks can be taken. `known`
holds the tenants that have a bucket. -/
theorem execute_serve {known : List Bytes} (hidle : s.waiting = [])
    (hknown : ∀ t, t ∉ known → s.view t = none) (ops : List Limiters.Op) :
    ∃ trace s', execute (step rps bucketTTL) s trace = some s' ∧
      s'.log.map (fun c => (c.tenant, c.answer)) = s.log.map (fun c => (c.tenant, c.answer)) ++
        Limiters.serve rps bucketTTL s.view ops := by
  induction ops generalizing s known with
  | nil => exact ⟨[], s, rfl, (List.append_nil _).symm⟩
  | cons op ops ih =>
    cases op with
    | allow tenant now =>
      obtain ⟨u, hu, hwaiting, hview, hlog⟩ := execute_allow rps bucketTTL hidle tenant now
      have hmore : ∀ t, t ∉ tenant :: known → u.view t = none := by
        intro t ht
        rw [List.mem_cons, not_or] at ht
        rw [hview, Limiters.allow_of_ne _ _ _ (Ne.symm ht.1), hknown t ht.2]
      obtain ⟨rest, v, hv, hlog'⟩ := ih hwaiting hmore
      refine ⟨_, v, execute_append_of hu hv, ?_⟩
      rw [hlog', hlog, hview, List.append_assoc]
      rfl
    | cleanup now =>
      obtain ⟨trace, u, hu, hwaiting, hlog, hview⟩ :=
        execute_cleanup rps bucketTTL s now known.nodup_dedup
      have hcleaned : u.view = s.view.cleanup bucketTTL now := by
        funext t
        rw [hview]
        by_cases ht : t ∈ known
        · rw [if_pos (List.mem_dedup.mpr ht)]
        · rw [if_neg fun h => ht (List.mem_dedup.mp h), hknown t ht,
            Limiters.cleanup_of_none _ _ (hknown t ht)]
      have hstill : ∀ t, t ∉ known → u.view t = none := by
        intro t ht
        rw [hcleaned, Limiters.cleanup_of_none _ _ (hknown t ht)]
      obtain ⟨rest, v, hv, hlog'⟩ := ih (hwaiting.trans hidle) hstill
      refine ⟨_, v, execute_append_of hu hv, ?_⟩
      rw [hlog', hlog, hcleaned]
      rfl

/-- So the sequential limiter is a run of the one with interleaved locks. -/
theorem serve_is_a_run (rps : ℕ) (bucketTTL : ℤ) (ops : List Limiters.Op) :
    ∃ trace s, execute (step rps bucketTTL) start trace = some s ∧
      s.log.map (fun c => (c.tenant, c.answer)) = Limiters.serve rps bucketTTL .empty ops :=
  execute_serve (s := start) rfl (fun _ (_ : _ ∉ []) => rfl) ops

end RateLimiter

end IngestKit.Api
