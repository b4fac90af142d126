import IngestKit.Rate.TokenBucket
import IngestKit.Text.Utf8
import IngestKit.Transition.Runs
import Mathlib.Algebra.Order.Floor.Ring
import Mathlib.Algebra.Order.Ring.Rat
import Mathlib.Data.Rat.Floor

/-! The rate limiter: one token bucket for each tenant, found under one lock and used under its own,
and evicted when idle. Callers read the clock before either lock. -/
namespace IngestKit.Api
open Rate

/-- Times are nanoseconds, token arithmetic is exact. -/
structure Bucket where
  tokens : ℚ
  lastUpdate : ℤ
  lastAccess : ℤ

def Bucket.new (rps : ℕ) (now : ℤ) : Bucket := ⟨rps, now, now⟩

/-- What `allow` returns: the verdict and the two header values. -/
structure Allowance where
  allowed : Bool
  limit : ℕ
  remaining : ℤ
  deriving DecidableEq

/-- The part of `allow` under the bucket's lock. -/
def Bucket.allow (rps : ℕ) (now : ℤ) (b : Bucket) : Allowance × Bucket :=
  let elapsed : ℚ := (now - b.lastUpdate : ℤ) / 1000000000
  let tokens := b.tokens + elapsed * rps
  let maxTokens : ℚ := rps
  let tokens := if tokens > maxTokens then maxTokens else tokens
  if tokens ≥ 1 then (⟨true, rps, ⌊tokens - 1⌋⟩, ⟨tokens - 1, now, now⟩)
  else (⟨false, rps, 0⟩, ⟨tokens, now, now⟩)

/-- A call that found its bucket. Buckets of a tenant are numbered as they are created. -/
structure Call where
  tenant : Bytes
  bucket : ℕ
  now : ℤ
  deriving DecidableEq

structure Answered extends Call where
  answer : Allowance
  deriving DecidableEq

structure RateLimiter where
  limiters : Bytes → Option ℕ
  created : Bytes → ℕ
  buckets : Bytes → ℕ → Bucket
  waiting : List Call
  log : List Answered

namespace RateLimiter

def start : RateLimiter := ⟨fun _ => none, fun _ => 0, fun _ _ => ⟨0, 0, 0⟩, [], []⟩

inductive Action
  | find (tenant : Bytes) (now : ℤ)
  | use (i : ℕ)
  | evict (tenant : Bytes) (now : ℤ)

def setBucket (s : RateLimiter) (tenant : Bytes) (k : ℕ) (b : Bucket) : Bytes → ℕ → Bucket :=
  Function.update s.buckets tenant (Function.update (s.buckets tenant) k b)

/-- `allow` up to its second lock, from there on, and one round of the cleanup loop. -/
def step (rps : ℕ) (bucketTTL : ℤ) (s : RateLimiter) : Action → Option RateLimiter
  | .find tenant now =>
    match s.limiters tenant with
    | some k => some { s with waiting := s.waiting ++ [⟨tenant, k, now⟩] }
    | none =>
      let k := s.created tenant
      some { s with
        limiters := Function.update s.limiters tenant (some k)
        created := Function.update s.created tenant (k + 1)
        buckets := s.setBucket tenant k (.new rps now)
        waiting := s.waiting ++ [⟨tenant, k, now⟩] }
  | .use i =>
    match s.waiting[i]? with
    | none => none
    | some c =>
      let r := (s.buckets c.tenant c.bucket).allow rps c.now
      some { s with
        buckets := s.setBucket c.tenant c.bucket r.2
        waiting := s.waiting.eraseIdx i
        log := s.log ++ [⟨c, r.1⟩] }
  | .evict tenant now =>
    match s.limiters tenant with
    | none => none
    | some k =>
      if now - (s.buckets tenant k).lastAccess > bucketTTL then
        some { s with limiters := Function.update s.limiters tenant none }
      else none

/-- The calls of a tenant in the order in which they held their bucket's lock. -/
def calls (s : RateLimiter) (tenant : Bytes) : List Answered := s.log.filter (·.tenant = tenant)

/-- Those that used one bucket. -/
def callsOn (s : RateLimiter) (tenant : Bytes) (k : ℕ) : List Answered :=
  (s.calls tenant).filter (·.bucket = k)

end RateLimiter

def seconds (t : ℤ) : ℚ := t / 1000000000

def Bucket.toTokenBucket (b : Bucket) : TokenBucket ℚ := ⟨b.tokens, seconds b.lastUpdate⟩

/-- Under its lock a bucket is a token bucket of capacity and rate `rps`. -/
theorem Bucket.allow_eq_take (rps : ℕ) (now : ℤ) (b : Bucket) :
    ((b.allow rps now).1.allowed, (b.allow rps now).2.toTokenBucket) =
      b.toTokenBucket.take (rps : ℚ) rps (seconds now) := by
  have helapsed : ((now - b.lastUpdate : ℤ) : ℚ) / 1000000000 =
      seconds now - seconds b.lastUpdate := by
    rw [seconds, seconds, Int.cast_sub, sub_div]
  have hmin : ∀ x : ℚ, (if x > rps then (rps : ℚ) else x) = min x rps := by
    intro x
    rw [min_def]
    split_ifs <;> first | rfl | linarith
  have htake := TokenBucket.take_eq (rps : ℚ) rps b.toTokenBucket (seconds now)
  unfold Bucket.allow
  dsimp only
  rw [helapsed, hmin]
  by_cases hone : 1 ≤ min (b.tokens + (seconds now - seconds b.lastUpdate) * rps) (rps : ℚ)
  · rw [if_pos hone]
    rw [if_pos (by exact hone)] at htake
    exact htake.symm
  · rw [if_neg hone]
    rw [if_neg (by exact hone)] at htake
    exact htake.symm

/-- A bucket that was full when it was made and then served these calls in their order. -/
def Served (rps : ℕ) (calls : List Answered) (b : Bucket) : Prop :=
  ∃ made : ℚ, TokenBucket.run (rps : ℚ) rps ⟨rps, made⟩ (calls.map fun c => seconds c.now) =
    (calls.map (·.answer.allowed), b.toTokenBucket)

theorem served_new (rps : ℕ) (now : ℤ) : Served rps [] (.new rps now) := ⟨seconds now, rfl⟩

theorem Served.snoc {rps : ℕ} {calls : List Answered} {b : Bucket} (h : Served rps calls b)
    (c : Call) : Served rps (calls ++ [⟨c, (b.allow rps c.now).1⟩]) (b.allow rps c.now).2 := by
  obtain ⟨made, hrun⟩ := h
  have htake := b.allow_eq_take rps c.now
  refine ⟨made, ?_⟩
  rw [List.map_append, TokenBucket.run_append, hrun, List.map_append]
  simp only [List.map_cons, List.map_nil, TokenBucket.run_cons, TokenBucket.run_nil, ← htake]

namespace RateLimiter

/-- Buckets in use were made, and each served its calls. -/
structure Inv (rps : ℕ) (s : RateLimiter) : Prop where
  found : ∀ tenant k, s.limiters tenant = some k → k < s.created tenant
  waiting : ∀ c ∈ s.waiting, c.bucket < s.created c.tenant
  logged : ∀ c ∈ s.log, c.bucket < s.created c.tenant
  served : ∀ tenant k, k < s.created tenant →
    Served rps (s.callsOn tenant k) (s.buckets tenant k)

section Steps
variable {rps : ℕ} {bucketTTL : ℤ} {s s' : RateLimiter}

theorem inv_start : Inv rps start where
  found := fun _ _ h => by cases h
  waiting := fun _ h => by cases h
  logged := fun _ h => by cases h
  served := fun _ _ h => absurd h (Nat.not_lt_zero _)

theorem setBucket_self (s : RateLimiter) (tenant : Bytes) (k : ℕ) (b : Bucket) :
    s.setBucket tenant k b tenant k = b := by
  rw [setBucket, Function.update_self, Function.update_self]

theorem setBucket_of_ne (s : RateLimiter) {tenant t : Bytes} {k j : ℕ} (b : Bucket)
    (h : ¬(t = tenant ∧ j = k)) : s.setBucket tenant k b t j = s.buckets t j := by
  rw [setBucket]
  by_cases ht : t = tenant
  · subst ht
    have hj : j ≠ k := fun hj => h ⟨rfl, hj⟩
    rw [Function.update_self, Function.update_of_ne hj]
  · rw [Function.update_of_ne ht]

/-- A bucket that was not made has served nobody. -/
theorem Inv.callsOn_created (h : s.Inv rps) (tenant : Bytes) :
    s.callsOn tenant (s.created tenant) = [] := by
  rw [callsOn, calls, List.filter_filter, List.filter_eq_nil_iff]
  intro c hc hmem
  have hlt := h.logged c hc
  simp only [Bool.and_eq_true, decide_eq_true_eq] at hmem
  rw [hmem.2, hmem.1] at hlt
  exact absurd hlt (lt_irrefl _)

theorem Inv.find (h : s.Inv rps) {tenant : Bytes} {now : ℤ}
    (hs : step rps bucketTTL s (.find tenant now) = some s') : s'.Inv rps := by
  rw [step] at hs
  split at hs
  next k hk =>
    cases hs
    refine ⟨h.found, ?_, h.logged, h.served⟩
    intro c hc
    rcases List.mem_append.mp hc with hc | hc
    · exact h.waiting c hc
    · rw [List.mem_singleton.mp hc]
      exact h.found tenant k hk
  next hk =>
    cases hs
    have hle : ∀ t, s.created t ≤ Function.update s.created tenant (s.created tenant + 1) t := by
      intro t
      by_cases ht : t = tenant
      · rw [ht, Function.update_self]
        exact Nat.le_succ _
      · rw [Function.update_of_ne ht]
    have hself : s.created tenant <
        Function.update s.created tenant (s.created tenant + 1) tenant := by
      rw [Function.update_self]
      exact Nat.lt_succ_self _
    refine ⟨fun t k hk => ?_, fun c hc => ?_, fun c hc => (h.logged c hc).trans_le (hle _),
      fun t k hk => ?_⟩
    · by_cases ht : t = tenant
      · subst ht
        simp only [Function.update_self, Option.some.injEq] at hk
        rw [← hk]
        exact hself
      · simp only [Function.update_of_ne ht] at hk
        exact (h.found t k hk).trans_le (hle t)
    · rcases List.mem_append.mp hc with hc | hc
      · exact (h.waiting c hc).trans_le (hle _)
      · rw [List.mem_singleton.mp hc]
        exact hself
    · change Served rps (s.callsOn t k) (s.setBucket tenant (s.created tenant) (.new rps now) t k)
      by_cases hnew : t = tenant ∧ k = s.created tenant
      · obtain ⟨rfl, rfl⟩ := hnew
        rw [setBucket_self, h.callsOn_created]
        exact served_new rps now
      · rw [setBucket_of_ne s _ hnew]
        refine h.served t k ?_
        by_cases ht : t = tenant
        · subst ht
          simp only [Function.update_self] at hk
          have hne : k ≠ s.created t := fun hkt => hnew ⟨rfl, hkt⟩
          omega
        · simpa only [Function.update_of_ne ht] using hk

theorem Inv.use (h : s.Inv rps) {i : ℕ}
    (hs : step rps bucketTTL s (.use i) = some s') : s'.Inv rps := by
  rw [step] at hs
  split at hs
  · cases hs
  next c hc =>
    cases hs
    have hmem := List.mem_of_getElem? hc
    refine ⟨h.found, fun d hd => h.waiting d (List.mem_of_mem_eraseIdx hd), fun d hd => ?_,
      fun t k hk => ?_⟩
    · rcases List.mem_append.mp hd with hd | hd
      · exact h.logged d hd
      · rw [List.mem_singleton.mp hd]
        exact h.waiting c hmem
    · have hold := h.served t k hk
      by_cases hthis : t = c.tenant ∧ k = c.bucket
      · obtain ⟨rfl, rfl⟩ := hthis
        have hsnoc := hold.snoc c
        dsimp only [callsOn, calls] at hsnoc ⊢
        rw [setBucket_self, List.filter_append, List.filter_append]
        simpa using hsnoc
      · have hcalls : ∀ (log : List Answered) (r : Allowance),
            ((log ++ [(⟨c, r⟩ : Answered)]).filter (·.tenant = t)).filter (·.bucket = k) =
              (log.filter (·.tenant = t)).filter (·.bucket = k) := by
          intro log r
          rw [List.filter_filter, List.filter_filter, List.filter_append]
          have hnone : ¬((c.bucket = k) ∧ c.tenant = t) := fun hct => hthis ⟨hct.2.symm, hct.1.symm⟩
          simp [hnone]
        dsimp only [callsOn, calls] at hold ⊢
        rw [setBucket_of_ne s _ hthis, hcalls]
        exact hold

theorem Inv.evict (h : s.Inv rps) {tenant : Bytes} {now : ℤ}
    (hs : step rps bucketTTL s (.evict tenant now) = some s') : s'.Inv rps := by
  rw [step] at hs
  split at hs
  · cases hs
  · split_ifs at hs
    cases hs
    refine ⟨fun t k hk => ?_, h.waiting, h.logged, h.served⟩
    by_cases ht : t = tenant
    · simp only [ht, Function.update_self] at hk
      cases hk
    · simp only [Function.update_of_ne ht] at hk
      exact h.found t k hk

theorem inv_of_execute {trace : List Action}
    (h : Transition.execute (step rps bucketTTL) start trace = some s) : s.Inv rps := by
  refine Transition.execute_invariant (I := fun _ s => s.Inv rps) inv_start ?_ h
  intro _ a t u ht hs
  cases a with
  | find tenant now => exact ht.find hs
  | use i => exact ht.use hs
  | evict tenant now => exact ht.evict hs

/-- A tenant changes its bucket only by an eviction. -/
theorem limiters_step {a : Action} (hs : step rps bucketTTL s a = some s') {tenant : Bytes} {k : ℕ}
    (hk : s.limiters tenant = some k) (ha : ∀ now, a ≠ .evict tenant now) :
    s'.limiters tenant = some k := by
  cases a with
  | find t now =>
    rw [step] at hs
    split at hs
    · cases hs
      exact hk
    next hnone =>
      cases hs
      have hne : tenant ≠ t := fun h => by rw [← h, hk] at hnone; cases hnone
      simpa only [Function.update_of_ne hne] using hk
  | use i =>
    rw [step] at hs
    split at hs
    · cases hs
    · cases hs
      exact hk
  | evict t now =>
    have hne : tenant ≠ t := fun h => ha now (by rw [h])
    rw [step] at hs
    split at hs
    · cases hs
    · split_ifs at hs
      cases hs
      simpa only [Function.update_of_ne hne] using hk

end Steps

/-- In every order of clock readings, consecutive calls of a tenant that no eviction separates are
granted at most `rps` for the time between their first and last reading and `rps` more, if the last
of them is granted; and no bucket ever holds more than `rps` tokens. -/
theorem granted_le_rate {rps : ℕ} {bucketTTL : ℤ} {trace : List Action} {s : RateLimiter}
    (h : Transition.execute (step rps bucketTTL) start trace = some s) (tenant : Bytes) :
    (∀ k < s.created tenant, (s.buckets tenant k).tokens ≤ rps) ∧
    (∀ (k : ℕ) (before block after : List Answered) (first last : Answered),
      s.calls tenant = before ++ block ++ after → (∀ c ∈ block, c.bucket = k) →
      block.head? = some first → block.getLast? = some last → last.answer.allowed = true →
      (block.countP (·.answer.allowed) : ℚ) ≤
        rps * (1 + (seconds last.now - seconds first.now))) ∧
    ∀ a s' k, step rps bucketTTL s a = some s' → s.limiters tenant = some k →
      (∀ now, a ≠ .evict tenant now) → s'.limiters tenant = some k := by
  have hinv := inv_of_execute h
  refine ⟨fun k hk => ?_, fun k before block after first last hcalls hblock hfirst hlast hallowed =>
    ?_, fun a s' k hs hk ha => limiters_step hs hk ha⟩
  · obtain ⟨made, hrun⟩ := hinv.served tenant k hk
    have hcap := TokenBucket.run_le_cap (rps : ℚ) rps ⟨rps, made⟩ (le_refl _)
      ((s.callsOn tenant k).map fun c => seconds c.now)
    rw [hrun] at hcap
    exact hcap
  · have hsame : block.filter (·.bucket = k) = block :=
      List.filter_eq_self.mpr fun c hc => decide_eq_true (hblock c hc)
    have hon : s.callsOn tenant k =
        before.filter (·.bucket = k) ++ block ++ after.filter (·.bucket = k) := by
      rw [callsOn, hcalls, List.filter_append, List.filter_append, hsame]
    have hk : k < s.created tenant := by
      have hmem : last ∈ s.calls tenant := by
        rw [hcalls]
        exact List.mem_append_left _ (List.mem_append_right _ (List.mem_of_getLast? hlast))
      obtain ⟨hlog, htenant⟩ := List.mem_filter.mp hmem
      have hlt := hinv.logged last hlog
      rwa [hblock last (List.mem_of_getLast? hlast), of_decide_eq_true htenant] at hlt
    obtain ⟨made, hrun⟩ := hinv.served tenant k hk
    rw [hon, List.map_append, List.map_append, List.map_append, List.map_append] at hrun
    have hserved := TokenBucket.run_block (rps : ℚ) rps _ hrun (by simp) (by simp)
    have hhead : (block.map fun c => seconds c.now).head? = some (seconds first.now) := by
      rw [List.head?_map, hfirst, Option.map_some]
    have hend : (block.map fun c => seconds c.now).getLast? = some (seconds last.now) := by
      rw [List.getLast?_map, hlast, Option.map_some]
    have hgranted := TokenBucket.granted_le (rps : ℚ) rps _ hhead hend
      (by rw [hserved, List.getLast?_map, hlast, Option.map_some, hallowed])
    rw [hserved, List.count_eq_countP, List.countP_map] at hgranted
    calc (block.countP (·.answer.allowed) : ℚ)
        = block.countP ((· == true) ∘ (·.answer.allowed)) := by simp [Function.comp_def]
      _ ≤ rps + (seconds last.now - seconds first.now) * rps := hgranted
      _ = rps * (1 + (seconds last.now - seconds first.now)) := by ring

/-- The caller that makes the bucket is overtaken by one with an earlier reading. -/
def overtakenActions : List Action :=
  [.find (ascii ['d']) 500000000, .find (ascii ['d']) 0, .use 1, .use 0,
    .find (ascii ['d']) 1000000000, .use 0]

def overtakenCall (now : ℤ) : Answered := ⟨⟨ascii ['d'], 0, now⟩, ⟨true, 2, 0⟩⟩

def overtakenCalls : List Answered := [0, 500000000, 1000000000].map overtakenCall

theorem granted_le_rate_overtaken :
    ∃ s ∈ Transition.execute (step 2 300000000000) start overtakenActions,
      s.calls (ascii ['d']) = overtakenCalls ∧
      (overtakenCalls.countP (·.answer.allowed) : ℚ) ≤
        (2 : ℕ) * (1 + (seconds 1000000000 - seconds 0)) := by
  have hrun : ∃ s ∈ Transition.execute (step 2 300000000000) start overtakenActions,
      s.calls (ascii ['d']) = overtakenCalls := by
    decide +kernel
  obtain ⟨s, hs, hcalls⟩ := hrun
  refine ⟨s, hs, hcalls, ?_⟩
  exact (granted_le_rate hs (ascii ['d'])).2.1 0 [] overtakenCalls [] (overtakenCall 0)
    (overtakenCall 1000000000) (by rw [hcalls, List.nil_append, List.append_nil]) (by decide) rfl
    rfl rfl

end RateLimiter

end IngestKit.Api
