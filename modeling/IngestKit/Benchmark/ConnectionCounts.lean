import IngestKit.Benchmark.Connections
import Mathlib.Tactic.Linarith

/-! The counters of the connection recorder are the sizes of what they are named after, in every
interleaving. -/
namespace IngestKit.Benchmark
open Transition

theorem countP_set_add {α : Type*} (p : α → Bool) {l : List α} {i : ℕ} {a : α} (b : α)
    (h : l[i]? = some a) : (l.set i b).countP p + (p a).toNat = l.countP p + (p b).toNat := by
  induction l generalizing i with
  | nil => cases h
  | cons c l ih =>
    cases i with
    | zero =>
      have hc : c = a := by simpa using h
      subst hc
      rw [List.set_cons_zero, List.countP_cons, List.countP_cons]
      cases p c <;> cases p b <;> simp
    | succ i =>
      have hl := ih (i := i) (by simpa using h)
      rw [List.set_cons_succ, List.countP_cons, List.countP_cons]
      omega

/-- Whether a request is finished and whether it waits. -/
def TracedRequest.flags (t : TracedRequest) : Bool × Bool := (t.finished, t.waiting)

namespace ConnectionRecorder

section History

namespace Action

def isRequest : Action → Bool
  | .traceRequest => true
  | _ => false

/-- A dial that returned a connection to be tracked. -/
def opens : Action → Bool
  | .dialed (some network) => network ≠ .other
  | _ => false

def finishes (q : ℕ) : Action → Bool
  | .finish k _ _ _ => k = q
  | _ => false

def closes (i : ℕ) : Action → Bool
  | .close k => k = i
  | _ => false

/-- A hook of request `q`: whether it asks for a connection or has got one. -/
def hook (q : ℕ) : Action → Option Bool
  | .getConn k _ => if k = q then some true else none
  | .gotConn k _ _ => if k = q then some false else none
  | _ => none

end Action

variable (trace : List Action) (a : Action) (q : ℕ)

/-- The number of requests that were started; they are numbered in that order. -/
def started : ℕ := trace.countP Action.isRequest

/-- The number of tracked connections that were opened, numbered in that order. -/
def opened : ℕ := trace.countP Action.opens

def isFinished : Bool := trace.any (Action.finishes q)

def isClosed : Bool := trace.any (Action.closes q)

/-- The last hook of the request was a GetConn. -/
def awaits : Bool := (trace.filterMap (Action.hook q)).getLast?.getD false

/-- The unfinished requests between a GetConn and the next GotConn. -/
def isWaiting : Bool := !isFinished trace q && awaits trace q

theorem started_snoc : started (trace ++ [a]) = started trace + a.isRequest.toNat := by
  rw [started, List.countP_append, ← started, List.countP_singleton]
  cases a.isRequest <;> rfl

theorem opened_snoc : opened (trace ++ [a]) = opened trace + a.opens.toNat := by
  rw [opened, List.countP_append, ← opened, List.countP_singleton]
  cases a.opens <;> rfl

theorem isFinished_snoc : isFinished (trace ++ [a]) q = (isFinished trace q || a.finishes q) := by
  simp [isFinished]

theorem isClosed_snoc : isClosed (trace ++ [a]) q = (isClosed trace q || a.closes q) := by
  simp [isClosed]

theorem awaits_snoc : awaits (trace ++ [a]) q = (a.hook q).getD (awaits trace q) := by
  rw [awaits, List.filterMap_append]
  cases h : a.hook q with
  | none => simp [h, awaits]
  | some b => simp [h]

end History

/-- The recorder's own bookkeeping follows the hooks. -/
structure Follows (trace : List Action) (r : ConnectionRecorder) : Prop where
  requests : ∀ q, r.requests[q]?.map TracedRequest.flags =
    if q < started trace then some (isFinished trace q, isWaiting trace q) else none
  conns : ∀ i, r.conns[i]? = if i < opened trace then some (isClosed trace i) else none
  unknown : ∀ q, started trace ≤ q → isFinished trace q = false ∧ awaits trace q = false
  unopened : ∀ i, opened trace ≤ i → isClosed trace i = false

/-- The counters are the sizes of the sets they count. -/
structure Counted (r : ConnectionRecorder) : Prop where
  active : r.state.activeRequests = r.requests.countP (!·.finished)
  waiting : r.state.waitingForConnection = r.requests.countP (·.waiting)
  openTCP : r.state.openTCP = r.conns.countP (!·)
  done : ∀ t ∈ r.requests, t.finished = true → t.waiting = false
  peaks : r.state.activeRequests ≤ r.state.peakActiveRequests ∧
    r.state.waitingForConnection ≤ r.state.peakWaitingForConnection ∧
    r.state.openTCP ≤ r.state.peakOpenTCP

section Counted
variable {r r' : ConnectionRecorder} {q : ℕ} {t : TracedRequest} {now : ℤ}

theorem counted_new : Counted new :=
  ⟨rfl, rfl, rfl, fun _ h => (by cases h), le_rfl, le_rfl, le_rfl⟩

theorem Counted.dialed (h : Counted r) {network : Option Network}
    (hs : r.dialed network = some r') : Counted r' := by
  unfold ConnectionRecorder.dialed at hs
  cases network with
  | none =>
    dsimp only at hs
    split_ifs at hs
    cases hs
    exact ⟨h.active, h.waiting, h.openTCP, h.done, h.peaks⟩
  | some network =>
    dsimp only at hs
    split_ifs at hs <;> cases hs
    · exact ⟨h.active, h.waiting, h.openTCP, h.done, h.peaks⟩
    · refine ⟨h.active, h.waiting, ?_, h.done, h.peaks.1, h.peaks.2.1, le_max_right _ _⟩
      change r.state.openTCP + 1 = ((r.conns ++ [false]).countP (!·) : ℕ)
      rw [h.openTCP, List.countP_append]
      rfl

theorem Counted.close (h : Counted r) {i : ℕ} (hs : r.close i = some r') : Counted r' := by
  unfold ConnectionRecorder.close at hs
  split at hs
  · cases hs
  · cases hs
    exact h
  next hi =>
    cases hs
    have hset := countP_set_add (!·) true hi
    simp only [Bool.not_false, Bool.not_true, Bool.toNat_true, Bool.toNat_false] at hset
    have hopen := h.openTCP
    have hpeak := h.peaks.2.2
    refine ⟨h.active, h.waiting, ?_, h.done, h.peaks.1, h.peaks.2.1, ?_⟩
    · change r.state.openTCP - 1 = ((r.conns.set i true).countP (!·) : ℕ)
      omega
    · change r.state.openTCP - 1 ≤ r.state.peakOpenTCP
      omega

theorem Counted.traceRequest (h : Counted r) : Counted r.traceRequest := by
  refine ⟨?_, ?_, h.openTCP, ?_, le_max_right _ _, h.peaks.2⟩
  · change r.state.activeRequests + 1 =
      ((r.requests ++ [({} : TracedRequest)]).countP (!·.finished) : ℕ)
    rw [h.active, List.countP_append]
    rfl
  · change r.state.waitingForConnection =
      ((r.requests ++ [({} : TracedRequest)]).countP (·.waiting) : ℕ)
    rw [h.waiting, List.countP_append]
    rfl
  · intro t ht hfinished
    rcases List.mem_append.mp ht with ht | ht
    · exact h.done t ht hfinished
    · rw [List.mem_singleton.mp ht]

/-- One request is replaced and the two counters of requests follow. -/
theorem Counted.set (h : Counted r) (hq : r.requests[q]? = some t) (t' : TracedRequest)
    (hrequests : r'.requests = r.requests.set q t') (hconns : r'.conns = r.conns)
    (hopen : r'.state.openTCP = r.state.openTCP)
    (hpeakOpen : r'.state.peakOpenTCP = r.state.peakOpenTCP)
    (hactive : r'.state.activeRequests + (!t.finished).toNat =
      r.state.activeRequests + (!t'.finished).toNat)
    (hwaiting : r'.state.waitingForConnection + t.waiting.toNat =
      r.state.waitingForConnection + t'.waiting.toNat)
    (hdone : t'.finished = true → t'.waiting = false)
    (hpeakActive : r'.state.activeRequests ≤ r'.state.peakActiveRequests)
    (hpeakWaiting : r'.state.waitingForConnection ≤ r'.state.peakWaitingForConnection) :
    Counted r' := by
  have h1 := countP_set_add (!·.finished) t' hq
  have h2 := countP_set_add (·.waiting) t' hq
  have ha := h.active
  have hw := h.waiting
  refine ⟨?_, ?_, ?_, ?_, hpeakActive, hpeakWaiting, ?_⟩
  · rw [hrequests]
    omega
  · rw [hrequests]
    omega
  · rw [hconns, hopen, h.openTCP]
  · rw [hrequests]
    intro u hu
    rcases List.mem_or_eq_of_mem_set hu with hu | rfl
    · exact h.done u hu
    · exact hdone
  · rw [hopen, hpeakOpen]
    exact h.peaks.2.2

theorem Counted.getConn (h : Counted r) (hs : r.getConn q now = some r') : Counted r' := by
  unfold ConnectionRecorder.getConn at hs
  split at hs
  · cases hs
  next t hq =>
    split_ifs at hs with hfinished hwaiting
    · cases hs
      exact h
    · cases hs
      refine h.set hq _ rfl rfl rfl rfl rfl ?_ (fun hf => absurd hf hfinished) h.peaks.1
        (le_max_right _ _)
      simp [hwaiting]

theorem Counted.stopWaiting (h : Counted r) (hq : r.requests[q]? = some t) (now : ℤ) :
    Counted (r.stopWaiting q t now) := by
  unfold ConnectionRecorder.stopWaiting
  split_ifs with hwaiting
  · have hpeak := h.peaks.2.1
    refine h.set hq { t with waiting := false } rfl rfl rfl rfl rfl ?_ (fun _ => rfl) h.peaks.1 ?_
    · simp [hwaiting]
    · change r.state.waitingForConnection - 1 ≤ r.state.peakWaitingForConnection
      omega
  · exact h

theorem Counted.gotConn (h : Counted r) {reused : Bool}
    (hs : r.gotConn q reused now = some r') : Counted r' := by
  unfold ConnectionRecorder.gotConn at hs
  split at hs
  · cases hs
  next t hq =>
    have hstop := h.stopWaiting hq now
    cases hs
    dsimp only
    split_ifs
    · exact ⟨hstop.active, hstop.waiting, hstop.openTCP, hstop.done, hstop.peaks⟩
    · exact hstop

theorem Counted.finish (h : Counted r) {proto : Option String} {err : Option TransportError}
    (hs : r.finish q proto err now = some r') : Counted r' := by
  unfold ConnectionRecorder.finish at hs
  split at hs
  · cases hs
  next t hq =>
    split_ifs at hs with hfinished
    · cases hs
      exact h
    · have hpeaks := h.peaks
      cases hs
      cases hwaiting : t.waiting with
      | true =>
        simp only [ConnectionRecorder.stopWaiting, hwaiting, if_true]
        refine h.set hq { t with waiting := false, finished := true } (List.set_set ..) rfl rfl rfl
          ?_ ?_ (fun _ => rfl) ?_ ?_
        · simp [hfinished]
        · simp [hwaiting]
        · change r.state.activeRequests - 1 ≤ r.state.peakActiveRequests
          omega
        · change r.state.waitingForConnection - 1 ≤ r.state.peakWaitingForConnection
          omega
      | false =>
        simp only [ConnectionRecorder.stopWaiting, hwaiting, Bool.false_eq_true, if_false]
        refine h.set hq { t with waiting := false, finished := true } rfl rfl rfl rfl ?_ ?_
          (fun _ => rfl) ?_ hpeaks.2.1
        · simp [hfinished]
        · simp [hwaiting]
        · change r.state.activeRequests - 1 ≤ r.state.peakActiveRequests
          omega

/-- Between windows no request is active or waiting. -/
theorem Counted.beginWindow (h : Counted r) (hs : r.beginWindow = some r') : Counted r' := by
  unfold ConnectionRecorder.beginWindow at hs
  split_ifs at hs with hall
  cases hs
  rw [List.all_eq_true] at hall
  refine ⟨?_, ?_, h.openTCP, h.done, le_rfl, le_rfl, le_rfl⟩
  · change (0 : ℤ) = (r.requests.countP (!·.finished) : ℕ)
    rw [List.countP_eq_zero.mpr fun t ht => by simp [hall t ht]]
    rfl
  · change (0 : ℤ) = (r.requests.countP (·.waiting) : ℕ)
    rw [List.countP_eq_zero.mpr fun t ht => by simp [h.done t ht (hall t ht)]]
    rfl

theorem Counted.step (h : Counted r) {a : Action} (hs : r.step a = some r') : Counted r' := by
  cases a with
  | wrapTransport maxConns maxIdle customTLSDial =>
    cases hs
    exact ⟨h.active, h.waiting, h.openTCP, h.done, h.peaks⟩
  | dial =>
    cases hs
    exact ⟨h.active, h.waiting, h.openTCP, h.done, h.peaks⟩
  | tlsHandshakeDone version =>
    cases hs
    exact ⟨h.active, h.waiting, h.openTCP, h.done, h.peaks⟩
  | traceRequest =>
    cases hs
    exact h.traceRequest
  | dialed network => exact h.dialed hs
  | close i => exact h.close hs
  | getConn q now => exact h.getConn hs
  | gotConn q reused now => exact h.gotConn hs
  | finish q proto err now => exact h.finish hs
  | beginWindow => exact h.beginWindow hs

end Counted

/-- What an action makes of the flags of request `q`. -/
def Action.update (a : Action) (q : ℕ) (flags : Bool × Bool) : Bool × Bool :=
  (flags.1 || a.finishes q, !(flags.1 || a.finishes q) && (a.hook q).getD flags.2)

section Follows
variable {trace : List Action} {r r' : ConnectionRecorder} {a : Action}

theorem update_of_other (a : Action) {q : ℕ} {t : TracedRequest} (hfinishes : a.finishes q = false)
    (hhook : a.hook q = none) (hdone : t.finished = true → t.waiting = false) :
    a.update q t.flags = t.flags := by
  rw [Action.update, hfinishes, hhook, TracedRequest.flags]
  cases hf : t.finished with
  | false => simp
  | true => simp [hdone hf]

/-- An action on request `k` leaves the others alone. -/
theorem flags_at (h : Counted r) (k : ℕ)
    (hk : r'.requests[k]?.map TracedRequest.flags = r.requests[k]?.map fun t => a.update k t.flags)
    (hsame : ∀ q, q ≠ k → r'.requests[q]? = r.requests[q]?)
    (hother : ∀ q, q ≠ k → a.finishes q = false ∧ a.hook q = none) (q : ℕ) :
    r'.requests[q]?.map TracedRequest.flags = r.requests[q]?.map fun t => a.update q t.flags := by
  by_cases hq : q = k
  · rw [hq, hk]
  · obtain ⟨hf, hh⟩ := hother q hq
    rw [hsame q hq]
    cases hget : r.requests[q]? with
    | none => rfl
    | some u =>
      rw [Option.map_some, Option.map_some, update_of_other a hf hh
        (h.done u (List.mem_of_getElem? hget))]

/-- An action that is no hook leaves all of them alone. -/
theorem flags_frame (h : Counted r) (hsame : r'.requests = r.requests)
    (hother : ∀ q, a.finishes q = false ∧ a.hook q = none) (q : ℕ) :
    r'.requests[q]?.map TracedRequest.flags = r.requests[q]?.map fun t => a.update q t.flags := by
  rw [hsame]
  cases hget : r.requests[q]? with
  | none => rfl
  | some u =>
    rw [Option.map_some, Option.map_some, update_of_other a (hother q).1 (hother q).2
      (h.done u (List.mem_of_getElem? hget))]

theorem requests_stopWaiting {k : ℕ} {t : TracedRequest} (hk : r.requests[k]? = some t) (now : ℤ) :
    (r.stopWaiting k t now).requests = r.requests.set k { t with waiting := false } := by
  unfold stopWaiting
  split_ifs with hw
  · rfl
  · obtain ⟨began, waiting, finished⟩ := t
    rw [Bool.not_eq_true] at hw
    subst hw
    obtain ⟨hlt, heq⟩ := List.getElem?_eq_some_iff.mp hk
    rw [← heq, List.set_getElem_self]

/-- The request of an action is replaced. -/
theorem flags_set (h : Counted r) {k : ℕ} {t : TracedRequest} (t' : TracedRequest)
    (hk : r.requests[k]? = some t) (hrequests : r'.requests = r.requests.set k t')
    (hnew : t'.flags = a.update k t.flags)
    (hother : ∀ q, q ≠ k → a.finishes q = false ∧ a.hook q = none) (q : ℕ) :
    r'.requests[q]?.map TracedRequest.flags = r.requests[q]?.map fun t => a.update q t.flags := by
  refine flags_at h k ?_ (fun q hq => ?_) hother q
  · rw [hrequests, List.getElem?_set_self (List.getElem?_eq_some_iff.mp hk).1, hk, Option.map_some,
      Option.map_some, hnew]
  · rw [hrequests, List.getElem?_set_ne (Ne.symm hq)]

theorem flags_getConn (h : Counted r) {k : ℕ} {now : ℤ} (hs : r.step (.getConn k now) = some r')
    (q : ℕ) : r'.requests[q]?.map TracedRequest.flags =
      r.requests[q]?.map fun t => (Action.getConn k now).update q t.flags := by
  have hother : ∀ q, q ≠ k → (Action.getConn k now).finishes q = false ∧
      (Action.getConn k now).hook q = none := fun q hq => ⟨rfl, if_neg (Ne.symm hq)⟩
  simp only [step, getConn] at hs
  split at hs
  · cases hs
  next t hk =>
    split_ifs at hs with hfinished hwaiting <;> cases hs
    · refine flags_at h k ?_ (fun _ _ => rfl) hother q
      simp [hk, TracedRequest.flags, Action.update, Action.finishes, Action.hook, hfinished,
        hwaiting]
    · refine flags_set h _ hk rfl ?_ hother q
      simp [TracedRequest.flags, Action.update, Action.finishes, Action.hook, hfinished]

theorem flags_gotConn (h : Counted r) {k : ℕ} {reused : Bool} {now : ℤ}
    (hs : r.step (.gotConn k reused now) = some r') (q : ℕ) :
    r'.requests[q]?.map TracedRequest.flags =
      r.requests[q]?.map fun t => (Action.gotConn k reused now).update q t.flags := by
  have hother : ∀ q, q ≠ k → (Action.gotConn k reused now).finishes q = false ∧
      (Action.gotConn k reused now).hook q = none := fun q hq => ⟨rfl, if_neg (Ne.symm hq)⟩
  simp only [step, gotConn] at hs
  split at hs
  · cases hs
  next t hk =>
    have hrequests : r'.requests = r.requests.set k { t with waiting := false } := by
      rw [← requests_stopWaiting hk now]
      cases hs
      split_ifs <;> rfl
    refine flags_set h _ hk hrequests ?_ hother q
    simp [TracedRequest.flags, Action.update, Action.finishes, Action.hook]

theorem flags_finish (h : Counted r) {k : ℕ} {proto : Option String}
    {err : Option TransportError} {now : ℤ} (hs : r.step (.finish k proto err now) = some r')
    (q : ℕ) :
    r'.requests[q]?.map TracedRequest.flags =
      r.requests[q]?.map fun t => (Action.finish k proto err now).update q t.flags := by
  have hother : ∀ q, q ≠ k → (Action.finish k proto err now).finishes q = false ∧
      (Action.finish k proto err now).hook q = none := by
    intro q hq
    exact ⟨decide_eq_false (Ne.symm hq), rfl⟩
  simp only [step, finish] at hs
  split at hs
  · cases hs
  next t hk =>
    split_ifs at hs with hfinished <;> cases hs
    · refine flags_at h k ?_ (fun _ _ => rfl) hother q
      simp [hk, TracedRequest.flags, Action.update, hfinished,
        h.done t (List.mem_of_getElem? hk) hfinished]
    · refine flags_set h { t with waiting := false, finished := true } hk ?_ ?_ hother q
      · have hset := requests_stopWaiting (r := { r with
          state.activeRequests := r.state.activeRequests - 1 }) hk now
        exact (congrArg (List.set · k _) hset).trans (List.set_set ..)
      · simp [TracedRequest.flags, Action.update, Action.finishes]

theorem flags_step (h : Counted r) (hs : r.step a = some r') (ha : a.isRequest = false) (q : ℕ) :
    r'.requests[q]?.map TracedRequest.flags = r.requests[q]?.map fun t => a.update q t.flags := by
  cases a with
  | traceRequest => cases ha
  | getConn k now => exact flags_getConn h hs q
  | gotConn k reused now => exact flags_gotConn h hs q
  | finish k proto err now => exact flags_finish h hs q
  | wrapTransport maxConns maxIdle customTLSDial =>
    cases hs
    exact flags_frame h rfl (fun _ => ⟨rfl, rfl⟩) q
  | dial =>
    cases hs
    exact flags_frame h rfl (fun _ => ⟨rfl, rfl⟩) q
  | tlsHandshakeDone version =>
    cases hs
    exact flags_frame h rfl (fun _ => ⟨rfl, rfl⟩) q
  | dialed network =>
    have hsame : r'.requests = r.requests := by
      simp only [step, dialed] at hs
      split at hs <;> split_ifs at hs <;> cases hs <;> rfl
    exact flags_frame h hsame (fun _ => ⟨rfl, rfl⟩) q
  | close i =>
    have hsame : r'.requests = r.requests := by
      simp only [step, close] at hs
      split at hs <;> cases hs <;> rfl
    exact flags_frame h hsame (fun _ => ⟨rfl, rfl⟩) q
  | beginWindow =>
    have hsame : r'.requests = r.requests := by
      simp only [step, beginWindow] at hs
      split_ifs at hs
      cases hs
      rfl
    exact flags_frame h hsame (fun _ => ⟨rfl, rfl⟩) q

/-- Hooks and finishes are of requests that were started. -/
theorem known_step (hs : r.step a = some r') {q : ℕ} (hq : r.requests.length ≤ q) :
    a.finishes q = false ∧ a.hook q = none := by
  have hnone : r.requests[q]? = none := List.getElem?_eq_none hq
  cases a with
  | getConn k now =>
    refine ⟨rfl, if_neg fun hk => ?_⟩
    simp [step, getConn, hk, hnone] at hs
  | gotConn k reused now =>
    refine ⟨rfl, if_neg fun hk => ?_⟩
    simp [step, gotConn, hk, hnone] at hs
  | finish k proto err now =>
    refine ⟨decide_eq_false fun hk => ?_, rfl⟩
    simp [step, finish, hk, hnone] at hs
  | _ => exact ⟨rfl, rfl⟩

theorem conns_stopWaiting (r : ConnectionRecorder) (q : ℕ) (t : TracedRequest) (now : ℤ) :
    (r.stopWaiting q t now).conns = r.conns := by
  unfold stopWaiting
  split_ifs <;> rfl

/-- Requests and windows do not touch connections. -/
theorem conns_frame (hs : r.step a = some r') (hopens : ∀ network, a ≠ .dialed network)
    (hcloses : ∀ i, a ≠ .close i) : r'.conns = r.conns := by
  cases a with
  | dialed network => exact absurd rfl (hopens network)
  | close i => exact absurd rfl (hcloses i)
  | wrapTransport maxConns maxIdle customTLSDial => cases hs; rfl
  | dial => cases hs; rfl
  | tlsHandshakeDone version => cases hs; rfl
  | traceRequest => cases hs; rfl
  | getConn q now =>
    simp only [step, getConn] at hs
    split at hs
    · cases hs
    · split_ifs at hs <;> cases hs <;> rfl
  | gotConn q reused now =>
    simp only [step, gotConn] at hs
    split at hs
    · cases hs
    next t hq =>
      rw [← conns_stopWaiting r q t now]
      cases hs
      split_ifs <;> rfl
  | finish q proto err now =>
    simp only [step, finish] at hs
    split at hs
    · cases hs
    · split_ifs at hs <;> cases hs
      · rfl
      · exact conns_stopWaiting ..
  | beginWindow =>
    simp only [step, beginWindow] at hs
    split_ifs at hs
    cases hs
    rfl

/-- What an action does to the tracked connections. -/
theorem conns_step (hs : r.step a = some r') :
    (a.opens = true ∧ r'.conns = r.conns ++ [false] ∧ ∀ i, a.closes i = false) ∨
      (a.opens = false ∧ r'.conns = r.conns ∧ ∀ i, a.closes i = true → r.conns[i]? = some true) ∨
      ∃ k, r.conns[k]? = some false ∧ a = .close k ∧ r'.conns = r.conns.set k true := by
  cases a with
  | dialed network =>
    cases network with
    | none =>
      simp only [step, dialed] at hs
      split_ifs at hs
      cases hs
      exact Or.inr (Or.inl ⟨rfl, rfl, fun _ hc => by cases hc⟩)
    | some network =>
      simp only [step, dialed] at hs
      split_ifs at hs with _ hother <;> cases hs
      · exact Or.inr (Or.inl ⟨by simp [Action.opens, hother], rfl, fun _ hc => by cases hc⟩)
      · exact Or.inl ⟨by simp [Action.opens, hother], rfl, fun _ => rfl⟩
  | close k =>
    simp only [step, close] at hs
    split at hs
    · cases hs
    next hk =>
      cases hs
      refine Or.inr (Or.inl ⟨rfl, rfl, fun i hi => ?_⟩)
      rw [← of_decide_eq_true hi]
      exact hk
    next hk =>
      cases hs
      exact Or.inr (Or.inr ⟨k, hk, rfl, rfl⟩)
  | _ =>
    exact Or.inr (Or.inl ⟨rfl, conns_frame hs (fun _ h => by cases h) (fun _ h => by cases h),
      fun _ hc => by cases hc⟩)

theorem follows_new : Follows [] new := by
  constructor
  all_goals simp [new, started, opened, isFinished, awaits, isClosed]

theorem eq_map_range {α : Type*} {l : List α} {n : ℕ} {f : ℕ → α}
    (h : ∀ i, l[i]? = if i < n then some (f i) else none) : l = (List.range n).map f := by
  refine List.ext_getElem? fun i => ?_
  rw [h, List.getElem?_map]
  by_cases hi : i < n
  · rw [if_pos hi, List.getElem?_range hi, Option.map_some]
  · rw [if_neg hi, List.getElem?_eq_none (by simpa using hi), Option.map_none]

/-- All requests and connections at once. -/
theorem Follows.lists (h : Follows trace r) :
    r.requests.map TracedRequest.flags =
        (List.range (started trace)).map (fun q => (isFinished trace q, isWaiting trace q)) ∧
      r.conns = (List.range (opened trace)).map (isClosed trace) := by
  refine ⟨eq_map_range fun q => ?_, eq_map_range h.conns⟩
  rw [List.getElem?_map, h.requests]

theorem Follows.length_requests (h : Follows trace r) : r.requests.length = started trace := by
  have hlength := congrArg List.length h.lists.1
  rwa [List.length_map, List.length_map, List.length_range] at hlength

theorem Follows.length_conns (h : Follows trace r) : r.conns.length = opened trace := by
  have hlength := congrArg List.length h.lists.2
  rwa [List.length_map, List.length_range] at hlength

/-- The history of a request after one more action. -/
theorem flags_snoc (trace : List Action) (a : Action) (q : ℕ) :
    (isFinished (trace ++ [a]) q, isWaiting (trace ++ [a]) q) =
      a.update q (isFinished trace q, isWaiting trace q) := by
  rw [Action.update, isWaiting, isWaiting, isFinished_snoc, awaits_snoc]
  cases isFinished trace q <;> cases a.hook q <;> simp

private theorem Follows.requests_step (h : Follows trace r) (hc : Counted r)
    (hs : r.step a = some r') (ha : a.isRequest = false) (q : ℕ) :
    r'.requests[q]?.map TracedRequest.flags =
      if q < started (trace ++ [a]) then
        some (isFinished (trace ++ [a]) q, isWaiting (trace ++ [a]) q) else none := by
  have hmap : r.requests[q]?.map (fun t => a.update q t.flags) =
      (r.requests[q]?.map TracedRequest.flags).map (a.update q) := by
    cases r.requests[q]? <;> rfl
  rw [flags_snoc, started_snoc, ha, flags_step hc hs ha q, hmap, h.requests]
  by_cases hq : q < started trace
  · rw [if_pos hq, Option.map_some, if_pos (by simpa using hq)]
  · rw [if_neg hq, Option.map_none, if_neg (by simpa using hq)]

private theorem Follows.requests_traceRequest (h : Follows trace r) (q : ℕ) :
    r.traceRequest.requests[q]?.map TracedRequest.flags =
      if q < started (trace ++ [.traceRequest]) then
        some (isFinished (trace ++ [.traceRequest]) q, isWaiting (trace ++ [.traceRequest]) q)
      else none := by
  have hlength := h.length_requests
  have hstarted : started (trace ++ [.traceRequest]) = started trace + 1 := started_snoc ..
  have hfinished : isFinished (trace ++ [.traceRequest]) q = isFinished trace q := by
    rw [isFinished_snoc]
    exact Bool.or_false _
  have hwaiting : isWaiting (trace ++ [.traceRequest]) q = isWaiting trace q := by
    rw [isWaiting, hfinished, awaits_snoc]
    rfl
  rw [hstarted, hfinished, hwaiting]
  change (r.requests ++ [({} : TracedRequest)])[q]?.map TracedRequest.flags = _
  rcases lt_trichotomy q (started trace) with hq | hq | hq
  · rw [List.getElem?_append_left (by omega), h.requests, if_pos hq, if_pos (by omega)]
  · obtain ⟨hfresh, hquiet⟩ := h.unknown q hq.ge
    rw [List.getElem?_append_right (by omega), if_pos (by omega), isWaiting, hfresh, hquiet,
      hlength, hq, Nat.sub_self]
    rfl
  · rw [List.getElem?_append_right (by omega), if_neg (by omega),
      List.getElem?_eq_none (by rw [List.length_singleton]; omega)]
    rfl

private theorem Follows.conns_step (h : Follows trace r) (hs : r.step a = some r') (i : ℕ) :
    r'.conns[i]? =
      if i < opened (trace ++ [a]) then some (isClosed (trace ++ [a]) i) else none := by
  have hlength := h.length_conns
  rw [opened_snoc, isClosed_snoc]
  rcases ConnectionRecorder.conns_step hs with
    ⟨hopens, hconns, hcloses⟩ | ⟨hopens, hconns, hcloses⟩ | ⟨k, hk, rfl, hconns⟩
  · rw [hopens, hconns, hcloses, Bool.or_false, Bool.toNat_true]
    rcases lt_trichotomy i (opened trace) with hi | hi | hi
    · rw [List.getElem?_append_left (by omega), h.conns, if_pos hi, if_pos (by omega)]
    · rw [List.getElem?_append_right (by omega), if_pos (by omega), h.unopened i hi.ge, hlength, hi,
        Nat.sub_self]
      rfl
    · rw [List.getElem?_append_right (by omega), if_neg (by omega),
        List.getElem?_eq_none (by rw [List.length_singleton]; omega)]
  · rw [hopens, hconns, Bool.toNat_false, add_zero, h.conns]
    by_cases hi : i < opened trace
    · rw [if_pos hi, if_pos hi]
      cases hc : a.closes i with
      | false => rw [Bool.or_false]
      | true =>
        have hclosed := h.conns i
        rw [hcloses i hc, if_pos hi] at hclosed
        rw [← Option.some.inj hclosed]
        rfl
    · rw [if_neg hi, if_neg hi]
  · have hopens : (Action.close k).opens.toNat = 0 := rfl
    rw [hopens, add_zero, hconns, List.getElem?_set, Action.closes]
    by_cases hi : k = i
    · subst hi
      obtain ⟨hlt, -⟩ := List.getElem?_eq_some_iff.mp hk
      rw [if_pos rfl, if_pos hlt, if_pos (hlength ▸ hlt), decide_eq_true rfl, Bool.or_true]
    · rw [if_neg hi, h.conns, decide_eq_false hi, Bool.or_false]

theorem Follows.step (h : Follows trace r) (hc : Counted r) (hs : r.step a = some r') :
    Follows (trace ++ [a]) r' := by
  constructor
  case conns => exact h.conns_step hs
  case requests =>
    intro q
    cases ha : a.isRequest with
    | false => exact h.requests_step hc hs ha q
    | true =>
      obtain rfl : a = .traceRequest := by cases a <;> first | rfl | cases ha
      cases hs
      exact h.requests_traceRequest q
  case unknown =>
    intro q hq
    rw [started_snoc] at hq
    have hlength := h.length_requests
    obtain ⟨hfinished, hawaits⟩ := h.unknown q (by omega)
    obtain ⟨hfinishes, hhook⟩ := known_step hs (q := q) (by omega)
    rw [isFinished_snoc, awaits_snoc, hfinished, hfinishes, hhook, hawaits]
    exact ⟨rfl, rfl⟩
  case unopened =>
    intro i hi
    rw [opened_snoc] at hi
    have hlength := h.length_conns
    rw [isClosed_snoc, h.unopened i (by omega), Bool.false_or, ← Bool.not_eq_true]
    intro hcloses
    have hnone : r.conns[i]? = none := List.getElem?_eq_none (by omega)
    rcases ConnectionRecorder.conns_step hs with ⟨-, -, hc⟩ | ⟨-, -, hc⟩ | ⟨k, hk, rfl, -⟩
    · rw [hc] at hcloses
      cases hcloses
    · rw [hc i hcloses] at hnone
      cases hnone
    · rw [← of_decide_eq_true hcloses, hk] at hnone
      cases hnone

theorem follows_of_execute (h : execute step new trace = some r) : Follows trace r ∧ Counted r := by
  refine execute_invariant (I := fun trace r => Follows trace r ∧ Counted r)
    ⟨follows_new, counted_new⟩ ?_ h
  rintro trace a r r' ⟨hf, hc⟩ hs
  exact ⟨hf.step hc hs, hc.step hs⟩

/-- In every interleaving of traced requests, dials, closes and windows the counters are what they
are named after: the requests started and not finished, the unfinished ones between a GetConn and
the next GotConn, and the tracked connections opened and not closed. None is ever negative, and no
peak is below its current value. -/
theorem connection_counters_are_conserved (h : execute step new trace = some r) :
    r.state.activeRequests =
        started trace - ((List.range (started trace)).countP (isFinished trace) : ℕ) ∧
      r.state.waitingForConnection = ((List.range (started trace)).countP (isWaiting trace) : ℕ) ∧
      r.state.openTCP = opened trace - ((List.range (opened trace)).countP (isClosed trace) : ℕ) ∧
      0 ≤ r.state.activeRequests ∧ 0 ≤ r.state.waitingForConnection ∧ 0 ≤ r.state.openTCP ∧
      r.state.activeRequests ≤ r.state.peakActiveRequests ∧
      r.state.waitingForConnection ≤ r.state.peakWaitingForConnection ∧
      r.state.openTCP ≤ r.state.peakOpenTCP := by
  obtain ⟨hf, hc⟩ := follows_of_execute h
  obtain ⟨hrequests, hconns⟩ := hf.lists
  have hcount : ∀ p : Bool × Bool → Bool, r.requests.countP (fun t => p t.flags) =
      (List.range (started trace)).countP fun q => p (isFinished trace q, isWaiting trace q) := by
    intro p
    have hp := congrArg (List.countP p) hrequests
    rwa [List.countP_map, List.countP_map] at hp
  have hnot : ∀ (n : ℕ) (p : ℕ → Bool),
      (List.range n).countP p + (List.range n).countP (fun i => !p i) = n := by
    intro n p
    have hsplit := (List.range n).length_eq_countP_add_countP p
    rw [List.length_range] at hsplit
    simpa using hsplit.symm
  have hactive := hc.active.trans (congrArg Nat.cast (hcount fun p => !p.1))
  have hwaiting := hc.waiting.trans (congrArg Nat.cast (hcount fun p => p.2))
  have hopen := hc.openTCP
  rw [hconns, List.countP_map] at hopen
  have hstarted := hnot (started trace) (isFinished trace)
  have hopened := hnot (opened trace) (isClosed trace)
  refine ⟨?_, hwaiting, ?_, ?_, ?_, ?_, hc.peaks⟩
  · rw [hactive]
    dsimp only
    omega
  · rw [hopen]
    dsimp only [Function.comp_def]
    omega
  · rw [hactive]
    exact Int.natCast_nonneg _
  · rw [hwaiting]
    exact Int.natCast_nonneg _
  · rw [hopen]
    exact Int.natCast_nonneg _

/-- The first request dials and ends, its connection is closed twice; the second one waits. -/
def twoRequests : List Action :=
  [.wrapTransport 2 0 false, .traceRequest, .getConn 0 5, .dial, .dialed (some .tcp), .traceRequest,
    .gotConn 0 false 7, .getConn 1 8, .finish 0 (some "HTTP/1.1") none 9, .close 0, .close 0]

theorem connection_counters_are_conserved_twoRequests :
    ∃ r ∈ execute step new twoRequests, r.state.activeRequests = 1 ∧ r.state.openTCP = 0 ∧
      r.state.waitingForConnection =
        ((List.range (started twoRequests)).countP (isWaiting twoRequests) : ℕ) := by
  have hrun : ∃ r ∈ execute step new twoRequests,
      r.state.activeRequests = 1 ∧ r.state.openTCP = 0 := by
    decide
  obtain ⟨r, h, hactive, hopen⟩ := hrun
  exact ⟨r, h, hactive, hopen, (connection_counters_are_conserved h).2.1⟩

end Follows

end ConnectionRecorder

end IngestKit.Benchmark
