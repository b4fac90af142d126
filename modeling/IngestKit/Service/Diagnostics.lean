import IngestKit.Text.Utf8
import Mathlib.Algebra.Order.Ring.Int
import Mathlib.Data.List.Chain
import Mathlib.Logic.Function.Basic

/-! `Diagnostics`: failures of one operation are logged at most once in a cooldown, and every
suppressed one is counted in a later entry. Clock readings are nanoseconds and may be any. -/
namespace IngestKit.Service

namespace Diagnostics

/-- The kind of an operation; `Report` ignores every other text. -/
inductive Kind
  | startup | storage | quarantine | progress
  | other (text : Bytes)
  deriving DecidableEq

def Kind.known : Kind → Bool
  | .other _ => false
  | _ => true

/-- What `errors.Is` and `errors.As` find in an error. -/
structure Failure where
  deadlineExceeded : Bool
  canceled : Bool
  pgCode : Option Bytes
  network : Bool
  deriving DecidableEq

inductive FailureClass
  | deadline | canceled | database | network | operation
  deriving DecidableEq

def Failure.errorClass (e : Failure) : FailureClass :=
  if e.deadlineExceeded then .deadline
  else if e.canceled then .canceled
  else if e.pgCode.isSome then .database
  else if e.network then .network
  else .operation

def isUpper (c : UInt8) : Bool := 0x41 ≤ c ∧ c ≤ 0x5a

def isLower (c : UInt8) : Bool := 0x61 ≤ c ∧ c ≤ 0x7a

def isDigit (c : UInt8) : Bool := 0x30 ≤ c ∧ c ≤ 0x39

/-- One to 249 letters, digits, dots, underscores and hyphens. -/
def diagnosticTopic (topic : Bytes) : Bool :=
  1 ≤ topic.length ∧ topic.length ≤ 249 ∧ topic.all fun c =>
    isLower c || isUpper c || isDigit c || c == 0x2e || c == 0x5f || c == 0x2d

/-- Five capital letters and digits. -/
def diagnosticSQLState (code : Bytes) : Bool :=
  code.length = 5 ∧ code.all fun c => isUpper c || isDigit c

def Failure.sqlstate (e : Failure) : Option Bytes :=
  if e.errorClass = .database then e.pgCode.filter diagnosticSQLState else none

/-- The arguments of one `Report` and the clock it reads. -/
structure Report where
  kind : Kind
  topic : Bytes
  partition : ℤ
  offset : ℤ
  err : Option Failure
  now : ℤ
  deriving DecidableEq

inductive Message
  | failed | recovered
  deriving DecidableEq

/-- A log entry; `now` is the clock reading of the report that wrote it. -/
structure Entry where
  message : Message
  operation : Kind
  partition : ℤ
  offset : ℤ
  suppressed : ℕ
  topic : Option Bytes
  errorClass : Option FailureClass
  sqlstate : Option Bytes
  now : ℤ
  deriving DecidableEq

structure DiagnosticState where
  failed : Bool := false
  last : ℤ := 0
  suppressed : ℕ := 0
  deriving DecidableEq

/-- `Time.Sub`: the difference of two readings, saturated to the range of a duration. -/
def sub (t u : ℤ) : ℤ := max (-9223372036854775808) (min (t - u) 9223372036854775807)

end Diagnostics

/-- `logger` holds what was logged so far. -/
structure Diagnostics where
  logger : List Diagnostics.Entry
  cooldown : ℤ
  states : Diagnostics.Kind → Diagnostics.DiagnosticState

namespace Diagnostics

def new (cooldown : ℤ) : Diagnostics where
  logger := []
  cooldown := if cooldown ≤ 0 then 10000000000 else cooldown
  states _ := {}

/-- The attributes both messages have. -/
def entry (state : DiagnosticState) (message : Message) (r : Report) : Entry where
  message := message
  operation := r.kind
  partition := r.partition
  offset := r.offset
  suppressed := state.suppressed
  topic := if diagnosticTopic r.topic then some r.topic else none
  errorClass := r.err.map Failure.errorClass
  sqlstate := r.err.bind Failure.sqlstate
  now := r.now

/-- `Report`, under its lock. -/
def report (d : Diagnostics) (r : Report) : Diagnostics :=
  if r.kind.known = false then d
  else
    let state := d.states r.kind
    if r.err = none ∧ state.failed = false then d
    else if r.err ≠ none ∧ state.failed = true ∧ sub r.now state.last < d.cooldown then
      { d with states :=
          Function.update d.states r.kind { state with suppressed := state.suppressed + 1 } }
    else if r.err = none then
      { d with
        logger := d.logger ++ [entry state .recovered r]
        states := Function.update d.states r.kind {} }
    else
      { d with
        logger := d.logger ++ [entry state .failed r]
        states := Function.update d.states r.kind ⟨true, r.now, 0⟩ }

def run (d : Diagnostics) (rs : List Report) : Diagnostics := rs.foldl report d

theorem run_snoc (d : Diagnostics) (rs : List Report) (r : Report) :
    d.run (rs ++ [r]) = (d.run rs).report r := by
  rw [run, List.foldl_append, ← run]
  rfl

/-- The entries of one kind. -/
def entries (d : Diagnostics) (kind : Kind) : List Entry := d.logger.filter (·.operation = kind)

/-- What a report of a known kind does to the state and the entries of that kind. -/
inductive Outcome (cooldown : ℤ) (r : Report) (state : DiagnosticState) :
    DiagnosticState → List Entry → Prop
  | quiet (hok : r.err = none) (hup : state.failed = false) : Outcome cooldown r state state []
  | suppressed (herr : r.err ≠ none) (hdown : state.failed = true)
      (hsoon : sub r.now state.last < cooldown) :
      Outcome cooldown r state { state with suppressed := state.suppressed + 1 } []
  | recovered (hok : r.err = none) (hdown : state.failed = true) :
      Outcome cooldown r state {} [entry state .recovered r]
  | failed (herr : r.err ≠ none)
      (hdue : state.failed = true → cooldown ≤ sub r.now state.last) :
      Outcome cooldown r state ⟨true, r.now, 0⟩ [entry state .failed r]

section Specs
variable {d : Diagnostics} {r : Report} {kind : Kind}

theorem cooldown_report (d : Diagnostics) (r : Report) : (d.report r).cooldown = d.cooldown := by
  unfold report
  dsimp only
  split_ifs <;> rfl

theorem cooldown_run (d : Diagnostics) (rs : List Report) : (d.run rs).cooldown = d.cooldown := by
  induction rs using List.reverseRecOn with
  | nil => rfl
  | append_singleton rs r ih => rw [run_snoc, cooldown_report, ih]

theorem cooldown_new_pos (cooldown : ℤ) : 0 < (new cooldown).cooldown := by
  unfold new
  dsimp only
  split_ifs <;> omega

/-- A report of another kind changes neither the state nor the entries of this one. -/
theorem report_of_ne (d : Diagnostics) (h : r.kind ≠ kind) :
    (d.report r).states kind = d.states kind ∧ (d.report r).entries kind = d.entries kind := by
  unfold report entries
  dsimp only
  split_ifs
  · exact ⟨rfl, rfl⟩
  · exact ⟨rfl, rfl⟩
  · exact ⟨Function.update_of_ne (Ne.symm h) _ _, rfl⟩
  · refine ⟨Function.update_of_ne (Ne.symm h) _ _, ?_⟩
    simp [List.filter_append, entry, h]
  · refine ⟨Function.update_of_ne (Ne.symm h) _ _, ?_⟩
    simp [List.filter_append, entry, h]

theorem report_outcome (d : Diagnostics) (hknown : r.kind.known = true) :
    ∃ state es, Outcome d.cooldown r (d.states r.kind) state es ∧
      (d.report r).states r.kind = state ∧ (d.report r).logger = d.logger ++ es := by
  unfold report
  dsimp only
  rw [if_neg (by simp [hknown])]
  split_ifs with h1 h2 h3
  · exact ⟨_, [], .quiet h1.1 h1.2, rfl, (List.append_nil _).symm⟩
  · exact ⟨_, [], .suppressed h2.1 h2.2.1 h2.2.2, Function.update_self _ _ _,
      (List.append_nil _).symm⟩
  · have hdown : (d.states r.kind).failed = true := by
      rw [← Bool.not_eq_false]
      exact fun hup => h1 ⟨h3, hup⟩
    exact ⟨_, _, .recovered h3 hdown, Function.update_self _ _ _, rfl⟩
  · refine ⟨_, _, .failed h3 fun hdown => ?_, Function.update_self _ _ _, rfl⟩
    exact not_lt.mp fun hsoon => h2 ⟨h3, hdown, hsoon⟩

theorem Outcome.unique {cooldown : ℤ} {state s₁ s₂ : DiagnosticState} {es₁ es₂ : List Entry}
    (h₁ : Outcome cooldown r state s₁ es₁) (h₂ : Outcome cooldown r state s₂ es₂) :
    s₁ = s₂ ∧ es₁ = es₂ := by
  cases h₁ <;> cases h₂ <;> simp_all
  all_goals omega

theorem operation_outcome {cooldown : ℤ} {state state' : DiagnosticState} {es : List Entry}
    (h : Outcome cooldown r state state' es) : ∀ e ∈ es, e.operation = r.kind := by
  cases h <;> simp [entry]

/-- The same, for the entries of the report's kind. -/
theorem report_own (d : Diagnostics) (hknown : r.kind.known = true) :
    ∃ es, Outcome d.cooldown r (d.states r.kind) ((d.report r).states r.kind) es ∧
      (d.report r).entries r.kind = d.entries r.kind ++ es := by
  obtain ⟨state, es, hout, hstate, hlog⟩ := d.report_outcome hknown
  refine ⟨es, hstate ▸ hout, ?_⟩
  have hes : es.filter (·.operation = r.kind) = es := by
    rw [List.filter_eq_self]
    intro e he
    rw [decide_eq_true_eq]
    exact operation_outcome hout e he
  rw [entries, hlog, List.filter_append, hes, ← entries]

/-- Only the reports of a kind matter for it. -/
theorem run_own (hknown : kind.known = true) (d : Diagnostics) (rs : List Report) :
    (d.run rs).states kind = (d.run (rs.filter (·.kind = kind))).states kind ∧
      (d.run rs).entries kind = (d.run (rs.filter (·.kind = kind))).entries kind := by
  induction rs using List.reverseRecOn with
  | nil => exact ⟨rfl, rfl⟩
  | append_singleton rs r ih =>
    rw [run_snoc, List.filter_append]
    by_cases hr : r.kind = kind
    · subst hr
      obtain ⟨es, hout, hes⟩ := (d.run rs).report_own hknown
      obtain ⟨es', hout', hes'⟩ := (d.run (rs.filter (·.kind = r.kind))).report_own hknown
      rw [cooldown_run] at hout hout'
      rw [ih.1] at hout
      obtain ⟨hstate, rfl⟩ := hout.unique hout'
      rw [List.filter_singleton, decide_eq_true rfl, cond_true, run_snoc, hes, hes', ih.2]
      exact ⟨hstate, rfl⟩
    · obtain ⟨hstate, hentries⟩ := (d.run rs).report_of_ne hr
      rw [List.filter_singleton, decide_eq_false hr, cond_false, List.append_nil, hstate, hentries]
      exact ih

end Specs

/-- The number of failures that were reported for a kind. -/
def failures (kind : Kind) (rs : List Report) : ℕ :=
  (rs.filter fun r => r.kind = kind ∧ r.err ≠ none).length

/-- The last report of this kind was a failure: a success would be the first one after it. -/
def lastFailed (kind : Kind) (rs : List Report) : Bool :=
  (rs.filter (·.kind = kind)).getLast?.any (·.err ≠ none)

/-- Consecutive failed entries are a cooldown apart. -/
def Spaced (cooldown : ℤ) (e f : Entry) : Prop :=
  e.message = .failed → f.message = .failed → cooldown ≤ f.now - e.now

/-- The books of one kind after these reports. -/
structure Accounted (kind : Kind) (rs : List Report) (d : Diagnostics) : Prop where
  count : failures kind rs = ((d.entries kind).filter (·.message = .failed)).length +
    ((d.entries kind).map Entry.suppressed).sum + (d.states kind).suppressed
  failed : (d.states kind).failed = lastFailed kind rs
  spaced : (d.entries kind).IsChain (Spaced d.cooldown)
  last : ∀ e ∈ (d.entries kind).getLast?,
    e.message = .failed → (d.states kind).failed = true ∧ e.now = (d.states kind).last

section Accounts
variable {kind : Kind} {rs : List Report} {r : Report} {d : Diagnostics}

theorem failures_snoc (kind : Kind) (rs : List Report) (r : Report) :
    failures kind (rs ++ [r]) =
      failures kind rs + if r.kind = kind ∧ r.err ≠ none then 1 else 0 := by
  rw [failures, List.filter_append, List.length_append, ← failures]
  by_cases h : r.kind = kind ∧ r.err ≠ none <;> simp [h]

theorem lastFailed_snoc (kind : Kind) (rs : List Report) (r : Report) :
    lastFailed kind (rs ++ [r]) =
      if r.kind = kind then decide (r.err ≠ none) else lastFailed kind rs := by
  rw [lastFailed, List.filter_append]
  by_cases h : r.kind = kind
  · simp [h]
  · simp [h, lastFailed]

/-- One more entry accounts for itself, if it is a failed one, and for what it says was suppressed
before it. -/
theorem logged_snoc (es : List Entry) (e : Entry) :
    ((es ++ [e]).filter (·.message = .failed)).length + ((es ++ [e]).map Entry.suppressed).sum =
      (es.filter (·.message = .failed)).length + (es.map Entry.suppressed).sum + e.suppressed +
        if e.message = .failed then 1 else 0 := by
  rw [List.filter_append, List.length_append, List.map_append, List.sum_append, List.map_singleton,
    List.sum_singleton, List.filter_singleton]
  by_cases h : e.message = .failed
  · rw [decide_eq_true h, cond_true, if_pos h, List.length_singleton]
    omega
  · rw [decide_eq_false h, cond_false, if_neg h, List.length_nil]
    omega

theorem accounted_new (kind : Kind) (cooldown : ℤ) : Accounted kind [] (new cooldown) :=
  ⟨rfl, rfl, .nil, fun _ h => by cases h⟩

/-- A difference that reaches the cooldown after saturation reaches it before. -/
theorem le_of_le_sub {cooldown t u : ℤ} (hpos : 0 < cooldown) (h : cooldown ≤ sub t u) :
    cooldown ≤ t - u := by
  unfold sub at h
  omega

/-- An entry may follow if it keeps its distance from the last one. -/
theorem isChain_snoc {cooldown : ℤ} {es : List Entry} {f : Entry} (h : es.IsChain (Spaced cooldown))
    (hlast : ∀ e ∈ es.getLast?, Spaced cooldown e f) : (es ++ [f]).IsChain (Spaced cooldown) := by
  rw [List.isChain_append]
  refine ⟨h, .singleton f, fun e he g hg => ?_⟩
  rw [List.head?_cons, Option.mem_some_iff] at hg
  exact hg ▸ hlast e he

/-- A report of this kind. -/
theorem Accounted.own (h : Accounted r.kind rs d) (hknown : r.kind.known = true)
    (hpos : 0 < d.cooldown) : Accounted r.kind (rs ++ [r]) (d.report r) := by
  obtain ⟨es, hout, hes⟩ := d.report_own hknown
  obtain ⟨state, hstate⟩ : ∃ state, (d.report r).states r.kind = state := ⟨_, rfl⟩
  rw [hstate] at hout
  have hcount := h.count
  have hlast := h.last
  constructor
  case count =>
    rw [failures_snoc, hes, hstate, hcount]
    cases hout with
    | quiet hok hup => rw [if_neg fun hown => hown.2 hok, List.append_nil, add_zero]
    | suppressed herr hdown hsoon => rw [if_pos ⟨rfl, herr⟩, List.append_nil, add_assoc]
    | recovered hok hdown =>
      rw [if_neg fun hown => hown.2 hok, logged_snoc]
      rfl
    | failed herr hdue =>
      rw [if_pos ⟨rfl, herr⟩, logged_snoc]
      rfl
  case failed =>
    rw [lastFailed_snoc, if_pos rfl, hstate]
    cases hout with
    | quiet hok hup => rw [hup, hok]; rfl
    | suppressed herr hdown hsoon => simp [hdown, herr]
    | recovered hok hdown => rw [hok]; rfl
    | failed herr hdue => simp [herr]
  case spaced =>
    rw [hes, cooldown_report]
    cases hout with
    | quiet hok hup => rw [List.append_nil]; exact h.spaced
    | suppressed herr hdown hsoon => rw [List.append_nil]; exact h.spaced
    | recovered hok hdown => exact isChain_snoc h.spaced fun e _ _ hf => by cases hf
    | failed herr hdue =>
      refine isChain_snoc h.spaced fun e he hfailed _ => ?_
      obtain ⟨hdown, hnow⟩ := hlast e he hfailed
      rw [hnow]
      exact le_of_le_sub hpos (hdue hdown)
  case last =>
    rw [hes, hstate]
    cases hout with
    | quiet hok hup => rw [List.append_nil]; exact hlast
    | suppressed herr hdown hsoon => rw [List.append_nil]; exact hlast
    | recovered hok hdown =>
      intro e he hfailed
      rw [List.getLast?_concat, Option.mem_some_iff] at he
      rw [← he] at hfailed
      cases hfailed
    | failed herr hdue =>
      intro e he _
      rw [List.getLast?_concat, Option.mem_some_iff] at he
      rw [← he]
      exact ⟨rfl, rfl⟩

/-- A report of another kind. -/
theorem Accounted.other (h : Accounted kind rs d) (hr : r.kind ≠ kind) :
    Accounted kind (rs ++ [r]) (d.report r) := by
  obtain ⟨hstate, hentries⟩ := d.report_of_ne hr
  constructor
  case count =>
    rw [failures_snoc, if_neg fun hown => hr hown.1, hentries, hstate, add_zero, h.count]
  case failed => rw [lastFailed_snoc, if_neg hr, hstate, h.failed]
  case spaced =>
    rw [hentries, cooldown_report]
    exact h.spaced
  case last =>
    rw [hentries, hstate]
    exact h.last

theorem Accounted.report (h : Accounted kind rs d) (hknown : kind.known = true)
    (hpos : 0 < d.cooldown) (r : Report) : Accounted kind (rs ++ [r]) (d.report r) := by
  by_cases hr : r.kind = kind
  · subst hr
    exact h.own hknown hpos
  · exact h.other hr

theorem accounted_run (hknown : kind.known = true) (cooldown : ℤ) (rs : List Report) :
    Accounted kind rs ((new cooldown).run rs) := by
  induction rs using List.reverseRecOn with
  | nil => exact accounted_new kind cooldown
  | append_singleton rs r ih =>
    rw [run_snoc]
    refine ih.report hknown ?_ r
    rw [cooldown_run]
    exact cooldown_new_pos cooldown

/-- Failed entries without a recovery between them are at least a cooldown apart. -/
theorem spaced_of_isChain {cooldown : ℤ} (hpos : 0 ≤ cooldown) {e f : Entry} {between : List Entry}
    (h : (e :: between ++ [f]).IsChain (Spaced cooldown)) (he : e.message = .failed)
    (hf : f.message = .failed) (hbetween : ∀ g ∈ between, g.message = .failed) :
    cooldown ≤ f.now - e.now := by
  induction between generalizing e with
  | nil => exact (List.isChain_cons_cons.mp h).1 he hf
  | cons g between ih =>
    rw [List.cons_append, List.cons_append, List.isChain_cons_cons] at h
    have hg : g.message = .failed := hbetween g List.mem_cons_self
    have hfirst := h.1 he hg
    have hrest := ih h.2 hg fun k hk => hbetween k (List.mem_cons_of_mem _ hk)
    omega

/-- A report writes a recovery exactly if it is the first success after a failure. -/
theorem recovers_iff (hknown : kind.known = true) (cooldown : ℤ) (rs : List Report) (r : Report) :
    (∃ e, ((new cooldown).run (rs ++ [r])).entries kind =
        ((new cooldown).run rs).entries kind ++ [e] ∧ e.message = .recovered) ↔
      r.kind = kind ∧ r.err = none ∧ lastFailed kind rs = true := by
  rw [run_snoc, ← (accounted_run hknown cooldown rs).failed]
  by_cases hr : r.kind = kind
  · subst hr
    obtain ⟨es, hout, hes⟩ := ((new cooldown).run rs).report_own hknown
    rw [hes]
    generalize (((new cooldown).run rs).report r).states r.kind = state at hout
    cases hout with
    | quiet hok hup => simp [hup]
    | suppressed herr hdown hsoon => simp [herr]
    | recovered hok hdown => simp [hok, hdown, entry]
    | failed herr hdue => simp [herr, entry]
  · rw [(((new cooldown).run rs).report_of_ne hr).2]
    simp [hr]

/-- For every kind that `Report` accepts and every sequence of reports: each failure is logged or
counted as suppressed by an entry or in the state; a recovery is logged exactly at the first success
after a failure; failed entries that no recovery separates are at least the cooldown apart; and all
of this is what the reports of that kind alone lead to. -/
theorem suppressed_failures_are_accounted (hknown : kind.known = true) (cooldown : ℤ)
    (rs : List Report) :
    let d := (new cooldown).run rs
    failures kind rs = ((d.entries kind).filter (·.message = .failed)).length +
        ((d.entries kind).map Entry.suppressed).sum + (d.states kind).suppressed ∧
      (∀ before r after, rs = before ++ r :: after →
        ((∃ e, ((new cooldown).run (before ++ [r])).entries kind =
            ((new cooldown).run before).entries kind ++ [e] ∧ e.message = .recovered) ↔
          r.kind = kind ∧ r.err = none ∧ lastFailed kind before = true)) ∧
      (∀ before e between f after, d.entries kind = before ++ e :: between ++ f :: after →
        e.message = .failed → f.message = .failed → (∀ g ∈ between, g.message ≠ .recovered) →
          d.cooldown ≤ f.now - e.now) ∧
      d.states kind = ((new cooldown).run (rs.filter (·.kind = kind))).states kind ∧
      d.entries kind = ((new cooldown).run (rs.filter (·.kind = kind))).entries kind := by
  intro d
  have haccounted : Accounted kind rs d := accounted_run hknown cooldown rs
  refine ⟨haccounted.count, fun before r _ _ => recovers_iff hknown cooldown before r, ?_,
    run_own hknown (new cooldown) rs⟩
  intro before e between f after heq he hf hbetween
  have hchain := haccounted.spaced
  rw [heq, List.append_assoc] at hchain
  have htail := (List.isChain_append.mp hchain).2.1
  rw [← List.singleton_append (x := f), ← List.append_assoc] at htail
  have hpos := cooldown_new_pos cooldown
  rw [← cooldown_run _ rs] at hpos
  refine spaced_of_isChain hpos.le (List.isChain_append.mp htail).1 he hf fun g hg => ?_
  cases hm : g.message with
  | failed => rfl
  | recovered => exact absurd hm (hbetween g hg)

/-- A report of the storage operation. -/
def storageReport (err : Option Failure) (now : ℤ) : Report := ⟨.storage, [], 0, 7, err, now⟩

/-- Two failures within the cooldown and a recovery, which reports the second. -/
theorem suppressed_failures_are_accounted_storage :
    let failure : Failure := ⟨true, false, none, false⟩
    let rs := [storageReport (some failure) 0, storageReport (some failure) 5, storageReport none 9]
    let d := (new 10).run rs
    d.entries .storage = [entry {} .failed (storageReport (some failure) 0),
        entry ⟨true, 0, 1⟩ .recovered (storageReport none 9)] ∧
      failures .storage rs = ((d.entries .storage).filter (·.message = .failed)).length +
        ((d.entries .storage).map Entry.suppressed).sum + (d.states .storage).suppressed := by
  intro failure rs d
  exact ⟨by decide +kernel, (suppressed_failures_are_accounted rfl 10 rs).1⟩

end Accounts

end Diagnostics

end IngestKit.Service
