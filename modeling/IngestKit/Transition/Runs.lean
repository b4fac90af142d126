import Mathlib.Logic.Relation

/-! Runs of a transition system, as a relation and as a list of actions. -/
namespace IngestKit.Transition

section Relation
variable {σ : Type*} {step : σ → σ → Prop} {I : σ → Prop} {s t : σ}

/-- What holds at the start and survives each step holds after every run. -/
theorem run_invariant (h0 : I s) (hstep : ∀ a b, I a → step a b → I b)
    (h : Relation.ReflTransGen step s t) : I t := by
  induction h with
  | refl => exact h0
  | tail _ hs ih => exact hstep _ _ ih hs

end Relation

section Actions
variable {σ α : Type*} (step : σ → α → Option σ)

/-- Perform the actions in order; `none` if one of them is not enabled. -/
def execute (s : σ) : List α → Option σ
  | [] => some s
  | a :: l => (step s a).bind fun t => execute t l

theorem execute_append (s : σ) (l m : List α) :
    execute step s (l ++ m) = (execute step s l).bind fun t => execute step t m := by
  induction l generalizing s with
  | nil => rfl
  | cons a l ih =>
    rw [List.cons_append, execute, execute, Option.bind_assoc]
    exact congrArg _ (funext ih)

/-- What each action of a run gives, in order. -/
def collect {β : Type*} (f : σ → α → List β) (s : σ) : List α → List β
  | [] => []
  | a :: l => f s a ++ (step s a).elim [] fun t => collect f t l

/-- Every action of a run is taken in a state that allows it. -/
def allSteps (C : σ → α → Bool) (s : σ) : List α → Bool
  | [] => true
  | a :: l => C s a && (step s a).all fun t => allSteps C t l

variable {step} {I : List α → σ → Prop} {s t : σ}

theorem allowed_of_allSteps {C : σ → α → Bool} {l a b : List α} {x : α} {u : σ}
    (h : allSteps step C s l = true) (hl : l = a ++ x :: b) (hu : execute step s a = some u) :
    C u x = true := by
  subst hl
  induction a generalizing s with
  | nil =>
    rw [← Option.some.inj hu]
    exact (Bool.and_eq_true_iff.mp h).1
  | cons y a ih =>
    obtain ⟨v, hv, ht⟩ := Option.bind_eq_some_iff.mp hu
    have hrest := (Bool.and_eq_true_iff.mp h).2
    rw [hv] at hrest
    exact ih ht hrest

theorem execute_append_of {u : σ} {l m : List α} (h : execute step s l = some t)
    (h' : execute step t m = some u) : execute step s (l ++ m) = some u := by
  rw [execute_append, h, Option.bind_some, h']

theorem collect_snoc {β : Type*} (f : σ → α → List β) {l : List α} (h : execute step s l = some t)
    (a : α) : collect step f s (l ++ [a]) = collect step f s l ++ f t a := by
  induction l generalizing s with
  | nil =>
    rw [← Option.some.inj h, List.nil_append, collect, collect]
    cases step s a with
    | none => exact List.append_nil _
    | some u => exact List.append_nil _
  | cons b l ih =>
    obtain ⟨u, hu, ht⟩ := Option.bind_eq_some_iff.mp h
    rw [List.cons_append, collect, collect, hu, Option.elim_some, Option.elim_some, ih ht,
      List.append_assoc]

/-- An invariant may speak of the actions performed so far. -/
theorem execute_invariant (h0 : I [] s)
    (hstep : ∀ l a t u, I l t → step t a = some u → I (l ++ [a]) u) {l : List α}
    (h : execute step s l = some t) : I l t := by
  have key : ∀ (l before : List α) (s : σ), I before s → execute step s l = some t →
      I (before ++ l) t := by
    intro l
    induction l with
    | nil =>
      intro before s hs h
      rw [List.append_nil, ← Option.some.inj h]
      exact hs
    | cons a l ih =>
      intro before s hs h
      obtain ⟨u, hu, ht⟩ := Option.bind_eq_some_iff.mp h
      have := ih (before ++ [a]) u (hstep before a s u hs hu) ht
      rwa [List.append_assoc, List.singleton_append] at this
  exact key l [] s h0 h

/-- An invariant that each step keeps under a condition, in a run whose steps all meet it. -/
theorem execute_invariant_when {P : σ → Prop} {C : σ → α → Prop} (h0 : P s)
    (hstep : ∀ u a v, P u → C u a → step u a = some v → P v) {l : List α}
    (h : execute step s l = some t)
    (hc : ∀ a x b u, l = a ++ x :: b → execute step s a = some u → C u x) : P t := by
  induction l generalizing s with
  | nil =>
    rw [← Option.some.inj h]
    exact h0
  | cons x l ih =>
    obtain ⟨v, hv, ht⟩ := Option.bind_eq_some_iff.mp h
    refine ih (hstep s x v h0 (hc [] x l s rfl rfl) hv) ht fun a y b u heq hu => ?_
    refine hc (x :: a) y b u (by rw [heq]; rfl) ?_
    simp only [execute, hv, Option.bind_some]
    exact hu

/-- If a step keeps a property exactly under a condition on the state before it, then the property
holds all along a run exactly if every step meets the condition. -/
theorem execute_forall_iff {P : σ → Prop} {C : σ → α → Prop} (h0 : P s)
    (hstep : ∀ u a v, P u → step u a = some v → (P v ↔ C u a)) {l : List α}
    (h : execute step s l = some t) :
    (∀ a b u, l = a ++ b → execute step s a = some u → P u) ↔
      ∀ a x b u, l = a ++ x :: b → execute step s a = some u → C u x := by
  induction l generalizing s with
  | nil =>
    constructor
    · intro _ a x b u heq
      simp at heq
    · intro _ a b u heq hu
      obtain ⟨rfl, -⟩ := List.append_eq_nil_iff.mp heq.symm
      rwa [← Option.some.inj hu]
  | cons x l ih =>
    obtain ⟨v, hv, ht⟩ := Option.bind_eq_some_iff.mp h
    have htail : ∀ a u, execute step s (x :: a) = some u ↔ execute step v a = some u := by
      intro a u
      simp only [execute, hv, Option.bind_some]
    constructor
    · intro hall
      have hP : P v := hall [x] l v rfl ((htail [] v).mpr rfl)
      have hrest := (ih hP ht).mp fun a b u heq hu =>
        hall (x :: a) b u (by rw [heq]; rfl) ((htail a u).mpr hu)
      intro a y b u heq hu
      cases a with
      | nil =>
        cases heq
        rw [← Option.some.inj hu]
        exact (hstep s x v h0 hv).mp hP
      | cons x' a =>
        cases heq
        exact hrest a y b u rfl ((htail a u).mp hu)
    · intro hall
      have hP : P v := (hstep s x v h0 hv).mpr (hall [] x l s rfl rfl)
      have hrest := (ih hP ht).mpr fun a y b u heq hu =>
        hall (x :: a) y b u (by rw [heq]; rfl) ((htail a u).mpr hu)
      intro a b u heq hu
      cases a with
      | nil =>
        rw [← Option.some.inj hu]
        exact h0
      | cons x' a =>
        cases heq
        exact hrest a b u rfl ((htail a u).mp hu)

end Actions

end IngestKit.Transition
