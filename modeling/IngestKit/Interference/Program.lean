import IngestKit.Transition.Runs
import Mathlib.Data.Nat.Notation
import Mathlib.Logic.Relation

/-! Programs that make calls on a state they share with others, which may change it between any two
calls, and rules to prove what such a program does. -/
namespace IngestKit.Interference
open Transition

/-- A program makes one call after the other, and goes on as the answer says. -/
inductive Program (Call : Type) (Answer : Call → Type) (ε α : Type)
  | pure (a : α)
  | raise (e : ε)
  | call (c : Call) (k : Answer c → Program Call Answer ε α)

section Programs
variable {Call : Type} {Answer : Call → Type} {ε α β : Type}

namespace Program

def bind : Program Call Answer ε α → (α → Program Call Answer ε β) → Program Call Answer ε β
  | .pure a, f => f a
  | .raise e, _ => .raise e
  | .call c k, f => .call c fun b => (k b).bind f

instance : Monad (Program Call Answer ε) where
  pure := .pure
  bind := bind

def perform (c : Call) : Program Call Answer ε (Answer c) := .call c .pure

/-- Run a program for each element in order. -/
def each {γ : Type} (l : List γ) (f : γ → Program Call Answer ε Unit) :
    Program Call Answer ε Unit :=
  l.foldlM (fun _ x => f x) ()

/-- The call the program is about to make. -/
def next : Program Call Answer ε α → Option Call
  | .call c _ => some c
  | _ => none

end Program

end Programs

/-- How calls act on the state. A call may stop part way, because it fails or because the program
is killed; and others may change the state, as far as the call that comes next lets them. -/
structure System (Call : Type) (Answer : Call → Type) (σ κ : Type) where
  respond : (c : Call) → σ → Answer c × σ
  interrupt : Call → ℕ → σ → σ
  disturb : Option Call → κ → σ → Option σ

/-- The states that a call leads to, whether it is done or stops part way. -/
def System.Leads {Call : Type} {Answer : Call → Type} {σ κ : Type} (S : System Call Answer σ κ)
    (c : Call) (s t : σ) : Prop :=
  t = (S.respond c s).2 ∨ ∃ progress, t = S.interrupt c progress s

structure Process (Call : Type) (Answer : Call → Type) (ε α σ : Type) where
  program : Program Call Answer ε α
  state : σ

inductive Action (ε κ : Type)
  | run
  | stop (progress : ℕ) (e : ε)
  | other (change : κ)

/-- A step of the program and not of others. -/
def Action.own {ε κ : Type} : Action ε κ → Bool
  | .other _ => false
  | _ => true

section Runs
variable {Call : Type} {Answer : Call → Type} {ε α β σ κ : Type}

def System.step (S : System Call Answer σ κ) (w : Process Call Answer ε α σ) :
    Action ε κ → Option (Process Call Answer ε α σ)
  | .run =>
    match w.program with
    | .call c k => some ⟨k (S.respond c w.state).1, (S.respond c w.state).2⟩
    | _ => none
  | .stop progress e =>
    match w.program with
    | .call c _ => some ⟨.raise e, S.interrupt c progress w.state⟩
    | _ => none
  | .other change =>
    (S.disturb w.program.next change w.state).map fun s => ⟨w.program, s⟩

/-- A step of the program itself, which makes a call that the condition allows. -/
def Meets (C : Call → σ → Prop) (w : Process Call Answer ε α σ) : Action ε κ → Prop
  | .other _ => True
  | _ => ∀ c ∈ w.program.next, C c w.state

instance (C : Call → σ → Prop) [∀ c s, Decidable (C c s)] (w : Process Call Answer ε α σ) :
    (a : Action ε κ) → Decidable (Meets C w a)
  | .other _ => isTrue trivial
  | .run => inferInstanceAs (Decidable (∀ c ∈ w.program.next, C c w.state))
  | .stop _ _ => inferInstanceAs (Decidable (∀ c ∈ w.program.next, C c w.state))

/-- A property that others keep while this call comes next. -/
def System.Stable (S : System Call Answer σ κ) (c : Option Call) (I : σ → Prop) : Prop :=
  ∀ change s t, S.disturb c change s = some t → I s → I t

variable (S : System Call Answer σ κ) (C : Call → σ → Prop) (G : σ → σ → Prop)

/-- From this state, every call that the condition allows satisfies `G`, also if it stops part way,
and if the program returns it does so with `Q`. -/
def Safe (Q : α → σ → Prop) : Program Call Answer ε α → σ → Prop
  | .pure a, s => Q a s
  | .raise _, _ => True
  | .call c k, s => ∀ t, Relation.ReflTransGen
      (fun s t => ∃ change, S.disturb (some c) change s = some t) s t → C c t →
        (∀ progress, G t (S.interrupt c progress t)) ∧ G t (S.respond c t).2 ∧
          Safe Q (k (S.respond c t).1) (S.respond c t).2

variable {S C G} {Q Q' : α → σ → Prop} {s t : σ}

theorem safe_bind {R : β → σ → Prop} (p : Program Call Answer ε α)
    (f : α → Program Call Answer ε β) (s : σ) :
    Safe S C G R (p >>= f) s ↔ Safe S C G (fun a s => Safe S C G R (f a) s) p s := by
  induction p generalizing s with
  | pure a => exact Iff.rfl
  | raise e => exact Iff.rfl
  | call c k ih =>
    refine forall_congr' fun t => imp_congr_right fun _ => imp_congr_right fun _ => ?_
    exact and_congr_right fun _ => and_congr_right fun _ => ih _ _

theorem Safe.mono {p : Program Call Answer ε α} (h : Safe S C G Q p s)
    (hQ : ∀ a s, Q a s → Q' a s) : Safe S C G Q' p s := by
  induction p generalizing s with
  | pure a => exact hQ a s h
  | raise e => trivial
  | call c k ih =>
    intro t ht hc
    obtain ⟨h1, h2, h3⟩ := h t ht hc
    exact ⟨h1, h2, ih _ h3⟩

theorem Safe.bind {R : β → σ → Prop} {p : Program Call Answer ε α}
    {f : α → Program Call Answer ε β} (h : Safe S C G Q p s)
    (hf : ∀ a s, Q a s → Safe S C G R (f a) s) : Safe S C G R (p >>= f) s :=
  (safe_bind p f s).mpr (h.mono hf)

/-- One call from a state with a property that others keep. -/
theorem safe_perform {c : Call} {Q : Answer c → σ → Prop} {I : σ → Prop}
    (hstable : S.Stable (some c) I) (hs : I s)
    (h : ∀ t, I t → C c t → (∀ progress, G t (S.interrupt c progress t)) ∧
      G t (S.respond c t).2 ∧ Q (S.respond c t).1 (S.respond c t).2) :
    Safe S C G Q (Program.perform c : Program Call Answer ε (Answer c)) s := by
  intro t ht hc
  refine h t ?_ hc
  exact run_invariant hs (fun a b ha ⟨change, hb⟩ => hstable change a b hb ha) ht

/-- A loop: what holds of the elements done is kept by the next one. -/
theorem safe_foldlM {γ : Type} {f : β → γ → Program Call Answer ε β} {J : List γ → β → σ → Prop}
    (l : List γ) {b : β} (h0 : J [] b s)
    (hstep : ∀ done x rest b s, l = done ++ x :: rest → J done b s →
      Safe S C G (fun b s => J (done ++ [x]) b s) (f b x) s) :
    Safe S C G (fun b s => J l b s) (l.foldlM f b) s := by
  have key : ∀ (rest done : List γ) (b : β) (s : σ), l = done ++ rest → J done b s →
      Safe S C G (fun b s => J l b s) (rest.foldlM f b) s := by
    intro rest
    induction rest with
    | nil =>
      intro done b s hl hb
      rw [List.append_nil] at hl
      rw [List.foldlM_nil, hl]
      exact hb
    | cons x rest ih =>
      intro done b s hl hb
      rw [List.foldlM_cons]
      refine (hstep done x rest b s hl hb).bind fun b' s' hb' => ?_
      exact ih (done ++ [x]) b' s' (by rw [hl, List.append_assoc, List.singleton_append]) hb'
  exact key l [] b s rfl h0

theorem safe_each {γ : Type} {f : γ → Program Call Answer ε Unit} {J : List γ → σ → Prop}
    (l : List γ) (h0 : J [] s)
    (hstep : ∀ done x rest s, l = done ++ x :: rest → J done s →
      Safe S C G (fun _ s => J (done ++ [x]) s) (f x) s) :
    Safe S C G (fun _ s => J l s) (Program.each l f) s :=
  safe_foldlM (J := fun done _ s => J done s) l h0 fun done x rest _ s hl hs =>
    hstep done x rest s hl hs

/-- A step of a safe program leaves a safe program. -/
theorem Safe.step (hQ : ∀ a, S.Stable none (Q a)) {w v : Process Call Answer ε α σ}
    {a : Action ε κ} (hw : Safe S C G Q w.program w.state) (hC : Meets C w a)
    (h : S.step w a = some v) :
    Safe S C G Q v.program v.state ∧ (a.own = true → G w.state v.state) := by
  obtain ⟨p, s⟩ := w
  cases a with
  | run =>
    cases p with
    | pure a => cases h
    | raise e => cases h
    | call c k =>
      cases h
      obtain ⟨-, hG, hk⟩ := hw s .refl (hC c rfl)
      exact ⟨hk, fun _ => hG⟩
  | stop progress e =>
    cases p with
    | pure a => cases h
    | raise e => cases h
    | call c k =>
      cases h
      obtain ⟨hG, -, -⟩ := hw s .refl (hC c rfl)
      exact ⟨trivial, fun _ => hG progress⟩
  | other change =>
    obtain ⟨t, ht, rfl⟩ := Option.map_eq_some_iff.mp h
    refine ⟨?_, nofun⟩
    cases p with
    | pure a => exact hQ a change s t ht hw
    | raise e => trivial
    | call c k => exact fun u hu hc => hw u (.head ⟨change, ht⟩ hu) hc

/-- What the steps of a safe program and those of others keep holds at every point of a run. -/
theorem Safe.execute (hQ : ∀ a, S.Stable none (Q a)) {I : σ → Prop} (hG : ∀ s t, G s t → I s → I t)
    (hother : ∀ c, S.Stable c I) {p : Program Call Answer ε α} (hp : Safe S C G Q p s) (hs : I s)
    {l : List (Action ε κ)} {w : Process Call Answer ε α σ}
    (h : execute S.step ⟨p, s⟩ l = some w)
    (hC : ∀ a x b u, l = a ++ x :: b → execute S.step ⟨p, s⟩ a = some u → Meets C u x) :
    I w.state ∧ Safe S C G Q w.program w.state := by
  refine execute_invariant_when (P := fun w => I w.state ∧ Safe S C G Q w.program w.state)
    ⟨hs, hp⟩ (fun u a v hu hC h => ?_) h hC
  obtain ⟨hv, hGv⟩ := hu.2.step hQ hC h
  refine ⟨?_, hv⟩
  cases a with
  | run => exact hG _ _ (hGv rfl) hu.1
  | stop progress e => exact hG _ _ (hGv rfl) hu.1
  | other change =>
    obtain ⟨t, ht, rfl⟩ := Option.map_eq_some_iff.mp h
    exact hother _ change _ t ht hu.1

end Runs

end IngestKit.Interference
