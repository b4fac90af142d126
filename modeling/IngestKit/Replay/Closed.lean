import Mathlib.Data.Set.Insert
import Mathlib.Tactic.Tauto

/-! Sequences that respect a precedence. `before s r` says that `s` has to come no
later than `r`; a sequence is closed over a set of finished elements when whatever
has to precede one of its elements is finished or stands to its left. -/
namespace IngestKit.Replay

variable {α : Type*} {before : α → α → Prop} {done done' : Set α} {l m : List α}

def Closed (before : α → α → Prop) : Set α → List α → Prop
  | _, [] => True
  | done, r :: l => (∀ s, before s r → s ∈ done) ∧ Closed before (insert r done) l

theorem closed_nil : Closed before done [] := trivial

theorem closed_cons {r : α} : Closed before done (r :: l) ↔
    (∀ s, before s r → s ∈ done) ∧ Closed before (insert r done) l := Iff.rfl

theorem Closed.mono (h : Closed before done l) (hd : done ⊆ done') : Closed before done' l := by
  induction l generalizing done done' with
  | nil => trivial
  | cons r l ih => exact ⟨fun s hs => hd (h.1 s hs), ih h.2 (Set.insert_subset_insert hd)⟩

theorem closed_append : Closed before done (l ++ m) ↔
    Closed before done l ∧ Closed before (done ∪ {x | x ∈ l}) m := by
  induction l generalizing done with
  | nil => simp [closed_nil]
  | cons r l ih =>
    have hset : insert r done ∪ {x | x ∈ l} = done ∪ {x | x ∈ r :: l} := by
      ext x
      simp only [Set.mem_union, Set.mem_insert_iff, Set.mem_ofPred_eq, List.mem_cons]
      tauto
    rw [List.cons_append, closed_cons, closed_cons, ih, hset, and_assoc]

/-- A finished initial part can be dropped. -/
theorem Closed.drop (h : Closed before done (l ++ m)) (hl : ∀ x ∈ l, x ∈ done) :
    Closed before done m :=
  (closed_append.mp h).2.mono (Set.union_subset (fun _ hx => hx) hl)

/-- Whatever precedes an element is finished or to its left. -/
theorem Closed.mem_of_before {a b : List α} {r s : α} (h : Closed before done (a ++ r :: b))
    (hs : before s r) : s ∈ done ∨ s ∈ a :=
  (closed_append.mp h).2.1 s hs

theorem closed_of_split
    (h : ∀ a r b, l = a ++ r :: b → ∀ s, before s r → s ∈ done ∨ s ∈ a) : Closed before done l := by
  induction l generalizing done with
  | nil => trivial
  | cons r l ih =>
    refine ⟨fun s hs => (h [] r l rfl s hs).resolve_right (by simp), ih fun a t b hl s hs => ?_⟩
    rcases h (r :: a) t b (by rw [hl, List.cons_append]) s hs with hd | hm
    · exact Or.inl (Set.mem_insert_of_mem _ hd)
    · rcases List.mem_cons.mp hm with rfl | hm
      · exact Or.inl (Set.mem_insert _ _)
      · exact Or.inr hm

/-- Elements of a shorter precedence need fewer finished elements. -/
theorem Closed.restrict {before' : α → α → Prop} (h : Closed before done l)
    (hd : ∀ s r, before' s r → before s r ∧ (s ∈ done → s ∈ done')) : Closed before' done' l := by
  induction l generalizing done done' with
  | nil => trivial
  | cons r l ih =>
    refine ⟨fun s hs => (hd s r hs).2 (h.1 s (hd s r hs).1), ih h.2 fun s t hst => ?_⟩
    refine ⟨(hd s t hst).1, ?_⟩
    rintro (rfl | hs)
    · exact Set.mem_insert _ _
    · exact Set.mem_insert_of_mem _ ((hd s t hst).2 hs)

/-- In a closed sequence that started from nothing, the first element with a property
has no predecessor with it. -/
theorem Closed.first (h : Closed before ∅ l) {p : α → Bool} {r s : α} (hf : l.find? p = some r)
    (hs : before s r) : p s = false := by
  obtain ⟨-, a, b, rfl, ha⟩ := List.find?_eq_some_iff_append.mp hf
  rcases h.mem_of_before hs with hm | hm
  · exact absurd hm (Set.notMem_empty s)
  · simpa using ha s hm

end IngestKit.Replay
