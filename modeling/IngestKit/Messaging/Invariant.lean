import IngestKit.Messaging.Pending

/-! The invariant of every run: below a committed or fetched position each record is
finished or still pending, and pending records are closed under smaller offsets. -/
namespace IngestKit.Messaging
open Event Persistence Replay

/-- Records of the same partition with a smaller offset. -/
def Log.before (log : Log) (s r : Record) : Prop :=
  s ∈ log.records r.partition ∧ s.offset < r.offset

theorem Log.eq_of_offset (log : Log) {p : ℕ} {r s : Record} (hr : r ∈ log.records p)
    (hs : s ∈ log.records p) (h : r.offset = s.offset) : r = s := by
  have hsorted := log.sorted p
  obtain ⟨a, b, hl⟩ := List.append_of_mem hr
  rw [hl] at hs hsorted
  obtain ⟨-, hb, hab⟩ := List.pairwise_append.mp hsorted
  rcases List.mem_append.mp hs with hm | hm
  · have := hab s hm r (by simp)
    omega
  · rcases List.mem_cons.mp hm with rfl | hm
    · rfl
    · have := (List.pairwise_cons.mp hb).1 s hm
      omega

section Reader
variable (U : UUID.Codec) (log : Log) (F : Set Record)

structure ReaderInv (next : ℕ → Option ℕ) (s : State) : Prop where
  mem : ∀ r ∈ s.pending, r ∈ log.records r.partition
  closed : Closed log.before F s.pending
  below : s.alive = true → ∀ p n, next p = some n → ∀ r ∈ log.records p, r.offset < n →
    r ∈ F ∨ r ∈ s.pending
  sound : s.Sound U F

variable {U log F}

theorem State.Sound.mono {s : State} {F' : Set Record} (h : s.Sound U F) (hF : F ⊆ F') :
    s.Sound U F' := by
  cases s with
  | commit c s k => exact ⟨h.1, h.2.1, fun r hr => hF (h.2.2 r hr)⟩
  | commitPoison c s rec => exact ⟨h.1, h.2.1, hF h.2.2⟩
  | _ => exact h

theorem ReaderInv.mono {next : ℕ → Option ℕ} {s : State} {F' : Set Record}
    (h : ReaderInv U log F next s) (hF : F ⊆ F') : ReaderInv U log F' next s where
  mem := h.mem
  closed := h.closed.mono hF
  below := fun hl p n hn r hr hlt => (h.below hl p n hn r hr hlt).imp_left (hF ·)
  sound := h.sound.mono hF

private theorem alive_of_step {config : ReaderConfig} {s s' : State} {a : Answer}
    {out : List Output} (hs : step U config s a = some (s', out)) (h : s'.alive = true) :
    s.alive = true := by
  cases s with
  | release result =>
    cases result with
    | none => rfl
    | some f =>
      cases a <;> simp only [step, reduceCtorEq, Option.some.injEq, Prod.mk.injEq] at hs
      obtain ⟨rfl, -⟩ := hs
      cases h
  | returned result => cases a <;> simp only [step, reduceCtorEq] at hs
  | _ => rfl

theorem ReaderInv.step {config : ReaderConfig} {next : ℕ → Option ℕ} {s s' : State} {a : Answer}
    {out : List Output} (h : ReaderInv U log F next s) (ha : ∀ f, a ≠ .fetched f)
    (hs : step U config s a = some (s', out))
    (hF : a = .result true → ∀ call, s.call? = some call → call.Finishes F) :
    ReaderInv U log F next s' := by
  obtain ⟨hp, hsound⟩ := step_progress h.sound ha hs hF
  rcases hp with ⟨done, hp, hdone⟩ | ⟨hp, hdead⟩
  · refine ⟨fun r hr => h.mem r ?_, ?_, fun hl p n hn r hr hlt => ?_, hsound⟩
    · rw [hp]
      exact List.mem_append_right _ hr
    · have hc := h.closed
      rw [hp] at hc
      exact hc.drop hdone
    · rcases h.below (alive_of_step hs hl) p n hn r hr hlt with hf | hm
      · exact Or.inl hf
      · rw [hp] at hm
        exact (List.mem_append.mp hm).imp_left (hdone r)
  · refine ⟨by simp [hp], by rw [hp]; exact closed_nil, fun hl => ?_, hsound⟩
    rw [hdead] at hl
    cases hl

end Reader

section Poll
variable {log : Log} {F : Set Record}

private theorem fetchFrom_sorted (log : Log) (p n : ℕ) :
    (log.fetchFrom p n).Pairwise fun a b => a.offset < b.offset := (log.sorted p).filter _

private theorem mem_fetchFrom {p n : ℕ} {r : Record} :
    r ∈ log.fetchFrom p n ↔ r ∈ log.records p ∧ n ≤ r.offset := by
  simp [Log.fetchFrom]

/-- In offset order, smaller offsets stand to the left. -/
private theorem mem_left_of_lt {l a b : List Record} {r s : Record}
    (hl : l.Pairwise fun a b => a.offset < b.offset) (hsplit : l = a ++ r :: b) (hs : s ∈ l)
    (hlt : s.offset < r.offset) : s ∈ a := by
  subst hsplit
  obtain ⟨-, hb, -⟩ := List.pairwise_append.mp hl
  rcases List.mem_append.mp hs with hm | hm
  · exact hm
  · rcases List.mem_cons.mp hm with rfl | hm
    · omega
    · have := (List.pairwise_cons.mp hb).1 s hm
      omega

private theorem closed_chunk {p n size : ℕ}
    (hF : ∀ r ∈ log.records p, r.offset < n → r ∈ F) :
    Closed log.before F ((log.fetchFrom p n).take size) := by
  refine closed_of_split fun a r b hsplit s hs => ?_
  have hmem : r ∈ (log.fetchFrom p n).take size := by rw [hsplit]; simp
  have hr := mem_fetchFrom.mp (List.mem_of_mem_take hmem)
  have hpart := log.partition p r hr.1
  rw [Log.before, hpart] at hs
  by_cases hn : s.offset < n
  · exact Or.inl (hF s hs.1 hn)
  · refine Or.inr (mem_left_of_lt (fetchFrom_sorted log p n)
      (b := b ++ (log.fetchFrom p n).drop size) ?_ (mem_fetchFrom.mpr ⟨hs.1, by omega⟩) hs.2)
    rw [← List.cons_append, ← List.append_assoc, ← hsplit, List.take_append_drop]

private theorem below_chunk {p n size : ℕ} (hF : ∀ r ∈ log.records p, r.offset < n → r ∈ F)
    {r : Record} (hr : r ∈ log.records p)
    (hlt : r.offset < nextPosition n ((log.fetchFrom p n).take size)) :
    r ∈ F ∨ r ∈ (log.fetchFrom p n).take size := by
  by_cases hn : r.offset < n
  · exact Or.inl (hF r hr hn)
  · right
    unfold nextPosition at hlt
    split at hlt
    · omega
    next l hl =>
      obtain ⟨ys, hys⟩ := List.getLast?_eq_some_iff.mp hl
      rcases Nat.lt_or_eq_of_le (Nat.le_of_lt_succ hlt) with hlt | heq
      · have hm := mem_left_of_lt (fetchFrom_sorted log p n) (a := ys) (r := l)
          (b := (log.fetchFrom p n).drop size)
          (by rw [← List.singleton_append, ← List.append_assoc, ← hys, List.take_append_drop])
          (mem_fetchFrom.mpr ⟨hr, by omega⟩) hlt
        rw [hys]
        exact List.mem_append_left _ hm
      · have hlmem : l ∈ (log.fetchFrom p n).take size := by rw [hys]; simp
        have hl' := (mem_fetchFrom.mp (List.mem_of_mem_take hlmem)).1
        rw [log.eq_of_offset hr hl' heq]
        exact hlmem

/-- A poll keeps everything below the new positions finished or pending. -/
private theorem polled_spec {next next' : ℕ → Option ℕ} {chunks : List (List Record)}
    (h : Polled log next chunks next')
    (hF : ∀ p n, next p = some n → ∀ r ∈ log.records p, r.offset < n → r ∈ F) :
    (∀ r ∈ chunks.flatten, r ∈ log.records r.partition) ∧
      Closed log.before F chunks.flatten ∧
      ∀ p n, next' p = some n → ∀ r ∈ log.records p, r.offset < n →
        r ∈ F ∨ r ∈ chunks.flatten := by
  induction h generalizing F with
  | nil next => exact ⟨by simp, closed_nil, fun p n hn r hr hlt => Or.inl (hF p n hn r hr hlt)⟩
  | @chunk next next' p n chunks size hp hs ih =>
    have hbelow := hF p n hp
    obtain ⟨hmem, hclosed, hnext⟩ := ih (F := F ∪ {x | x ∈ (log.fetchFrom p n).take size})
      fun q m hq r hr hlt => by
        by_cases hqp : q = p
        · subst hqp
          rw [Function.update_self, Option.some.injEq] at hq
          subst hq
          exact below_chunk hbelow hr hlt
        · rw [Function.update_of_ne hqp] at hq
          exact Or.inl (hF q m hq r hr hlt)
    refine ⟨?_, ?_, ?_⟩
    · intro r hr
      rcases List.mem_append.mp hr with hr | hr
      · have hmem' := (mem_fetchFrom.mp (List.mem_of_mem_take hr)).1
        rwa [log.partition p r hmem']
      · exact hmem r hr
    · exact closed_append.mpr ⟨closed_chunk hbelow, hclosed⟩
    · intro q m hq r hr hlt
      rw [List.flatten_cons, List.mem_append, ← or_assoc]
      exact hnext q m hq r hr hlt

theorem ReaderInv.poll {U : UUID.Codec} {config : ReaderConfig} {next next' : ℕ → Option ℕ}
    {s s' : State} {f : Fetch} {out : List Output} (h : ReaderInv U log F next s)
    (hf : Polled log next f.partitions next')
    (hs : Messaging.step U config s (.fetched f) = some (s', out)) :
    ReaderInv U log F next' s' := by
  cases s <;> simp only [Messaging.step, reduceCtorEq, Option.some.injEq, Prod.mk.injEq] at hs
  obtain ⟨rfl, -⟩ := hs
  obtain ⟨hmem, hclosed, hnext⟩ := polled_spec hf fun p n hn r hr hlt =>
    (h.below rfl p n hn r hr hlt).resolve_right (by simp [State.pending])
  exact ⟨hmem, hclosed, fun _ => hnext, trivial⟩

end Poll

end IngestKit.Messaging
