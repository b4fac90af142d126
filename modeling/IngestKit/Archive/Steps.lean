import IngestKit.Archive.Disk

/-! What the calls of the script and the changes of others do to the archive. -/
namespace IngestKit.Archive
open Files Interference

section Steps
variable {δ : Type} {host : Host δ} {destination p q : Path} {paths : List Bytes}
  {d e : Disk δ} {t u : Tree} {n : Node}

/-- The archive's files are as written, and what was removed is a file of a saved inventory whose
bytes are in the archive. -/
structure Kept (destination : Path) (paths : List Bytes) (d : Disk δ) : Prop where
  archived : ∀ q b, .archived q b ∈ d.log → destination <+: q ∧
    q ≠ destination ++ [manifestName] ∧ d.tree.get q = some (.file b)
  saved : ∀ q m, .saved q m ∈ d.log → q = destination ++ [manifestName]
  removed : ∀ q n, .removed q n ∈ d.log → ∃ r m x, .saved r m ∈ d.log ∧ x ∈ m.files ∧
    q = m.checkoutRoot ++ x.path ∧
    (∃ name ∈ paths, (PurePath.ofText name).parts <+: x.path) ∧
    ∀ b, n = .file b → .archived (destination ++ x.path) b ∈ d.log

/-- A file that the script changes or removes is in the archive or is noted as removed. -/
def Framed (destination : Path) (d e : Disk δ) : Prop :=
  ∀ q b, d.tree.get q = some (.file b) →
    e.tree.get q = some (.file b) ∨ destination <+: q ∨ .removed q (.file b) ∈ e.log

/-- What each step of the script guarantees. -/
def Keeps (destination : Path) (paths : List Bytes) (d e : Disk δ) : Prop :=
  (Kept destination paths d → Kept destination paths e) ∧ Framed destination d e

theorem keeps_refl (d : Disk δ) : Keeps destination paths d d := ⟨id, fun _ _ h => .inl h⟩

/-- Nodes are added where none was. -/
theorem keeps_of_fresh (hlog : e.log = d.log)
    (h : ∀ q b, d.tree.get q = some (.file b) → e.tree.get q = some (.file b)) :
    Keeps destination paths d e := by
  refine ⟨fun hd => ⟨fun q b hq => ?_, ?_, ?_⟩, fun q b hq => .inl (h q b hq)⟩
  · rw [hlog] at hq
    obtain ⟨h1, h2, h3⟩ := hd.archived q b hq
    exact ⟨h1, h2, h q b h3⟩
  · rw [hlog]
    exact hd.saved
  · rw [hlog]
    exact hd.removed

/-- A path of the archive is written that holds no archived file yet. -/
theorem keeps_of_write (hp : destination <+: p) (hnone : ∀ b, .archived p b ∉ d.log)
    (hlog : e.log = d.log) (h : ∀ q, q ≠ p → e.tree.get q = d.tree.get q) :
    Keeps destination paths d e := by
  refine ⟨fun hd => ⟨fun q b hq => ?_, ?_, ?_⟩, fun q b hq => ?_⟩
  · rw [hlog] at hq
    obtain ⟨h1, h2, h3⟩ := hd.archived q b hq
    refine ⟨h1, h2, ?_⟩
    rw [h q fun hqp => hnone b (hqp ▸ hq), h3]
  · rw [hlog]
    exact hd.saved
  · rw [hlog]
    exact hd.removed
  · by_cases hqp : q = p
    · exact .inr (.inl (hqp ▸ hp))
    · exact .inl (by rw [h q hqp, hq])

/-- The log goes on with what has its place in it. -/
theorem Kept.snoc {x : Effect δ} (h : Kept destination paths d)
    (harchived : ∀ q b, x = .archived q b → destination <+: q ∧
      q ≠ destination ++ [manifestName] ∧ d.tree.get q = some (.file b))
    (hsaved : ∀ q m, x = .saved q m → q = destination ++ [manifestName])
    (hremoved : ∀ q n, x = .removed q n → ∃ r m x, .saved r m ∈ d.log ∧ x ∈ m.files ∧
      q = m.checkoutRoot ++ x.path ∧
      (∃ name ∈ paths, (PurePath.ofText name).parts <+: x.path) ∧
      ∀ b, n = .file b → .archived (destination ++ x.path) b ∈ d.log) :
    Kept destination paths { d with log := d.log ++ [x] } := by
  refine ⟨fun q b hq => ?_, fun q m hq => ?_, fun q n hq => ?_⟩
  · exact (List.mem_append.mp hq).elim (h.archived q b) fun hq =>
      harchived q b (List.mem_singleton.mp hq).symm
  · exact (List.mem_append.mp hq).elim (h.saved q m) fun hq =>
      hsaved q m (List.mem_singleton.mp hq).symm
  · obtain ⟨r, m, y, hm, hy, hroot, hname, hfile⟩ :=
      (List.mem_append.mp hq).elim (h.removed q n) fun hq =>
        hremoved q n (List.mem_singleton.mp hq).symm
    exact ⟨r, m, y, List.mem_append_left _ hm, hy, hroot, hname,
      fun b hb => List.mem_append_left _ (hfile b hb)⟩

theorem Framed.snoc (h : Framed destination d e) (x : Effect δ) :
    Framed destination d { e with log := e.log ++ [x] } := fun q b hq =>
  (h q b hq).imp_right fun h => h.imp_right (List.mem_append_left _)

/-- A property of the log and of the nodes in the archive and above it. -/
def Private (destination : Path) (I : Disk δ → Prop) : Prop :=
  ∀ d e : Disk δ, e.log = d.log →
    (∀ q, destination <+: q ∨ q <+: destination → e.tree.get q = d.tree.get q) → I d → I e

theorem Private.and {I J : Disk δ → Prop} (hI : Private destination I)
    (hJ : Private destination J) : Private destination fun d => I d ∧ J d :=
  fun d e hlog hget hd => ⟨hI d e hlog hget hd.1, hJ d e hlog hget hd.2⟩

theorem private_clear : Private destination fun d : Disk δ => d.tree.Clear destination :=
  fun _ _ _ hget hd q hq =>
    (Tree.linkAt_congr (hget q (.inr ((List.mem_inits q destination).mp hq)))).trans (hd q hq)

theorem get_of_disturb {c : Option (Call δ)} {x : Change}
    (h : disturb destination c x d = some e) :
    e.log = d.log ∧ ∀ q, destination <+: q ∨ q <+: destination ∨ windowed c q = true →
      e.tree.get q = d.tree.get q := by
  unfold disturb at h
  split_ifs at h with hx
  obtain ⟨t, ht, rfl⟩ := Option.map_eq_some_iff.mp h
  refine ⟨rfl, fun q hq => ?_⟩
  have hne : q ≠ x.path := fun heq => hx (heq ▸ hq)
  cases hn : x.node with
  | none =>
    rw [hn] at ht
    exact (Tree.get_remove ht q).trans (if_neg hne)
  | some n =>
    rw [hn] at ht
    exact (Tree.get_put ht q).trans (if_neg hne)

theorem Private.stable {I : Disk δ → Prop} (hI : Private destination I) (c : Option (Call δ)) :
    (system host destination).Stable c I := by
  intro x d e h hd
  obtain ⟨hlog, hget⟩ := get_of_disturb h
  exact hI d e hlog (fun q hq => hget q (hq.imp_right .inl)) hd

theorem private_kept : Private destination (Kept destination paths : Disk δ → Prop) := by
  intro d e hlog hget hd
  refine ⟨fun q b hq => ?_, by rw [hlog]; exact hd.saved, by rw [hlog]; exact hd.removed⟩
  rw [hlog] at hq
  obtain ⟨h1, h2, h3⟩ := hd.archived q b hq
  exact ⟨h1, h2, (hget q (.inl h1)).trans h3⟩

theorem isSymlink_of_unlinked (h : unlinked (.isLink p) d = true) :
    d.tree.isSymlink p = false := by
  simpa [unlinked] using h

/-- Calls that only look. -/
def Call.isQuery : Call δ → Bool
  | .mkdir _ | .symlink _ _ | .create _ | .copyTo _ _ | .dump _ _ | .unlink _ | .rmdir _ => false
  | _ => true

theorem respond_of_isQuery (host : Host δ) {c : Call δ} (hc : c.isQuery = true) (d : Disk δ) :
    (respond host c d).2 = d ∧ ∀ progress, interrupt host c progress d = d := by
  cases c <;> first | exact ⟨rfl, fun _ => rfl⟩ | cases hc

end Steps

section Rules
variable {δ α : Type} (host : Host δ) (destination : Path) (paths : List Bytes)

/-- The script guarantees each of its steps, whatever others do, and returns with `Q`. -/
def Ensures (Q : α → Disk δ → Prop) (p : Script δ α) (d : Disk δ) : Prop :=
  Safe (system host destination) (fun c d => unlinked c d = true) (Keeps destination paths) Q p d

variable {host destination paths} {d : Disk δ} {I : Disk δ → Prop}

theorem Ensures.bind {β : Type} {Q : α → Disk δ → Prop} {R : β → Disk δ → Prop}
    {p : Script δ α} {f : α → Script δ β} (h : Ensures host destination paths Q p d)
    (hf : ∀ a d, Q a d → Ensures host destination paths R (f a) d) :
    Ensures host destination paths R (p >>= f) d :=
  Safe.bind h hf

theorem ensures_call {c : Call δ} {Q : Answer c → Disk δ → Prop} (hI : Private destination I)
    (hd : I d) (h : ∀ d, I d → unlinked c d = true →
      (∀ progress, Keeps destination paths d (interrupt host c progress d)) ∧
        Keeps destination paths d (respond host c d).2 ∧
          Q (respond host c d).1 (respond host c d).2) :
    Ensures host destination paths Q (call c) d :=
  safe_perform (hI.stable _) hd h

theorem ensures_query {c : Call δ} {Q : Answer c → Disk δ → Prop} (hc : c.isQuery = true)
    (hI : Private destination I) (hd : I d)
    (h : ∀ d, I d → unlinked c d = true → Q (respond host c d).1 d) :
    Ensures host destination paths Q (call c) d := by
  refine ensures_call hI hd fun d hd hu => ?_
  obtain ⟨h1, h2⟩ := respond_of_isQuery host hc d
  rw [h1]
  exact ⟨fun progress => by rw [h2]; exact keeps_refl d, keeps_refl d, h d hd hu⟩

theorem ensures_failIf {c : Bool} {e : Failure} {Q : Unit → Disk δ → Prop}
    (h : c = false → Q () d) : Ensures host destination paths Q (failIf c e) d := by
  cases c with
  | true => trivial
  | false => exact h rfl

theorem ensures_orRaise {x : Except Errno α} {Q : α → Disk δ → Prop}
    (h : ∀ a, x = .ok a → Q a d) : Ensures host destination paths Q (orRaise x) d := by
  cases x with
  | error e => trivial
  | ok a => exact h a rfl

/-- A look whose answer does not matter for what comes next. -/
theorem ensures_look {c : Call δ} (hc : c.isQuery = true) (hI : Private destination I)
    (hd : I d) : Ensures host destination paths (fun _ d => I d) (call c) d :=
  ensures_query hc hI hd fun _ hd _ => hd

section Sequences
variable {β : Type} {Q : β → Disk δ → Prop}

/-- A look, and what follows it in the state it has seen. -/
theorem ensures_query_bind {c : Call δ} {f : Answer c → Script δ β} (hc : c.isQuery = true)
    (hI : Private destination I) (hd : I d)
    (h : ∀ d, I d → unlinked c d = true →
      Ensures host destination paths Q (f (respond host c d).1) d) :
    Ensures host destination paths Q (call c >>= f) d :=
  (ensures_query (Q := fun b d => Ensures host destination paths Q (f b) d) hc hI hd h).bind
    fun _ _ h => h

theorem ensures_failIf_bind {c : Bool} {e : Failure} {f : Unit → Script δ β}
    (h : c = false → Ensures host destination paths Q (f ()) d) :
    Ensures host destination paths Q (failIf c e >>= f) d := by
  cases c with
  | true => trivial
  | false => exact h rfl

theorem ensures_orRaise_bind {x : Except Errno α} {f : α → Script δ β}
    (h : ∀ a, x = .ok a → Ensures host destination paths Q (f a) d) :
    Ensures host destination paths Q (orRaise x >>= f) d := by
  cases x with
  | error e => trivial
  | ok a => exact h a rfl

end Sequences

end Rules

end IngestKit.Archive
