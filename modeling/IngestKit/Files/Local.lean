import IngestKit.Files.Walk

/-! Local path texts, and where the parent of a file really is. -/
namespace IngestKit.Files

/-- The parts of a path text; empty ones and `.` say nothing. -/
def components (p : Bytes) : List Component :=
  ((p.splitOn 0x2f).filter fun x => x ≠ [] ∧ x ≠ [0x2e]).map fun x =>
    if x = [0x2e, 0x2e] then .up else .name x

/-- The names that are left when each `..` takes the name before it away. -/
def lexical : List Component → List Name → Option Path
  | [], above => some above.reverse
  | .up :: _, [] => none
  | .up :: rest, _ :: above => lexical rest above
  | .name x :: rest, above => lexical rest (x :: above)

/-- The names of a path text that is relative and does not leave its directory. -/
def localNames (p : Bytes) : Option Path :=
  if p = [] ∨ p.head? = some 0x2f then none else lexical (components p) []

/-- One name that stands for a file of the directory. -/
def isName (p : Bytes) : Bool := p ≠ [] ∧ 0x2f ∉ p ∧ p ≠ [0x2e] ∧ p ≠ [0x2e, 0x2e]

theorem localNames_of_isName {p : Bytes} (h : isName p = true) : localNames p = some [p] := by
  obtain ⟨hne, hslash, hdot, hdots⟩ := of_decide_eq_true h
  have hhead : ¬(p = [] ∨ p.head? = some 0x2f) := by
    rintro (hp | hp)
    · exact hne hp
    · exact hslash (List.mem_of_mem_head? hp)
  have hsplit : p.splitOn 0x2f = [p] := List.splitOn_eq_singleton hslash
  unfold localNames
  rw [if_neg hhead, components, hsplit]
  simp [hne, hdot, hdots, lexical]

namespace Tree
variable {t : Tree} {p q r here base : Path} {n : Node} {follow lenient : Bool} {x : Name}
  {links : ℕ} {cs : List Component}

/-- Where a path leads once every symbolic link on it is followed. -/
def evalSymlinks (t : Tree) (p : Path) : Except Errno Path := do
  let q ← t.walk true false 256 [] (p.map .name)
  match t.get q with
  | some _ => .ok q
  | none => .error .noEntry

private theorem ite_error_eq_ok {c : Prop} [Decidable c] {a : Except Errno Path} {e : Errno} :
    (if c then a else .error e) = .ok r ↔ c ∧ a = .ok r := by
  split
  · simp [*]
  · simp [*]

/-- One name of a walk: a symbolic link ends it or makes it jump, what else is there is passed. -/
theorem walkFrom_name_iff {jump : Path → List Component → Except Errno Path} :
    t.walkFrom follow lenient jump here (.name x :: cs) = .ok r ↔
      (∃ l, t.get (here ++ [x]) = some (.symlink l) ∧
        if cs = [] ∧ follow = false then r = here ++ [x]
        else jump (if l.absolute then [] else here) (l.parts ++ cs) = .ok r) ∨
      (t.linkAt (here ++ [x]) = false ∧
        (t.get (here ++ [x]) = some .dir ∨ cs = [] ∨ lenient = true) ∧
        t.walkFrom follow lenient jump (here ++ [x]) cs = .ok r) := by
  rw [walkFrom]
  cases hg : t.get (here ++ [x]) with
  | none => simp [linkAt_of_get_eq_none hg, ite_error_eq_ok]
  | some n =>
    cases n with
    | symlink l =>
      have hlink : t.linkAt (here ++ [x]) = true := linkAt_of_get hg
      by_cases hend : cs = [] ∧ follow = false
      · simp [hend, hlink, eq_comm]
      · simp [hend, hlink]
    | dir => simp [linkAt_of_get hg, Node.isSymlink]
    | file b => simp [linkAt_of_get hg, Node.isSymlink, ite_error_eq_ok]
    | special a b => simp [linkAt_of_get hg, Node.isSymlink, ite_error_eq_ok]

theorem walkFrom_mono {jump jump' : Path → List Component → Except Errno Path}
    (hjump : ∀ here cs r, jump here cs = .ok r → jump' here cs = .ok r)
    (h : t.walkFrom follow lenient jump here cs = .ok r) :
    t.walkFrom follow lenient jump' here cs = .ok r := by
  induction cs generalizing here with
  | nil => exact h
  | cons c cs ih =>
    cases c with
    | up => exact ih h
    | name x =>
      rw [walkFrom_name_iff] at h ⊢
      rcases h with ⟨l, hl, h⟩ | ⟨hlink, hkind, h⟩
      · refine .inl ⟨l, hl, ?_⟩
        split
        · rwa [if_pos ‹_›] at h
        · rw [if_neg ‹_›] at h
          exact hjump _ _ _ h
      · exact .inr ⟨hlink, hkind, ih h⟩

/-- A walk that succeeds also does with more symbolic links allowed. -/
theorem walk_mono {links' : ℕ} (hle : links ≤ links')
    (h : t.walk follow lenient links here cs = .ok r) :
    t.walk follow lenient links' here cs = .ok r := by
  induction links generalizing links' here cs r with
  | zero => cases h
  | succ links ih =>
    obtain ⟨links', rfl⟩ := Nat.exists_eq_add_of_le hle
    rw [show links + 1 + links' = (links + links') + 1 by omega]
    exact walkFrom_mono (fun _ _ _ hj => ih (Nat.le_add_right _ _) hj) h

/-- The walk to what is no symbolic link goes through its parent, and is the same when links at
the end are followed. -/
theorem walk_concat (h : t.walk false false links here (cs ++ [.name x]) = .ok q)
    (hq : t.linkAt q = false) :
    t.walk true false links here (cs ++ [.name x]) = .ok q ∧
      ∃ r, t.walk true false links here cs = .ok r ∧ q = r ++ [x] := by
  induction links generalizing here cs with
  | zero => cases h
  | succ links ih =>
    change t.walkFrom false false _ here (cs ++ [.name x]) = .ok q at h
    change t.walkFrom true false _ here (cs ++ [.name x]) = .ok q ∧
      ∃ r, t.walkFrom true false _ here cs = .ok r ∧ q = r ++ [x]
    induction cs generalizing here with
    | nil =>
      rw [List.nil_append, walkFrom_name_iff] at h ⊢
      rcases h with ⟨l, hl, h⟩ | ⟨hlink, -, h⟩
      · rw [if_pos ⟨rfl, rfl⟩] at h
        rw [h, linkAt_of_get hl] at hq
        cases hq
      · exact ⟨.inr ⟨hlink, .inr (.inl rfl), h⟩, here, rfl, (Except.ok.inj h).symm⟩
    | cons c cs ihcs =>
      cases c with
      | up => exact ihcs h
      | name y =>
        rw [List.cons_append, walkFrom_name_iff] at h ⊢
        have hne : cs ++ [Component.name x] ≠ [] :=
          List.append_ne_nil_of_right_ne_nil _ (List.cons_ne_nil _ _)
        rcases h with ⟨l, hl, h⟩ | ⟨hlink, hkind, h⟩
        · rw [if_neg fun he => hne he.1, ← List.append_assoc] at h
          obtain ⟨hfollow, r, hr, hqr⟩ := ih h
          refine ⟨.inl ⟨l, hl, ?_⟩, r, walkFrom_name_iff.mpr (.inl ⟨l, hl, ?_⟩), hqr⟩
          · rw [if_neg fun he => hne he.1, ← List.append_assoc]
            exact hfollow
          · rw [if_neg fun he => absurd he.2 (by decide)]
            exact hr
        · obtain ⟨hfollow, r, hr, hqr⟩ := ihcs h
          have hdir : t.get (here ++ [y]) = some .dir := by
            rcases hkind with hdir | hnil | hfalse
            · exact hdir
            · exact absurd hnil hne
            · cases hfalse
          exact ⟨.inr ⟨hlink, .inl hdir, hfollow⟩, r,
            walkFrom_name_iff.mpr (.inr ⟨hlink, .inl hdir, hr⟩), hqr⟩

theorem evalSymlinks_of_walk (h : t.walk true false (maxLinks + 1) [] (p.map .name) = .ok r)
    (hr : t.get r = some n) : t.evalSymlinks p = .ok r := by
  have hmax : maxLinks + 1 ≤ 256 := by decide
  unfold evalSymlinks
  rw [walk_mono hmax h]
  simp only [bind, Except.bind, hr]

theorem stat_eq_ok (h : t.stat follow p = .ok n) :
    ∃ q, t.locate follow p = .ok q ∧ t.get q = some n := by
  unfold stat at h
  cases hl : t.locate follow p with
  | error e =>
    rw [hl] at h
    cases h
  | ok q =>
    rw [hl] at h
    simp only [bind, Except.bind] at h
    cases hg : t.get q with
    | none =>
      rw [hg] at h
      cases h
    | some m =>
      rw [hg] at h
      cases h
      exact ⟨q, rfl, hg⟩

/-- What stands at a path, and is no symbolic link, is in the directory its parent leads to. -/
theorem stat_concat (h : t.stat false (p ++ [x]) = .ok n) (hn : n.isSymlink = false) :
    t.stat true (p ++ [x]) = .ok n ∧ ∃ r, t.evalSymlinks p = .ok r ∧
      t.evalSymlinks (p ++ [x]) = .ok (r ++ [x]) ∧ t.get (r ++ [x]) = some n := by
  obtain ⟨q, hq, hget⟩ := stat_eq_ok h
  have hlink : t.linkAt q = false := (linkAt_of_get hget).trans hn
  unfold locate at hq
  rw [List.map_append] at hq
  obtain ⟨hfollow, r, hr, rfl⟩ := walk_concat hq hlink
  have hdir := get_dropLast hget
  rw [List.dropLast_concat] at hdir
  have hl : t.locate true (p ++ [x]) = .ok (r ++ [x]) := by
    unfold locate
    rw [List.map_append]
    exact hfollow
  constructor
  · unfold stat
    rw [hl]
    simp only [bind, Except.bind, hget]
  · exact ⟨r, evalSymlinks_of_walk hr hdir, evalSymlinks_of_walk hl hget, hget⟩

end Tree
end IngestKit.Files
