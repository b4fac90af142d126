import IngestKit.Files.Tree

/-! The walk from a path to a node through symbolic links, and the calls of a file system. -/
namespace IngestKit.Files.Tree
variable {t u : Tree} {p q r here : Path} {n : Node} {follow lenient : Bool}
  {jump : Path → List Component → Except Errno Path}

/-- The walk up to the first symbolic link, where it jumps. A link at the end is only followed if
asked to. A lenient walk goes on by the names alone after what is not a directory. -/
def walkFrom (t : Tree) (follow lenient : Bool)
    (jump : Path → List Component → Except Errno Path) :
    Path → List Component → Except Errno Path
  | here, [] => .ok here
  | here, .up :: rest => t.walkFrom follow lenient jump here.dropLast rest
  | here, .name x :: rest =>
    match t.get (here ++ [x]) with
    | some (.symlink l) =>
      if rest = [] ∧ follow = false then .ok (here ++ [x])
      else jump (if l.absolute then [] else here) (l.parts ++ rest)
    | some .dir => t.walkFrom follow lenient jump (here ++ [x]) rest
    | found =>
      if rest = [] ∨ lenient = true then t.walkFrom follow lenient jump (here ++ [x]) rest
      else .error (if found.isNone then .noEntry else .notDirectory)

/-- A walk through so many symbolic links at most. -/
def walk (t : Tree) (follow lenient : Bool) :
    ℕ → Path → List Component → Except Errno Path
  | 0 => fun _ _ => .error .loop
  | links + 1 => t.walkFrom follow lenient (t.walk follow lenient links)

def maxLinks : ℕ := 40

def locate (t : Tree) (follow : Bool) (p : Path) : Except Errno Path :=
  t.walk follow false (maxLinks + 1) [] (p.map .name)

def resolve (t : Tree) (p : Path) : Except Errno Path :=
  t.walk true true (maxLinks + 1) [] (p.map .name)

def stat (t : Tree) (follow : Bool) (p : Path) : Except Errno Node := do
  let q ← t.locate follow p
  match t.get q with
  | some n => .ok n
  | none => .error .noEntry

/-- Whether a symbolic link stands at the path itself. -/
def linkAt (t : Tree) (p : Path) : Bool := (t.get p).any Node.isSymlink

/-- No symbolic link stands at the path or above it. -/
def Clear (t : Tree) (p : Path) : Prop := ∀ q ∈ p.inits, t.linkAt q = false

instance : Decidable (t.Clear p) := inferInstanceAs (Decidable (∀ q ∈ p.inits, _))

theorem Clear.linkAt (h : t.Clear p) (hq : q <+: p) : t.linkAt q = false :=
  h q ((List.mem_inits q p).mpr hq)

theorem Clear.of_isPrefix (h : t.Clear p) (hq : q <+: p) : t.Clear q :=
  fun r hr => h.linkAt (((List.mem_inits r q).mp hr).trans hq)

theorem linkAt_of_get (h : t.get p = some n) : t.linkAt p = n.isSymlink := by
  unfold Tree.linkAt
  rw [h]
  rfl

theorem linkAt_of_get_eq_none (h : t.get p = none) : t.linkAt p = false := by
  unfold Tree.linkAt
  rw [h]
  rfl

theorem linkAt_congr (h : u.get p = t.get p) : u.linkAt p = t.linkAt p := by
  unfold Tree.linkAt
  rw [h]

/-- Without links on the way the walk ends where the names lead. -/
theorem walkFrom_eq (here : Path) (hclear : ∀ q, q <+: p → q ≠ [] → (follow = false → q ≠ p) →
      t.linkAt (here ++ q) = false)
    (h : t.walkFrom follow lenient jump here (p.map .name) = .ok r) : r = here ++ p := by
  induction p generalizing here with
  | nil =>
    cases h
    exact (List.append_nil r).symm
  | cons x p ih =>
    have hrest : t.walkFrom follow lenient jump (here ++ [x]) (p.map .name) = .ok r →
        r = here ++ x :: p := by
      intro h
      have := ih (here ++ [x]) (fun q hq hne hlast => ?_) h
      · rwa [List.append_assoc, List.singleton_append] at this
      · rw [List.append_assoc, List.singleton_append]
        exact hclear (x :: q) (List.cons_prefix_cons.mpr ⟨rfl, hq⟩) (List.cons_ne_nil x q)
          fun hf heq => hlast hf (List.cons.inj heq).2
    simp only [List.map_cons, walkFrom] at h
    split at h
    · rename_i l hl
      by_cases hend : p.map Component.name = [] ∧ follow = false
      · rw [if_pos hend] at h
        cases h
        rw [List.map_eq_nil_iff.mp hend.1]
      · have hlink : t.linkAt (here ++ [x]) = false :=
          hclear [x] ⟨p, rfl⟩ (List.cons_ne_nil x []) fun hf heq =>
            hend ⟨List.map_eq_nil_iff.mpr (List.cons.inj heq).2.symm, hf⟩
        rw [linkAt_of_get hl] at hlink
        cases hlink
    · exact hrest h
    · split_ifs at h
      exact hrest h

theorem locate_eq (hclear : t.Clear p.dropLast) (hlast : follow = true → t.linkAt p = false)
    (h : t.locate follow p = .ok r) : r = p := by
  refine walkFrom_eq [] (fun q hq hne hend => ?_) h
  rw [List.nil_append]
  by_cases hqp : q = p
  · cases follow with
    | true => rw [hqp, hlast rfl]
    | false => exact absurd hqp (hend rfl)
  · refine hclear.linkAt ?_
    rcases List.eq_nil_or_concat p with rfl | ⟨p, x, rfl⟩
    · exact absurd (List.prefix_nil.mp hq) hqp
    · rw [List.concat_eq_append] at hq hqp ⊢
      rw [List.dropLast_concat]
      exact (List.prefix_concat_iff.mp hq).resolve_left hqp

theorem locate_false_eq (hclear : t.Clear p.dropLast) (h : t.locate false p = .ok r) : r = p :=
  locate_eq hclear (fun hfalse => absurd hfalse Bool.false_ne_true) h

theorem resolve_eq (hclear : t.Clear p) (h : t.resolve p = .ok r) : r = p :=
  walkFrom_eq [] (fun _ hq _ _ => hclear.linkAt hq) h

/-- A node is found under its own path, since all above it are directories. -/
theorem walkFrom_of_get (here : Path) (h : t.get (here ++ p) = some n)
    (hlast : follow = true → n.isSymlink = false) :
    t.walkFrom follow lenient jump here (p.map .name) = .ok (here ++ p) := by
  induction p generalizing here with
  | nil => rw [List.append_nil]; rfl
  | cons x p ih =>
    have happ : here ++ x :: p = (here ++ [x]) ++ p := by rw [List.append_assoc]; rfl
    rw [happ] at h ⊢
    simp only [List.map_cons, walkFrom]
    by_cases hp : p = []
    · subst hp
      rw [List.append_nil] at h ⊢
      rw [h]
      cases n with
      | symlink l =>
        cases follow with
        | true => exact absurd (hlast rfl) (by simp [Node.isSymlink])
        | false => rfl
      | _ => rfl
    · rw [get_of_isPrefix h (List.prefix_append _ _) (by simpa using hp)]
      exact ih (here ++ [x]) h

theorem stat_of_get (h : t.get p = some n) (hlast : follow = true → n.isSymlink = false) :
    t.stat follow p = .ok n := by
  have hl : t.locate follow p = .ok p := walkFrom_of_get [] h hlast
  unfold stat
  rw [hl]
  simp only [bind, Except.bind, h]

theorem walkFrom_missing (h0 : t.get here = none)
    (h : t.walkFrom follow false jump here (p.map .name) = .ok r) : t.get r = none := by
  cases p with
  | nil =>
    cases h
    exact h0
  | cons x p =>
    have hx : t.get (here ++ [x]) = none := by
      by_contra hsome
      obtain ⟨n, hn⟩ := Option.ne_none_iff_exists'.mp hsome
      have hd := get_dropLast hn
      rw [List.dropLast_concat, h0] at hd
      cases hd
    simp only [List.map_cons, walkFrom, hx] at h
    by_cases hp : p = []
    · subst hp
      cases h
      exact hx
    · rw [if_neg (by simpa using hp)] at h
      cases h

/-- Nothing is found below a path where nothing stands and that no link leads away from. -/
theorem walkFrom_below_missing (here : Path) (hclear : ∀ p, p <+: q → t.linkAt (here ++ p) = false)
    (h0 : t.get (here ++ q) = none)
    (h : t.walkFrom follow false jump here ((q ++ p).map .name) = .ok r) : t.get r = none := by
  induction q generalizing here with
  | nil =>
    rw [List.append_nil] at h0
    exact walkFrom_missing h0 h
  | cons x q ih =>
    have happ : ∀ l, here ++ x :: l = (here ++ [x]) ++ l := fun l => by
      rw [List.append_assoc]
      rfl
    have hlink : t.linkAt (here ++ [x]) = false := hclear [x] ⟨q, rfl⟩
    have hrest := ih (here ++ [x]) (fun l hl => happ l ▸
      hclear (x :: l) (List.cons_prefix_cons.mpr ⟨rfl, hl⟩)) (happ q ▸ h0)
    simp only [List.cons_append, List.map_cons, walkFrom] at h
    split at h
    · rename_i l hl
      rw [linkAt_of_get hl] at hlink
      cases hlink
    · exact hrest h
    · by_cases hend : (q ++ p).map Component.name = [] ∨ false = true
      · rw [if_pos hend] at h
        exact hrest h
      · rw [if_neg hend] at h
        cases h

theorem stat_below_missing (hclear : t.Clear q) (h0 : t.get q = none) (hp : q <+: p) :
    t.stat follow p ≠ .ok n := by
  obtain ⟨l, rfl⟩ := hp
  unfold stat
  cases hl : t.locate follow (q ++ l) with
  | error e => nofun
  | ok r =>
    have hr : t.get r = none :=
      walkFrom_below_missing [] (fun p hp => hclear.linkAt hp) h0 hl
    simp only [bind, Except.bind, hr]
    nofun

def isSymlink (t : Tree) (p : Path) : Bool :=
  match t.stat false p with
  | .ok n => n.isSymlink
  | .error _ => false

def pathExists (t : Tree) (p : Path) : Bool :=
  match t.stat true p with
  | .ok _ => true
  | .error _ => false

def isDir (t : Tree) (p : Path) : Bool :=
  match t.stat true p with
  | .ok .dir => true
  | _ => false

def isFile (t : Tree) (p : Path) : Bool :=
  match t.stat true p with
  | .ok (.file _) => true
  | _ => false

def isPipe (t : Tree) (p : Path) : Bool :=
  match t.stat true p with
  | .ok (.special pipe _) => pipe
  | _ => false

def size (t : Tree) (p : Path) : Except Errno ℕ := do
  match ← t.stat true p with
  | .file b => .ok b.length
  | _ => .ok 0

def read (t : Tree) (p : Path) : Except Errno Bytes := do
  match ← t.stat true p with
  | .file b => .ok b
  | .special _ stream => .ok stream
  | .dir => .error .isDirectory
  | .symlink _ => .error .loop

def readlink (t : Tree) (p : Path) : Except Errno Link := do
  match ← t.stat false p with
  | .symlink l => .ok l
  | _ => .error .invalid

def sameFile (t : Tree) (p q : Path) : Bool :=
  match t.locate true p, t.locate true q with
  | .ok a, .ok b => a = b ∧ (t.get a).isSome
  | _, _ => false

/-- All paths below a directory, in no particular order. -/
def rglob (t : Tree) (p : Path) : List Path :=
  match t.locate true p with
  | .ok q => (t.nodes.map (·.1)).filterMap fun r =>
    if q <+: r ∧ q ≠ r then some (p ++ r.drop q.length) else none
  | .error _ => []

def place (t : Tree) (p : Path) (n : Node) : Except Errno Tree :=
  match t.put p n with
  | some u => .ok u
  | none => .error .noEntry

def mkdir (t : Tree) (p : Path) : Except Errno Tree := do
  let q ← t.locate false p
  match t.get q with
  | some _ => .error .alreadyExists
  | none => t.place q .dir

def symlink (t : Tree) (l : Link) (p : Path) : Except Errno Tree := do
  let q ← t.locate false p
  match t.get q with
  | some _ => .error .alreadyExists
  | none => t.place q (.symlink l)

/-- Open a file for writing, and empty it. -/
def create (t : Tree) (p : Path) : Except Errno Tree := do
  let q ← t.locate true p
  match t.get q with
  | some .dir => .error .isDirectory
  | some (.special _ _) => .ok t
  | _ => t.place q (.file [])

/-- Write at the end of a file; also which file it was and what it now holds. -/
def append (t : Tree) (p : Path) (b : Bytes) : Except Errno (Path × Bytes × Tree) := do
  let q ← t.locate true p
  match t.get q with
  | some (.file old) => do return (q, old ++ b, ← t.place q (.file (old ++ b)))
  | some (.special _ _) => .ok (q, b, t)
  | _ => .error .invalid

/-- Remove a file or a link; also which one it was. -/
def unlink (t : Tree) (p : Path) : Except Errno (Path × Node × Tree) := do
  let q ← t.locate false p
  match t.get q, t.remove q with
  | some .dir, _ => .error .isDirectory
  | some n, some u => .ok (q, n, u)
  | _, _ => .error .noEntry

def rmdir (t : Tree) (p : Path) : Except Errno Tree := do
  let q ← t.locate false p
  match t.get q, t.remove q with
  | some .dir, some u => .ok u
  | some .dir, none => .error .notEmpty
  | some _, _ => .error .notDirectory
  | none, _ => .error .noEntry

theorem place_eq_ok : t.place p n = .ok u ↔ t.put p n = some u := by
  unfold place
  cases t.put p n with
  | none => exact ⟨nofun, nofun⟩
  | some v => exact ⟨fun h => by cases h; rfl, fun h => by cases h; rfl⟩

theorem mkdir_eq_ok (h : t.mkdir p = .ok u) :
    ∃ q, t.locate false p = .ok q ∧ t.get q = none ∧ t.put q .dir = some u := by
  unfold mkdir at h
  cases hl : t.locate false p with
  | error e => rw [hl] at h; cases h
  | ok q =>
    simp only [hl, bind, Except.bind] at h
    cases hg : t.get q with
    | some n => rw [hg] at h; cases h
    | none =>
      rw [hg] at h
      exact ⟨q, rfl, hg, place_eq_ok.mp h⟩

theorem create_eq_ok (h : t.create p = .ok u) :
    ∃ q, t.locate true p = .ok q ∧ (t.get q ≠ some .dir ∧ t.put q (.file []) = some u ∨
      ∃ pipe s, t.get q = some (.special pipe s)) := by
  unfold create at h
  cases hl : t.locate true p with
  | error e => rw [hl] at h; cases h
  | ok q =>
    simp only [hl, bind, Except.bind] at h
    refine ⟨q, rfl, ?_⟩
    split at h
    · cases h
    · rename_i pipe s hg
      exact .inr ⟨pipe, s, hg⟩
    · rename_i hdir _
      exact .inl ⟨hdir, place_eq_ok.mp h⟩

theorem append_eq_ok {b c : Bytes} (h : t.append p b = .ok (q, c, u)) :
    t.locate true p = .ok q ∧ ((∃ old, t.get q = some (.file old) ∧ c = old ++ b ∧
      t.put q (.file c) = some u) ∨ ∃ pipe s, t.get q = some (.special pipe s)) := by
  unfold append at h
  cases hl : t.locate true p with
  | error e => rw [hl] at h; cases h
  | ok r =>
    simp only [hl, bind, Except.bind] at h
    split at h
    · rename_i old hg
      cases hp : t.place r (.file (old ++ b)) with
      | error e => rw [hp] at h; cases h
      | ok v =>
        rw [hp] at h
        cases h
        exact ⟨rfl, .inl ⟨old, hg, rfl, place_eq_ok.mp hp⟩⟩
    · rename_i pipe s hg
      cases h
      exact ⟨rfl, .inr ⟨pipe, s, hg⟩⟩
    · cases h

theorem unlink_eq_ok (h : t.unlink p = .ok (q, n, u)) :
    t.locate false p = .ok q ∧ t.get q = some n ∧ n ≠ .dir ∧ t.remove q = some u := by
  unfold unlink at h
  cases hl : t.locate false p with
  | error e => rw [hl] at h; cases h
  | ok r =>
    simp only [hl, bind, Except.bind] at h
    split at h
    · cases h
    · rename_i m v hdir hg hr
      cases h
      exact ⟨rfl, hg, hdir, hr⟩
    · cases h

theorem rmdir_eq_ok (h : t.rmdir p = .ok u) :
    ∃ q, t.get q = some .dir ∧ t.remove q = some u := by
  unfold rmdir at h
  cases hl : t.locate false p with
  | error e => rw [hl] at h; cases h
  | ok q =>
    simp only [hl, bind, Except.bind] at h
    split at h
    · rename_i v hg hr
      cases h
      exact ⟨q, hg, hr⟩
    all_goals cases h

theorem isSymlink_of_linkAt (h : t.linkAt p = true) : t.isSymlink p = true := by
  unfold Tree.linkAt at h
  cases hg : t.get p with
  | none => rw [hg] at h; cases h
  | some n =>
    rw [hg] at h
    unfold isSymlink
    have hs : t.stat false p = .ok n := stat_of_get hg fun h => by cases h
    rw [hs]
    exact h

theorem get_eq_none_of_not_exists (hclear : t.Clear p) (h : t.pathExists p = false) :
    t.get p = none := by
  cases hg : t.get p with
  | none => rfl
  | some n =>
    have hn : n.isSymlink = false := by
      rw [← linkAt_of_get hg]
      exact hclear.linkAt List.prefix_rfl
    unfold pathExists at h
    rw [stat_of_get hg fun _ => hn] at h
    cases h

theorem not_exists_below_missing (hclear : t.Clear q) (h0 : t.get q = none) (hp : q <+: p) :
    t.pathExists p = false := by
  unfold pathExists
  cases h : t.stat true p with
  | ok n => exact absurd h (stat_below_missing hclear h0 hp)
  | error e => rfl

theorem read_of_get {b : Bytes} (h : t.get p = some (.file b)) : t.read p = .ok b := by
  unfold read
  rw [stat_of_get h fun _ => rfl]
  rfl

end IngestKit.Files.Tree
