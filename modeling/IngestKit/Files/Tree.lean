import IngestKit.Text.Utf8
import Mathlib.Data.List.Infix

/-! Trees of files, directories and symbolic links, and the walk from a path to a node. -/
namespace IngestKit.Files

abbrev Name := Bytes

/-- The names from the root to a node. -/
abbrev Path := List Name

inductive Component
  | up
  | name (n : Name)
  deriving DecidableEq

structure Link where
  absolute : Bool
  parts : List Component
  deriving DecidableEq

/-- A special file is a pipe or a device, with what a reader gets from it. -/
inductive Node
  | file (content : Bytes)
  | dir
  | symlink (link : Link)
  | special (pipe : Bool) (stream : Bytes)
  deriving DecidableEq

def Node.isSymlink : Node → Bool
  | .symlink _ => true
  | _ => false

inductive Errno
  | noEntry
  | alreadyExists
  | notDirectory
  | isDirectory
  | notEmpty
  | invalid
  | loop
  deriving DecidableEq

def find (nodes : List (Path × Node)) (p : Path) : Option Node :=
  if p = [] then some .dir else (nodes.find? (·.1 = p)).map (·.2)

/-- Every node stands in a directory. -/
structure Tree where
  nodes : List (Path × Node)
  closed : ∀ e ∈ nodes, find nodes e.1.dropLast = some .dir

theorem find_filter_ne (nodes : List (Path × Node)) {p q : Path} (h : q ≠ p) :
    find (nodes.filter (·.1 ≠ p)) q = find nodes q := by
  unfold find
  rw [List.find?_filter]
  congr 3
  funext e
  by_cases he : e.1 = q
  · simp [he, h]
  · simp [he]

theorem find_cons_filter_ne (nodes : List (Path × Node)) {p q : Path} (n : Node) (h : q ≠ p) :
    find ((p, n) :: nodes.filter (·.1 ≠ p)) q = find nodes q := by
  rw [← find_filter_ne nodes h]
  unfold find
  rw [List.find?_cons_of_neg (by simpa using h.symm)]

theorem dropLast_ne_self {p : Path} (h : p ≠ []) : p.dropLast ≠ p := by
  intro heq
  have hlen := congrArg List.length heq
  have hpos := List.length_pos_iff.mpr h
  rw [List.length_dropLast] at hlen
  omega

namespace Tree
variable {t u : Tree} {p q r here : Path} {n : Node}

def get (t : Tree) (p : Path) : Option Node := find t.nodes p

/-- Nothing stands below the path. -/
def IsLeaf (t : Tree) (p : Path) : Prop := p ≠ [] ∧ ∀ e ∈ t.nodes, e.1.dropLast ≠ p

instance : Decidable (t.IsLeaf p) := inferInstanceAs (Decidable (_ ∧ _))

theorem closed_put (hp : t.IsLeaf p) (hd : t.get p.dropLast = some .dir) (n : Node) :
    ∀ e ∈ (p, n) :: t.nodes.filter (·.1 ≠ p),
      find ((p, n) :: t.nodes.filter (·.1 ≠ p)) e.1.dropLast = some .dir := by
  intro e he
  rcases List.mem_cons.mp he with rfl | he
  · rw [find_cons_filter_ne _ _ (dropLast_ne_self hp.1)]
    exact hd
  · have he := (List.mem_filter.mp he).1
    rw [find_cons_filter_ne _ _ (hp.2 e he)]
    exact t.closed e he

theorem closed_remove (hp : t.IsLeaf p) :
    ∀ e ∈ t.nodes.filter (·.1 ≠ p), find (t.nodes.filter (·.1 ≠ p)) e.1.dropLast = some .dir := by
  intro e he
  have he := (List.mem_filter.mp he).1
  rw [find_filter_ne _ (hp.2 e he)]
  exact t.closed e he

/-- Place a node in a directory, over what stands there if that has nothing below. -/
def put (t : Tree) (p : Path) (n : Node) : Option Tree :=
  if h : t.IsLeaf p ∧ t.get p.dropLast = some .dir then
    some ⟨(p, n) :: t.nodes.filter (·.1 ≠ p), closed_put h.1 h.2 n⟩
  else none

def remove (t : Tree) (p : Path) : Option Tree :=
  if h : t.IsLeaf p then some ⟨t.nodes.filter (·.1 ≠ p), closed_remove h⟩ else none

theorem mem_of_get (h : t.get p = some n) (hp : p ≠ []) : (p, n) ∈ t.nodes := by
  unfold get find at h
  rw [if_neg hp] at h
  obtain ⟨e, he, rfl⟩ := Option.map_eq_some_iff.mp h
  have hkey : e.1 = p := by simpa using List.find?_some he
  rw [← hkey]
  exact List.mem_of_find?_eq_some he

theorem get_dropLast (h : t.get p = some n) : t.get p.dropLast = some .dir := by
  by_cases hp : p = []
  · rw [hp]
    rfl
  · exact t.closed (p, n) (mem_of_get h hp)

/-- What is above a node is a directory. -/
theorem get_of_isPrefix (h : t.get p = some n) (hq : q <+: p) (hne : q ≠ p) :
    t.get q = some .dir := by
  induction p using List.reverseRecOn generalizing n with
  | nil => exact absurd (List.prefix_nil.mp hq) hne
  | append_singleton p x ih =>
    have hd : t.get p = some .dir := by simpa using get_dropLast h
    rcases List.prefix_concat_iff.mp hq with hq | hq
    · exact absurd hq hne
    · by_cases hqp : q = p
      · rw [hqp, hd]
      · exact ih hd hq hqp

theorem get_put (h : t.put p n = some u) (q : Path) :
    u.get q = if q = p then some n else t.get q := by
  unfold put at h
  split_ifs at h with hp
  cases h
  by_cases hq : q = p
  · rw [if_pos hq, hq]
    unfold get find
    rw [if_neg hp.1.1, List.find?_cons_of_pos (by simp)]
    rfl
  · rw [if_neg hq]
    exact find_cons_filter_ne _ _ hq

theorem get_remove (h : t.remove p = some u) (q : Path) :
    u.get q = if q = p then none else t.get q := by
  unfold remove at h
  split_ifs at h with hp
  cases h
  by_cases hq : q = p
  · rw [if_pos hq, hq]
    unfold get find
    rw [if_neg hp.1, List.find?_filter, List.find?_eq_none.mpr (by simp)]
    rfl
  · rw [if_neg hq]
    exact find_filter_ne _ hq

/-- What is removed has nothing below it. -/
theorem get_eq_none_of_remove (h : t.remove p = some u) (hq : p <+: q) (hne : p ≠ q) :
    t.get q = none := by
  unfold remove at h
  split_ifs at h with hp
  obtain ⟨l, rfl⟩ := hq
  cases l with
  | nil => exact absurd (List.append_nil p).symm hne
  | cons x l =>
    by_contra hsome
    obtain ⟨m, hm⟩ := Option.ne_none_iff_exists'.mp hsome
    have hx : ∃ m, t.get (p ++ [x]) = some m := by
      by_cases hl : l = []
      · exact ⟨m, by rw [hl] at hm; exact hm⟩
      · refine ⟨.dir, get_of_isPrefix hm ⟨l, by simp⟩ ?_⟩
        simpa using Ne.symm hl
    obtain ⟨m, hm⟩ := hx
    exact hp.2 _ (mem_of_get hm (by simp)) (by simp)

end Tree

end IngestKit.Files
