import IngestKit.Artifacts.Writer
import Mathlib.Data.List.Infix

/-! What holds of the files and their names while calls are at work. -/
namespace IngestKit.Artifacts
open Durable

variable {Z : Platform} {w w' : World} {c : Call} {i j : ℕ}

/-- The second file was published no earlier than the first one. -/
def NotBefore (published : List ℕ) (i j : ℕ) : Prop :=
  i ∈ published ∧ j ∈ published ∧ published.idxOf i ≤ published.idxOf j

theorem NotBefore.append {l : List ℕ} (h : NotBefore l i j) (m : List ℕ) :
    NotBefore (l ++ m) i j := by
  obtain ⟨hi, hj, hle⟩ := h
  refine ⟨List.mem_append_left m hi, List.mem_append_left m hj, ?_⟩
  rw [List.idxOf_append_of_mem hi, List.idxOf_append_of_mem hj]
  exact hle

theorem notBefore_new {l m : List ℕ} (hi : i ∈ l) (hj : j ∈ l ++ m) (hnew : j ∉ l) :
    NotBefore (l ++ m) i j := by
  refine ⟨List.mem_append_left m hi, hj, ?_⟩
  have hlt : l.idxOf i < l.length := List.idxOf_lt_length_iff.mpr hi
  rw [List.idxOf_append_of_mem hi, List.idxOf_append_of_notMem hnew]
  omega

theorem notBefore_self {l : List ℕ} (h : i ∈ l) : NotBefore l i i := ⟨h, h, le_rfl⟩

namespace World

def Complete (Z : Platform) (w : World) (c : Call) (i : ℕ) : Prop :=
  ∃ f, w.disk.files i = some f ∧ f.synced = true ∧ f.content = c.content Z

def Journal (w : World) (i : ℕ) : Prop := ∃ c, w.files[i]? = some c ∧ c.writer = .atomicJSON

/-- The second file is the first one, or a journal that was published later. -/
def Replaces (w : World) (i j : ℕ) : Prop :=
  NotBefore w.published i j ∧ (j = i ∨ w.Journal j)

/-- The target of the file leads to it or to what replaces it. -/
def Current (w : World) (i : ℕ) : Prop :=
  ∃ c j, w.files[i]? = some c ∧ w.disk.entries c.target = some j ∧ w.Replaces i j

/-- The same whichever of its entries a power failure brings back. -/
def Flushed (w : World) (i : ℕ) : Prop :=
  ∃ c, w.files[i]? = some c ∧ ∀ v ∈ w.disk.values c.target, ∃ j, v = some j ∧ w.Replaces i j

end World

/-- The bounds that a published file keeps. -/
def Call.Bounded (Z : Platform) (c : Call) : Prop :=
  c.writer ≠ .atomicJSON → (c.content Z).length ≤ maxCompressedArtifact

/-- What a result says about the file of its call. -/
def World.Settled (Z : Platform) (w : World) (c : Call) (i : ℕ) : Result → Prop
  | .ok ref => i ∈ w.published ∧ ref = c.reference Z (c.content Z) ∧ c.Bounded Z
  | .error _ => c.writer ≠ .atomicJSON → i ∉ w.published

def Phase.Holds (Z : Platform) (w : World) (c : Call) (i : ℕ) : Phase → Prop
  | .writing rest => i ∉ w.published ∧
      ∃ f, w.disk.files i = some f ∧ f.content ++ rest = c.content Z
  | .syncing failed => i ∉ w.published ∧
      (failed = false → ∃ f, w.disk.files i = some f ∧ f.content = c.content Z)
  | .closing failed => i ∉ w.published ∧ (failed = false → w.Complete Z c i)
  | .reading => i ∉ w.published ∧ w.Complete Z c i
  | .publishing data => i ∉ w.published ∧ w.Complete Z c i ∧ data = c.content Z ∧ c.Bounded Z
  | .flushing => c.writer = .atomicJSON ∧ w.Current i
  | .removing r => w.Settled Z c i r ∧
      (∀ ref, r = .ok ref → c.writer = .atomicJSON → w.Flushed i)

structure Returned.Holds (Z : Platform) (w : World) (r : Returned) : Prop where
  file : ∀ i, r.file = some i → w.files[i]? = some r.call ∧ w.Settled Z r.call i r.result
  opened : ∀ ref, r.result = .ok ref → r.file ≠ none

/-- The file that a name leads to is a complete version of some call for that name. -/
def World.Version (Z : Platform) (w : World) (dir base : Bytes) (i : ℕ) (bs : Bytes) : Prop :=
  i ∈ w.published ∧ ∃ c, w.files[i]? = some c ∧ c.dir = dir ∧ c.base = base ∧
    bs = c.content Z ∧ c.Bounded Z

structure Inv (Z : Platform) (w : World) : Prop where
  fresh : ∀ i, w.files.length ≤ i → w.disk.files i = none
  accepted : ∀ c ∈ w.files, c.refusal = none
  temps : ∀ x dir n i, some i ∈ w.disk.values (.temp x dir n) → i = n
  seals : ∀ dir base, w.disk.Sealed (.target dir base) (w.Version Z dir base)
  bound : ∀ i ∈ w.published, i < w.files.length
  live : ∀ k c i p, w.live k = some ⟨c, .opened i p⟩ → w.files[i]? = some c ∧ p.Holds Z w c i
  unique : ∀ k k' c c' i p p', w.live k = some ⟨c, .opened i p⟩ →
    w.live k' = some ⟨c', .opened i p'⟩ → k = k'
  gone : ∀ r ∈ w.returned, ∀ i, r.file = some i → ∀ k c p, w.live k ≠ some ⟨c, .opened i p⟩
  returned : ∀ r ∈ w.returned, r.Holds Z w

/-- A new publication under the name, which was free unless a journal was published. -/
def World.Publishes (w w' : World) (n : Name) (j : ℕ) : Prop :=
  j ∈ w'.published ∧ j ∉ w.published ∧ (w.disk.entries n = none ∨ w'.Journal j)

/-- Files and publications are only added, and a directory that is durable stays so. -/
structure Adds (w w' : World) : Prop where
  files : ∃ m, w'.files = w.files ++ m
  published : ∃ m, w'.published = w.published ++ m
  dirs : ∀ dir, w.dirs dir = .durable → w'.dirs dir = .durable

/-- A target leads to nothing new but publications, and to nothing any more only if its directory
was not durable. -/
structure Grows (w w' : World) : Prop extends Adds w w' where
  values : ∀ dir base, ∀ v ∈ w'.disk.values (.target dir base),
    v ∈ w.disk.values (.target dir base) ∨
      (∃ j, v = some j ∧ w.Publishes w' (.target dir base) j) ∨
      (v = none ∧ w.dirs dir ≠ .durable)

/-- Without a power failure a target keeps its entry unless there is a publication. -/
structure Keeps (w w' : World) : Prop extends Adds w w' where
  values : ∀ dir base, ∀ v ∈ w'.disk.values (.target dir base),
    v ∈ w.disk.values (.target dir base) ∨ ∃ j, v = some j ∧ w.Publishes w' (.target dir base) j
  entry : ∀ dir base, w'.disk.entries (.target dir base) = w.disk.entries (.target dir base) ∨
    ∃ j, w'.disk.entries (.target dir base) = some j ∧ w.Publishes w' (.target dir base) j

theorem Keeps.grows (h : Keeps w w') : Grows w w' where
  toAdds := h.toAdds
  values dir base v hv := (h.values dir base v hv).imp_right .inl

theorem Adds.file (h : Adds w w') (hi : w.files[i]? = some c) : w'.files[i]? = some c := by
  obtain ⟨m, hm⟩ := h.files
  obtain ⟨hlt, -⟩ := List.getElem?_eq_some_iff.mp hi
  rw [hm, List.getElem?_append_left hlt]
  exact hi

theorem Adds.length_le (h : Adds w w') : w.files.length ≤ w'.files.length := by
  obtain ⟨m, hm⟩ := h.files
  rw [hm, List.length_append]
  exact Nat.le_add_right _ _

theorem Adds.mem (h : Adds w w') (hi : i ∈ w.published) : i ∈ w'.published := by
  obtain ⟨m, hm⟩ := h.published
  rw [hm]
  exact List.mem_append_left m hi

theorem Adds.journal (h : Adds w w') (hi : w.Journal i) : w'.Journal i := by
  obtain ⟨c, hc, hw⟩ := hi
  exact ⟨c, h.file hc, hw⟩

theorem Adds.replaces (h : Adds w w') (hij : w.Replaces i j) : w'.Replaces i j := by
  obtain ⟨m, hm⟩ := h.published
  refine ⟨?_, hij.2.imp_right h.journal⟩
  rw [hm]
  exact hij.1.append m

/-- What is published under a name in use replaces what the name led to. -/
theorem Adds.replaces_new {n : Name} (h : Adds w w') (hi : i ∈ w.published)
    (hj : w.Publishes w' n j) (hn : w.disk.entries n ≠ none) : w'.Replaces i j := by
  obtain ⟨hmem, hnew, hkind⟩ := hj
  obtain ⟨m, hm⟩ := h.published
  refine ⟨?_, .inr (hkind.resolve_left hn)⟩
  rw [hm] at hmem ⊢
  exact notBefore_new hi hmem hnew

theorem World.Flushed.current (h : w.Flushed i) : w.Current i := by
  obtain ⟨c, hc, hv⟩ := h
  obtain ⟨j, hj, hij⟩ := hv _ Disk.entries_mem_values
  exact ⟨c, j, hc, hj, hij⟩

theorem World.Current.mem (h : w.Current i) : i ∈ w.published := by
  obtain ⟨c, j, -, -, hij⟩ := h
  exact hij.1.1

theorem World.Flushed.of_values (h : w.Flushed i) (ha : Adds w w') (hfile : w.files[i]? = some c)
    (hvalues : ∀ v ∈ w'.disk.values c.target, v ∈ w.disk.values c.target ∨
      ∃ j, v = some j ∧ w.Publishes w' c.target j) : w'.Flushed i := by
  have hi := h.current.mem
  obtain ⟨c', hc', hv⟩ := h
  cases hfile.symm.trans hc'
  refine ⟨c, ha.file hfile, fun v hmem => ?_⟩
  rcases hvalues v hmem with hold | ⟨j, rfl, hj⟩
  · obtain ⟨j, rfl, hij⟩ := hv v hold
    exact ⟨j, rfl, ha.replaces hij⟩
  · refine ⟨j, rfl, ha.replaces_new hi hj fun hnone => ?_⟩
    obtain ⟨j', hj', -⟩ := hv _ Disk.entries_mem_values
    cases hnone.symm.trans hj'

theorem World.Flushed.keeps (h : w.Flushed i) (hk : Keeps w w') : w'.Flushed i := by
  obtain ⟨c, -, hfile, -⟩ := h.current
  exact h.of_values hk.toAdds hfile (hk.values c.dir c.base)

/-- In a durable directory it is so through power failures too. -/
theorem World.Flushed.grows (h : w.Flushed i) (hg : Grows w w') (hfile : w.files[i]? = some c)
    (hd : w.dirs c.dir = .durable) : w'.Flushed i := by
  refine h.of_values hg.toAdds hfile fun v hv => ?_
  rcases hg.values c.dir c.base v hv with hold | hnew | ⟨-, hfresh⟩
  · exact .inl hold
  · exact .inr hnew
  · exact absurd hd hfresh

theorem World.Current.keeps (h : w.Current i) (hk : Keeps w w') : w'.Current i := by
  have hi := h.mem
  obtain ⟨c, j, hc, hj, hij⟩ := h
  rcases hk.entry c.dir c.base with hsame | ⟨j', hj', hnew⟩
  · exact ⟨c, j, hk.file hc, hsame.trans hj, hk.replaces hij⟩
  · refine ⟨c, j', hk.file hc, hj', hk.replaces_new hi hnew fun hnone => ?_⟩
    cases hnone.symm.trans hj

theorem World.Settled.adds {r : Result} (h : w.Settled Z c i r) (hg : Adds w w')
    (hpub : i ∈ w'.published → i ∈ w.published) : w'.Settled Z c i r := by
  cases r with
  | ok ref => exact ⟨hg.mem h.1, h.2⟩
  | error e => exact fun hc hi => h hc (hpub hi)

theorem Phase.Holds.keeps {p : Phase} (h : p.Holds Z w c i) (hk : Keeps w w')
    (hfile : w'.disk.files i = w.disk.files i) (hpub : i ∈ w'.published → i ∈ w.published) :
    p.Holds Z w' c i := by
  have hcomplete : w.Complete Z c i → w'.Complete Z c i := by
    intro hc
    unfold World.Complete
    rw [hfile]
    exact hc
  cases p with
  | writing rest =>
    obtain ⟨hi, f, hf, hrest⟩ := h
    exact ⟨fun hmem => hi (hpub hmem), f, hfile.trans hf, hrest⟩
  | syncing failed =>
    refine ⟨fun hmem => h.1 (hpub hmem), fun hfailed => ?_⟩
    obtain ⟨f, hf, hcontent⟩ := h.2 hfailed
    exact ⟨f, hfile.trans hf, hcontent⟩
  | closing failed => exact ⟨fun hmem => h.1 (hpub hmem), fun hfailed => hcomplete (h.2 hfailed)⟩
  | reading => exact ⟨fun hmem => h.1 (hpub hmem), hcomplete h.2⟩
  | publishing data => exact ⟨fun hmem => h.1 (hpub hmem), hcomplete h.2.1, h.2.2⟩
  | flushing => exact ⟨h.1, h.2.keeps hk⟩
  | removing r =>
    exact ⟨h.1.adds hk.toAdds hpub, fun ref href hc => (h.2 ref href hc).keeps hk⟩

theorem World.Version.adds {dir base bs : Bytes} (h : w.Version Z dir base i bs)
    (hg : Adds w w') : w'.Version Z dir base i bs := by
  obtain ⟨hi, c, hc, hrest⟩ := h
  exact ⟨hg.mem hi, c, hg.file hc, hrest⟩

end IngestKit.Artifacts
