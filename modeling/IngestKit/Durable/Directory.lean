import Mathlib.Data.List.Basic
import Mathlib.Logic.Function.Basic

/-! Directories of files under process crashes and power failures. A name leads to a file through
an entry; what was written to a file is safe once the file was synced, and a change of an entry
once the directory was. Until then a power failure may bring back any earlier entry of a name, and
leave anything in a file. It may also take away a whole directory that was made of late. -/
namespace IngestKit.Durable

structure File (β : Type) where
  content : List β
  synced : Bool
  deriving DecidableEq

/-- A directory is durable once every entry on its own path is on disk. A sync of the directory
itself does not do that. -/
inductive Presence
  | missing | fresh | durable
  deriving DecidableEq

namespace Presence

/-- Making a directory leaves one that is there as it is. -/
def made : Presence → Presence
  | .missing => .fresh
  | p => p

/-- What a power failure may leave of a directory. -/
def Survives : Presence → Presence → Prop
  | .missing, p => p = .missing
  | .fresh, p => p ≠ .fresh
  | .durable, p => p = .durable

theorem made_ne_missing (p : Presence) : p.made ≠ .missing := by
  cases p with
  | missing => decide
  | fresh => decide
  | durable => decide

end Presence

/-- `earlier` are the entries since the last sync that a power failure may bring back. -/
structure Disk (ν β : Type) where
  files : ℕ → Option (File β)
  entries : ν → Option ℕ
  earlier : ν → List (Option ℕ)

namespace Disk
variable {ν β : Type}

def empty : Disk ν β := ⟨fun _ => none, fun _ => none, fun _ => []⟩

/-- The content that a name leads to. -/
def read (d : Disk ν β) (n : ν) : Option (List β) :=
  (d.entries n).bind fun i => (d.files i).map File.content

/-- Every entry that the name has or may get back. -/
def values (d : Disk ν β) (n : ν) : List (Option ℕ) := d.entries n :: d.earlier n

def modify (d : Disk ν β) (i : ℕ) (f : File β → File β) : Disk ν β :=
  { d with files := Function.update d.files i ((d.files i).map f) }

def append (d : Disk ν β) (i : ℕ) (bs : List β) : Disk ν β :=
  d.modify i fun f => ⟨f.content ++ bs, false⟩

def sync (d : Disk ν β) (i : ℕ) : Disk ν β :=
  d.modify i fun f => { f with synced := true }

def syncDirectory (d : Disk ν β) (inside : ν → Bool) : Disk ν β :=
  { d with earlier := fun n => if inside n then [] else d.earlier n }

/-- What a power failure may leave, if it takes away the directories of the lost names. -/
structure PowerFailure (lost : ν → Prop) (d d' : Disk ν β) : Prop where
  entry : ∀ n, ¬lost n → d'.entries n ∈ d.values n
  lost : ∀ n, lost n → d'.entries n = none
  earlier : ∀ n, d'.earlier n = []
  none : ∀ i, d.files i = none → d'.files i = none
  some : ∀ i f, d.files i = some f → ∃ f', d'.files i = some f' ∧ (f.synced = true → f' = f)

section Entries
variable [DecidableEq ν]

def setEntry (d : Disk ν β) (n : ν) (v : Option ℕ) : Disk ν β :=
  { d with
    entries := Function.update d.entries n v
    earlier := Function.update d.earlier n (d.values n) }

def create (d : Disk ν β) (n : ν) (i : ℕ) : Disk ν β :=
  { d.setEntry n (some i) with files := Function.update d.files i (some ⟨[], false⟩) }

/-- A second name for a file; a name in use is refused. -/
def link (d : Disk ν β) (n m : ν) : Option (Disk ν β) :=
  match d.entries n with
  | none => none
  | some i => if d.entries m = none then some (d.setEntry m (some i)) else none

/-- The new name replaces what it led to; two names of one file are both kept. -/
def rename (d : Disk ν β) (n m : ν) : Option (Disk ν β) :=
  match d.entries n with
  | none => none
  | some i => some (if d.entries m = some i then d
      else (d.setEntry m (some i)).setEntry n none)

def unlink (d : Disk ν β) (n : ν) : Disk ν β := d.setEntry n none

end Entries

variable {d d' : Disk ν β} {n m : ν} {i j : ℕ} {f : File β}

theorem entries_mem_values : d.entries n ∈ d.values n := List.mem_cons_self

theorem files_modify_of_ne (g : File β → File β) (h : j ≠ i) :
    (d.modify i g).files j = d.files j :=
  Function.update_of_ne h _ _

theorem files_modify (g : File β → File β) (h : d.files i = some f) :
    (d.modify i g).files i = some (g f) := by
  have hupdate : (d.modify i g).files i = (d.files i).map g := Function.update_self i _ _
  rw [hupdate, h, Option.map_some]

theorem read_eq_some_iff {bs : List β} : d.read n = some bs ↔
    ∃ i f, d.entries n = some i ∧ d.files i = some f ∧ f.content = bs := by
  unfold read
  rw [Option.bind_eq_some_iff]
  constructor
  · rintro ⟨i, hi, h⟩
    obtain ⟨f, hf, hc⟩ := Option.map_eq_some_iff.mp h
    exact ⟨i, f, hi, hf, hc⟩
  · rintro ⟨i, f, hi, hf, hc⟩
    exact ⟨i, hi, Option.map_eq_some_iff.mpr ⟨f, hf, hc⟩⟩

section Sealed
variable {P Q : ℕ → List β → Prop}

/-- Every file that the name leads to, or may lead to after a power failure, is synced and has the
property. -/
def Sealed (d : Disk ν β) (n : ν) (P : ℕ → List β → Prop) : Prop :=
  ∀ i, some i ∈ d.values n → ∃ f, d.files i = some f ∧ f.synced = true ∧ P i f.content

theorem sealed_empty : (empty : Disk ν β).Sealed n P := by
  intro i hi
  have hnone : some i = none := List.mem_singleton.mp hi
  cases hnone

theorem Sealed.mono (h : d.Sealed n P) (hPQ : ∀ i bs, P i bs → Q i bs) : d.Sealed n Q := by
  intro i hi
  obtain ⟨f, hf, hsync, hP⟩ := h i hi
  exact ⟨f, hf, hsync, hPQ i f.content hP⟩

theorem Sealed.read (h : d.Sealed n P) {bs : List β} (hr : d.read n = some bs) :
    ∃ i, d.entries n = some i ∧ P i bs := by
  obtain ⟨i, f, hi, hf, hbs⟩ := read_eq_some_iff.mp hr
  have hmem : some i ∈ d.values n := hi ▸ entries_mem_values
  obtain ⟨f', hf', -, hP⟩ := h i hmem
  cases hf.symm.trans hf'
  exact ⟨i, hi, hbs ▸ hP⟩

/-- Nothing that the name may lead to has changed. -/
theorem Sealed.of_files (h : d.Sealed n P) (hv : ∀ i, some i ∈ d'.values n → some i ∈ d.values n)
    (hf : ∀ i, some i ∈ d.values n → ∀ f, d.files i = some f → f.synced = true →
      d'.files i = some f) : d'.Sealed n P := by
  intro i hi
  have hmem := hv i hi
  obtain ⟨f, hfile, hsync, hP⟩ := h i hmem
  exact ⟨f, hf i hmem f hfile hsync, hsync, hP⟩

theorem Sealed.append (h : d.Sealed n P) (hi : some i ∉ d.values n) (bs : List β) :
    (d.append i bs).Sealed n P := by
  refine h.of_files (fun v hv => hv) ?_
  intro j hj f hf _
  have hne : j ≠ i := fun e => hi (e ▸ hj)
  exact (files_modify_of_ne _ hne).trans hf

theorem Sealed.sync (h : d.Sealed n P) (i : ℕ) : (d.sync i).Sealed n P := by
  refine h.of_files (fun v hv => hv) ?_
  intro j _ f hf hsync
  by_cases hji : j = i
  · subst hji
    have hsame : { f with synced := true } = f := by rw [← hsync]
    exact (files_modify _ hf).trans (congrArg some hsame)
  · exact (files_modify_of_ne _ hji).trans hf

theorem Sealed.syncDirectory (h : d.Sealed n P) (inside : ν → Bool) :
    (d.syncDirectory inside).Sealed n P := by
  apply h.of_files
  · intro i hv
    rcases List.mem_cons.mp hv with hv | hv
    · exact List.mem_cons.mpr (.inl hv)
    · change some i ∈ (if inside n then [] else d.earlier n) at hv
      split at hv
      · cases hv
      · exact List.mem_cons_of_mem _ hv
  · exact fun _ _ f hf _ => hf

/-- A power failure brings back no file that was not there before. -/
theorem mem_values_of_powerFailure {lost : ν → Prop} (h : PowerFailure lost d d') (n : ν) (i : ℕ)
    (hi : some i ∈ d'.values n) : some i ∈ d.values n := by
  unfold Disk.values at hi
  rw [h.earlier n] at hi
  have hentry := List.mem_singleton.mp hi
  by_cases hlost : lost n
  · rw [h.lost n hlost] at hentry
    cases hentry
  · exact hentry ▸ h.entry n hlost

theorem Sealed.powerFailure {lost : ν → Prop} (h : d.Sealed n P) (hfail : PowerFailure lost d d') :
    d'.Sealed n P := by
  refine h.of_files (mem_values_of_powerFailure hfail n) ?_
  intro i _ f hf hsync
  obtain ⟨f', hf', hsame⟩ := hfail.some i f hf
  rw [hf', hsame hsync]

variable [DecidableEq ν]

theorem values_setEntry (v : Option ℕ) : (d.setEntry n v).values n = v :: d.values n := by
  have hentry : (d.setEntry n v).entries n = v := Function.update_self n _ _
  have hearlier : (d.setEntry n v).earlier n = d.values n := Function.update_self n _ _
  rw [values, hentry, hearlier]

theorem values_setEntry_of_ne (v : Option ℕ) (h : m ≠ n) :
    (d.setEntry n v).values m = d.values m := by
  have hentry : (d.setEntry n v).entries m = d.entries m := Function.update_of_ne h _ _
  have hearlier : (d.setEntry n v).earlier m = d.earlier m := Function.update_of_ne h _ _
  rw [values, hentry, hearlier, values]

theorem entries_setEntry (v : Option ℕ) : (d.setEntry n v).entries n = v :=
  Function.update_self n _ _

theorem entries_setEntry_of_ne (v : Option ℕ) (h : m ≠ n) :
    (d.setEntry n v).entries m = d.entries m :=
  Function.update_of_ne h _ _

theorem Sealed.setEntry_of_ne (h : d.Sealed n P) (v : Option ℕ) (hne : n ≠ m) :
    (d.setEntry m v).Sealed n P := by
  apply h.of_files
  · intro i hi
    rwa [values_setEntry_of_ne v hne] at hi
  · exact fun _ _ f hf _ => hf

theorem Sealed.setEntry (h : d.Sealed n P) (hf : d.files i = some f) (hsync : f.synced = true)
    (hP : P i f.content) : (d.setEntry n (some i)).Sealed n P := by
  intro j hj
  rw [values_setEntry] at hj
  rcases List.mem_cons.mp hj with hj | hj
  · cases hj
    exact ⟨f, hf, hsync, hP⟩
  · exact h j hj

theorem Sealed.create (h : d.Sealed n P) (hne : n ≠ m) (hfree : d.files i = none) :
    (d.create m i).Sealed n P := by
  have hentry := h.setEntry_of_ne (some i) hne
  refine hentry.of_files (fun v hv => hv) ?_
  intro j hj f hf _
  have hji : j ≠ i := by
    intro e
    subst e
    have hd : d.files j = some f := hf
    rw [hfree] at hd
    cases hd
  exact (Function.update_of_ne hji _ _).trans hf

end Sealed

section Names
variable [DecidableEq ν]

theorem link_eq_some_iff : d.link n m = some d' ↔
    ∃ i, d.entries n = some i ∧ d.entries m = none ∧ d' = d.setEntry m (some i) := by
  unfold link
  cases h : d.entries n with
  | none =>
    constructor
    · intro h
      cases h
    · rintro ⟨i, hi, -⟩
      cases hi
  | some i =>
    change (if d.entries m = none then some (d.setEntry m (some i)) else none) = some d' ↔ _
    constructor
    · intro h
      split at h
      · exact ⟨i, rfl, ‹_›, (Option.some.inj h).symm⟩
      · cases h
    · rintro ⟨j, hj, hm, rfl⟩
      cases hj
      exact if_pos hm

theorem rename_eq_some (h : d.rename n m = some d') : ∃ i, d.entries n = some i ∧
    (d.entries m = some i ∨ d' = (d.setEntry m (some i)).setEntry n none) := by
  unfold rename at h
  cases hn : d.entries n with
  | none =>
    rw [hn] at h
    cases h
  | some i =>
    rw [hn] at h
    have hd := (Option.some.inj h).symm
    refine ⟨i, rfl, ?_⟩
    split at hd
    · exact .inl ‹_›
    · exact .inr hd

end Names
end Disk
end IngestKit.Durable
