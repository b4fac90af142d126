import IngestKit.Archive.Script

/-! The disk that the script works on while other processes change what is not in the archive. -/
namespace IngestKit.Archive
open Files Interference Transition

/-- What the script has done: a file written whole to the archive, a manifest written whole, and a
node taken out of the tree. -/
inductive Effect (δ : Type)
  | archived (p : Path) (b : Bytes)
  | saved (p : Path) (m : Manifest δ)
  | removed (p : Path) (n : Node)
  deriving DecidableEq

structure Disk (δ : Type) where
  tree : Tree
  log : List (Effect δ)

/-- What another process makes of a path. -/
structure Change where
  path : Path
  node : Option Node

section Calls
variable {δ : Type}

def Disk.change (d : Disk δ) : Except Errno Tree → Except Errno Unit × Disk δ
  | .ok t => (.ok (), { d with tree := t })
  | .error e => (.error e, d)

/-- Write to a file, and note what it then holds if the write was whole. -/
def Disk.write (d : Disk δ) (p : Path) (b : Bytes) (note : Path → Bytes → List (Effect δ)) :
    Except Errno Unit × Disk δ :=
  match d.tree.append p b with
  | .ok (q, c, t) => (.ok (), ⟨t, d.log ++ note q c⟩)
  | .error e => (.error e, d)

def Disk.unlink (d : Disk δ) (p : Path) : Except Errno Unit × Disk δ :=
  match d.tree.unlink p with
  | .ok (q, n, t) => (.ok (), ⟨t, d.log ++ [.removed q n]⟩)
  | .error e => (.error e, d)

def respond (host : Host δ) : (c : Call δ) → Disk δ → Answer c × Disk δ
  | .isSymlink p, d => (d.tree.isSymlink p, d)
  | .isLink p, d => (d.tree.isSymlink p, d)
  | .pathExists p, d => (d.tree.pathExists p, d)
  | .isDir p, d => (d.tree.isDir p, d)
  | .isFile p, d => (d.tree.isFile p, d)
  | .isPipe p, d => (d.tree.isPipe p, d)
  | .sameFile p q, d => (d.tree.sameFile p q, d)
  | .resolve p, d => (d.tree.resolve p, d)
  | .rglob p, d => (d.tree.rglob p, d)
  | .size p, d => (d.tree.size p, d)
  | .read p, d => (d.tree.read p, d)
  | .readlink p, d => (d.tree.readlink p, d)
  | .chmod p, d => ((d.tree.stat true p).map fun _ => (), d)
  | .fsync p, d => ((d.tree.read p).map fun _ => (), d)
  | .mkdir p, d => d.change (d.tree.mkdir p)
  | .symlink l p, d => d.change (d.tree.symlink l p)
  | .create p, d => d.change (d.tree.create p)
  | .copyTo p b, d => d.write p b fun q c => [.archived q c]
  | .dump p m, d => d.write p (host.dump m) fun q _ => [.saved q m]
  | .unlink p, d => d.unlink p
  | .rmdir p, d => d.change (d.tree.rmdir p)

/-- A write may stop after any number of bytes; every other call is done whole or not at all. -/
def interrupt (host : Host δ) : Call δ → ℕ → Disk δ → Disk δ
  | .copyTo p b, progress, d => (d.write p (b.take progress) fun _ _ => []).2
  | .dump p m, progress, d => (d.write p ((host.dump m).take progress) fun _ _ => []).2
  | _, _, d => d

/-- Between the last look at a file and its removal, what leads to the file is left alone. -/
def windowed : Option (Call δ) → Path → Bool
  | some (.unlink q), p => p.isPrefixOf q
  | _, _ => false

/-- Others change everything but the archive and the directories it stands in. -/
def disturb (destination : Path) (c : Option (Call δ)) (x : Change) (d : Disk δ) :
    Option (Disk δ) :=
  if destination <+: x.path ∨ x.path <+: destination ∨ windowed c x.path = true then none
  else (x.node.elim (d.tree.remove x.path) (d.tree.put x.path)).map fun t => { d with tree := t }

def system (host : Host δ) (destination : Path) : System (Call δ) Answer (Disk δ) Change :=
  ⟨respond host, interrupt host, disturb destination⟩

/-- The file that `copyfile` looks at is not a symbolic link, and no directory above a file that is
removed is one. -/
def unlinked : Call δ → Disk δ → Bool
  | .isLink p, d => !d.tree.isSymlink p
  | .unlink p, d => d.tree.Clear p.dropLast
  | _, _ => true

abbrev Run (δ : Type) := Process (Call δ) Answer Failure (Manifest δ) (Disk δ)

variable [DecidableEq δ]

def start (host : Host δ) (repo destination : Path) (paths : List Bytes) (apply : Bool)
    (t : Tree) : Run δ :=
  ⟨archivePaths host repo destination paths apply, ⟨t, []⟩⟩

end Calls

end IngestKit.Archive
