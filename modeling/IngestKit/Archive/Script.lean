import IngestKit.Files.Walk
import IngestKit.Interference.Program
import Mathlib.Data.List.Sort

/-! The script that archives retired evidence and then removes it from the checkout. -/
namespace IngestKit.Archive
open Files Interference
open Interference.Program (each)

inductive Failure
  | valueError (message : String)
  | fileNotFoundError (path : Path)
  | fileExistsError (path : Path)
  | sameFileError
  | specialFileError
  | osError (e : Errno)
  deriving DecidableEq

/-- A file of the inventory, with its path from the root of the checkout. -/
structure Entry (δ : Type) where
  path : Path
  size : ℕ
  sha256 : δ
  deriving DecidableEq

structure Evidence (δ : Type) extends Entry δ where
  tracked : Bool
  reason : String
  deriving DecidableEq

structure Manifest (δ : Type) where
  schema : ℕ
  checkoutRoot : Path
  sourceSha : Option Bytes
  paths : List Bytes
  files : List (Evidence δ)
  verified : Bool
  removed : List Path
  deriving DecidableEq

/-- What the script calls that is not in the file system: the digest of a file, the text of a
manifest and what git says of the checkout. -/
structure Host (δ : Type) where
  hash : Bytes → δ
  dump : Manifest δ → Bytes
  revision : Path → Option Bytes
  tracked : Path → List Bytes

/-- The calls of the script on the file system. `isLink` is the look of `copyfile` at its source,
and `copyTo` what it writes to its target. -/
inductive Call (δ : Type)
  | isSymlink (p : Path)
  | isLink (p : Path)
  | pathExists (p : Path)
  | isDir (p : Path)
  | isFile (p : Path)
  | isPipe (p : Path)
  | sameFile (p q : Path)
  | resolve (p : Path)
  | rglob (p : Path)
  | size (p : Path)
  | read (p : Path)
  | readlink (p : Path)
  | chmod (p : Path)
  | fsync (p : Path)
  | mkdir (p : Path)
  | symlink (l : Link) (p : Path)
  | create (p : Path)
  | copyTo (p : Path) (b : Bytes)
  | dump (p : Path) (m : Manifest δ)
  | unlink (p : Path)
  | rmdir (p : Path)

@[reducible] def Answer {δ : Type} : Call δ → Type
  | .isSymlink _ | .isLink _ | .pathExists _ | .isDir _ | .isFile _ | .isPipe _ => Bool
  | .sameFile _ _ => Bool
  | .resolve _ => Except Errno Path
  | .rglob _ => List Path
  | .size _ => Except Errno ℕ
  | .read _ => Except Errno Bytes
  | .readlink _ => Except Errno Link
  | .chmod _ | .fsync _ | .mkdir _ | .symlink _ _ | .create _ | .copyTo _ _ | .dump _ _
  | .unlink _ | .rmdir _ => Except Errno Unit

abbrev Script (δ α : Type) := Program (Call δ) Answer Failure α

section Calls
variable {δ α : Type}

def call (c : Call δ) : Script δ (Answer c) := Program.perform c

def orRaise : Except Errno α → Script δ α
  | .ok a => .pure a
  | .error e => .raise (.osError e)

def failIf (c : Bool) (e : Failure) : Script δ Unit := if c then .raise e else .pure ()

/-- The path and all above it, from the path up. -/
def parents (p : Path) : List Path := p.inits.reverse

def refuseArchiveSymlinks (destination : Path) : Script δ Unit :=
  each (parents destination) fun component => do
    failIf (← call (.isSymlink component)) (.valueError "archive path or ancestor is a symlink")

/-- An error of `mkdir` is dropped if the directory is there and may be. -/
def orExists (existOk : Bool) (p : Path) (e : Errno) : Script δ Unit :=
  if existOk then do
    failIf (!(← call (.isDir p))) (.osError e)
  else .raise (.osError e)

/-- `mkdir` without `parents`. -/
def mkdirOne (existOk : Bool) (p : Path) : Script δ Unit := do
  match (← call (.mkdir p) : Except Errno Unit) with
  | .ok _ => pure ()
  | .error .noEntry => .raise (.osError .noEntry)
  | .error e => orExists existOk p e

/-- `mkdir` with `parents`, of the path that these names give from its end. -/
def mkdirParents (existOk : Bool) : List Name → Script δ Unit
  | [] => mkdirOne existOk []
  | x :: up => do
    match (← call (.mkdir (x :: up).reverse) : Except Errno Unit) with
    | .ok _ => pure ()
    | .error .noEntry => do
      mkdirParents true up
      mkdirOne existOk (x :: up).reverse
    | .error e => orExists existOk (x :: up).reverse e

/-- `shutil.copyfile` with `follow_symlinks=False`. -/
def copyfile (source target : Path) : Script δ Unit := do
  failIf (← call (.sameFile source target)) .sameFileError
  failIf (← call (.isPipe source)) .specialFileError
  failIf (← call (.isPipe target)) .specialFileError
  let link : Bool ← call (.isLink source)
  if link then do
    let l ← orRaise (← call (.readlink source))
    orRaise (← call (.symlink l target))
  else do
    let b ← orRaise (← call (.read source))
    orRaise (← call (.create target))
    orRaise (← call (.copyTo target b))

/-- A path and, if it is a directory, all that is below it. -/
def entriesOf (source : Path) : Script δ (List Path) := do
  let isDir : Bool ← call (.isDir source)
  if isDir then return source :: (← call (.rglob source)).insertionSort (· ≤ ·)
  else return [source]

def save (record : Path) (m : Manifest δ) : Script δ Unit := do
  orRaise (← call (.create record))
  orRaise (← call (.dump record m))
  orRaise (← call (.fsync record))
  orRaise (← call (.chmod record))

end Calls

/-- A path as the script's arguments give it. -/
structure PurePath where
  absolute : Bool
  parts : List Name
  deriving DecidableEq

def PurePath.ofText (b : Bytes) : PurePath :=
  ⟨b.head? = some 47, (b.splitOn 47).filter fun x => x ≠ [] ∧ x ≠ [46]⟩

def dotDot : Name := [46, 46]

def manifestName : Name :=
  ascii ['m', 'a', 'n', 'i', 'f', 'e', 's', 't', '.', 'j', 's', 'o', 'n']

def protectedNames : List Name :=
  [ascii ['.', 'g', 'i', 't'], ascii ['.', 'a', 'w', 's'],
    ascii ['.', 'a', 'g', 'e', 'n', 't', 's'], ascii ['.', 'c', 'o', 'd', 'e', 'x'],
    ascii ['.', 'w', 'o', 'r', 'k', 't', 'r', 'e', 'e', 's'],
    ascii ['n', 'o', 'd', 'e', '_', 'm', 'o', 'd', 'u', 'l', 'e', 's']]

def PurePath.isUnsafe (rel : PurePath) : Bool :=
  rel.absolute || rel.parts = [] || rel.parts = [manifestName] || rel.parts.contains dotDot ||
    rel.parts.any protectedNames.contains

def text (p : Path) : Bytes := List.intercalate [47] p

structure Inventory (δ : Type) where
  files : List (Entry δ)
  directories : List Path
  selected : List Path

section Script
variable {δ : Type} [DecidableEq δ]

/-- The assignment of a key of the dictionary of files. -/
def setEntry (files : List (Entry δ)) (e : Entry δ) : List (Entry δ) :=
  if files.any (·.path = e.path) then files.map fun f => if f.path = e.path then e else f
  else files ++ [e]

variable (host : Host δ)

/-- The digest of a file, from one read of it. The script reads blocks of 1 MiB, so a file that is
written meanwhile may give it parts of several contents. -/
def hashFile (p : Path) : Script δ δ := do
  let b ← orRaise (← call (.read p))
  return host.hash b

def inspect (root : Path) (inv : Inventory δ) (entry : Path) : Script δ (Inventory δ) := do
  let rel := entry.drop root.length
  failIf (← call (.isSymlink entry)) (.valueError "protected path or symlink in evidence")
  failIf (rel.any protectedNames.contains) (.valueError "protected path or symlink in evidence")
  let isDir : Bool ← call (.isDir entry)
  if isDir then return { inv with directories := inv.directories.insert entry }
  else do
    failIf (!(← call (.isFile entry)))
      (.valueError "only regular evidence files are supported")
    let size ← orRaise (← call (.size entry))
    let sha256 ← hashFile host entry
    return { inv with files := setEntry inv.files ⟨rel, size, sha256⟩ }

def select (root : Path) (inv : Inventory δ) (name : Bytes) : Script δ (Inventory δ) := do
  let rel := PurePath.ofText name
  failIf rel.isUnsafe (.valueError "unsafe evidence path")
  let source := root ++ rel.parts
  each ((parents source).takeWhile (· ≠ root)) fun parent => do
    failIf (← call (.isSymlink parent)) (.valueError "symlink evidence is not supported")
  failIf (!(← call (.pathExists source))) (.fileNotFoundError rel.parts)
  failIf (inv.selected.any fun prior => source.isPrefixOf prior || prior.isPrefixOf source)
    (.valueError "overlapping evidence selections")
  (← entriesOf source).foldlM (inspect host root) { inv with selected := inv.selected ++ [source] }

def inventory (root : Path) (paths : List Bytes) : Script δ (Inventory δ) :=
  paths.foldlM (select host root) ⟨[], [], []⟩

def archiveFile (root destination : Path) (e : Entry δ) : Script δ Unit := do
  let target := destination ++ e.path
  mkdirParents true target.dropLast.reverse
  copyfile (root ++ e.path) target
  orRaise (← call (.chmod target))
  orRaise (← call (.fsync target))

def sameNames (a b : List (Entry δ)) : Bool :=
  (a.all fun e => b.any (·.path = e.path)) && b.all fun e => a.any (·.path = e.path)

def verifyFile (destination : Path) (current : List (Entry δ)) (e : Entry δ) :
    Script δ Unit := do
  failIf ((current.find? (·.path = e.path)).any (·.sha256 ≠ e.sha256))
    (.valueError "evidence checksum differs; originals preserved")
  failIf ((← hashFile host (destination ++ e.path)) ≠ e.sha256)
    (.valueError "evidence checksum differs; originals preserved")

def removeFile (root : Path) (m : Manifest δ) (e : Entry δ) : Script δ (Manifest δ) := do
  failIf ((← hashFile host (root ++ e.path)) ≠ e.sha256)
    (.valueError "source changed before removal; verified archive retained")
  orRaise (← call (.unlink (root ++ e.path)))
  return { m with removed := m.removed ++ [e.path] }

def removeDirectory (directory : Path) : Script δ Unit := do
  orRaise (← call (.rmdir directory))

def manifestOf (root : Path) (paths : List Bytes) (files : List (Entry δ)) : Manifest δ where
  schema := 1
  checkoutRoot := root
  sourceSha := host.revision root
  paths := paths
  files := files.map fun e =>
    ⟨e, (host.tracked root).contains (text e.path),
      "retired or superseded evidence; preserve exact bytes before removal"⟩
  verified := false
  removed := []

/-- The part of the script that only runs with `apply`. -/
def applyArchive (root destination : Path) (paths : List Bytes) (found : Inventory δ) :
    Script δ (Manifest δ) := do
  refuseArchiveSymlinks destination
  mkdirParents false destination.reverse
  each found.files (archiveFile root destination)
  refuseArchiveSymlinks destination
  let current ← inventory host root paths
  failIf (!sameNames current.files found.files)
    (.valueError "source inventory changed while archiving")
  each found.files (verifyFile host destination current.files)
  refuseArchiveSymlinks destination
  let record := destination ++ [manifestName]
  let m := { manifestOf host root paths found.files with verified := true }
  save record m
  let m ← found.files.foldlM (removeFile host root) m
  each (found.directories.insertionSort fun a b => b.length ≤ a.length) removeDirectory
  save record m
  return m

def archivePaths (repo destination : Path) (paths : List Bytes) (apply : Bool) :
    Script δ (Manifest δ) := do
  failIf (← call (.isSymlink repo)) (.valueError "checkout root must be a real directory")
  failIf (!(← call (.isDir repo))) (.valueError "checkout root must be a real directory")
  let root ← orRaise (← call (.resolve repo))
  refuseArchiveSymlinks destination
  let resolved ← orRaise (← call (.resolve destination))
  failIf (root.isPrefixOf resolved) (.valueError "archive must be outside the checkout")
  failIf (← call (.pathExists destination)) (.fileExistsError destination)
  failIf (← call (.isSymlink destination)) (.fileExistsError destination)
  let found ← inventory host root paths
  if apply then applyArchive host root destination paths found
  else return manifestOf host root paths found.files

end Script

end IngestKit.Archive
