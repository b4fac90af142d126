import IngestKit.Durable.Directory
import IngestKit.Event.Types
import IngestKit.Files.Local
import IngestKit.Json.Parse

/-! `WriteCompressed`, `WriteJSONArtifact` and `atomicJSON` as sequences of file system calls, and
any number of them at work in the same directories. -/
namespace IngestKit.Artifacts
open Event Durable

def maxRawArtifact : ℕ := 128 * 2 ^ 20

def maxCompressedArtifact : ℕ := 64 * 2 ^ 20

/-- What the libraries compute: gzip, with a fixed header, and SHA-256. A reader of compressed data
gives so many bytes, and then either ends or fails. -/
structure Platform where
  compress : Bytes → Bytes
  decompress : Bytes → Option (Bytes × Bool)
  sha256 : Bytes → Bytes
  decompress_compress : ∀ raw, decompress (compress raw) = some (raw, true)
  length_sha256 : ∀ data, (sha256 data).length = 32

inductive Codec
  | unset | gzip | json | other
  deriving DecidableEq

structure ArtifactRef where
  codec : Codec
  path : Bytes
  sha256 : Bytes
  size : ℤ
  rawBytes : ℤ
  deriving DecidableEq

inductive Writer
  | writeCompressed | writeJSONArtifact | atomicJSON
  deriving DecidableEq

/-- A call with the text that its value is marshalled to. -/
structure Call where
  writer : Writer
  dir : Bytes
  base : Bytes
  text : Json.Doc
  named : Files.isName base = true
  shallow : text.value.depth ≤ Json.maxNestingDepth

/-- `os.CreateTemp` never gives a name twice, and no target has such a name. -/
inductive Name
  | temp (writer : Writer) (dir : Bytes) (number : ℕ)
  | target (dir base : Bytes)
  deriving DecidableEq

def Name.dir : Name → Bytes
  | .temp _ dir _ => dir
  | .target dir _ => dir

inductive Failure
  | tooLarge (text : String)
  | system
  deriving DecidableEq

/-- The reference of an artifact; `atomicJSON` returns none. -/
abbrev Result := Except Failure (Option ArtifactRef)

namespace Call

def raw (c : Call) : Bytes :=
  match c.writer with
  | .writeCompressed => c.text.print
  | .writeJSONArtifact | .atomicJSON => c.text.print ++ [0x0a]

/-- What the temporary file is to hold. -/
def content (Z : Platform) (c : Call) : Bytes :=
  match c.writer with
  | .writeCompressed => Z.compress c.raw
  | .writeJSONArtifact | .atomicJSON => c.raw

/-- The bound on the text, checked before a file is created. -/
def refusal (c : Call) : Option Failure :=
  match c.writer with
  | .writeCompressed =>
    if maxRawArtifact < c.raw.length then some (.tooLarge "raw artifact exceeds128MiB bound")
    else none
  | .writeJSONArtifact =>
    if maxCompressedArtifact < c.raw.length then some (.tooLarge "JSON artifact exceeds size bound")
    else none
  | .atomicJSON => none

def temp (c : Call) (i : ℕ) : Name := .temp c.writer c.dir i

def target (c : Call) : Name := .target c.dir c.base

def reference (Z : Platform) (c : Call) (data : Bytes) : Option ArtifactRef :=
  match c.writer with
  | .writeCompressed =>
    some ⟨.gzip, c.base, UUID.hex (Z.sha256 data), data.length, c.raw.length⟩
  | .writeJSONArtifact =>
    some ⟨.json, c.base, UUID.hex (Z.sha256 data), data.length, data.length⟩
  | .atomicJSON => none

end Call

/-- Where a call stands once its temporary file is open. The flag is the error so far: the file is
synced and closed all the same. From `removing` on only the deferred `os.Remove` is left. -/
inductive Phase
  | writing (rest : Bytes)
  | syncing (failed : Bool)
  | closing (failed : Bool)
  | reading
  | publishing (data : Bytes)
  | flushing
  | removing (result : Result)
  deriving DecidableEq

inductive Answer
  | wrote (n : ℕ)
  | done
  | failed
  deriving DecidableEq

namespace Call

/-- The file is complete; `WriteCompressed` reads it back. -/
def closed (c : Call) : Phase :=
  match c.writer with
  | .writeCompressed => .reading
  | .writeJSONArtifact | .atomicJSON => .publishing c.raw

def readBack : Option Bytes → Phase
  | none => .removing (.error .system)
  | some data =>
    if maxCompressedArtifact < data.length then
      .removing (.error (.tooLarge "compressed artifact exceeds64MiB bound"))
    else .publishing data

/-- One call to the file system, other than a publication that succeeds. -/
def advance (c : Call) (i : ℕ) (d : Disk Name UInt8) :
    Phase → Answer → Option (Disk Name UInt8 × Phase)
  | .writing rest, .wrote n => some (d.append i (rest.take n), .writing (rest.drop n))
  | .writing [], .done => some (d, .syncing false)
  | .writing _, .failed => some (d, .syncing true)
  | .syncing failed, .done => some (d.sync i, .closing failed)
  | .syncing _, .failed => some (d, .closing true)
  | .closing false, .done => some (d, c.closed)
  | .closing true, .done => some (d, .removing (.error .system))
  | .closing _, .failed => some (d, .removing (.error .system))
  | .reading, .done => some (d, readBack (d.read (c.temp i)))
  | .reading, .failed => some (d, .removing (.error .system))
  | .publishing _, .failed => some (d, .removing (.error .system))
  | .flushing, .done => some (d.syncDirectory fun n => n.dir = c.dir, .removing (.ok none))
  | .flushing, .failed => some (d, .removing (.error .system))
  | _, _ => none

/-- `os.Link` for an artifact, `os.Rename` for a journal. -/
def publish (c : Call) (i : ℕ) (d : Disk Name UInt8) : Option (Disk Name UInt8) :=
  match c.writer with
  | .writeCompressed | .writeJSONArtifact => d.link (c.temp i) c.target
  | .atomicJSON => d.rename (c.temp i) c.target

def published (Z : Platform) (c : Call) (data : Bytes) : Phase :=
  match c.writer with
  | .writeCompressed | .writeJSONArtifact => .removing (.ok (c.reference Z data))
  | .atomicJSON => .flushing

end Call

/-- A call before its directory is made, before its file is created, and with its file. -/
inductive Progress
  | begin
  | made
  | opened (i : ℕ) (phase : Phase)
  deriving DecidableEq

structure Live where
  call : Call
  progress : Progress

structure Returned where
  call : Call
  file : Option ℕ
  result : Result

/-- `files` has the call that each file was created for, `published` the files in the order in
which they got the name of their target, and `returned` the results. -/
structure World where
  disk : Disk Name UInt8 := .empty
  dirs : Bytes → Presence := fun _ => .missing
  live : ℕ → Option Live := fun _ => none
  files : List Call := []
  published : List ℕ := []
  returned : List Returned := []

namespace World

def setLive (w : World) (k : ℕ) (l : Option Live) : World :=
  { w with live := Function.update w.live k l }

def finish (w : World) (k : ℕ) (r : Returned) : World :=
  { w with live := Function.update w.live k none, returned := w.returned ++ [r] }

/-- `os.MkdirAll` leaves the directory there. It may have made others, on the way to it. -/
def Makes (w : World) (dir : Bytes) (dirs : Bytes → Presence) : Prop :=
  dirs dir ≠ .missing ∧ ∀ other, dirs other = w.dirs other ∨ dirs other = (w.dirs other).made

/-- Calls of any number of processes, and the crash of a process in the middle of a call. At any
time the entries on the path of a directory may reach the disk. -/
inductive Step (Z : Platform) : World → World → Prop
  | start {w : World} (k : ℕ) (c : Call) : w.live k = none →
      Step Z w (w.setLive k (some ⟨c, .begin⟩))
  | reject {w : World} {k : ℕ} {c : Call} (e : Failure) : w.live k = some ⟨c, .begin⟩ →
      e = .system ∨ c.refusal = some e → Step Z w (w.finish k ⟨c, none, .error e⟩)
  | makeDirectory {w : World} {k : ℕ} {c : Call} (dirs : Bytes → Presence) :
      w.live k = some ⟨c, .begin⟩ → c.refusal = none → w.Makes c.dir dirs →
      Step Z w { w.setLive k (some ⟨c, .made⟩) with dirs := dirs }
  | abandon {w : World} {k : ℕ} {c : Call} : w.live k = some ⟨c, .made⟩ →
      Step Z w (w.finish k ⟨c, none, .error .system⟩)
  | create {w : World} {k : ℕ} {c : Call} : w.live k = some ⟨c, .made⟩ → c.refusal = none →
      Step Z w { w.setLive k (some ⟨c, .opened w.files.length (.writing (c.content Z))⟩) with
        disk := w.disk.create (c.temp w.files.length) w.files.length
        files := w.files ++ [c] }
  | advance {w : World} {k : ℕ} {c : Call} {i : ℕ} {p p' : Phase} {d : Disk Name UInt8}
      (a : Answer) : w.live k = some ⟨c, .opened i p⟩ → c.advance i w.disk p a = some (d, p') →
      Step Z w { w.setLive k (some ⟨c, .opened i p'⟩) with disk := d }
  | publish {w : World} {k : ℕ} {c : Call} {i : ℕ} {data : Bytes} {d : Disk Name UInt8} :
      w.live k = some ⟨c, .opened i (.publishing data)⟩ → c.publish i w.disk = some d →
      Step Z w { w.setLive k (some ⟨c, .opened i (c.published Z data)⟩) with
        disk := d
        published := w.published ++ [i] }
  | remove {w : World} {k : ℕ} {c : Call} {i : ℕ} {r : Result} (removed : Bool) :
      w.live k = some ⟨c, .opened i (.removing r)⟩ →
      Step Z w { w.finish k ⟨c, some i, r⟩ with
        disk := if removed then w.disk.unlink (c.temp i) else w.disk }
  | crash {w : World} (k : ℕ) : Step Z w (w.setLive k none)
  | settle {w : World} (dir : Bytes) : w.dirs dir ≠ .missing →
      Step Z w { w with dirs := Function.update w.dirs dir .durable }

/-- A power failure ends every process, and may take away a fresh directory with all that is in
it. -/
def PowerFailure (w w' : World) : Prop :=
  ∃ d dirs, (∀ dir, (w.dirs dir).Survives (dirs dir)) ∧
    Disk.PowerFailure (fun n => dirs n.dir = .missing) w.disk d ∧
    w' = { w with disk := d, dirs := dirs, live := fun _ => none }

/-- A step, or a power failure. -/
def Next (Z : Platform) (w w' : World) : Prop := Step Z w w' ∨ w.PowerFailure w'

end World
end IngestKit.Artifacts
