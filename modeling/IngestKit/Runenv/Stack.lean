import IngestKit.Runenv.Docker

/-! The operations of an owned Compose stack. -/
namespace IngestKit.Runenv
open Interference

/-- A Go function that makes calls and returns a value or an error; a process may be killed. -/
abbrev Go (α : Type) := Program Command Answer Unit (Except Failure α)

namespace Go
variable {α β : Type}

def ok (a : α) : Go α := .pure (.ok a)

def fail (e : Failure) : Go α := .pure (.error e)

/-- Return the error, or go on with the value. -/
def andThen (p : Go α) (f : α → Go β) : Go β :=
  Program.bind p fun
    | .ok a => f a
    | .error e => fail e

/-- The loop that returns the first error. -/
def all (f : α → Go Unit) : List α → Go Unit
  | [] => ok ()
  | x :: xs => (f x).andThen fun _ => all f xs

def up (project token : Bytes) : Go Unit := Program.perform (Command.up project token)

def ps (project : Bytes) : Go (List Bytes) := Program.perform (Command.ps project)

def inspect (id : Bytes) : Go Bytes := Program.perform (Command.inspect id)

def volumeLs (project : Bytes) : Go (List Bytes) := Program.perform (Command.volumeLs project)

def volumeInspect (name : Bytes) : Go Bytes := Program.perform (Command.volumeInspect name)

def stop (project : Bytes) : Go Unit := Program.perform (Command.stop project)

def down (project : Bytes) : Go Unit := Program.perform (Command.down project)

def setService (service : Service) (running : Bool) (project : Bytes) : Go Unit :=
  Program.perform (Command.setService project service running)

def killConsumer (project : Bytes) : Go Unit := Program.perform (Command.killConsumer project)

def look (project : Bytes) : Go Unit := Program.perform (Command.look project)

def host : Go Unit := Program.perform Command.host

end Go

/-- `identity` is the project of the stack when it was started. -/
structure Stack where
  project : Bytes
  identity : Bytes
  token : Bytes
  owned : Bool
  deriving DecidableEq

def projectPrefix : Bytes := ascii ['i', 'n', 'g', 'e', 's', 't', 'k', 'i', 't', '-']

namespace Stack

/-- A command to the stack's own project. -/
def compose {α : Type} (s : Stack) (c : Bytes → Go α) : Go α :=
  if s.owned = false ∨ s.project ≠ s.identity then
    Go.fail { texts := ["stack ownership identity mismatch"] }
  else c s.project

/-- Each label must be the token of this stack. -/
def inspectAll (s : Stack) (inspect : Bytes → Go Bytes) (mismatch : String) :
    List Bytes → Go Unit :=
  Go.all fun id => (inspect id).andThen fun label =>
    if label ≠ s.token then Go.fail { texts := [mismatch] } else Go.ok ()

def verifyOwner (s : Stack) : Go Unit :=
  if s.owned = false ∨ s.token = [] ∨ projectPrefix.isPrefixOf s.project = false then
    Go.fail { texts := ["refusing unowned resource operation"] }
  else
    (s.compose Go.ps).andThen fun ids =>
    (s.inspectAll Go.inspect "container ownership label mismatch" ids).andThen fun _ =>
    (Go.volumeLs s.project).andThen fun names =>
    s.inspectAll Go.volumeInspect "volume ownership label mismatch" names

def stop (s : Stack) : Go Unit := s.verifyOwner.andThen fun _ => s.compose Go.stop

def destroy (s : Stack) : Go Unit := s.verifyOwner.andThen fun _ => s.compose Go.down

/-- No other service can be named. -/
def setServiceRunning (s : Stack) (service : Option Service) (running : Bool) : Go Unit :=
  match service with
  | none => Go.fail { texts := ["unsupported service control"] }
  | some name => s.verifyOwner.andThen fun _ => s.compose (Go.setService name running)

def killConsumer (s : Stack) : Go Unit :=
  s.verifyOwner.andThen fun _ => s.compose Go.killConsumer

/-- Output of `ps`, `logs` and `images`, each written to a file. -/
def collectEvidence (s : Stack) : Go Unit :=
  if s.owned = false then Go.fail { texts := ["unowned stack"] }
  else Go.host.andThen fun _ =>
    Go.all (fun _ => (s.compose Go.look).andThen fun _ => Go.host) (List.range 3)

end Stack

inductive Profile
  | unset | development | selfhost | other
  deriving DecidableEq

structure Options where
  profile : Profile
  exposeDependencies : Bool
  deriving DecidableEq

namespace Stack

/-- The directory, the reserved ports and the files that `up` reads. -/
def prepare (o : Options) : Go Unit :=
  Go.all (fun _ => Go.host) (List.range
    (if o.profile = .selfhost then if o.exposeDependencies then 12 else 11 else 7))

/-- Copy the certificate and ask the gateway. A client that cannot be built is an error; otherwise
what does not answer is asked again. -/
def probe (s : Stack) (again : Go Unit) : Go Unit :=
  Program.bind (s.compose Go.look) fun
    | .error _ => again
    | .ok () => Go.host.andThen fun _ =>
      Program.bind Go.host fun
        | .ok () => Go.ok ()
        | .error _ => again

/-- The deadline passes after so many waits; a cancelled wait ends the loop. -/
def awaitHealthy (s : Stack) : ℕ → Go Unit
  | 0 => s.probe (Go.fail { texts := ["local TLS deployment did not become healthy"] })
  | polls + 1 => s.probe (Go.host.andThen fun _ => s.awaitHealthy polls)

def launch (s : Stack) (o : Options) (polls : ℕ) : Go Unit :=
  (s.compose fun project => Go.up project s.token).andThen fun _ =>
    if o.profile = .selfhost then s.awaitHealthy polls
    else (Go.all (fun _ => s.compose Go.look) (List.range 3)).andThen fun _ =>
      Go.all (fun _ => Go.host) (List.range 2)

def error? : Except Failure Unit → Failure
  | .ok () => {}
  | .error e => e

/-- The deferred function of an attempt that failed once resources may exist. -/
def abandon (s : Stack) (e : Failure) : Go Stack :=
  Program.bind s.collectEvidence fun evidence =>
  Program.bind s.destroy fun
    | .ok () => Go.fail (e.join (error? evidence))
    | .error destroyed => Go.fail ((e.join (error? evidence)).join
        ({ texts := ["startup cleanup failed"], cleanup := true : Failure }.join destroyed))

def startAttempt (o : Options) (polls : ℕ) (project token : Bytes) : Go Stack :=
  (prepare o).andThen fun _ =>
  Program.bind (launch ⟨project, project, token, true⟩ o polls) fun
    | .ok () => Go.ok ⟨project, project, token, true⟩
    | .error e => abandon ⟨project, project, token, true⟩ e

/-- Each attempt has a project and a token of its own. -/
def attempts (o : Options) (polls : ℕ) (last : Failure) : List (Bytes × Bytes) → Go Stack
  | [] => Go.fail last
  | (project, token) :: rest =>
    Program.bind (startAttempt o polls project token) fun
      | .ok s => Go.ok s
      | .error e => if e.inUse = false ∨ e.cleanup = true then Go.fail e
          else attempts o polls e rest

def start (o : Options) (polls : ℕ) (draws : Fin 3 → Bytes × Bytes) : Go Stack :=
  if o.profile = .other then Go.fail { texts := ["unsupported deployment profile"] }
  else if o.exposeDependencies = true ∧ o.profile ≠ .selfhost then
    Go.fail { texts := ["dependency probes require selfhost profile"] }
  else Go.host.andThen fun _ => attempts o polls {} (List.ofFn draws)

end Stack
end IngestKit.Runenv
