import IngestKit.Interference.Program
import IngestKit.Text.Utf8

/-! The commands that a stack sends to a Docker daemon, and what is assumed of Docker and Compose,
which are not part of the repository. -/
namespace IngestKit.Runenv
open Interference

inductive Service
  | api | consumer | postgres | redpanda
  deriving DecidableEq

inductive Key
  | container (id : Bytes)
  | volume (name : Bytes)
  deriving DecidableEq

/-- An error of the package: its fixed texts, whether it has the output of a command with
`address already in use`, and whether it is a failed cleanup. -/
structure Failure where
  texts : List String := []
  inUse : Bool := false
  cleanup : Bool := false
  deriving DecidableEq

def Failure.join (a b : Failure) : Failure :=
  ⟨a.texts ++ b.texts, a.inUse || b.inUse, a.cleanup || b.cleanup⟩

/-- What a stack does outside: commands to the daemon, and steps on its own host that leave the
daemon alone. -/
inductive Command
  | up (project token : Bytes)
  | ps (project : Bytes)
  | inspect (id : Bytes)
  | volumeLs (project : Bytes)
  | volumeInspect (name : Bytes)
  | stop (project : Bytes)
  | down (project : Bytes)
  | setService (project : Bytes) (service : Service) (running : Bool)
  | killConsumer (project : Bytes)
  | look (project : Bytes)
  | host
  deriving DecidableEq

/-- The printed names are split at white space, a printed label is trimmed. -/
def Answer : Command → Type
  | .ps _ | .volumeLs _ => Except Failure (List Bytes)
  | .inspect _ | .volumeInspect _ => Except Failure Bytes
  | _ => Except Failure Unit

/-- The project whose containers and volumes a command stops, starts or removes. -/
def Command.controls? : Command → Option Bytes
  | .stop project | .down project | .setService project _ _ | .killConsumer project => some project
  | _ => none

def Command.isUp : Command → Bool
  | .up _ _ => true
  | _ => false

/-- What a daemon shows of its containers and volumes. `project` is the one of the label
`com.docker.compose.project`, or for an anonymous volume the one of the container it was made for;
`label` is the trimmed value of `io.ingestkit.run`; and `holder` is the container of an anonymous
volume. The Compose files declare names of volumes for a project. -/
structure Inventory (σ ρ : Type) where
  holds : σ → Key → Option ρ
  project : ρ → Bytes
  label : ρ → Bytes
  holder : ρ → Option Bytes
  declares : Bytes → Bytes → Prop

namespace Inventory
variable {σ ρ : Type} (V : Inventory σ ρ)

def Declared (project : Bytes) : Key → Prop
  | .container _ => False
  | .volume name => V.declares project name

def Within (project : Bytes) (k : Key) (r : ρ) : Prop :=
  V.project r = project ∨ V.Declared project k

/-- An anonymous volume without its container. -/
def Stray (d : σ) (r : ρ) : Prop := ∃ id, V.holder r = some id ∧ V.holds d (.container id) = none

def NoStray (project : Bytes) (d : σ) : Prop :=
  ∀ k r, V.holds d k = some r → V.project r = project → ¬V.Stray d r

def Same (r r' : ρ) : Prop :=
  V.project r' = V.project r ∧ V.label r' = V.label r ∧ V.holder r' = V.holder r

/-- Containers and volumes of the project may be changed or removed, and nothing is added. -/
def Controlled (project : Bytes) (d d' : σ) : Prop :=
  ∀ k, V.holds d' k = V.holds d k ∨ ∃ r, V.holds d k = some r ∧
    (V.project r = project ∧ ¬V.Stray d r ∨ V.Declared project k) ∧
    ∀ r', V.holds d' k = some r' → V.Same r r'

/-- What is new or changed was not there or was of the project, and it is of the project now: a
container or a declared volume with the token, or an anonymous volume. -/
def Raised (project token : Bytes) (d d' : σ) : Prop :=
  ∀ k, V.holds d' k = V.holds d k ∨ (∀ r, V.holds d k = some r → V.Within project k r) ∧
    ∀ r', V.holds d' k = some r' → V.project r' = project ∧ (V.holder r' = none →
      V.label r' = token ∧ ∀ name, k = .volume name → V.declares project name)

/-- The containers with their anonymous volumes and the declared volumes are gone. -/
def Cleared (project : Bytes) (d d' : σ) : Prop :=
  ∀ k r, V.holds d k = some r → V.Declared project k ∨ V.project r = project ∧
    ((∃ id, k = .container id) ∨ V.holder r ≠ none ∧ ¬V.Stray d r) → V.holds d' k = none

/-- Nothing comes to the project, and no container leaves it without its anonymous volumes. -/
def Undisturbed (project : Bytes) (d d' : σ) : Prop :=
  (∀ k r', V.holds d' k = some r' → V.Within project k r' →
    ∃ r, V.holds d k = some r ∧ V.Same r r') ∧
  (V.NoStray project d → V.NoStray project d')

end Inventory

/-- What is assumed of Docker, of Compose, and of others who use the daemon while stacks with these
projects are at work. A command that fails or is killed has done a part of its work. -/
structure Conforms {σ ρ κ : Type} (V : Inventory σ ρ) (S : System Command Answer σ κ)
    (mine : Bytes → Prop) : Prop where
  apart : ∀ p p' name, mine p → mine p' → V.declares p name → V.declares p' name → p = p'
  container : ∀ d id r, V.holds d (.container id) = some r → V.holder r = none
  anonymous : ∀ d name r p, V.holds d (.volume name) = some r → mine p → V.declares p name →
    V.holder r = none
  held : ∀ d k r id c, V.holds d k = some r → V.holder r = some id →
    V.holds d (.container id) = some c → V.project c = V.project r
  reads : ∀ c d d', c.controls? = none → c.isUp = false → S.Leads c d d' → V.holds d' = V.holds d
  ps : ∀ p d ids, (S.respond (.ps p) d).1 = .ok ids →
    ∀ id r, V.holds d (.container id) = some r → V.project r = p → id ∈ ids
  volumeLs : ∀ p d names, (S.respond (.volumeLs p) d).1 = .ok names →
    ∀ name r, V.holds d (.volume name) = some r → V.project r = p → V.holder r = none →
      name ∈ names
  inspect : ∀ id d label, (S.respond (.inspect id) d).1 = .ok label →
    ∀ r, V.holds d (.container id) = some r → V.label r = label
  volumeInspect : ∀ name d label, (S.respond (.volumeInspect name) d).1 = .ok label →
    ∀ r, V.holds d (.volume name) = some r → V.label r = label
  control : ∀ c p d d', c.controls? = some p → S.Leads c d d' → V.Controlled p d d'
  up : ∀ p token d d', S.Leads (.up p token) d d' → V.Raised p token d d'
  upHeld : ∀ p token d d', S.Leads (.up p token) d d' → V.NoStray p d → V.NoStray p d'
  down : ∀ p d, (S.respond (.down p) d).1 = .ok () → V.Cleared p d (S.respond (.down p) d).2
  others : ∀ c change d d', S.disturb c change d = some d' → ∀ p, mine p → V.Undisturbed p d d'

end IngestKit.Runenv
