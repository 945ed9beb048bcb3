import Sumi.Config
import Sumi.Host.Basic
import Sumi.Project.Script

namespace Sumi

structure Session (σ : Type) where
  workspace : Project.Workspace
  host : σ
  layout : Project.Layout
  verbose : Bool := false
  ns : String := Namespace.user
  /-- The texts of the last three results, latest first. -/
  history : List String := []

namespace Session

variable {σ τ : Type}

def on (s : Session σ) (y : τ) : Session τ where
  workspace := s.workspace
  host := y
  layout := s.layout
  verbose := s.verbose
  ns := s.ns
  history := s.history

abbrev Action (σ : Type) := ExceptT Fault (StateM (Session σ))

def memory : Nat := 3

def remember (s : Session σ) (text : String) : Session σ :=
  { s with history := (text :: s.history).take memory }

def prompt (s : Session σ) : String := "Sumi:" ++ s.ns ++ "> "

def tell (s : Session σ) (f : Console → Console) : Session σ :=
  { s with workspace := { s.workspace with console := f s.workspace.console } }

/-- Puts a text on the console. Where it cannot be written out nothing is shown of it. -/
def output (put : Console → String → Console) (text : String) (s : Session σ) :
    Except Fault Unit × Session σ :=
  if Text.CodePoint.isEncodable text then (.ok (), s.tell (put · text))
  else (.error (.failure (.fault .notEncodable)), s)

namespace Action

def work {α : Type} (m : Project.Work α) : Action σ α := do
  let s ← get
  let (result, workspace) := m.run s.workspace
  set { s with workspace := workspace }
  match result with
  | .ok a => return a
  | .error f => throw f

def tell (f : Console → Console) : Action σ Unit := modify (·.tell f)

def ask {α : Type} (act : σ → Reply σ α) : Action σ α := do
  let s ← get
  let reply := act s.host
  set ({ s with host := reply.state }.tell (·.print reply.printed))
  match reply.result with
  | .ok a => return a
  | .error f => throw f

end Action

inductive Ending
  | done
  | failed (f : Fault)
  | interrupted

end Session

/-- What a list with a certain head does instead of being evaluated. A command from outside may
change all of a session but its host. -/
inductive Handler
  | enterNamespace
  | loadFile
  | loadNamespace
  | custom (act : (args : List Form) → Session Unit → Session.Ending × Session Unit)

end Sumi
