import Sumi.Form.Stream
import Sumi.Session.Evaluate

namespace Sumi.Session

open Project

variable {σ : Type}

abbrev Commands := List (Name × Handler)

def defaultCommands : Commands :=
  [(.plain "in-ns", .enterNamespace), (.plain "load-file", .loadFile),
   (.qualified Namespace.core "load-file", .loadFile),
   (.plain "load-namespace", .loadNamespace)]

/-- The commands of every session, with others that replace or join them. -/
def commands (others : Commands) : Commands := Table.putAll defaultCommands others

def command? (cs : Commands) : Form → Option (Handler × List Form)
  | .list (.symbol head :: args) _ => (Table.get? head cs).map (fun h => (h, args))
  | _ => none

def evaluateStream (h : Host σ) (filename : String) (stream : Form.Stream) : Action σ Unit :=
  match _hn : stream.next? with
  | none => return
  | some (.error e, _) => throw (.read e)
  | some (.ok form, rest) => do
      modify fun s => (evaluate h filename form form s).2
      evaluateStream h filename rest
termination_by (stream.weight, stream.pending.length)
decreasing_by exact (Form.Stream.next?_shorter _hn).lex

/-- Evaluates a file in the namespace of a fresh session, and comes back to the present one. -/
def loadFile (h : Host σ) (name : String) : Action σ Unit := do
  let path ← Action.work (resource (← get).layout name)
  let saved := (← get).ns
  modify fun s => { s with ns := Namespace.user }
  let load : Action σ Unit := do
    let text ← Action.work (Work.ofFiles path Files.readText)
    evaluateStream h name (.ofText text)
  let (result, s) := load.run (← get)
  set { s with ns := saved }
  match result with
  | .ok () => return
  | .error f => throw f

def enterNamespace (form : Form) : Action σ Unit := do
  match form.unquote with
  | .symbol n =>
      modify fun s => { s with
        ns := n.text
        workspace := { s.workspace with analyzer := s.workspace.analyzer.enter n.text } }
  | _ => throw (.command (.noSymbol form))

def perform (act : Form → Action σ Unit) (args : List Form) (s : Session σ) :
    Ending × Session σ :=
  match args with
  | [form] =>
      match (act form).run s with
      | (.ok (), s) => (.done, s)
      | (.error f, s) => (.failed f, s)
  | _ => (.failed (.command .argumentCount), s)

def run (h : Host σ) (handler : Handler) (args : List Form) (s : Session σ) :
    Ending × Session σ :=
  match handler with
  | .enterNamespace => perform enterNamespace args s
  | .loadFile =>
      perform (fun
        | .str name => loadFile h name
        | form => throw (.command (.noPath form))) args s
  | .loadNamespace =>
      perform (fun form => do loadNamespace h (← namespaceName form)) args s
  | .custom act =>
      let (ending, left) := act args (s.on ())
      (ending, left.on s.host)

end Sumi.Session
