import Sumi.Session.Basic
import Sumi.Session.Wrap

namespace Sumi.Session

open Project

variable {σ : Type}

def namespaceName (form : Form) : Action σ String :=
  match form.unquote with
  | .symbol n => return n.text
  | .str s => return s
  | form => throw (.command (.noNamespace form))

def loadNamespace (h : Host σ) (ns : String) : Action σ Unit := do
  let components ← Action.work (closure (← get).layout [.seed [ns]])
  components.forM fun c => do
    if c.kind = .source && c.provides != [Namespace.core] then
      let files := (← get).workspace.files
      Action.ask (h.load files c.provides (c.url.getD ""))

def follow (h : Host σ) : Node → Action σ Unit
  | .ns _ name requires uses => do
      modify fun s => { s with ns := name }
      (Node.demands requires uses).forM (loadNamespace h)
  | _ => return

/-- Shows a failure of the program. That a declaration was refused is not shown. -/
def showFailure (form : Form) (code : Code) (outcome : Outcome) (c : Console) : Console :=
  let show? (c : Console) : Console :=
    outcome.stacktrace.elim (c.complain outcome.value) fun trace =>
      if trace.isEmpty then c.complain outcome.value
      else (c.complain outcome.value).complain trace
  match outcome.status with
  | .success => c
  | .error => if form.isNs then c else show? c
  | .exception =>
      show? (c.complain ("Error evaluating: " ++ form.print ++ " :as " ++ code.render))

/-- The text of the value of a form, if evaluation succeeds: `code` is the code of the form itself,
`outer` that of the form inside what surrounds it. -/
def deliver (h : Host σ) (filename : String) (form : Form) (code outer : Code) :
    Action σ (Option String) := do
  if (← get).verbose then Action.tell (·.say code.render)
  let outcome ← Action.ask (h.evaluate filename (form.line?.getD 1) outer)
  if outcome.status = .success then return some outcome.value
  else
    Action.tell (showFailure form code outcome)
    return none

def conclude (h : Host σ) (filename : String) (form : Form) (node outer : Node) :
    Action σ (Option String) := do
  follow h node
  deliver h filename form (Code.ofNode node) (Code.ofNode outer)

def attempt (h : Host σ) (filename : String) (form wrapped : Form) :
    Action σ (Option String) := do
  let ns := (← get).ns
  let node ← Action.work (Work.analyze (Analysis.topLevel ns form))
  let outer ← Action.work (Work.analyzeSilently (Analysis.topLevel ns wrapped))
  conclude h filename form node outer

/-- Evaluates a form. A failure of anything but the program is shown on one line. -/
def evaluate (h : Host σ) (filename : String) (form wrapped : Form) (s : Session σ) :
    Option String × Session σ :=
  match (attempt h filename form wrapped).run s with
  | (.ok value, s) => (value, s)
  | (.error f, s) => (none, s.tell (·.complain ("Fault: " ++ f.summary)))

def promptName : String := "<sumi repl>"

/-- What is shown for a result: the form that it reads as, or the result itself if it does not read
as any. -/
def display (result : String) : String :=
  match Form.readFirst result with
  | .ok form => form.print
  | .error _ => result

def evaluateAndKeep (h : Host σ) (form : Form) (s : Session σ) : String × Session σ :=
  let (result, s) := evaluate h promptName form form.wrap s
  match result with
  | none => ("nil", s)
  | some text => (display text, if form.isExempt then s else s.remember text)

def evaluateAndPrint (h : Host σ) (form : Form) (s : Session σ) : Session σ :=
  let (text, s) := evaluateAndKeep h form s
  (s.output Console.say text).2

end Sumi.Session
