import Sumi.Code.Module
import Sumi.Host.Basic
import Sumi.Machine.Primitive
import Sumi.Project.Content

namespace Sumi

structure Site where
  filename : String
  line : Int := 1

def Site.isNamed (s : Site) : Bool := !s.filename.toList.contains '\x00'

/-- Why no source can stand there: a text has only so many lines, and a name no zero character. -/
def Site.fault? (s : Site) : Option Machine.Fault :=
  if (Nat.pow 2 63 : Int) < s.line then some .overflow
  else if (Machine.sizeLimit : Int) < s.line then some .tooLarge
  else if s.isNamed then none
  else some .wrongValue

structure Engine where
  machine : Machine
  loaded : List String

namespace Engine

def fresh : Engine := ⟨Machine.initial, [Namespace.core]⟩

def classify (f : Machine.Failure) : Outcome :=
  match f.text? with
  | some text => ⟨.error, "Error: " ++ text, none⟩
  | none => ⟨.exception, f.kind, none⟩

def drain (m : Machine) : Machine × String := ({ m with printed := "" }, m.printed)

def display : Machine.Value → Machine.Run String
  | .str s => return s
  | v => Machine.Run.print v true

def refuse (text : String) : Outcome :=
  ⟨.error, "Error: generated code does not compile", some text⟩

def sourceOf (cs : List Code) : String := "\n".intercalate (cs.map Code.render)

/-- The answer to an evaluation. That a value has no text is no failure of the program. -/
def report (e : Engine) : Except Machine.Failure Machine.Value × Machine → Reply Engine Outcome
  | (.error f, m) =>
      let (m, printed) := drain m
      ⟨.ok (classify f), { e with machine := m }, printed⟩
  | (.ok v, m) =>
      let (text, m) := (display v).run m
      let (m, printed) := drain m
      match text with
      | .ok s => ⟨.ok ⟨.success, s, none⟩, { e with machine := m }, printed⟩
      | .error f => ⟨.error (.failure f), { e with machine := m }, printed⟩

def evaluateCode (e : Engine) (c : Code) : Reply Engine Outcome :=
  e.report ((Machine.evaluate c).run e.machine)

/-- Evaluates code, which has to be one expression. That it cannot stand where it is said to is no
failure of the program. -/
def evaluate (e : Engine) (site : Site) (cs : List Code) : Reply Engine Outcome :=
  match site.fault?, cs with
  | some f, _ => ⟨.error (.failure (.fault f)), e, ""⟩
  | none, [c] => if c.compiles then e.evaluateCode c else ⟨.ok (refuse (sourceOf [c])), e, ""⟩
  | none, cs => ⟨.ok (refuse (sourceOf cs)), e, ""⟩

def has (e : Engine) (provides : List String) : Bool := provides.all e.loaded.contains

def finish (e : Engine) (provides : List String) :
    Except Machine.Failure Unit × Machine → Reply Engine Outcome
  | (.error f, m) =>
      let (m, printed) := drain m
      ⟨.ok (classify f), { e with machine := m }, printed⟩
  | (.ok (), m) =>
      let (m, printed) := drain m
      ⟨.ok ⟨.success, "nil", none⟩,
        ⟨m, e.loaded ++ provides.filter (!e.loaded.contains ·)⟩, printed⟩

/-- Runs the module of a file, unless all that it provides is loaded. -/
def load (e : Engine) (provides : List String) (filename : String) (program : Option (List Code)) :
    Reply Engine Outcome :=
  if e.has provides then ⟨.ok ⟨.success, "nil", none⟩, e, ""⟩
  else if !Site.isNamed { filename := filename } then ⟨.ok (classify (.fault .wrongValue)), e, ""⟩
  else
    match program with
    | none => ⟨.ok (classify (.fault .notCompiling)), e, ""⟩
    | some cs => e.finish provides ((Machine.execute cs).run e.machine)

end Engine

end Sumi
