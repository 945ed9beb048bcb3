import Sumi.Analysis.State
import Sumi.Code.Names

namespace Sumi

/-- Where a form stands: the current namespace, the locals with their names in the generated code,
innermost first, and the line of the innermost compound. -/
structure Env where
  ns : String
  locals : List (String × String) := []
  line : Option Nat := none
  deriving DecidableEq, Repr

namespace Env

def local? (env : Env) (name : String) : Option String := env.locals.lookup name

def bind (env : Env) (name : String) : Env :=
  { env with locals := (name, Code.mungeLocal name) :: env.locals }

def bindAll (env : Env) (names : List String) : Env := names.foldl bind env

def within (env : Env) (line : Option Nat) : Env :=
  { env with line := line.orElse (fun _ => env.line) }

end Env

namespace Analysis

def fail {α : Type} (env : Env) (cause : CompileError.Cause) : Analysis α :=
  throw ⟨cause, env.line⟩

def warnUndeclared (env : Env) (ns name : String) : Analysis Unit :=
  modify fun a =>
    if a.flags.undeclared then a.warn (.undeclared ns name env.line) else a

/-- The namespace and name of a var. A qualified symbol goes through the aliases of the current
namespace. An unqualified one is a name taken from another namespace, else a definition of the
current one, else one of the library, else a name of the current namespace still to be
defined. -/
def resolveVar (env : Env) (sym : Name) : Analysis (String × String) := do
  let a ← get
  let current := a.namespaceOf env.ns
  match sym.ns with
  | some short =>
      let full := (current.requires.get? short).getD short
      unless ((a.namespaces.get? full).elim false (fun n => n.defs.has sym.name)) do
        warnUndeclared env full sym.name
      return (full, sym.name)
  | none =>
      if let some other := current.uses.get? sym.name then
        return (other, sym.name)
      else if current.defs.has sym.name then
        return (current.name, sym.name)
      else if (a.namespaceOf Namespace.core).defs.has sym.name then
        return (Namespace.core, sym.name)
      else
        warnUndeclared env current.name sym.name
        return (current.name, sym.name)

def localOf? (env : Env) (sym : Name) : Option String :=
  if sym.ns.isNone then env.local? sym.name else none

def symbol (env : Env) (sym : Name) : Analysis Node := do
  match localOf? env sym with
  | some name => return .bound env.line name
  | none =>
      let (ns, name) ← resolveVar env sym
      return .var env.line ns name

end Analysis

end Sumi
