import Sumi.Analysis.Resolve

namespace Sumi.Analysis

/-- The other namespace that an unqualified name referred to until now. -/
def replaced? (a : Analyzer) (current : Namespace) (name : String) : Option String :=
  match current.uses.get? name with
  | some other => some other
  | none =>
      if (a.namespaceOf Namespace.core).defs.has name && !current.defs.has name then
        some Namespace.core
      else none

def recordDefinition (line : Option Nat) (name : String) (n : Namespace) : Namespace :=
  { n with
    defs := n.defs.update name ⟨.source line, none⟩ (fun d => { d with origin := .source line })
    uses := n.uses.erase name }

def beginDefinition (env : Env) (sym : Name) : Analysis Unit := do
  let a ← get
  let current := a.namespaceOf env.ns
  if sym.ns.any (· != current.name) then fail env (.defElsewhere sym current.name)
  if a.flags.redef && current.name != Namespace.core then
    if let some other := replaced? a current sym.name then
      modify (·.warn (.replaced sym.name other current.name env.line))
  modify fun a =>
    (a.setNamespace (recordDefinition env.line sym.name (a.namespaceOf env.ns))).note
      (.defined env.ns sym.name)

def arityOf? : Node → Option Arity
  | .fn _ _ _ params rest _ => some ⟨params.length, rest.isSome⟩
  | _ => none

def finishDefinition (env : Env) (name : String) (init : Node) : Analysis Unit :=
  modify fun a =>
    let n := a.namespaceOf env.ns
    a.setNamespace { n with
      defs := n.defs.update name ⟨.source env.line, none⟩
        (fun d => { d with arity := arityOf? init }) }

def definition (env : Env) (sym : Name) (init : Option (Analysis Node)) : Analysis Node := do
  beginDefinition env sym
  match init with
  | none => return .define env.line env.ns sym.name none
  | some init =>
      let init ← init
      finishDefinition env sym.name init
      return .define env.line env.ns sym.name (some init)

end Sumi.Analysis
