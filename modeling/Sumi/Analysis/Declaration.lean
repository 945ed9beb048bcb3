import Sumi.Analysis.Resolve

namespace Sumi.Analysis

def requireSpec (env : Env) : Form → Analysis (Table String String)
  | .symbol lib => return [(lib.name, lib.name)]
  | .vector items line =>
      match items with
      | [.symbol lib] => return [(lib.name, lib.name)]
      | [.symbol lib, .keyword option, .symbol short] =>
          if option = .plain "as" then
            return Table.put short.name lib.name [(lib.name, lib.name)]
          else fail env (.requireOptions (.vector items line))
      | .symbol _ :: _ => fail env (.requireOptions (.vector items line))
      | _ => fail env (.requireSpec (.vector items line))
  | form => fail env (.requireSpec form)

def symbolName? : Form → Option String
  | .symbol n => some n.name
  | _ => none

def useSpec (env : Env) : Form → Analysis (Table String String)
  | .vector [.symbol lib, .keyword option, .vector names nameLine] line =>
      if option = .plain "only" then
        return Table.putAll [] ((names.filterMap symbolName?).map (fun name => (name, lib.name)))
      else fail env (.useSpec (.vector [.symbol lib, .keyword option, .vector names nameLine] line))
  | form => fail env (.useSpec form)

def specs (spec : Form → Analysis (Table String String)) (known : Table String String) :
    List Form → Analysis (Table String String)
  | [] => return known
  | form :: forms => do
      let entries ← spec form
      specs spec (known.putAll entries) forms

def clauses (env : Env) (requires uses : Table String String) :
    List Form → Analysis (Table String String × Table String String)
  | [] => return (requires, uses)
  | .str _ :: rest => clauses env requires uses rest
  | .list (.keyword kind :: forms) _ :: rest => do
      if kind.name = "require" then
        let requires ← specs (requireSpec env) requires forms
        clauses env requires uses rest
      else if kind.name = "use" then
        let uses ← specs (useSpec env) uses forms
        clauses env requires uses rest
      else fail env (.nsKind kind.name)
  | form :: _ => fail env (.nsClause form)

/-- Declares a namespace. What it requires and uses replaces what an earlier declaration said; its
definitions stay. -/
def declaration (env : Env) (args : List Form) : Analysis Node := do
  match args with
  | .symbol ⟨none, name⟩ :: forms =>
      let (requires, uses) ← clauses env [] [] forms
      modify fun a =>
        let n := a.namespaceOf name
        (a.setNamespace { n with requires := requires, uses := uses }).note (.declared name)
      return .ns env.line name requires uses
  | _ => fail env .nsName

end Sumi.Analysis
