import Sumi.Form.Basic
import Sumi.Table

namespace Sumi

/-- An analyzed form: every symbol is resolved, every special form is a constructor of its own, and
every node has the line of the innermost compound it comes from. -/
inductive Node
  | const (line : Option Nat) (form : Form)
  | bound (line : Option Nat) (name : String)
  | var (line : Option Nat) (ns name : String)
  | define (line : Option Nat) (ns name : String) (init : Option Node)
  | fn (line : Option Nat) (name self : Option String) (params : List String)
      (rest : Option String) (body : List Node)
  | cond (line : Option Nat) (test yes no : Node)
  | block (line : Option Nat) (body : List Node)
  | bind (line : Option Nat) (names : List String) (inits body : List Node)
  | assign (line : Option Nat) (ns name : String) (value : Node)
  | throw (line : Option Nat) (value : Node)
  | call (line : Option Nat) (f : Node) (args : List Node)
  | vector (line : Option Nat) (items : List Node)
  | map (line : Option Nat) (keys values : List Node)
  | ns (line : Option Nat) (name : String) (requires uses : Table String String)
  deriving Inhabited

namespace Node

def line? : Node → Option Nat
  | .const line _ | .bound line _ | .var line _ _ | .define line _ _ _ | .fn line _ _ _ _ _
  | .cond line _ _ _ | .block line _ | .bind line _ _ _ | .assign line _ _ _ | .throw line _
  | .call line _ _ | .vector line _ | .map line _ _ | .ns line _ _ _ => line

def declares? : Node → Option String
  | .ns _ name _ _ => some name
  | _ => none

/-- The distinct namespaces of a declaration's clauses: those required, then those used. -/
def demands (requires uses : Table String String) : List String :=
  distinct (requires.values ++ uses.values)

end Node

end Sumi
