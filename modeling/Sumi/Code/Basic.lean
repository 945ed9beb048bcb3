import Sumi.Code.Names
import Sumi.Form.Basic

namespace Sumi

/-- The generated code: one expression for each form of a source. Names are those of the generated
code, save the names of namespaces, vars, keywords and symbols, which it carries as data. -/
inductive Code
  | nil
  | bool (b : Bool)
  | int (n : Int)
  | float (x : Float)
  /-- A double without a literal of its own, made from its text by what the name `float` means. -/
  | special (text : String)
  | str (s : String)
  | keyword (n : Name)
  | symbol (n : Name)
  | list (items : List Code)
  | vector (items : List Code)
  | map (entries : List (Code × Code))
  | bound (s : String)
  | var (ns attr : String)
  | define (ns name : String) (value : Code)
  | assign (ns name : String) (value : Code)
  | provide (ns : String) (requires : List String)
  | throw (value : Code)
  | lambda (params : List String) (rest : Option String) (body : Code)
  /-- A function that can call itself by the name `self`. -/
  | recursive (label self : String) (params : List String) (rest : Option String) (body : Code)
  | bind (name : String) (init body : Code)
  | call (f : Code) (args : List Code)
  | cond (test yes no : Code)
  /-- All items in order, for the value of the last one. -/
  | last (items : List Code)
  deriving Inhabited

namespace Code

def sequence : List Code → Code
  | [] => .nil
  | [c] => c
  | cs => .last cs

def bindAll : List String → List Code → Code → Code
  | name :: names, init :: inits, body => .bind name init (bindAll names inits body)
  | _, _, body => body

end Code

end Sumi
