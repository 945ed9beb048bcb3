import Sumi.Code.Basic
import Sumi.Text.Compatibility

namespace Sumi.Code

open Text.Compatibility

def isBindable (s : String) : Bool := isName s && normalize s != "__debug__"

/-- Whether names are distinct in what they mean. -/
def allDistinct : List String → Bool
  | [] => true
  | s :: rest => !(rest.map normalize).contains (normalize s) && allDistinct rest

def validParams (params : List String) (rest : Option String) : Bool :=
  (params ++ rest.toList).all isBindable && allDistinct (params ++ rest.toList)

mutual

def compiles : Code → Bool
  | .list items | .vector items | .last items => compileAll items
  | .map entries => compileEntries entries
  | .var _ attr => isName attr
  | .define _ _ value | .assign _ _ value | .throw value => compiles value
  | .lambda params rest body => validParams params rest && compiles body
  | .recursive _ self params rest body =>
      isBindable self && validParams params rest && compiles body
  | .bind name init body => isBindable name && compiles init && compiles body
  | .call f args => compiles f && compileAll args
  | .cond test yes no => compiles test && compiles yes && compiles no
  | _ => true

def compileAll : List Code → Bool
  | [] => true
  | c :: cs => compiles c && compileAll cs

def compileEntries : List (Code × Code) → Bool
  | [] => true
  | (k, v) :: es => compiles k && compiles v && compileEntries es

end

end Sumi.Code
