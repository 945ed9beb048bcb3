import Sumi.Decimal.Shortest
import Sumi.Machine.Failure
import Sumi.Text.Digit
import Sumi.Text.Literal
import Sumi.Text.Quoted

namespace Sumi.Machine

open Text Decimal

/-- How a text inside a value is written, and with it all the rest. -/
inductive Manner
  | quoted
  | bare
  | plain
  deriving DecidableEq, Repr

/-- How to show what only the machine knows: the value that an atom holds, the label of a function,
a map that changes, what a namespace calls itself, and the program. -/
structure Lookup where
  atom : Nat → Result String
  label : Nat → Rule → String
  live : Live → Manner → Result String
  space : Place → Result String
  program : String

def Rule.label : Rule → String
  | .lambda _ _ _ _ => "<lambda>"
  | .recursive label _ _ _ _ _ => label
  | .bound _ _ => "fn"
  | .composed _ => "composed"
  | .constant _ => "<lambda>"
  | .forward => "fn"

def Lookup.spaceText (look : Lookup) (place : Place) : Result String := do
  return "#<Namespace " ++ (← look.space place) ++ ">"

namespace Value

def kindName : String := "Namespace"

def undecidedText : String := "NotImplemented"

def fnText (label : String) : String := "#<fn " ++ label ++ ">"

def floatText (x : Float) : String :=
  if x.isNaN then "##NaN"
  else if x.isInf then if Binary.isNegative x then "##-Inf" else "##Inf"
  else Shortest.write x

/-- The digits of a whole number. One with too many has no text at all. -/
def wholeText (n : Int) : Result String :=
  if Digit.fits n then .ok (toString n) else .error (.fault .wrongValue)

def builtinText (op : Builtin) : String := "sumi.core/" ++ op.spelling

def between (left right : String) (separator : String) (parts : List String) : String :=
  left ++ separator.intercalate parts ++ right

/-- The text of a keyword or symbol name, from the name and the plain texts of its two parts.
Without a namespace it has to be a text; with one, its plain text is taken. -/
def qualified (ns name : Value) (nsText nameText : Result String) : Result String :=
  if ns.isSolid then do return (← nsText) ++ "/" ++ (← nameText)
  else
    match name with
    | .str s => .ok s
    | _ => .error .wrongType

def rowText (parts : List String) : String :=
  match parts with
  | [s] => "(" ++ s ++ ",)"
  | parts => between "(" ")" ", " parts

def setText (parts : List String) : String :=
  if parts.isEmpty then "set()" else between "\x7b" "\x7d" ", " parts

def inspected (v : Value) (plain : String) : String :=
  match v with
  | .str s => Literal.write s
  | _ => plain

mutual

def print (look : Lookup) (readably : Bool) : Value → Result String
  | .nil => .ok "nil"
  | .bool b => .ok (if b then "true" else "false")
  | .int n => wholeText n
  | .float x => .ok (floatText x)
  | .str s => .ok (if readably then Quoted.quote s else s)
  | .keyword ns name => (qualified ns name (plain look ns) (plain look name)).map (":" ++ ·)
  | .symbol ns name => qualified ns name (plain look ns) (plain look name)
  | .var _ ns name => do return "#'" ++ (← plain look ns) ++ "/" ++ (← plain look name)
  | .list _ items | .row items => (printAll look readably items).map (between "(" ")" " ")
  | .vector items => (printAll look readably items).map (between "[" "]" " ")
  | .map entries =>
      (printEntries look readably entries).map (between "\x7b" "\x7d" ", ")
  | .set items => (printAll look readably items).map (between "#\x7b" "\x7d" " ")
  | .atom id => (look.atom id).map (fun s => "#<Atom " ++ s ++ ">")
  | .namespace place => look.spaceText place
  | .kind => .ok (fnText kindName)
  | .method _ op => .ok (fnText op.spelling)
  | .live source => look.live source (if readably then .quoted else .bare)
  | .undecided => .ok ("#<NotImplementedType " ++ undecidedText ++ ">")
  | .builtin op => .ok (fnText (builtinText op))
  | .fn id rule => .ok (fnText (look.label id rule))

def printAll (look : Lookup) (readably : Bool) : List Value → Result (List String)
  | [] => .ok []
  | v :: vs => do return (← print look readably v) :: (← printAll look readably vs)

def printEntries (look : Lookup) (readably : Bool) :
    List (Value × Value) → Result (List String)
  | [] => .ok []
  | (k, v) :: es => do
      let key ← print look readably k
      let value ← print look readably v
      return (key ++ " " ++ value) :: (← printEntries look readably es)

def plain (look : Lookup) : Value → Result String
  | .nil => .ok "None"
  | .bool b => .ok (if b then "True" else "False")
  | .int n => wholeText n
  | .float x => .ok (Shortest.write x)
  | .str s => .ok s
  | .keyword ns name => (qualified ns name (plain look ns) (plain look name)).map (":" ++ ·)
  | .symbol ns name => qualified ns name (plain look ns) (plain look name)
  | .var _ ns name => do return "#'" ++ (← plain look ns) ++ "/" ++ (← plain look name)
  | .list _ items => (printAll look true items).map (between "(" ")" " ")
  | .row items => (inspectAll look items).map rowText
  | .vector items => (inspectAll look items).map (between "[" "]" ", ")
  | .map entries => (inspectEntries look entries).map (between "\x7b" "\x7d" ", ")
  | .set items => (inspectAll look items).map setText
  | .atom id => (look.atom id).map (fun s => "#<Atom " ++ s ++ ">")
  | .namespace place => look.spaceText place
  | .kind => .ok ("<class '" ++ look.program ++ "." ++ kindName ++ "'>")
  | .method place op => do
      return "<bound method " ++ kindName ++ "." ++ op.spelling ++ " of " ++
        (← look.spaceText place) ++ ">"
  | .live source => look.live source .plain
  | .undecided => .ok undecidedText
  | .builtin op => .ok ("<function " ++ builtinText op ++ ">")
  | .fn id rule => .ok ("<function " ++ look.label id rule ++ ">")

def inspectAll (look : Lookup) : List Value → Result (List String)
  | [] => .ok []
  | v :: vs => do
      let text ← plain look v
      return inspected v text :: (← inspectAll look vs)

def inspectEntries (look : Lookup) : List (Value × Value) → Result (List String)
  | [] => .ok []
  | (k, v) :: es => do
      let key ← plain look k
      let value ← plain look v
      return (inspected k key ++ ": " ++ inspected v value) :: (← inspectEntries look es)

end

end Value

end Sumi.Machine
