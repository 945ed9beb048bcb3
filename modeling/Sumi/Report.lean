
namespace Sumi

structure Report where
  title : String
  message : String
  line : Option Int := none
  column : Option Int := none
  context : Option String := none
  hint : Option String := none
  deriving DecidableEq, Repr

namespace Report

/-- A line or column of zero is unknown, and a column without a line says nothing. -/
def place (r : Report) : String :=
  match r.line with
  | none | some 0 => ""
  | some line =>
      let column := match r.column with
        | none | some 0 => ""
        | some column => ", column " ++ toString column
      " at line " ++ toString line ++ column

def note (lead : String) : Option String → String
  | none => ""
  | some s => if s.isEmpty then "" else lead ++ s

def text (r : Report) : String :=
  r.title ++ r.place ++ ": " ++ r.message ++ note "\n   > " r.context ++ note "\n   hint: " r.hint

end Report

end Sumi
