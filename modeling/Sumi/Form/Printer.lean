import Sumi.Decimal.Shortest
import Sumi.Form.Basic
import Sumi.Text.Literal
import Sumi.Text.Quoted

namespace Sumi.Form

open Text

mutual

def print : Form → String
  | .nil => "nil"
  | .bool true => "true"
  | .bool false => "false"
  | .int n => toString n
  | .float x => Decimal.Shortest.write x
  | .str s => Quoted.quote s
  | .symbol n => n.text
  | .keyword n => ":" ++ n.text
  | .list items _ => "(" ++ " ".intercalate (printAll items) ++ ")"
  | .vector items _ => "[" ++ " ".intercalate (printAll items) ++ "]"
  | .map items _ => "\x7b" ++ ", ".intercalate (printPairs items) ++ "\x7d"

def printAll : List Form → List String
  | [] => []
  | f :: fs => f.print :: printAll fs

def printPairs : List Form → List String
  | k :: v :: rest => (k.print ++ " " ++ v.print) :: printPairs rest
  | _ => []

end

mutual

def describe : Form → String
  | .nil => "None"
  | .bool true => "True"
  | .bool false => "False"
  | .int n => toString n
  | .float x => Decimal.Shortest.write x
  | .str s => Literal.write s
  | .symbol n => "Symbol(" ++ Literal.write n.text ++ ")"
  | .keyword n => "Keyword(" ++ Literal.write (":" ++ n.text) ++ ")"
  | .list items _ => "ListForm([" ++ ", ".intercalate (describeAll items) ++ "])"
  | .vector items _ => "VectorForm([" ++ ", ".intercalate (describeAll items) ++ "])"
  | .map items _ => "MapForm([" ++ ", ".intercalate (describeAll items) ++ "])"

def describeAll : List Form → List String
  | [] => []
  | f :: fs => f.describe :: describeAll fs

end

end Sumi.Form
