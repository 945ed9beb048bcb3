import Sumi.Code.Basic
import Sumi.Decimal.Shortest
import Sumi.Text.Literal

namespace Sumi.Code

open Text

def commas (parts : List String) : String := ", ".intercalate parts

def literalOrNone : Option String → String
  | none => "None"
  | some s => Literal.write s

def nameText (helper : String) (n : Name) : String :=
  helper ++ "(" ++ literalOrNone n.ns ++ ", " ++ Literal.write n.name ++ ")"

def lambdaHead (params : List String) (rest : Option String) : String :=
  match params ++ rest.toList.map ("*" ++ ·) with
  | [] => "lambda: "
  | params => "lambda " ++ commas params ++ ": "

mutual

def render : Code → String
  | .nil => "None"
  | .bool true => "True"
  | .bool false => "False"
  | .int n => toString n
  | .float x => Decimal.Shortest.write x
  | .special text => "float(" ++ Literal.write text ++ ")"
  | .str s => Literal.write s
  | .keyword n => nameText "sumi_keyword" n
  | .symbol n => nameText "sumi_symbol" n
  | .list items => "sumi_list(" ++ commas (renderAll items) ++ ")"
  | .vector items => "[" ++ commas (renderAll items) ++ "]"
  | .map entries => "\x7b" ++ commas (renderEntries entries) ++ "\x7d"
  | .bound s => s
  | .var ns attr => "sumi_ns(" ++ Literal.write ns ++ ")." ++ attr
  | .define ns name value =>
      "sumi_def(" ++ commas [Literal.write ns, Literal.write name, render value] ++ ")"
  | .assign ns name value =>
      "sumi_set(" ++ commas [Literal.write ns, Literal.write name, render value] ++ ")"
  | .provide ns requires =>
      "sumi_provide(" ++ Literal.write ns ++ ", [" ++ commas (requires.map Literal.write) ++ "])"
  | .throw value => "sumi_throw(" ++ render value ++ ")"
  | .lambda params rest body => "(" ++ lambdaHead params rest ++ render body ++ ")"
  | .recursive label self params rest body =>
      "sumi_named_fn(" ++ Literal.write label ++ ", lambda " ++ self ++ ": (" ++
        lambdaHead params rest ++ render body ++ "))"
  | .bind name init body =>
      "(lambda " ++ name ++ ": " ++ render body ++ ")(" ++ render init ++ ")"
  | .call f args => "(" ++ render f ++ ")(" ++ commas (renderAll args) ++ ")"
  | .cond test yes no =>
      "(" ++ render yes ++ " if sumi_truthy(" ++ render test ++ ") else " ++ render no ++ ")"
  | .last items => "(" ++ commas (renderAll items) ++ ")[-1]"

def renderAll : List Code → List String
  | [] => []
  | c :: cs => render c :: renderAll cs

def renderEntries : List (Code × Code) → List String
  | [] => []
  | (k, v) :: es => (render k ++ ": " ++ render v) :: renderEntries es

end

end Sumi.Code
