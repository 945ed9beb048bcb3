import Sumi.Form.Numeral
import Sumi.Table
import Sumi.Text.Quoted

namespace Sumi

inductive Json
  | null
  | bool (b : Bool)
  | int (n : Int)
  | float (x : Float)
  | str (s : String)
  | arr (items : List Json)
  | obj (members : List (String × Json))
  deriving Inhabited

namespace Json

open Text Form

mutual

/-- How many lists and objects stand in each other. Those that are empty do not count. -/
def nesting : Json → Nat
  | .arr items => if items.isEmpty then 0 else nestingOfItems items + 1
  | .obj members => if members.isEmpty then 0 else nestingOfMembers members + 1
  | _ => 0

def nestingOfItems : List Json → Nat
  | [] => 0
  | j :: js => max (nesting j) (nestingOfItems js)

def nestingOfMembers : List (String × Json) → Nat
  | [] => 0
  | (_, j) :: js => max (nesting j) (nestingOfMembers js)

end

mutual

def isEncodable : Json → Bool
  | .str s => CodePoint.isEncodable s
  | .arr items => itemsEncodable items
  | .obj members => membersEncodable members
  | _ => true

def itemsEncodable : List Json → Bool
  | [] => true
  | j :: js => isEncodable j && itemsEncodable js

def membersEncodable : List (String × Json) → Bool
  | [] => true
  | (name, j) :: js => CodePoint.isEncodable name && isEncodable j && membersEncodable js

end

def isSpace (c : Char) : Bool := c == ' ' || c == '\t' || c == '\n' || c == '\r'

def skip (cs : List Char) : List Char := cs.dropWhile isSpace

def quoted? : List Char → Option (List Char × List Char)
  | [] => none
  | '"' :: cs => some ([], cs)
  | '\\' :: c :: cs => (quoted? cs).map (fun (s, rest) => ('\\' :: c :: s, rest))
  | c :: cs =>
      if c.toNat < 32 then none else (quoted? cs).map (fun (s, rest) => (c :: s, rest))

def string? (cs : List Char) : Option (String × List Char) := do
  let (s, rest) ← quoted? cs
  match Quoted.decode 0 s with
  | .ok cs => some (String.ofList cs, rest)
  | .error _ => none

def isNumberChar (c : Char) : Bool :=
  ('0' ≤ c && c ≤ '9') || c == '+' || c == '-' || c == '.' || c == 'e' || c == 'E'

def isStrict (cs : List Char) : Bool :=
  match cs with
  | '+' :: _ => false
  | '-' :: '0' :: c :: _ | '0' :: c :: _ => !('0' ≤ c && c ≤ '9')
  | _ => true

def number? (cs : List Char) : Option (Json × List Char) := do
  let (text, rest) := cs.span isNumberChar
  let n ← Numeral.read? text
  if isStrict text && !n.isTooLong then
    some (if n.isWhole then .int n.toInt else .float n.toFloat, rest)
  else none

def words : List (String × Json) :=
  [("null", .null), ("true", .bool true), ("false", .bool false),
   ("NaN", .float Decimal.Binary.nan), ("Infinity", .float Decimal.Binary.infinity),
   ("-Infinity", .float (-Decimal.Binary.infinity))]

def word? (cs : List Char) : Option (Json × List Char) :=
  words.findSome? fun (word, value) =>
    if word.toList.isPrefixOf cs then some (value, cs.drop word.length) else none

mutual

def value? : Nat → List Char → Option (Json × List Char)
  | 0, _ => none
  | depth + 1, cs =>
      match skip cs with
      | '"' :: cs => (string? cs).map (fun (s, rest) => (.str s, rest))
      | '[' :: cs =>
          match skip cs with
          | ']' :: rest => some (.arr [], rest)
          | cs => (items? depth cs).map (fun (items, rest) => (.arr items, rest))
      | '\x7b' :: cs =>
          match skip cs with
          | '\x7d' :: rest => some (.obj [], rest)
          | cs => (members? depth [] cs).map (fun (members, rest) => (.obj members, rest))
      | cs => (word? cs).orElse (fun _ => number? cs)

def items? : Nat → List Char → Option (List Json × List Char)
  | 0, _ => none
  | depth + 1, cs => do
      let (item, rest) ← value? depth cs
      match skip rest with
      | ',' :: rest => (items? depth rest).map (fun (items, rest) => (item :: items, rest))
      | ']' :: rest => some ([item], rest)
      | _ => none

def members? : Nat → List (String × Json) → List Char → Option (List (String × Json) × List Char)
  | 0, _, _ => none
  | depth + 1, known, cs =>
      match skip cs with
      | '"' :: cs => do
          let (name, rest) ← string? cs
          match skip rest with
          | ':' :: rest =>
              let (value, rest) ← value? depth rest
              let known := Table.put name value known
              match skip rest with
              | ',' :: rest => members? depth known rest
              | '\x7d' :: rest => some (known, rest)
              | _ => none
          | _ => none
      | _ => none

end

/-- The value that a whole text writes. Every step into a value or behind a comma reads a character,
so the length of the text bounds the depth. -/
def read? (s : String) : Option Json := do
  let (value, rest) ← value? (2 * s.length + 2) s.toList
  if (skip rest).isEmpty then some value else none

end Json

end Sumi
