import Sumi.Json
import Sumi.Text.Blank

namespace Sumi.Check

open Form

inductive Key
  | field (name : String)
  | index (n : Nat)
  deriving DecidableEq, Repr

inductive Rule
  | missing
  | boolType
  | boolText
  | intType
  | intText
  | intFraction
  | floatType
  | floatText
  | stringType
  | listType
  | objectType
  deriving DecidableEq, Repr

def Rule.text : Rule → String
  | .missing => "missing"
  | .boolType => "bool_type"
  | .boolText => "bool_parsing"
  | .intType => "int_type"
  | .intText => "int_parsing"
  | .intFraction => "int_from_float"
  | .floatType => "float_type"
  | .floatText => "float_parsing"
  | .stringType => "string_type"
  | .listType => "list_type"
  | .objectType => "dict_type"

structure Invalid where
  path : List Key
  rule : Rule
  deriving DecidableEq, Repr

abbrev Checked (α : Type) := Except (List Invalid) α

def broken {α : Type} (rule : Rule) : Checked α := .error [⟨[], rule⟩]

def under {α : Type} (key : Key) : Checked α → Checked α
  | .ok a => .ok a
  | .error es => .error (es.map fun e => { e with path := key :: e.path })

def both {α β : Type} (f : Checked (α → β)) (a : Checked α) : Checked β :=
  match f, a with
  | .ok f, .ok a => .ok (f a)
  | .ok _, .error es => .error es
  | .error es, .ok _ => .error es
  | .error es, .error es' => .error (es ++ es')

def string : Json → Checked String
  | .str s => .ok s
  | _ => broken .stringType

def optional {α : Type} (check : Json → Checked α) : Json → Checked (Option α)
  | .null => .ok none
  | j => (check j).map some

def listFrom {α : Type} (check : Json → Checked α) (n : Nat) : List Json → Checked (List α)
  | [] => .ok []
  | j :: js => both (both (.ok List.cons) (under (.index n) (check j))) (listFrom check (n + 1) js)

def list {α : Type} (check : Json → Checked α) : Json → Checked (List α)
  | .arr items => listFrom check 0 items
  | _ => broken .listType

def object : Json → Checked (List (String × Json))
  | .obj members => .ok members
  | _ => broken .objectType

def yesWords : List String := ["1", "on", "t", "true", "y", "yes"]

def noWords : List String := ["0", "off", "f", "false", "n", "no"]

def wholeOf? (x : Float) : Option Int :=
  (Decimal.Binary.toInt? x).filter (fun n => n.natAbs < Nat.pow 2 63)

def boolOfInt (n : Int) : Checked Bool :=
  if n = 0 then .ok false
  else if n = 1 then .ok true
  else if -(Nat.pow 2 63 : Int) ≤ n ∧ n < (Nat.pow 2 63 : Int) then broken .boolText
  else broken .boolType

def bool : Json → Checked Bool
  | .bool b => .ok b
  | .str s =>
      let word := String.ofList (s.toList.map Char.toLower)
      if yesWords.contains word then .ok true
      else if noWords.contains word then .ok false
      else broken .boolText
  | .int n => boolOfInt n
  | .float x => (wholeOf? x).elim (broken .boolType) boolOfInt
  | _ => broken .boolType

/-- White space around a number, which the ASCII separators are not. -/
def isMargin (c : Char) : Bool :=
  Text.Blank.isBlank c && !(28 ≤ c.toNat && c.toNat ≤ 31)

def trimmed (cs : List Char) : List Char :=
  ((cs.dropWhile isMargin).reverse.dropWhile isMargin).reverse

def isSign (c : Char) : Bool := c == '-' || c == '+'

def ungrouped? (cs : List Char) : Option (List Char) :=
  if cs.head? == some '_' || cs.getLast? == some '_' ||
      (cs.zip cs.tail).any (fun p => p.1 == '_' && p.2 == '_') ||
      (cs.head?.any isSign && cs.tail.head? == some '_') then none
  else some (cs.filter (· != '_'))

def isDigit (c : Char) : Bool := '0' ≤ c && c ≤ '9'

def padded? (cs : List Char) : Option (List Char) :=
  let (sign, cs) := match cs with
    | '-' :: cs => (['-'], cs)
    | '+' :: cs => ([], cs)
    | cs => ([], cs)
  let whole := cs.takeWhile isDigit
  match cs.drop whole.length with
  | '.' :: rest =>
      let part := rest.takeWhile isDigit
      if whole.isEmpty && part.isEmpty then none
      else
        some (sign ++ (if whole.isEmpty then ['0'] else whole) ++ '.' ::
          ((if part.isEmpty then ['0'] else part) ++ rest.drop part.length))
  | rest => if whole.isEmpty then none else some (sign ++ whole ++ rest)

def floatOfText (cs : List Char) : Option Float :=
  let (negative, word) := match cs.map Char.toLower with
    | '-' :: word => (true, word)
    | '+' :: word => (false, word)
    | word => (false, word)
  if word = "inf".toList ∨ word = "infinity".toList then
    some (Decimal.Binary.signed negative Decimal.Binary.infinity)
  else if word = "nan".toList then some Decimal.Binary.nan
  else if cs.all (fun c => c.toNat < 128) then
    ((padded? cs).bind Numeral.read?).map Numeral.toFloat
  else none

def floatOf? (s : String) : Option Float :=
  (floatOfText (trimmed s.toList)).or ((ungrouped? s.toList).bind floatOfText)

def float : Json → Checked Float
  | .float x => .ok x
  | .int n => (Decimal.Binary.ofInt? n).elim (broken .floatType) .ok
  | .bool b => .ok (if b then 1 else 0)
  | .str s => (floatOf? s).elim (broken .floatText) .ok
  | _ => broken .floatType

def behindZeros (last : Char) : List Char → Option (List Char)
  | [] => some [last]
  | c :: cs =>
      if c = '0' ∨ c = '_' then behindZeros c cs
      else if isDigit c ∨ c = '-' then some (c :: cs)
      else if c = '.' then some (last :: c :: cs)
      else none

def withoutZeros : List Char → Option (List Char)
  | '0' :: cs => behindZeros '0' cs
  | c :: cs => if isDigit c ∨ c = '-' then some (c :: cs) else none
  | [] => none

def withoutFraction (cs : List Char) : List Char :=
  let (whole, part) := cs.span (· != '.')
  if part.tail.isEmpty || !part.tail.all (· == '0') then cs else whole

def plainInt? (cs : List Char) : Option Int :=
  let (negative, ds) := match cs with
    | '-' :: ds => (true, ds)
    | ds => (false, ds)
  if ds.isEmpty || !ds.all isDigit || (ds.head? == some '0' && ds.length != 1) then none
  else (Numeral.read? ds).map fun n => if negative then -n.toInt else n.toInt

/-- The whole number that a text writes, perhaps with zeros in front, with a point and zeros behind
it, and in groups of digits. -/
def intOf? (s : String) : Option Int := do
  let cs := trimmed s.toList
  let cs := match cs with
    | '+' :: '-' :: _ => []
    | '+' :: cs => cs
    | cs => cs
  let cs := withoutFraction (← withoutZeros cs)
  plainInt? ((ungrouped? cs).getD cs)

def int : Json → Checked Int
  | .int n => .ok n
  | .float x =>
      if x.isNaN || x.isInf then broken .intType
      else (wholeOf? x).elim (broken .intFraction) .ok
  | .bool b => .ok (if b then 1 else 0)
  | .str s => (intOf? s).elim (broken .intText) .ok
  | _ => broken .intType

def field {α : Type} (members : List (String × Json)) (name : String) (default : Checked α)
    (check : Json → Checked α) : Checked α :=
  under (.field name) ((Table.get? name members).elim default check)

end Sumi.Check
