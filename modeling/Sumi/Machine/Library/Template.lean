import Sumi.Decimal.Rounded
import Sumi.Machine.Equality
import Sumi.Machine.Printer
import Sumi.Table

namespace Sumi.Machine.Template

open Text Decimal

structure Place where
  /-- Filled up at the end, not in front. -/
  left : Bool := false
  /-- With a sign also if not negative. -/
  sign : Bool := false
  /-- With a blank for the sign if not negative. -/
  blank : Bool := false
  /-- In the longer of two forms: with the mark of the base, or with the point. -/
  long : Bool := false
  /-- Filled up with zeros behind the sign. -/
  zeros : Bool := false
  width : Nat := 0
  precision : Option Nat := none
  kind : Char := 's'

/-- The values that are left, and the one whose members keys name, if it has members at all. -/
structure Supply where
  left : List Value
  source : Option Value

def Supply.ofValue : Value → Supply
  | .list _ items | .row items => ⟨items, none⟩
  | .map entries => ⟨[.map entries], some (.map entries)⟩
  | .vector items => ⟨[.vector items], some (.vector items)⟩
  | v => ⟨[v], none⟩

def Supply.next (s : Supply) : Result (Value × Supply) :=
  match s.left with
  | [] => .error .wrongType
  | v :: vs => .ok (v, { s with left := vs })

def incomplete : Failure := .fault .wrongValue

def key (depth : Nat) : List Char → Result (List Char × List Char)
  | [] => .error incomplete
  | c :: cs =>
      if c = ')' ∧ depth = 0 then .ok ([], cs)
      else do
        let depth := if c = '(' then depth + 1 else if c = ')' then depth - 1 else depth
        let (name, rest) ← key depth cs
        return (c :: name, rest)

/-- The value of a key alone, in place of all that is left. -/
def Supply.pick (s : Supply) (name : String) : Result Supply :=
  match s.source with
  | some (.map entries) =>
      match Table.get? (.str name) entries with
      | some v => .ok { s with left := [v] }
      | none => .error (.fault .noKey)
  | _ => .error .wrongType

def flags (p : Place) : List Char → Place × List Char
  | '-' :: cs => flags { p with left := true } cs
  | '+' :: cs => flags { p with sign := true } cs
  | ' ' :: cs => flags { p with blank := true } cs
  | '#' :: cs => flags { p with long := true } cs
  | '0' :: cs => flags { p with zeros := true } cs
  | cs => (p, cs)

def isDigit (c : Char) : Bool := '0' ≤ c && c ≤ '9'

def numberOf (cs : List Char) : Nat := cs.foldl (fun n c => 10 * n + (c.toNat - '0'.toNat)) 0

/-- A size below `2 ^ bits`, as digits or as a star that stands for the next value. Without either
there is none. -/
def size (bits : Nat) (s : Supply) : List Char → Result (Option Int × Supply × List Char)
  | '*' :: cs => do
      let (v, s) ← s.next
      match v.whole? with
      | none => throw .wrongType
      | some n =>
          let limit : Int := (Nat.pow 2 bits : Nat)
          if n < -limit ∨ limit ≤ n then throw (.fault .overflow)
          return (some n, s, cs)
  | cs =>
      let ds := cs.takeWhile isDigit
      let rest := cs.dropWhile isDigit
      if ds.isEmpty then .ok (none, s, rest)
      else if Nat.pow 2 bits ≤ numberOf ds then .error incomplete
      else .ok (some (numberOf ds), s, rest)

def place (s : Supply) (cs : List Char) : Result (Place × Supply × List Char) := do
  let (s, cs) ← match cs with
    | '(' :: cs =>
        if s.source.isNone then throw .wrongType
        let (name, cs) ← key 0 cs
        let s ← s.pick (String.ofList name)
        pure (s, cs)
    | cs => pure (s, cs)
  let (p, cs) := flags {} cs
  let (width, s, cs) ← size 63 s cs
  let p := match width with
    | none => p
    | some n => { p with width := n.natAbs, left := p.left || n < 0 }
  let (p, s, cs) ← match cs with
    | '.' :: cs => do
        let (precision, s, cs) ← size 31 s cs
        pure ({ p with precision := some (precision.getD 0).toNat }, s, cs)
    | cs => pure (p, s, cs)
  let cs := match cs with
    | c :: rest => if c = 'h' ∨ c = 'l' ∨ c = 'L' then rest else cs
    | [] => []
  match cs with
  | c :: cs => return ({ p with kind := c }, s, cs)
  | [] => throw incomplete

/-- Fills a text up to the width of its place. The sign and the mark of the base stay in front of
zeros. -/
def fillUp (p : Place) (numeric : Bool) (cs : List Char) : List Char :=
  let (sign, cs) := match numeric, cs with
    | true, '-' :: rest => (['-'], rest)
    | true, '+' :: rest => (['+'], rest)
    | true, cs => (if p.sign then ['+'] else if p.blank then [' '] else [], cs)
    | false, cs => ([], cs)
  let marked := p.long && (p.kind == 'x' || p.kind == 'X' || p.kind == 'o')
  let head := sign ++ if marked then cs.take 2 else []
  let cs := if marked then cs.drop 2 else cs
  let missing := p.width - (head.length + cs.length)
  if p.left then head ++ cs ++ List.replicate missing ' '
  else if numeric && p.zeros then head ++ List.replicate missing '0' ++ cs
  else List.replicate missing ' ' ++ head ++ cs

def upper (cs : List Char) : List Char := cs.map Char.toUpper

def wholeText (p : Place) (n : Int) : List Char :=
  let (base, mark) := match p.kind with
    | 'o' => (8, ['0', 'o'])
    | 'x' | 'X' => (16, ['0', 'x'])
    | _ => (10, [])
  let ds := Nat.toDigits base n.natAbs
  let ds := Shortest.pad (p.precision.getD 0) ds
  let cs := (if p.long then mark else []) ++ ds
  let cs := if p.kind = 'X' then upper cs else cs
  if n < 0 then '-' :: cs else cs

def floatText (p : Place) (x : Float) : List Char :=
  let precision := p.precision.getD 6
  let cs :=
    if x.isNaN then "nan".toList
    else if x.isInf then "inf".toList
    else match p.kind.toLower with
      | 'e' => Rounded.scientific precision p.long x
      | 'g' => Rounded.general (max 1 precision) p.long x
      | _ => Rounded.fixed precision p.long x
  let cs := if p.kind.isUpper then upper cs else cs
  if Binary.isNegative x && !x.isNaN then '-' :: cs else cs

def escaped (cs : List Char) : List Char :=
  cs.flatMap fun c => if c.toNat < 0x80 then [c] else Literal.coded (CodePoint.ofChar c)

def truncated (p : Place) (cs : List Char) : List Char := (p.precision.map cs.take).getD cs

def truncate : Number → Result Int
  | .int n => .ok n
  | .float x =>
      if x.isNaN then .error (.fault .wrongValue)
      else if x.isInf then .error (.fault .overflow)
      else .ok (Int.tdiv (Binary.scaled x) (Nat.pow 2 1074 : Nat))

def character (v : Value) : Result Char :=
  match v with
  | .str s =>
      match s.toList with
      | [c] => .ok c
      | _ => .error .wrongType
  | v =>
      match v.whole? with
      | none => .error .wrongType
      | some n => if n < 0 ∨ 0x110000 ≤ n then .error (.fault .overflow) 
          else .ok (CodePoint.toChar n.toNat)

def overflows (p : Place) : Bool :=
  "dioux".toList.contains p.kind.toLower && p.precision.any (Nat.pow 2 31 - 4 < ·)

/-- A place for a number with a precision within bounds: more digits than any double has do not
show where zeros at the end are left out. What no text can hold is too large, and what no count of
digits can is an overflow. -/
def bounded (p : Place) : Result Place :=
  match p.precision with
  | none => .ok p
  | some n =>
      if p.kind.toLower = 'g' ∧ ¬ p.long then .ok { p with precision := some (min n 1100) }
      else if n ≤ Nat.pow 2 24 then .ok p
      else if overflows p then .error (.fault .overflow)
      else .error (.fault .tooLarge)

def convert (inspect : Value → Result String) (p : Place) (v : Value) : Result (List Char) := do
  let plain : Result (List Char) := do return (← inspect v).toList
  let literal : Result (List Char) := do return (v.inspected (← inspect v)).toList
  match p.kind with
  | 's' => return fillUp p false (truncated p (← plain))
  | 'r' => return fillUp p false (truncated p (← literal))
  | 'a' => return fillUp p false (truncated p (escaped (← literal)))
  | 'c' => return fillUp p false [← character v]
  | 'd' | 'i' | 'u' =>
      match v.number? with
      | none => throw .wrongType
      | some n =>
          let n ← truncate n
          if !overflows p && !Digit.fits n then throw (.fault .wrongValue)
          let p ← bounded p
          return fillUp p true (wholeText p n)
  | 'o' | 'x' | 'X' =>
      match v.whole? with
      | none => throw .wrongType
      | some n => do
          let p ← bounded p
          return fillUp p true (wholeText p n)
  | 'e' | 'E' | 'f' | 'F' | 'g' | 'G' =>
      match v.number? with
      | none => throw .wrongType
      | some n =>
          match n.toFloat with
          | .error e => throw (.ofNumber e)
          | .ok x => do
              let p ← bounded p
              return fillUp p true (floatText p x)
  | _ => throw (.fault .wrongValue)

def inPlace (inspect : Value → Result String) (p : Place) (s : Supply) :
    Result (List Char × Supply) := do
  let (v, s) ← s.next
  let text ← convert inspect { p with width := min p.width sizeLimit } v
  if sizeLimit < p.width then throw (.fault .tooLarge)
  if s.source.isSome && !s.left.isEmpty then throw .wrongType
  return (text, s)

def fill (inspect : Value → Result String) : Nat → Supply → List Char → Result (List Char × Supply)
  | 0, s, _ => .ok ([], s)
  | _ + 1, s, [] => .ok ([], s)
  | fuel + 1, s, '%' :: '%' :: cs => do
      let (rest, s) ← fill inspect fuel s cs
      return ('%' :: rest, s)
  | fuel + 1, s, '%' :: cs => do
      let (p, s, cs) ← place s cs
      let (text, s) ← inPlace inspect p s
      let (rest, s) ← fill inspect fuel s cs
      return (text ++ rest, s)
  | fuel + 1, s, c :: cs => do
      let (rest, s) ← fill inspect fuel s cs
      return (c :: rest, s)

/-- A text with values in its places. All values have to be taken, unless they have members to be
asked for. -/
def write (inspect : Value → Result String) (template : String) (v : Value) : Result String := do
  let cs := template.toList
  let (text, s) ← fill inspect (cs.length + 1) (.ofValue v) cs
  if s.left.isEmpty || s.source.isSome then return String.ofList text else throw .wrongType

end Sumi.Machine.Template
