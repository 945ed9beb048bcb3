import Sumi.Decimal.Binary
import Sumi.Form.Basic
import Sumi.Text.Digit

namespace Sumi.Form

open Text Decimal

structure Numeral where
  negative : Bool
  whole : List Nat
  fraction : Option (List Nat)
  exponent : Option (Bool × List Nat)
  deriving DecidableEq, Repr

namespace Numeral

def sign? : List Char → Bool × List Char
  | '-' :: cs => (true, cs)
  | '+' :: cs => (false, cs)
  | cs => (false, cs)

def digits? (cs : List Char) : Option (List Nat × List Char) :=
  match (cs.takeWhile Digit.isDecimal).filterMap Digit.value? with
  | [] => none
  | ds => some (ds, cs.dropWhile Digit.isDecimal)

def fraction? : List Char → Option (Option (List Nat) × List Char)
  | '.' :: cs => (digits? cs).map (fun (ds, rest) => (some ds, rest))
  | cs => some (none, cs)

def exponent? : List Char → Option (Option (Bool × List Nat) × List Char)
  | c :: cs =>
      if c = 'e' ∨ c = 'E' then
        let (negative, cs) := sign? cs
        (digits? cs).map (fun (ds, rest) => (some (negative, ds), rest))
      else some (none, c :: cs)
  | [] => some (none, [])

def read? (cs : List Char) : Option Numeral := do
  let (negative, cs) := sign? cs
  let (whole, cs) ← digits? cs
  let (fraction, cs) ← fraction? cs
  let (exponent, cs) ← exponent? cs
  if cs.isEmpty then some ⟨negative, whole, fraction, exponent⟩ else none

def valueOf (ds : List Nat) : Nat := ds.foldl (fun n d => 10 * n + d) 0

def isWhole (n : Numeral) : Bool := n.fraction.isNone && n.exponent.isNone

/-- A whole number with more digits than may be read. Zeros in front count. -/
def isTooLong (n : Numeral) : Bool := n.isWhole && Digit.limit < n.whole.length

def toInt (n : Numeral) : Int :=
  if n.negative then -(valueOf n.whole : Int) else valueOf n.whole

def toFloat (n : Numeral) : Float :=
  let fraction := n.fraction.getD []
  let power : Int := match n.exponent with
    | none => 0
    | some (negative, ds) => if negative then -(valueOf ds : Int) else valueOf ds
  Binary.signed n.negative
    (Binary.ofDecimal (valueOf (n.whole ++ fraction)) (power - fraction.length))

def toForm (n : Numeral) : Form := if n.isWhole then .int n.toInt else .float n.toFloat

end Numeral

end Sumi.Form
