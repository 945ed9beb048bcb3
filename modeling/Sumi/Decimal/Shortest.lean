import Sumi.Decimal.Binary

namespace Sumi.Decimal.Shortest

open Binary

/-- The interval of rationals that round to a positive finite number, as multiples of
`2 ^ (exponent - 1076)`: the number itself, its two ends, and whether the ends belong to it. -/
structure Interval where
  centre : Nat
  low : Nat
  high : Nat
  closed : Bool

/-- Below a power of two the neighbour is half as far as above it. -/
def interval (m : Magnitude) : Interval where
  centre := 4 * m.mantissa
  low := 4 * m.mantissa - (if m.mantissa = Nat.pow 2 52 ∧ 0 < m.exponent then 1 else 2)
  high := 4 * m.mantissa + 2
  closed := m.mantissa % 2 = 0

structure Digits where
  digits : Nat
  power : Int
  deriving DecidableEq, Repr

def sides (n : Nat) (power : Int) (v exponent : Nat) : Nat × Nat :=
  let left := n * Nat.pow 10 power.toNat * Nat.pow 2 (1076 - exponent)
  let right := v * Nat.pow 10 (-power).toNat * Nat.pow 2 (exponent - 1076)
  (left, right)

def isInside (i : Interval) (exponent n : Nat) (power : Int) : Bool :=
  let (a, b) := sides n power i.low exponent
  let (c, d) := sides n power i.high exponent
  if i.closed then b ≤ a && c ≤ d else b < a && c < d

def order (m : Magnitude) : Int :=
  let num := m.mantissa * Nat.pow 2 (m.exponent - 1074)
  let den := Nat.pow 2 (1074 - m.exponent)
  if den ≤ num then (Nat.toDigits 10 (num / den)).length
  else 1 - ((Nat.toDigits 10 ((den - 1) / num)).length : Int)

/-- The decimal with the last digit at `10 ^ power` that is inside the interval and nearest to its
centre. Only the two neighbours of the centre can be. -/
def candidate? (m : Magnitude) (power : Int) : Option Nat :=
  let i := interval m
  let (unit, centre) := sides 1 power i.centre m.exponent
  let below := centre / unit
  let rest := centre % unit
  match isInside i m.exponent below power && 0 < below, isInside i m.exponent (below + 1) power with
  | true, true =>
      some (if 2 * rest < unit ∨ (2 * rest = unit ∧ below % 2 = 0) then below else below + 1)
  | true, false => some below
  | false, true => some (below + 1)
  | false, false => none

def search (m : Magnitude) (top : Int) : Nat → Nat → Digits
  | 0, count => ⟨0, top - count⟩
  | fuel + 1, count =>
      match candidate? m (top - count) with
      | some n => ⟨n, top - count⟩
      | none => search m top fuel (count + 1)

def shortest (m : Magnitude) : Digits := search m (order m) 17 1

/-- How a decimal is laid out: positional from `10 ^ low` up to below `10 ^ high`, else with an
exponent of at least `width` digits. -/
structure Layout where
  low : Int
  high : Int
  width : Nat

def layout : Layout := ⟨-4, 16, 2⟩

def pad (width : Nat) (cs : List Char) : List Char :=
  List.replicate (width - cs.length) '0' ++ cs

def stripZeros (cs : List Char) : List Char := (cs.reverse.dropWhile (· == '0')).reverse

/-- The text of a decimal whose first digit stands at `10 ^ place`. A whole number keeps one zero
after the point, unless it has an exponent. -/
def arrange (l : Layout) (cs : List Char) (place : Int) : List Char :=
  if l.low ≤ place ∧ place < l.high then
    if place < 0 then '0' :: '.' :: (List.replicate (-place - 1).toNat '0' ++ cs)
    else
      let whole := (cs ++ List.replicate (place.toNat + 1 - cs.length) '0').take (place.toNat + 1)
      let part := cs.drop (place.toNat + 1)
      whole ++ '.' :: (if part.isEmpty then ['0'] else part)
  else
    let exponent := pad l.width (Nat.toDigits 10 place.natAbs)
    let mark := 'e' :: (if place < 0 then '-' else '+') :: exponent
    match cs with
    | [d] => d :: mark
    | d :: rest => d :: '.' :: (rest ++ mark)
    | [] => mark

def write (x : Float) : String :=
  if x.isNaN then "nan"
  else
    let text := if x.isInf then "inf".toList
      else if x == 0 then "0.0".toList
      else
        let d := shortest (magnitude x)
        let cs := Nat.toDigits 10 d.digits
        arrange layout (stripZeros cs) (d.power + cs.length - 1)
    String.ofList (if isNegative x then '-' :: text else text)

end Sumi.Decimal.Shortest
