import Sumi.Decimal.Shortest

namespace Sumi.Decimal.Rounded

open Binary Shortest

def fraction (x : Float) : Nat × Nat :=
  let m := magnitude x
  (m.mantissa * Nat.pow 2 (m.exponent - 1074), Nat.pow 2 (1074 - m.exponent))

def scaledBy (x : Float) (power : Int) : Nat :=
  let (num, den) := fraction x
  roundDiv (num * Nat.pow 10 power.toNat) (den * Nat.pow 10 (-power).toNat)

/-- The point between the two parts of a number, which goes when nothing is behind it, unless it is
to stay. -/
def withPart (stays : Bool) (whole part : List Char) : List Char :=
  if part.isEmpty && !stays then whole else whole ++ '.' :: part

def fixed (places : Nat) (stays : Bool) (x : Float) : List Char :=
  let cs := pad (places + 1) (Nat.toDigits 10 (scaledBy x places))
  withPart stays (cs.take (cs.length - places)) (cs.drop (cs.length - places))

def significant (count : Nat) (x : Float) : List Char × Int :=
  if x == 0 then (List.replicate count '0', 0)
  else
    let place := order (magnitude x) - 1
    let n := scaledBy x (count - 1 - place)
    if Nat.pow 10 count ≤ n then (Nat.toDigits 10 (n / 10), place + 1)
    else (Nat.toDigits 10 n, place)

def exponentText (place : Int) : List Char :=
  'e' :: (if place < 0 then '-' else '+') :: pad 2 (Nat.toDigits 10 place.natAbs)

def scientific (places : Nat) (stays : Bool) (x : Float) : List Char :=
  let (cs, place) := significant (places + 1) x
  withPart stays (cs.take 1) (cs.drop 1) ++ exponentText place

/-- So many significant digits, without zeros at their end unless the point is to stay. The power of
ten is written where the point would stand behind the digits, or far in front of them. -/
def general (count : Nat) (stays : Bool) (x : Float) : List Char :=
  let (cs, place) := significant count x
  let kept (part : List Char) : List Char := if stays then part else stripZeros part
  if place < -4 ∨ (count : Int) ≤ place then
    withPart stays (cs.take 1) (kept (cs.drop 1)) ++ exponentText place
  else if place < 0 then
    withPart stays ['0'] (List.replicate (-place - 1).toNat '0' ++ kept cs)
  else
    let whole := place.toNat + 1
    withPart stays (cs.take whole) (kept (cs.drop whole))

end Sumi.Decimal.Rounded
