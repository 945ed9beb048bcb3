
namespace Sumi.Decimal.Binary

/-- The magnitude `mantissa * 2 ^ (exponent - 1074)`. -/
structure Magnitude where
  mantissa : Nat
  exponent : Nat
  deriving DecidableEq, Repr

def isNegative (x : Float) : Bool := x.toBits.toNat / Nat.pow 2 63 == 1

def magnitude (x : Float) : Magnitude :=
  let bits := x.toBits.toNat % Nat.pow 2 63
  let e := bits / Nat.pow 2 52
  let f := bits % Nat.pow 2 52
  if e = 0 then ⟨f, 0⟩ else ⟨f + Nat.pow 2 52, e - 1⟩

def infinity : Float := Float.ofBits 0x7FF0000000000000

def nan : Float := Float.ofBits 0x7FF8000000000000

def signed (negative : Bool) (x : Float) : Float := if negative then -x else x

def roundDiv (num den : Nat) : Nat :=
  let q := num / den
  let r := num % den
  if 2 * r < den ∨ (2 * r = den ∧ q % 2 = 0) then q else q + 1

/-- The nearest double to `num / den`, infinity when it is beyond the largest one. The mantissa
takes 53 bits, or fewer at the least exponent; adding it to the exponent field carries into that
field exactly when the mantissa has its top bit. -/
def ofRatio (num den : Nat) : Float :=
  if num = 0 then 0 else
  let guess : Int := (Nat.log2 num : Int) - Nat.log2 den - 52
  let below := if guess < 0 then num * Nat.pow 2 (-guess).toNat < Nat.pow 2 52 * den
    else num < Nat.pow 2 52 * den * Nat.pow 2 guess.toNat
  let exponent := max (if below then guess - 1 else guess) (-1074)
  let mantissa := if exponent < 0 then roundDiv (num * Nat.pow 2 (-exponent).toNat) den
    else roundDiv num (den * Nat.pow 2 exponent.toNat)
  let bits := (exponent + 1074).toNat * Nat.pow 2 52 + mantissa
  if 0x7FF0000000000000 ≤ bits then infinity else Float.ofBits (UInt64.ofNat bits)

def ofInt? (n : Int) : Option Float :=
  let x := ofRatio n.natAbs 1
  if x.isInf then none else some (signed (n < 0) x)

def ofQuotient? (a b : Int) : Option Float :=
  let x := ofRatio a.natAbs b.natAbs
  if x.isInf then none else some (signed (decide (a < 0) != decide (b < 0)) x)

/-- `digits * 10 ^ power` as the nearest double. A power so large or small that the result cannot
be finite, or cannot differ from zero, is settled by the number of digits. -/
def ofDecimal (digits : Nat) (power : Int) : Float :=
  if digits = 0 then 0 else
  let scale := (Nat.toDigits 10 digits).length + power
  if scale > 400 then infinity
  else if scale < -400 then 0
  else if power < 0 then ofRatio digits (Nat.pow 10 (-power).toNat)
  else ofRatio (digits * Nat.pow 10 power.toNat) 1

def scaled (x : Float) : Int :=
  let m := magnitude x
  let n : Int := (m.mantissa * Nat.pow 2 m.exponent : Nat)
  if isNegative x then -n else n

def compareInt (n : Int) (x : Float) : Ordering :=
  if x.isInf then if isNegative x then .gt else .lt
  else compare (n * (Nat.pow 2 1074 : Nat)) (scaled x)

/-- The remainder of a division that cuts the quotient toward zero, which is exact. -/
def remainder (x y : Float) : Float :=
  if x.isNaN || y.isNaN || x.isInf then nan
  else if y.isInf then x
  else
    let a := (scaled x).natAbs
    let b := (scaled y).natAbs
    if b = 0 then nan else signed (isNegative x) (ofRatio (a % b) (Nat.pow 2 1074))

/-- The remainder that has the sign of the divisor. -/
def modulo (x y : Float) : Float :=
  let r := remainder x y
  if r == 0 then signed (isNegative y) 0
  else if isNegative y != isNegative r then r + y
  else r

def floorDiv (x y : Float) : Float :=
  let r := remainder x y
  let shifted := r != 0 && (isNegative y != isNegative r)
  let exact := (x - r) / y
  let q := if shifted then exact - 1 else exact
  if q == 0 then signed (isNegative (x / y)) 0
  else
    let f := q.floor
    if q - f > 0.5 then f + 1 else f

def toInt? (x : Float) : Option Int :=
  if x.isNaN || x.isInf then none
  else
    let unit : Int := (Nat.pow 2 1074 : Nat)
    if scaled x % unit = 0 then some (scaled x / unit) else none

end Sumi.Decimal.Binary
