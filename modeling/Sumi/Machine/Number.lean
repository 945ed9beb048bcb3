import Sumi.Decimal.Binary
import Sumi.Machine.Value

namespace Sumi.Machine

open Decimal

inductive Number
  | int (n : Int)
  | float (x : Float)

inductive Number.Fault
  | divisionByZero
  | overflow
  deriving DecidableEq, Repr

def Value.number? : Value → Option Number
  | .bool b => some (.int (if b then 1 else 0))
  | .int n => some (.int n)
  | .float x => some (.float x)
  | _ => none

def Value.whole? : Value → Option Int
  | .bool b => some (if b then 1 else 0)
  | .int n => some n
  | _ => none

namespace Number

def toValue : Number → Value
  | .int n => .int n
  | .float x => .float x

def toFloat : Number → Except Fault Float
  | .int n => (Binary.ofInt? n).elim (.error .overflow) .ok
  | .float x => .ok x

def arith (whole : Int → Int → Except Fault Number) (double : Float → Float → Except Fault Float)
    (a b : Number) : Except Fault Number := do
  match a, b with
  | .int m, .int n => whole m n
  | a, b =>
      let x ← a.toFloat
      let y ← b.toFloat
      return .float (← double x y)

def add : Number → Number → Except Fault Number :=
  arith (fun m n => .ok (.int (m + n))) (fun x y => .ok (x + y))

def sub : Number → Number → Except Fault Number :=
  arith (fun m n => .ok (.int (m - n))) (fun x y => .ok (x - y))

def mul : Number → Number → Except Fault Number :=
  arith (fun m n => .ok (.int (m * n))) (fun x y => .ok (x * y))

def byNonzero (f : Float → Float → Float) (x y : Float) : Except Fault Float :=
  if y == 0 then .error .divisionByZero else .ok (f x y)

/-- Whole where the division of whole numbers comes out even, else double. -/
def div : Number → Number → Except Fault Number :=
  arith
    (fun m n =>
      if n = 0 then .error .divisionByZero
      else if m % n = 0 then .ok (.int (m / n))
      else (Binary.ofQuotient? m n).elim (.error .overflow) (fun x => .ok (.float x)))
    (byNonzero (· / ·))

def floorDiv : Number → Number → Except Fault Number :=
  arith (fun m n => if n = 0 then .error .divisionByZero else .ok (.int (Int.fdiv m n)))
    (byNonzero Binary.floorDiv)

def mod : Number → Number → Except Fault Number :=
  arith (fun m n => if n = 0 then .error .divisionByZero else .ok (.int (Int.fmod m n)))
    (byNonzero Binary.modulo)

def neg : Number → Number
  | .int n => .int (-n)
  | .float x => .float (-x)

def abs : Number → Number
  | .int n => .int n.natAbs
  | .float x => .float x.abs

/-- The order of two numbers, unless one of them is not a number at all. -/
def compare? : Number → Number → Option Ordering
  | .int m, .int n => some (compare m n)
  | .int m, .float y => if y.isNaN then none else some (Binary.compareInt m y)
  | .float x, .int n => if x.isNaN then none else some (Binary.compareInt n x).swap
  | .float x, .float y =>
      if x == y then some .eq else if x < y then some .lt else if y < x then some .gt else none

def equals (a b : Number) : Bool := compare? a b == some .eq

def quot (a b : Number) : Except Fault Number := do
  let q ← floorDiv a.abs b.abs
  let below (n : Number) : Bool := compare? n (.int 0) == some .lt
  return if below a == below b then q else q.neg

def rem (a b : Number) : Except Fault Number := do
  let q ← quot a b
  sub a (← mul b q)

end Number

end Sumi.Machine
