import Sumi.Machine.Library.Template
import Sumi.Machine.Order
import Sumi.Machine.State

namespace Sumi.Machine.Library

open Value

/-- `n` copies of a row of members, none if `n` is not positive. Of two ways to be too long, texts
that no length can count are an overflow. -/
def repeated {α : Type} (counted : Nat) (n : Int) (xs : List α) : Result (List α) :=
  let limit : Int := Nat.pow 2 63
  if n < -limit ∨ limit ≤ n then .error (.fault .overflow)
  else
    let size := n.toNat * xs.length
    if size = 0 then .ok []
    else if size ≤ sizeLimit then .ok (List.replicate n.toNat xs).flatten
    else if counted ≤ size then .error (.fault .overflow)
    else .error (.fault .tooLarge)

def repeatValue (n : Int) : Value → Result Value
  | .str s => (repeated (Nat.pow 2 63) n s.toList).map (fun cs => .str (String.ofList cs))
  | .vector items => (repeated (Nat.pow 2 128) n items).map .vector
  | .list _ items | .row items => (repeated (Nat.pow 2 128) n items).map .row
  | _ => .error .wrongType

def product (a b : Value) : Result Value :=
  match a.number?, b.number? with
  | some _, some _ => numbers Number.mul a b
  | _, _ =>
      match a.whole?, b.whole? with
      | some n, _ => repeatValue n b
      | _, some n => repeatValue n a
      | _, _ => .error .wrongType

def difference (a b : Value) : Result Value :=
  match a, b with
  | .set xs, .set ys => .ok (.set (xs.filter (fun x => !ys.any (same x))))
  | a, b => numbers Number.sub a b

def negated (a : Value) : Result Value :=
  a.number?.elim (.error .wrongType) (fun n => .ok n.neg.toValue)

def magnitude (a : Value) : Result Value :=
  a.number?.elim (.error .wrongType) (fun n => .ok n.abs.toValue)

def modulo (a b : Value) : Run Value := do
  match a with
  | .str s =>
      let m ← get
      return .str (← Template.write (fun v => v.plain (m.lookup depth)) s b)
  | a => numbers Number.mod a b

/-- The first of the values that no later one exceeds, in the sense of `c`. -/
def extreme (c : Comparison) (x : Value) (xs : List Value) : Result Value :=
  xs.foldlM (fun best y => do return if ← compares c y best then y else best) x

def chain (c : Comparison) : List Value → Result Bool
  | x :: y :: rest => do if ← compares c x y then chain c (y :: rest) else return false
  | _ => .ok true

def hasParity (n : Int) (v : Value) : Run Value := do
  return .bool (same (← modulo v (.int 2)) (.int n))

end Sumi.Machine.Library
