import Sumi.Machine.Equality
import Sumi.Machine.Sort

namespace Sumi.Machine

inductive Comparison
  | lt
  | gt
  | le
  | ge
  deriving DecidableEq, Repr

namespace Comparison

def admits : Comparison → Ordering → Bool
  | .lt, o => o == .lt
  | .gt, o => o == .gt
  | .le, o => o != .gt
  | .ge, o => o != .lt

/-- Whether sets compare, by the number of members once the one is inside the other. -/
def admitsSets (c : Comparison) (xs ys : List Value) : Bool :=
  let inside := Value.sameMembers xs ys
  let around := Value.sameMembers ys xs
  match c with
  | .lt => inside && !around
  | .gt => around && !inside
  | .le => inside
  | .ge => around

end Comparison

namespace Value

mutual

def compares (c : Comparison) (a b : Value) : Result Bool :=
  match a, b with
  | .str s, .str t =>
      .ok (c.admits (compare (s.toList.map Text.CodePoint.ofChar) (t.toList.map Text.CodePoint.ofChar)))
  | .list _ xs, .list _ ys | .list _ xs, .row ys | .row xs, .list _ ys | .row xs, .row ys =>
      comparesAll c xs ys
  | .vector xs, .vector ys => comparesAll c xs ys
  | .set xs, .set ys => .ok (c.admitsSets xs ys)
  | a, b =>
      match a.number?, b.number? with
      | some m, some n => .ok ((m.compare? n).any c.admits)
      | _, _ => .error .wrongType

def comparesAll (c : Comparison) : List Value → List Value → Result Bool
  | x :: xs, y :: ys => if same x y then comparesAll c xs ys else compares c x y
  | xs, ys => .ok (c.admits (compare xs.length ys.length))

end

def sortByKey (entries : List (Value × Value)) : Result (List Value) := do
  return (← Sort.sort (fun e f => compares .lt e.1 f.1) entries).map Prod.snd

end Value

end Sumi.Machine
