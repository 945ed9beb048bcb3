import Sumi.Machine.Number

namespace Sumi.Machine.Value

mutual

/-- Equality as map keys. -/
def same (a b : Value) : Bool :=
  match a, b with
  | .nil, .nil => true
  | .str s, .str t => s == t
  | .keyword ns name, .keyword ns' name' => same ns ns' && same name name'
  | .symbol ns name, .symbol ns' name' => same ns ns' && same name name'
  | .list _ xs, .list _ ys | .list _ xs, .row ys | .row xs, .list _ ys | .row xs, .row ys =>
      sameAll xs ys
  | .vector xs, .vector ys => sameAll xs ys
  | .map es, .map fs => es.length == fs.length && sameEntries es fs
  | .set xs, .set ys => xs.length == ys.length && sameMembers xs ys
  | .atom i, .atom j => i == j
  | .var i _ _, .var j _ _ => i == j
  | .namespace p, .namespace q => p == q
  | .kind, .kind | .undecided, .undecided => true
  | .method p f, .method q g => p == q && f == g
  | .live m, .live n => m == n
  | .builtin f, .builtin g => f == g
  | .fn i _, .fn j _ => i == j
  | a, b =>
      match a.number?, b.number? with
      | some m, some n => m.equals n
      | _, _ => false

def sameAll : List Value → List Value → Bool
  | [], [] => true
  | x :: xs, y :: ys => same x y && sameAll xs ys
  | _, _ => false

def sameEntries : List (Value × Value) → List (Value × Value) → Bool
  | [], _ => true
  | (k, v) :: es, fs => fs.any (fun f => same k f.1 && same v f.2) && sameEntries es fs

def sameMembers : List Value → List Value → Bool
  | [], _ => true
  | x :: xs, ys => ys.any (same x) && sameMembers xs ys

end

instance : BEq Value := ⟨same⟩

def sequence? : Value → Option (List Value)
  | .list _ items | .row items | .vector items => some items
  | _ => none

mutual

/-- Equality as the library function `=` sees it. -/
def equals (a b : Value) : Bool :=
  match a with
  | .bool p => match b with
      | .bool q => p == q
      | _ => false
  | .list _ xs | .row xs | .vector xs =>
      match b.sequence? with
      | some ys => equalsAll xs ys
      | none => false
  | a => match b with
      | .bool _ => false
      | b => same a b

def equalsAll : List Value → List Value → Bool
  | [], [] => true
  | x :: xs, y :: ys => equals x y && equalsAll xs ys
  | _, _ => false

end

end Sumi.Machine.Value
