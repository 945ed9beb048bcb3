import Sumi.Machine.Order
import Sumi.Machine.State

namespace Sumi.Machine.Library

open Value

def seqOf (items : List Value) : Run Value :=
  if items.isEmpty then return .nil else Run.list items

def first (v : Value) : Result Value := do return (← v.itemsOf).head?.getD .nil

def second (v : Value) : Result Value := do return (← v.itemsOf)[1]?.getD .nil

def final (v : Value) : Result Value := do return (← v.itemsOf).getLast?.getD .nil

def rest (v : Value) : Result (List Value) := do return (← v.itemsOf).tail

def count : Value → Result Value
  | .nil => .ok (.int 0)
  | v => do return .int (← v.itemsOf).length

def putAll (entries : List (Value × Value)) (pairs : List (Value × Value)) :
    Result (List (Value × Value)) :=
  pairs.foldlM (fun t e => do return Table.put (← hashed e.1) e.2 t) entries

def mapOf (pairs : List (Value × Value)) : Result Value := do return .map (← putAll [] pairs)

def pairOf (v : Value) : Result (Value × Value) :=
  match v.members? with
  | none => .error .wrongType
  | some [k, x] => .ok (k, x)
  | some _ => .error (.fault .wrongValue)

/-- Puts into a map the entries of another one, or the pairs of another collection. What counts as
nothing has none. -/
def absorb (entries : List (Value × Value)) (v : Value) : Result (List (Value × Value)) :=
  match v with
  | .map more => if entries.isEmpty then .ok more else putAll entries more
  | v =>
      if v.isSolid then do
        (← v.itemsOf).foldlM (fun t e => do
          let (k, x) ← pairOf e
          return Table.put (← hashed k) x t) entries
      else .ok entries

/-- The member of a text, list or vector at an index that counts from the end if negative. -/
def memberAt (v : Value) (index : Nat) : Result Value :=
  match v with
  | .str _ | .list _ _ | .row _ | .vector _ => do
      ((← v.itemsOf)[index]?).elim (.error (.fault .outOfRange)) .ok
  | _ => .error .wrongType

def setPut (items : List Value) (x : Value) : Result (List Value) := do
  let x ← hashed x
  return if items.any (same x) then items else items ++ [x]

/-- Adds one value where the collection takes it: a map an entry, a vector at the end, a set
anywhere, any other at the front of a list. -/
def conjOne (coll x : Value) : Run Value :=
  match coll with
  | .map entries => do
      match (← get).settled x with
      | .map more => return .map (← putAll entries more)
      | x =>
          let value ← memberAt x 1
          let key ← memberAt x 0
          return .map (← putAll entries [(key, value)])
  | .vector items => return .vector (items ++ [x])
  | .set items => do return .set (← setPut items x)
  | coll => do
      match coll.members? with
      | some items => Run.list (x :: items)
      | none => Run.fault .wrongType

def conj (coll : Value) (xs : List Value) : Run Value := do
  let start ← match coll with
    | .nil => Run.list []
    | coll => pure coll
  xs.foldlM conjOne start

def index? : Value → Option Int
  | .int n => some n
  | _ => none

def at? (items : List Value) (n : Int) : Option Value :=
  if n < 0 then none else items[n.toNat]?

def lookUp (coll key default : Value) : Result Value :=
  match coll with
  | .map entries => do return (Table.get? (← hashed key) entries).getD default
  | .set items =>
      match key with
      | .set _ => .ok (if items.any (same key) then key else default)
      | key => do return if items.any (same (← hashed key)) then key else default
  | .str _ | .list _ _ | .row _ | .vector _ =>
      match index? key with
      | some n => do return (at? (← coll.itemsOf) n).getD default
      | none => .ok default
  | _ => .ok default

def lookUpIn (default : Value) (coll : Value) : List Value → Result Value
  | [] => .ok (match coll with
      | .nil => default
      | coll => coll)
  | key :: keys =>
      match coll with
      | .nil => .ok default
      | coll => do lookUpIn default (← lookUp coll key .nil) keys

def hasKey (coll key : Value) : Result Bool :=
  match coll with
  | .map entries => do return Table.has (← hashed key) entries
  | .set items => do
      match key with
      | .set _ => return items.any (same key)
      | key => return items.any (same (← hashed key))
  | .str _ | .list _ _ | .row _ | .vector _ => do
      let size : Int := (← coll.itemsOf).length
      return key.whole?.any (fun n => 0 ≤ n && n < size)
  | _ => .ok false

/-- A vector with the value at `key` replaced, or added if `key` is its length. The index may count
from the end. -/
def assocVector (items : List Value) (key value : Value) : Result (List Value) :=
  let size : Int := items.length
  if same key (.int size) then .ok (items ++ [value])
  else
    match key.whole? with
    | none => .error .wrongType
    | some n =>
        let place := if n < 0 then n + size else n
        if 0 ≤ place ∧ place < size then .ok (items.set place.toNat value)
        else .error (.fault .outOfRange)

def pairUp : List Value → List (Value × Value)
  | k :: v :: rest => (k, v) :: pairUp rest
  | _ => []

def assoc (coll : Value) (pairs : List (Value × Value)) : Result Value :=
  match coll with
  | .vector items => do
      return .vector (← pairs.foldlM (fun items e => assocVector items e.1 e.2) items)
  | coll => do return .map (← putAll (← absorb [] coll) pairs)

def without (entries : List (Value × Value)) (keys : List Value) : List (Value × Value) :=
  entries.filter (fun e => !keys.any (same e.1))

def merge (maps : List Value) : Result Value := do
  let isNil : Value → Bool
    | .nil => true
    | _ => false
  if maps.all isNil then return .nil
  return .map (← maps.foldlM absorb [])

def zipmap (ks vs : Value) : Result Value := do
  let ks ← ks.itemsOf
  let vs ← vs.itemsOf
  mapOf (ks.zip vs)

def concat (colls : List Value) : Result (List Value) := do
  return (← colls.mapM itemsOf).flatten

/-- A bound of a part of `size` members. A negative one counts from the end, and one beyond an end
is that end. -/
def bound (size default : Nat) : Value → Result Nat
  | .nil => .ok default
  | v =>
      match v.whole? with
      | none => .error .wrongType
      | some n => .ok (if n < 0 then (n + size).toNat else min n.toNat size)

def cut {α : Type} (items : List α) (start stop : Value) : Result (List α) := do
  let lo ← bound items.length 0 start
  let hi ← bound items.length items.length stop
  return (items.take hi).drop lo

def part (v start stop : Value) : Result Value :=
  match v with
  | .str s => do return .str (String.ofList (← cut s.toList start stop))
  | .vector items => do return .vector (← cut items start stop)
  | .list _ items | .row items => do return .row (← cut items start stop)
  | _ => .error .wrongType

def nth? (items : List Value) (index : Value) : Result (Option Value) :=
  match index.number? with
  | none => .error .wrongType
  | some n =>
      let size : Int := items.length
      if (n.compare? (.int 0)).any (· != .lt) && n.compare? (.int size) == some .lt then
        match index.whole? with
        | some i => .ok (at? items i)
        | none => .error .wrongType
      else .ok none

def steps (start stop step : Int) : Result (List Value) :=
  let span := if step < 0 then start - stop else stop - start
  let count := if span ≤ 0 then 0 else ((span - 1) / step.natAbs + 1).toNat
  if Nat.pow 2 63 ≤ count then .error (.fault .overflow)
  else if sizeLimit < count then .error (.fault .tooLarge)
  else .ok ((List.range count).map (fun (i : Nat) => .int (start + i * step)))

def range (args : List Value) : Result (List Value) :=
  match args.mapM whole? with
  | none => .error .wrongType
  | some [] => .error (.thrown "Infinite range is not supported")
  | some [stop] => steps 0 stop 1
  | some [start, stop] => steps start stop 1
  | some [start, stop, step] =>
      if step = 0 then .error (.fault .wrongValue) else steps start stop step
  | some _ => .error .wrongType

end Sumi.Machine.Library
