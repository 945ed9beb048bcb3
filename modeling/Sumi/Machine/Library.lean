import Sumi.Machine.Library.Arithmetic
import Sumi.Machine.Library.Collection
import Sumi.Machine.Library.Method
import Sumi.Machine.Library.Naming
import Sumi.Machine.Library.Reference

namespace Sumi.Machine.Library

open Value

abbrev Call := Value → List Value → Run Value

def unary (f : Value → Run Value) : List Value → Run Value
  | [x] => f x
  | _ => Run.fault .wrongType

def binary (f : Value → Value → Run Value) : List Value → Run Value
  | [x, y] => f x y
  | _ => Run.fault .wrongType

def leading (f : Value → List Value → Run Value) : List Value → Run Value
  | x :: xs => f x xs
  | [] => Run.fault .wrongType

def optional (default : Value) (f : Value → Value → Value → Run Value) : List Value → Run Value
  | [x, y] => f x y default
  | [x, y, z] => f x y z
  | _ => Run.fault .wrongType

def pred (p : Value → Bool) : List Value → Run Value := unary fun v => return .bool (p v)

def compareZero (c : Comparison) : List Value → Run Value :=
  unary fun v => do return .bool (← compares c v (.int 0))

def isFn : Value → Bool
  | .keyword _ _ | .kind => false
  | v => v.isCallable

def isNumber : Value → Bool
  | .int _ | .float _ => true
  | _ => false

def isInt : Value → Bool
  | .int _ => true
  | _ => false

def isStr : Value → Bool
  | .str _ => true
  | _ => false

def isKeyword : Value → Bool
  | .keyword _ _ => true
  | _ => false

def isSymbol : Value → Bool
  | .symbol _ _ => true
  | _ => false

def isList : Value → Bool
  | .list _ _ | .row _ => true
  | _ => false

def isVector : Value → Bool
  | .vector _ => true
  | _ => false

def isMap : Value → Bool
  | .map _ => true
  | _ => false

def isColl : Value → Bool
  | .list _ _ | .row _ | .vector _ | .map _ | .set _ => true
  | _ => false

def isNil : Value → Bool
  | .nil => true
  | _ => false

def isBool (b : Bool) : Value → Bool
  | .bool p => p == b
  | _ => false

def columns : Nat → List (List Value) → List (List Value)
  | 0, _ => []
  | n + 1, lists =>
      match lists.mapM List.head? with
      | none => []
      | some heads => heads :: columns n (lists.map List.tail)

def mapOver (call : Call) (f : Value) (colls : List Value) : Run Value := do
  if colls.isEmpty then Run.fault .wrongType
  let lists ← (colls.mapM itemsOf : Result _)
  let rows := columns ((lists.map List.length).headD 0) lists
  Run.list (← rows.mapM (call f))

def filterBy (call : Call) (keep : Bool) (f coll : Value) : Run Value := do
  let items ← coll.itemsOf
  let kept ← items.filterM fun x => do return (← call f [x]).isTruthy == keep
  Run.list kept

def foldOver (call : Call) (f start : Value) (items : List Value) : Run Value :=
  items.foldlM (fun acc x => call f [acc, x]) start

def reduce (call : Call) (f : Value) : List Value → Run Value
  | [coll] => do
      match ← coll.itemsOf with
      | [] => call f []
      | x :: xs => foldOver call f x xs
  | [start, coll] => do foldOver call f start (← coll.itemsOf)
  | _ => Run.fault .wrongValue

def applyTo (call : Call) (f : Value) (args : List Value) : Run Value :=
  match args.getLast? with
  | none => call f []
  | some last => do call f (args.dropLast ++ (← last.itemsOf))

def someOf (call : Call) (f : Value) : List Value → Run Value
  | [] => return .nil
  | x :: xs => do
      let answer ← call f [x]
      if answer.isTruthy then return answer else someOf call f xs

def everyOf (call : Call) (f : Value) : List Value → Run Bool
  | [] => return true
  | x :: xs => do if (← call f [x]).isTruthy then everyOf call f xs else return false

def make (rule : Rule) : Run Value := do return .fn (← Run.freshId) rule

def sortBy (call : Call) (f coll : Value) : Run Value := do
  let items ← coll.itemsOf
  let entries ← items.mapM fun x => do
    match f with
    | .nil => return (x, x)
    | f => return (← call f [x], x)
  Run.list (← sortByKey entries)

def ask (call : Call) (place : Place) (word : String) : Run (List Value) := do
  let answer ← call (← Run.member place word) []
  match ((← get).settled answer).members? with
  | some items => return items
  | none => Run.fault .wrongType

/-- A part of the entries of a map, in order; nothing of what counts as nothing. -/
def partOf (call : Call) (part : Value × Value → Value) (word : String) (coll : Value) :
    Run Value :=
  match coll with
  | .namespace place => do Run.list (← ask call place word)
  | .map (e :: es) => Run.list ((e :: es).map part)
  | coll => if coll.isSolid then Run.fault .noAttribute else return .nil

def dissoc (call : Call) (coll : Value) (keys : List Value) : Run Value :=
  match coll with
  | .nil => return .nil
  | .map entries => return .map (without entries keys)
  | .namespace place => do
      let pairs ← (← ask call place "items").mapM fun v => (pairOf v : Run _)
      mapOf (without pairs keys)
  | _ => Run.fault .noAttribute

def swap (call : Call) (v f : Value) (args : List Value) : Run Value := do
  let value ← heldBy v
  let value ← call f (value :: args)
  let _ ← reset v value
  heldBy v

def say (readably : Bool) (ending : String) (vs : List Value) : Run Value := do
  let text ← Run.printAll readably vs
  Run.emit (text ++ ending)
  return .nil

/-- Which arguments a function looks into, or even into what is in them. It passes the others on as
they are. -/
inductive Reach
  | none
  | first
  | last
  | all
  | inside
  deriving DecidableEq, Repr

def reach : Builtin → Reach
  | .identity | .list | .vector | .hashMap | .constantly | .partially | .atom | .reset | .swap
  | .str | .prStr | .prn | .print | .println => .none
  | .conj | .get | .nth | .assoc => .first
  | .cons | .apply | .reduce => .last
  | .eq | .notEq => .inside
  | _ => .all

def Reach.settle (m : Machine) (args : List Value) : Reach → List Value
  | .none => args
  | .first => (args.take 1).map m.settled ++ args.drop 1
  | .last => args.dropLast ++ args.getLast?.toList.map m.settled
  | .all => args.map m.settled
  | .inside => args.map (m.settledInside 4)

def run (call : Call) : Builtin → List Value → Run Value
  | .add => fun xs => (xs.foldlM (numbers Number.add) (.int 0) : Result Value)
  | .sub => leading fun x xs =>
      if xs.isEmpty then negated x else (xs.foldlM difference x : Result Value)
  | .mul => fun xs => (xs.foldlM product (.int 1) : Result Value)
  | .div => leading fun x xs =>
      if xs.isEmpty then numbers Number.div (.int 1) x
      else (xs.foldlM (numbers Number.div) x : Result Value)
  | .quot => binary fun x y => numbers Number.quot x y
  | .rem => binary fun x y => numbers Number.rem x y
  | .mod => binary modulo
  | .inc => unary fun x => numbers Number.add x (.int 1)
  | .dec => unary fun x => numbers Number.sub x (.int 1)
  | .greatest => leading fun x xs => extreme .gt x xs
  | .least => leading fun x xs => extreme .lt x xs
  | .abs => unary fun x => magnitude x
  | .eq => leading fun x xs => return .bool (xs.all (equals x))
  | .notEq => leading fun x xs => return .bool (!xs.all (equals x))
  | .lt => fun xs => do return .bool (← chain .lt xs)
  | .gt => fun xs => do return .bool (← chain .gt xs)
  | .le => fun xs => do return .bool (← chain .le xs)
  | .ge => fun xs => do return .bool (← chain .ge xs)
  | .negation => pred fun x => !x.isTruthy
  | .identity => unary pure
  | .isNil => pred isNil
  | .isSome => pred fun x => !isNil x
  | .isTrue => pred (isBool true)
  | .isFalse => pred (isBool false)
  | .isZero => pred fun x => same x (.int 0)
  | .isPos => compareZero .gt
  | .isNeg => compareZero .lt
  | .isEven => unary (hasParity 0)
  | .isOdd => unary (hasParity 1)
  | .isNumber => pred isNumber
  | .isInteger => pred isInt
  | .isString => pred isStr
  | .isKeyword => pred isKeyword
  | .isSymbol => pred isSymbol
  | .isFn => pred isFn
  | .isList => pred isList
  | .isVector => pred isVector
  | .isMap => pred isMap
  | .isColl => pred isColl
  | .list => Run.list
  | .vector => fun xs => return .vector xs
  | .hashMap => fun xs =>
      if xs.length % 2 = 0 then mapOf (pairUp xs)
      else Run.fail (.thrown "hash-map requires an even number of arguments")
  | .count => unary fun x => count x
  | .seq => unary fun x => do seqOf (← x.itemsOf)
  | .isEmpty => unary fun x => do return .bool (← x.itemsOf).isEmpty
  | .first => unary fun x => first x
  | .second => unary fun x => second x
  | .last => unary fun x => final x
  | .rest => unary fun x => do Run.list (← rest x)
  | .next => unary fun x => do seqOf (← rest x)
  | .cons => binary fun x coll => do Run.list (x :: (← coll.itemsOf))
  | .conj => leading fun coll xs => conj coll xs
  | .get => optional .nil fun coll key default => lookUp coll key default
  | .getIn => optional .nil fun coll keys default => do
      lookUpIn default coll (← keys.itemsOf)
  | .nth => leading fun coll args => do
      let items ← coll.itemsOf
      match args with
      | [] => Run.fault .wrongType
      | index :: defaults =>
          match ← nth? items index, defaults with
          | some value, _ => return value
          | none, default :: _ => return default
          | none, [] =>
              let text ← Run.plain index
              Run.fail (.thrown ("Index " ++ text ++ " out of bounds for collection of size " ++
                toString items.length))
  | .assoc => leading fun coll args => do
      if args.length < 2 then Run.fault .wrongType
      assoc coll (pairUp args)
  | .dissoc => leading (dissoc call)
  | .keys => unary (partOf call Prod.fst "keys")
  | .vals => unary (partOf call Prod.snd "values")
  | .contains => binary fun coll key => do return .bool (← hasKey coll key)
  | .merge => fun xs => merge xs
  | .zipmap => binary fun ks vs => zipmap ks vs
  | .concat => fun xs => do Run.list (← concat xs)
  | .into => binary fun target coll => do conj target (← coll.itemsOf)
  | .reverse => unary fun x => do Run.list (← x.itemsOf).reverse
  | .sort => unary fun x => do Run.list (← sortByKey ((← x.itemsOf).map (fun v => (v, v))))
  | .sortBy => binary (sortBy call)
  | .take => binary fun n coll => do Run.list (← cut (← coll.itemsOf) .nil n)
  | .drop => binary fun n coll => do Run.list (← cut (← coll.itemsOf) n .nil)
  | .range => fun xs => do Run.list (← range xs)
  | .repeated => binary fun n x => do
      match n.whole? with
      | some n => Run.list (← repeated (Nat.pow 2 128) n [x])
      | none => Run.fault .wrongType
  | .map => leading (mapOver call)
  | .filter => binary (filterBy call true)
  | .remove => binary (filterBy call false)
  | .reduce => leading (reduce call)
  | .apply => leading (applyTo call)
  | .anyOf => binary fun f coll => do someOf call f (← coll.itemsOf)
  | .every => binary fun f coll => do return .bool (← everyOf call f (← coll.itemsOf))
  | .comp => fun fs => if fs.isEmpty then return .builtin .identity else make (.composed fs)
  | .partially => leading fun f args =>
      if f.isCallable then make (.bound f args) else Run.fault .wrongType
  | .constantly => unary fun x => make (.constant x)
  | .str => str
  | .subs => optional .nil fun s start stop => part s start stop
  | .nameOf => unary nameOf
  | .namespaceOf => unary namespaceOf
  | .keyword => fun xs => keyword xs
  | .symbol => fun xs => symbol xs
  | .gensym => fun
      | [] => gensym (.str "G__")
      | [start] => gensym start
      | _ => Run.fault .wrongType
  | .prStr => fun xs => do return .str (← Run.printAll true xs)
  | .prn => say true "\n"
  | .print => say false ""
  | .println => say false "\n"
  | .atom => unary atom
  | .deref => unary deref
  | .reset => binary reset
  | .swap => leading fun v args =>
      match args with
      | f :: args => swap call v f args
      | [] => Run.fault .wrongType
  | .exMessage => unary fun x => do return .str (← Run.plain x)

end Sumi.Machine.Library
