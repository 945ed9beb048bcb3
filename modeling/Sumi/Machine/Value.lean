import Sumi.Code.Basic
import Sumi.Machine.Builtin
import Sumi.Machine.Space
import Sumi.Table

namespace Sumi.Machine

mutual

inductive Value
  | nil
  | bool (b : Bool)
  | int (n : Int)
  | float (x : Float)
  | str (s : String)
  | keyword (ns name : Value)
  | symbol (ns name : Value)
  | list (id : Nat) (items : List Value)
  /-- A list in all but its plain text, and without an identity. Cutting or repeating a list gives
  one. -/
  | row (items : List Value)
  | vector (items : List Value)
  | map (entries : List (Value × Value))
  | set (items : List Value)
  | atom (id : Nat)
  | var (id : Nat) (ns name : Value)
  | namespace (place : Place)
  /-- What makes namespaces. -/
  | kind
  | method (place : Place) (op : Method)
  | live (source : Live)
  /-- The answer to a comparison that nothing is known about. -/
  | undecided
  | builtin (op : Builtin)
  | fn (id : Nat) (rule : Rule)

/-- What a function made at run time does with its arguments. -/
inductive Rule
  | lambda (params : List String) (rest : Option String) (body : Code)
      (env : List (String × Value))
  /-- A lambda whose environment lacks only itself, under the name `self`. -/
  | recursive (label self : String) (params : List String) (rest : Option String) (body : Code)
      (env : List (String × Value))
  | bound (f : Value) (args : List Value)
  | composed (fs : List Value)
  | constant (value : Value)
  /-- Does what the machine keeps for it. -/
  | forward

end

instance : Inhabited Value := ⟨.nil⟩

abbrev Locals := List (String × Value)

namespace Value

def isTruthy : Value → Bool
  | .nil | .bool false => false
  | _ => true

def ofName (n : Name) : Value × Value := (n.ns.elim .nil .str, .str n.name)

def isCallable : Value → Bool
  | .builtin _ | .fn _ _ | .keyword _ _ | .kind | .method _ _ => true
  | _ => false

/-- Numbers, texts, names and lists of those, and whatever has an identity. -/
def isHashable : Value → Bool
  | .vector _ | .map _ | .set _ | .live _ => false
  | .list _ items | .row items => allHashable items
  | .keyword ns name | .symbol ns name => isHashable ns && isHashable name
  | _ => true
where
  allHashable : List Value → Bool
    | [] => true
    | v :: vs => isHashable v && allHashable vs

mutual

/-- A value in which `f` says what stands for the maps that change. -/
def withLive (f : Live → Value) : Value → Value
  | .live source => f source
  | .list id items => .list id (withLiveAll f items)
  | .row items => .row (withLiveAll f items)
  | .vector items => .vector (withLiveAll f items)
  | .map entries => .map (withLiveEntries f entries)
  | v => v

def withLiveAll (f : Live → Value) : List Value → List Value
  | [] => []
  | v :: vs => withLive f v :: withLiveAll f vs

def withLiveEntries (f : Live → Value) : List (Value × Value) → List (Value × Value)
  | [] => []
  | (k, v) :: es => (k, withLive f v) :: withLiveEntries f es

end

def items? : Value → Option (List Value)
  | .nil => some []
  | .list _ items | .row items | .vector items | .set items => some items
  | .map entries => some (entries.map (fun e => .vector [e.1, e.2]))
  | .str s => some (s.toList.map (fun c => .str (String.singleton c)))
  | _ => none

def members? : Value → Option (List Value)
  | .nil => none
  | .map entries => some (entries.map Prod.fst)
  | v => v.items?

/-- Whether a value counts as something where emptiness counts as nothing. -/
def isSolid : Value → Bool
  | .nil | .bool false => false
  | .int n => n != 0
  | .float x => x != 0
  | .str s => !s.isEmpty
  | .list _ items | .row items | .vector items | .set items => !items.isEmpty
  | .map entries => !entries.isEmpty
  | _ => true

end Value

end Sumi.Machine
