import Sumi.Machine.State

namespace Sumi.Machine.Library

open Value

def makeNamespace : List Value → Run Value
  | [name] => do
      let place := Place.numbered (← Run.freshId)
      Run.start place name
      return .namespace place
  | _ => Run.fault .wrongType

def erase (place : Place) (attr : String) : Run Unit := do
  if attr = Space.kindKey then Run.fault .wrongType
  else if attr = Space.contentsKey then modify fun m => m.setSpace place []
  else
    let s := (← get).space place
    if s.has attr then modify fun m => m.setSpace place (s.erase attr) else Run.fault .noAttribute

/-- The names of all that a namespace has: first what was put into it. -/
def namesOf (m : Machine) (place : Place) : List Value :=
  let s := m.space place
  (s.keys ++ (Space.ownNames (m.held.has .kind)).filter (!s.has ·)).map .str

def ofNamespace (place : Place) : Method → List Value → Run Value
  | .init, [name] => do
      Run.start place name
      return .nil
  | .missing, [.str attr] => Run.absent place attr
  | .missing, [_] => Run.fault .noAttribute
  | .repr, [] | .str, [] | .format, [.str ""] => do return .str (← Run.plain (.namespace place))
  | .new, .kind :: _ => do
      let place := Place.numbered (← Run.freshId)
      modify fun m => m.setSpace place []
      return .namespace place
  | .hash, [] => return .int 0
  | .get, [.str attr] => do
      match (← get).member? place attr with
      | some value => return value
      | none => Run.fault .noAttribute
  | .put, [.str attr, value] => do
      Run.put place attr value
      return .nil
  | .erase, [.str attr] => do
      erase place attr
      return .nil
  | .eq, [v] => return if same (.namespace place) v then .bool true else .undecided
  | .ne, [v] => return if same (.namespace place) v then .bool false else .undecided
  | .lt, [_] | .le, [_] | .gt, [_] | .ge, [_] | .subclass, _ => return .undecided
  | .subclassed, [] => return .nil
  | .state, [] => do
      return if ((← get).space place).isEmpty then .nil else .live (.contents place)
  | .size, [] => return .int 24
  | .names, [] => do return .vector (namesOf (← get) place)
  | _, _ => Run.fault .wrongType

end Sumi.Machine.Library
