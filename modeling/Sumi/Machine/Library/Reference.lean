import Sumi.Machine.State

namespace Sumi.Machine.Library

def holder? : Value → Option Holder
  | .atom id | .list id _ | .var id _ _ | .fn id _ => some (.made id)
  | .builtin op => some (.builtin op)
  | .kind => some .kind
  | _ => none

def atom (v : Value) : Run Value := do
  let id ← Run.freshId
  Run.hold (.made id) v
  return .atom id

def heldBy (v : Value) : Run Value := do
  match v with
  | .namespace place => Run.member place Space.valueKey
  | v =>
      let m ← get
      match (holder? v).bind (fun h => m.held.get? h) with
      | some value => return value
      | none => Run.fault .noAttribute

def deref (v : Value) : Run Value :=
  match v with
  | .var _ ns name => do
      let place ← Run.placeOf ns
      Run.member place (← Run.munged name)
  | v => heldBy v

def reset (v value : Value) : Run Value := do
  match v with
  | .namespace place => Run.put place Space.valueKey value
  | v =>
      match holder? v with
      | some h => Run.hold h value
      | none => Run.fault .noAttribute
  return value

end Sumi.Machine.Library
