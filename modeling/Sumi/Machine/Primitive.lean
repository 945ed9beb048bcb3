import Sumi.Machine.Eval

namespace Sumi.Machine

inductive Primitive
  | provide
  | provided
  | define
  | assign
  | namespaceOf
  | throw
  | truthy
  | namedFn
  | keyword
  | prStr
  | printStr
  deriving DecidableEq, Repr

namespace Primitive

open Value

def providedNames (m : Machine) : List String :=
  m.provided.mergeSort (fun s t => decide (s ≤ t))

/-- A function that calls what `make` gives for it. It has neither that nor its label before. -/
def makeNamed (name make : Value) : Run Value := do
  let id ← Run.freshId
  let f : Value := .fn id .forward
  let g ← apply depth make [f]
  modify fun m => { m with forwards := m.forwards.put id g }
  let munged ← Run.munged name
  let label ← if name.isSolid then Run.plain name else pure munged
  modify fun m => { m with labels := m.labels.put id label }
  return f

def run : Primitive → List Value → Run Value
  | .provide, [ns] => Run.provide ns (.vector [])
  | .provide, [ns, requires] => Run.provide ns requires
  | .provided, [] => do
      let m ← get
      if m.providedOthers.isEmpty then return .vector ((providedNames m).map .str)
      else Run.fault .wrongType
  | .define, [ns, name, value] => Run.define ns name value
  | .assign, [ns, name, value] => Run.assign ns name value
  | .namespaceOf, [ns] => do return .namespace (← Run.placeOf ns)
  | .throw, [v] => Run.throwValue v
  | .truthy, [v] => return .bool v.isTruthy
  | .namedFn, [name, make] => makeNamed name make
  | .keyword, [ns, name] => return .keyword ns name
  | .prStr, vs => do return .str (← Run.printAll true vs)
  | .printStr, vs => do return .str (← Run.printAll false vs)
  | _, _ => Run.fault .wrongType

end Primitive

end Sumi.Machine
