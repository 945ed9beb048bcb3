import Sumi.Machine.State

namespace Sumi.Machine.Library

open Value

def hasSlash : Value → Result Bool
  | .str s => .ok (s.toList.contains '/')
  | .nil => .error .wrongType
  | v => v.members?.elim (.error .wrongType) (fun items => .ok (items.any (same (.str "/"))))

/-- The namespace and name that a text cut at its first slash gives. A lone slash is a name. -/
def splitName (v : Value) : Result (Value × Value) := do
  if ← hasSlash v then
    match v with
    | .str s => return ofName (Name.ofSymbol s)
    | _ => throw (.fault .noAttribute)
  else return (.nil, v)

def nameParts : List Value → Result (Value × Value)
  | [] => .error (.fault .outOfRange)
  | [ns, name] => .ok (ns, name)
  | text :: _ => splitName text

def keyword : List Value → Result Value
  | [.keyword ns name] => .ok (.keyword ns name)
  | args => do
      let (ns, name) ← nameParts args
      return .keyword ns name

def symbol : List Value → Result Value
  | [.symbol ns name] => .ok (.symbol ns name)
  | args => do
      let (ns, name) ← nameParts args
      return .symbol ns name

def nameOf : Value → Run Value
  | .keyword _ name | .symbol _ name => return name
  | v => do return .str (← Run.plain v)

def namespaceOf : Value → Run Value
  | .keyword ns _ | .symbol ns _ => return ns
  | .var _ ns _ => return ns
  | .namespace place => Run.member place "ns"
  | _ => Run.fault .noAttribute

/-- A symbol with a number that no earlier one has. -/
def gensym (start : Value) : Run Value := do
  let text ← Run.plain start
  let n ← modifyGet fun m => (m.nextSymbol, { m with nextSymbol := m.nextSymbol + 1 })
  return .symbol .nil (.str (text ++ toString n))

def str (vs : List Value) : Run Value := do
  let texts ← vs.mapM fun v => match v with
    | .nil => pure ""
    | v => Run.print v false
  return .str (String.join texts)

end Sumi.Machine.Library
