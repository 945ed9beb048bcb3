import Sumi.Analysis.Namespace
import Sumi.Machine.Equality
import Sumi.Machine.Printer
import Sumi.Text.Compatibility

namespace Sumi.Machine

inductive Holder
  | made (id : Nat)
  | builtin (op : Builtin)
  | kind
  deriving DecidableEq

/-- Everything that was put into a namespace, in order: its vars under their names in the generated
code, and what it knows of itself. -/
abbrev Space := Table String Value

abbrev Entries := Table Value Value

def Space.fresh (place : Place) (name : Value) : Space :=
  [(Space.nameKey, name), (Space.varsKey, .live (.names place))]

end Machine

structure Machine where
  spaces : Table Machine.Place Machine.Space
  /-- The namespaces whose names are no texts. -/
  others : Table Machine.Value Nat := []
  provided : List String
  /-- The names of declared namespaces that are no texts. -/
  providedOthers : List Machine.Value := []
  maps : Table Machine.Live Machine.Entries := []
  held : Table Machine.Holder Machine.Value := []
  labels : Table Nat String := []
  forwards : Table Nat Machine.Value := []
  nextId : Nat := 0
  nextSymbol : Nat := 1
  /-- What runs the machine. -/
  program : String := "sumi.host"
  /-- What was printed and not yet passed on. -/
  printed : String := ""
  /-- What is printed goes where any text can be written. -/
  lenient : Bool := false

namespace Machine

/-- A computation that keeps its effects when it fails. -/
abbrev Run := ExceptT Failure (StateM Machine)

def libraryNames : List String := Builtin.all.map Builtin.spelling ++ ["*1", "*2", "*3"]

def librarySpace : Space :=
  Space.fresh (.named Namespace.core) (.str Namespace.core) ++
    Builtin.all.map (fun op => (Code.munge op.spelling, .builtin op)) ++
    ["*1", "*2", "*3"].map (fun name => (Code.munge name, .nil))

def initial : Machine where
  spaces := [(.named Namespace.core, librarySpace)]
  provided := [Namespace.core]
  maps := [(.names (.named Namespace.core), libraryNames.map (fun name => (.str name, .bool true)))]

def space (m : Machine) (place : Place) : Space :=
  (m.spaces.get? place).getD (match place with
    | .named name => Space.fresh place (.str name)
    | .numbered _ => [])

def setSpace (m : Machine) (place : Place) (s : Space) : Machine :=
  { m with spaces := m.spaces.put place s }

def setVar (m : Machine) (place : Place) (attr : String) (value : Value) : Machine :=
  m.setSpace place ((m.space place).put attr value)

def entries (m : Machine) (map : Live) : Entries :=
  match map with
  | .contents place => (m.space place).map (fun e => (.str e.1, e.2))
  | map => (m.maps.get? map).getD []

def setEntry (m : Machine) (map : Live) (key value : Value) : Machine :=
  match map with
  | .contents place =>
      match key with
      | .str attr => m.setVar place attr value
      | _ => m
  | map => { m with maps := m.maps.put map ((m.entries map).put key value) }

/-- A map that changes, as it is now. -/
def settled (m : Machine) : Value → Value
  | .live map => .map (m.entries map)
  | v => v

/-- A value with all maps that change, in it and in each other, as they are now. Those that are too
deep inside each other stay. -/
def settledInside (m : Machine) : Nat → Value → Value
  | 0, v => v
  | depth + 1, v => v.withLive (fun map => m.settledInside depth (.map (m.entries map)))

/-- What a namespace has under a name: some things before all that was put into it, others behind. -/
def member? (m : Machine) (place : Place) (attr : String) : Option Value :=
  if attr = Space.kindKey then some .kind
  else if attr = Space.contentsKey then some (.live (.contents place))
  else if attr = Space.referenceKey then some .nil
  else
    match (m.space place).get? attr with
    | some value => some value
    | none =>
        if attr = Space.describingKey then some (.str Space.description)
        else if attr = Space.programKey then some (.str m.program)
        else if attr = Space.valueKey then m.held.get? .kind
        else (Method.ofSpelling? attr).map (.method place)

def labelOf (m : Machine) (id : Nat) (rule : Rule) : String :=
  match rule with
  | .recursive label _ _ _ _ _ => label
  | rule => (m.labels.get? id).getD rule.label

def lacksLabel (m : Machine) : Value → Option Nat
  | .fn _ (.recursive _ _ _ _ _ _) => none
  | .fn id _ => if m.labels.has id then none else some id
  | _ => none

/-- How things are shown that show others in turn, up to a depth that only a thing inside itself
exceeds. -/
def lookup (m : Machine) : Nat → Lookup
  | 0 =>
      { atom := fun _ => .error (.fault .tooDeep), label := m.labelOf,
        live := fun _ _ => .error (.fault .tooDeep), space := fun _ => .error (.fault .tooDeep),
        program := m.program }
  | depth + 1 =>
      { atom := fun id => ((m.held.get? (.made id)).getD .nil).print (m.lookup depth) true
        label := m.labelOf
        live := fun map manner =>
          let v : Value := .map (m.entries map)
          match manner with
          | .quoted => v.print (m.lookup depth) true
          | .bare => v.print (m.lookup depth) false
          | .plain => v.plain (m.lookup depth)
        space := fun place =>
          match m.member? place Space.nameKey with
          | some name => name.plain (m.lookup depth)
          | none => .error (.fault .noAttribute)
        program := m.program }

def depth : Nat := 1000

def text (m : Machine) (readably : Bool) (v : Value) : Result String :=
  v.print (m.lookup depth) readably

namespace Run

def fail {α : Type} (f : Failure) : Run α := throw f

def fault {α : Type} (f : Fault) : Run α := throw (.fault f)

def ofResult {α : Type} : Result α → Run α
  | .ok a => pure a
  | .error f => throw f

instance : MonadLift Result Run := ⟨ofResult⟩

def freshId : Run Nat :=
  modifyGet fun m => (m.nextId, { m with nextId := m.nextId + 1 })

def print (v : Value) (readably : Bool) : Run String := do
  let m ← get
  m.text readably v

def plain (v : Value) : Run String := do
  let m ← get
  v.plain (m.lookup depth)

def printAll (readably : Bool) (vs : List Value) : Run String := do
  let texts ← vs.mapM (print · readably)
  return " ".intercalate texts

def emit (s : String) : Run Unit := do
  if (← get).lenient || Text.CodePoint.isEncodable s then
    modify fun m => { m with printed := m.printed ++ s }
  else fault .notEncodable

def list (items : List Value) : Run Value := do return .list (← freshId) items

/-- The failure for what a namespace does not have. It tells what the namespace calls itself. -/
def absent {α : Type} (place : Place) (attr : String) : Run α := do
  if Space.isReserved attr then fault .noAttribute
  else fail (.unbound (← ((← get).lookup depth).space place) attr)

def member (place : Place) (attr : String) : Run Value := do
  match (← get).member? place attr with
  | some value => return value
  | none => absent place attr

def attributeOf (attr : String) : Value → Run Value
  | .namespace place => member place (Text.Compatibility.normalize attr)
  | _ => fault .noAttribute

def lookupVar (ns attr : String) : Run Value := attributeOf attr (.namespace (.named ns))

/-- Begins a namespace with nothing but its name, or begins it anew: what was put into it stays. -/
def start (place : Place) (name : Value) : Run Unit := do
  let map := Live.made (← freshId)
  modify fun m => (m.setVar place Space.nameKey name).setVar place Space.varsKey (.live map)

def placeOf (name : Value) : Run Place := do
  match name with
  | .str s => return .named s
  | name =>
      let name ← name.hashed
      match (← get).others.get? name with
      | some id => return .numbered id
      | none =>
          let id ← freshId
          modify fun m => { m with others := m.others.put name id }
          start (.numbered id) name
          return .numbered id

def munged (name : Value) : Run String := do
  match name with
  | .str s => return Code.munge s
  | name =>
      match (← get).settled name |>.members? with
      | none => fault .wrongType
      | some parts => return Code.shielded (← parts.mapM mungedPart).flatten
where
  mungedPart (part : Value) : Run (List Char) := do
    match ← part.hashed with
    | .str s => ((Code.mungePart? s.toList).elim (fault .wrongType) pure)
    | .namespace place => do
        let _ ← member place "isalnum"
        fault .wrongType
    | _ => fault .noAttribute

/-- Puts something into a namespace. What every namespace has before all that is put into it stays as
it is. -/
def put (place : Place) (attr : String) (value : Value) : Run Unit := do
  if attr = Space.kindKey then
    match value with
    | .kind => return
    | _ => fault .wrongType
  else if attr = Space.contentsKey then
    match (← get).settled value with
    | .map entries =>
        let texts := entries.filterMap fun e => match e.1 with
          | .str s => some (s, e.2)
          | _ => none
        modify fun m => m.setSpace place texts
    | _ => fault .wrongType
  else if attr = Space.referenceKey then fault .noAttribute
  else
    match value with
    | .map entries =>
        if attr = Space.varsKey then
          let map := Live.made (← freshId)
          modify fun m => { m with maps := m.maps.put map entries }.setVar place attr (.live map)
        else modify fun m => m.setVar place attr value
    | value => modify fun m => m.setVar place attr value

def note (place : Place) (name : Value) : Run Unit := do
  match (← get).member? place Space.varsKey with
  | none => fault .noAttribute
  | some (.live map) =>
      let name ← name.hashed
      modify fun m => m.setEntry map name (.bool true)
  | some _ => fault .wrongType

def bindVar (ns name value : Value) : Run Unit := do
  let place ← placeOf ns
  put place (← munged name) value
  note place name

def giveLabel (ns name value : Value) : Run Unit :=
  modify fun m =>
    match m.lacksLabel value, ns.plain (m.lookup depth), name.plain (m.lookup depth) with
    | some id, .ok ns, .ok name => { m with labels := m.labels.put id (ns ++ "/" ++ name) }
    | _, _, _ => m

def define (ns name value : Value) : Run Value := do
  bindVar ns name value
  giveLabel ns name value
  return .var (← freshId) ns name

def assign (ns name value : Value) : Run Value := do
  bindVar ns name value
  return value

def isProvided (ns : Value) : Run Bool := do
  match ← ns.hashed with
  | .str s => return (← get).provided.contains s
  | ns => return (← get).providedOthers.contains ns

def textOf : Value → Run String
  | .str s => return s
  | _ => fault .wrongType

def provide (ns requires : Value) : Run Value := do
  if ← isProvided ns then
    fail (.thrown ("Namespace \"" ++ (← plain ns) ++ "\" already declared."))
  match ((← get).settled requires).members? with
  | none => fault .wrongType
  | some names =>
      let missing ← names.filterM fun name => do return !(← isProvided name)
      if missing.isEmpty then
        modify fun m => match ns with
          | .str s => { m with provided := m.provided ++ [s] }
          | ns => { m with providedOthers := m.providedOthers ++ [ns] }
        let _ ← placeOf ns
        return .nil
      else
        let shown ← plain ns
        let texts ← missing.mapM textOf
        fail (.thrown ("Namespace \"" ++ shown ++ "\" requires " ++ ", ".intercalate texts ++
          ", which has not been loaded."))

def throwValue {α : Type} (v : Value) : Run α := do
  match v with
  | .str s => fail (.thrown s)
  | v => fail (.thrown (← print v true))

def hold (h : Holder) (v : Value) : Run Unit :=
  modify fun m => { m with held := m.held.put h v }

end Run

end Machine

end Sumi
