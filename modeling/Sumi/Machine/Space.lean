
namespace Sumi.Machine

inductive Place
  | named (name : String)
  | numbered (id : Nat)
  deriving DecidableEq, Repr

/-- A map that goes on changing while values show it. -/
inductive Live
  /-- The source names of a namespace, as it keeps them from its beginning. -/
  | names (place : Place)
  | made (id : Nat)
  /-- Everything that was put into a namespace. -/
  | contents (place : Place)
  deriving DecidableEq, Repr

inductive Method
  | init
  | missing
  | repr
  | new
  | hash
  | str
  | get
  | put
  | erase
  | lt
  | le
  | eq
  | ne
  | gt
  | ge
  | reduceBy
  | reduce
  | state
  | subclass
  | subclassed
  | format
  | size
  | names
  deriving DecidableEq, Repr

namespace Method

/-- The first three are of namespaces alone, the others of all things. -/
def all : List Method :=
  [.init, .missing, .repr, .new, .hash, .str, .get, .put, .erase, .lt, .le, .eq, .ne, .gt, .ge,
   .reduceBy, .reduce, .state, .subclass, .subclassed, .format, .size, .names]

def spelling : Method → String
  | .init => "__init__"
  | .missing => "__getattr__"
  | .repr => "__repr__"
  | .new => "__new__"
  | .hash => "__hash__"
  | .str => "__str__"
  | .get => "__getattribute__"
  | .put => "__setattr__"
  | .erase => "__delattr__"
  | .lt => "__lt__"
  | .le => "__le__"
  | .eq => "__eq__"
  | .ne => "__ne__"
  | .gt => "__gt__"
  | .ge => "__ge__"
  | .reduceBy => "__reduce_ex__"
  | .reduce => "__reduce__"
  | .state => "__getstate__"
  | .subclass => "__subclasshook__"
  | .subclassed => "__init_subclass__"
  | .format => "__format__"
  | .size => "__sizeof__"
  | .names => "__dir__"

def ofSpelling? (s : String) : Option Method := all.find? (·.spelling == s)

end Method

namespace Space

def nameKey : String := "__ns_name__"

def varsKey : String := "__ns_vars__"

def kindKey : String := "__class__"

def contentsKey : String := "__dict__"

def referenceKey : String := "__weakref__"

def programKey : String := "__module__"

def describingKey : String := "__doc__"

def description : String :=
  "A Sumi namespace: vars live as attributes under their munged names."

def valueKey : String := "value"

/-- The names that every namespace has, whatever was put into it, and whether or not what makes
namespaces holds a value. -/
def ownNames (holding : Bool) : List String :=
  [programKey, describingKey] ++ (Method.all.take 3).map Method.spelling ++
    [contentsKey, referenceKey] ++ (if holding then [valueKey] else []) ++
    (Method.all.drop 3).map Method.spelling ++ [kindKey]

/-- A name that is never taken for a var without a value. -/
def isReserved (attr : String) : Bool := "__".toList.isPrefixOf attr.toList

end Space

end Sumi.Machine
