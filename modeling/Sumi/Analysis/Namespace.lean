import Sumi.Analysis.Node

namespace Sumi

structure Arity where
  fixed : Nat
  variadic : Bool
  deriving DecidableEq, Repr

def Arity.accepts (a : Arity) (count : Nat) : Bool :=
  if a.variadic then a.fixed ≤ count else count == a.fixed

/-- Where a definition comes from: the library that is always there, or a line of a source. -/
inductive Origin
  | library
  | source (line : Option Nat)
  deriving DecidableEq, Repr

structure Definition where
  origin : Origin
  arity : Option Arity := none
  deriving DecidableEq, Repr

/-- What is known about a namespace: the aliases it requires others by, the names it takes from
others, and its own definitions. -/
structure Namespace where
  name : String
  requires : Table String String := []
  uses : Table String String := []
  defs : Table String Definition := []
  deriving DecidableEq, Repr

namespace Namespace

def dependencies (n : Namespace) : List String := Node.demands n.requires n.uses

def core : String := "sumi.core"

def user : String := "sumi.user"

end Namespace

end Sumi
