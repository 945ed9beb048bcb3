import Sumi.Analysis.Error
import Sumi.Analysis.Namespace

namespace Sumi

inductive Warning
  | undeclared (ns name : String) (line : Option Nat)
  | replaced (name old new : String) (line : Option Nat)
  | argumentCount (count : Nat) (ns name : String) (line : Option Nat)
  deriving DecidableEq, Repr

namespace Warning

def atLine : Option Nat → String
  | none => ""
  | some line => " at line " ++ toString line

def message : Warning → String
  | .undeclared ns name line => "Use of undeclared Var " ++ ns ++ "/" ++ name ++ atLine line
  | .replaced name old new line =>
      name ++ " already refers to: " ++ old ++ "/" ++ name ++ " being replaced by: " ++ new ++
        "/" ++ name ++ atLine line
  | .argumentCount count ns name line =>
      "Wrong number of args (" ++ toString count ++ ") passed to " ++ ns ++ "/" ++ name ++
        atLine line

end Warning

structure Flags where
  undeclared : Bool := false
  redef : Bool := true
  arity : Bool := true
  deriving DecidableEq, Repr

def Flags.silent : Flags := ⟨false, false, false⟩

/-- What analysis did to the namespace table. -/
inductive Event
  | declared (ns : String)
  | defined (ns name : String)
  deriving DecidableEq, Repr

structure Analyzer where
  namespaces : Table String Namespace
  flags : Flags := {}
  /-- Latest first. -/
  warnings : List Warning := []
  /-- Latest first. -/
  events : List Event := []

/-- Analysis changes the table as it goes, and keeps the changes when it fails. -/
abbrev Analysis := ExceptT CompileError (StateM Analyzer)

namespace Analyzer

def ofLibrary (names : List String) (flags : Flags) : Analyzer where
  namespaces :=
    [(Namespace.core,
      { name := Namespace.core, defs := names.map (fun name => (name, ⟨.library, none⟩)) })]
  flags := flags

def namespaceOf (a : Analyzer) (ns : String) : Namespace :=
  (a.namespaces.get? ns).getD { name := ns }

def setNamespace (a : Analyzer) (n : Namespace) : Analyzer :=
  { a with namespaces := a.namespaces.put n.name n }

def enter (a : Analyzer) (ns : String) : Analyzer :=
  if a.namespaces.has ns then a else a.setNamespace { name := ns }

def warn (a : Analyzer) (w : Warning) : Analyzer := { a with warnings := w :: a.warnings }

def note (a : Analyzer) (e : Event) : Analyzer := { a with events := e :: a.events }

end Analyzer

end Sumi
