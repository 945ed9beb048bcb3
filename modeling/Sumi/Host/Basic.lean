import Sumi.Code.Basic
import Sumi.Fault

namespace Sumi

inductive Status
  | success
  | error
  | exception
  deriving DecidableEq, Repr

def Status.text : Status → String
  | .success => "success"
  | .error => "error"
  | .exception => "exception"

structure Outcome where
  status : Status
  value : String := ""
  stacktrace : Option String := none
  deriving DecidableEq, Repr

/-- What a host did: its result, the state it is in, and the text that the program printed. -/
structure Reply (σ α : Type) where
  result : Except Fault α
  state : σ
  printed : String := ""

structure Host (σ : Type) where
  setup : σ → Reply σ Unit
  evaluate : (filename : String) → (line : Nat) → (code : Code) → σ → Reply σ Outcome
  load : (files : Project.Files) → (provides : List String) → (url : String) → σ → Reply σ Unit
  tearDown : σ → σ

end Sumi
