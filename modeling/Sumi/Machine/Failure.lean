import Sumi.Machine.Number

namespace Sumi.Machine

inductive Fault
  | wrongType
  | wrongValue
  | outOfRange
  | noAttribute
  | noKey
  | noName
  | divisionByZero
  | overflow
  | tooDeep
  | tooLarge
  | notCompiling
  | notEncodable
  /-- Of a kind that only code written by others raises. -/
  | other (kind : String)
  deriving DecidableEq, Repr

inductive Failure
  | thrown (text : String)
  /-- A var that has no value, by its name in the generated code. -/
  | unbound (ns attr : String)
  | fault (f : Fault)
  deriving DecidableEq, Repr

def Fault.kind : Fault → String
  | .wrongType => "TypeError"
  | .wrongValue => "ValueError"
  | .outOfRange => "IndexError"
  | .noAttribute => "AttributeError"
  | .noKey => "KeyError"
  | .noName => "NameError"
  | .divisionByZero => "ZeroDivisionError"
  | .overflow => "OverflowError"
  | .tooDeep => "RecursionError"
  | .tooLarge => "MemoryError"
  | .notCompiling => "SyntaxError"
  | .notEncodable => "UnicodeEncodeError"
  | .other kind => kind

namespace Failure

def kind : Failure → String
  | .thrown _ => "SumiError"
  | .unbound _ _ => "UnboundVarError"
  | .fault f => f.kind

def text? : Failure → Option String
  | .thrown text => some text
  | .unbound ns attr => some ("Unable to resolve var: " ++ attr ++ " in namespace " ++ ns)
  | .fault _ => none

def wrongType : Failure := .fault .wrongType

def ofNumber : Number.Fault → Failure
  | .divisionByZero => .fault .divisionByZero
  | .overflow => .fault .overflow

end Failure

def sizeLimit : Nat := Nat.pow 2 31

abbrev Result := Except Failure

namespace Value

def numbers (f : Number → Number → Except Number.Fault Number) (a b : Value) : Result Value :=
  match a.number?, b.number? with
  | some m, some n =>
      match f m n with
      | .ok r => .ok r.toValue
      | .error e => .error (.ofNumber e)
  | _, _ => .error .wrongType

def itemsOf (v : Value) : Result (List Value) := v.items?.elim (.error .wrongType) .ok

def hashed (v : Value) : Result Value := if v.isHashable then .ok v else .error .wrongType

end Value

end Sumi.Machine
