import Sumi.Machine.Printer

namespace Sumi

inductive Tagged (α : Type)
  | ok (value : α)
  | err (error : α)

namespace Tagged

variable {α : Type}

def isOk : Tagged α → Bool
  | .ok _ => true
  | .err _ => false

def isErr (t : Tagged α) : Bool := !t.isOk

def unwrap (text : α → String) : Tagged α → Except String α
  | .ok value => .ok value
  | .err error => .error ("Called unwrap() on Err: " ++ text error)

def describe (inspect : α → String) : Tagged α → String
  | .ok value => "Ok(" ++ inspect value ++ ")"
  | .err error => "Err(" ++ inspect error ++ ")"

end Tagged

end Sumi
