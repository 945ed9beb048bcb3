import Sumi.Analysis.Namespace
import Sumi.Form.Basic

namespace Sumi.Form

def resultNames : List String := ["*1", "*2", "*3"]

def isResult (form : Form) : Bool := resultNames.any (form.isSymbol ·)

/-- Forms whose result does not count: namespace declarations, and the last results themselves. -/
def isExempt (form : Form) : Bool := form.isNs || form.isResult

def coreSymbol (name : String) : Form := .symbol (.qualified Namespace.core name)

def call (head : Form) (args : List Form) : Form := .list (head :: args) none

def printed (x : Form) : Form := call (coreSymbol "pr-str") [x]

/-- The form that binds the value of `x`, moves the last results down by one, keeps the value as the
last result, and has it for its own value. -/
def kept (x : Form) : Form :=
  let result := sym "ret__repl"
  let keep (place value : Form) := call (sym "set!") [place, value]
  call (sym "let") [.vector [result, x] none,
    call (sym "do") [
      keep (coreSymbol "*3") (coreSymbol "*2"),
      keep (coreSymbol "*2") (coreSymbol "*1"),
      keep (coreSymbol "*1") result,
      result]]

def wrap (form : Form) : Form :=
  if form.isNs then form
  else if form.isResult then printed form
  else printed (kept form)

end Sumi.Form
