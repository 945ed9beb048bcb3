import Sumi.Form.Printer
import Sumi.Report

namespace Sumi

inductive CompileError.Cause
  | defCount (args : Nat)
  | defTarget
  | defElsewhere (target : Name) (ns : String)
  | defnShape
  | fnManyArities
  | fnParameters
  | fnParameter (form : Form)
  | fnRest
  | ifFew
  | ifMany
  | letVector
  | letOdd
  | letName (form : Form)
  | quoteCount
  | setShape
  | setBound (target : Name)
  | throwCount
  | nsName
  | nsClause (form : Form)
  | nsKind (kind : String)
  | requireOptions (form : Form)
  | requireSpec (form : Form)
  | useSpec (form : Form)

structure CompileError where
  cause : CompileError.Cause
  line : Option Nat

namespace CompileError

def Cause.message : Cause → String
  | .defCount args => "Wrong number of args to def: " ++ toString args
  | .defTarget => "First argument to def must be a symbol"
  | .defElsewhere target ns => "Can't def " ++ target.text ++ " from namespace " ++ ns
  | .defnShape => "defn requires a name and a parameter vector"
  | .fnManyArities => "Multi-arity fn is not supported"
  | .fnParameters => "fn requires a parameter vector"
  | .fnParameter form => "Invalid fn parameter: " ++ form.describe
  | .fnRest => "& must be followed by exactly one parameter"
  | .ifFew => "Too few arguments to if"
  | .ifMany => "Too many arguments to if"
  | .letVector => "let requires a binding vector"
  | .letOdd => "let requires an even number of forms in binding vector"
  | .letName form => "Invalid let binding name: " ++ form.describe
  | .quoteCount => "Wrong number of args to quote"
  | .setShape => "set! requires a var name and a value"
  | .setBound target => "Can't set! local binding " ++ target.text
  | .throwCount => "throw requires exactly one argument"
  | .nsName => "ns requires a namespace name"
  | .nsClause form => "Invalid ns clause: " ++ form.describe
  | .nsKind kind => "Unsupported ns clause :" ++ kind
  | .requireOptions form =>
      "Only [lib.ns :as alias] form of :require is supported: " ++ form.describe
  | .requireSpec form => "Invalid :require libspec: " ++ form.describe
  | .useSpec form => "Only [lib.ns :only [names]] form of :use is supported: " ++ form.describe

def Cause.hint? : Cause → Option String
  | .nsKind _ => some "Only :require and :use are supported"
  | _ => none

def report (e : CompileError) : Report where
  title := "Compile error"
  message := e.cause.message
  line := e.line.map (fun n => (n : Int))
  hint := e.cause.hint?

end CompileError

end Sumi
