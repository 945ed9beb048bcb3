import Sumi.Code.Module
import Sumi.Text.Blank
import Sumi.Text.Lines

namespace Sumi.Project

/-- What a file holds. -/
inductive Content
  /-- A text that others wrote and, if it is in the language of the generated code, the code it is. -/
  | text (s : String) (code? : Option (List Code) := none)
  | module (m : Module)
  /-- A module whose text was read. -/
  | received (m : Module)

namespace Content

def toText : Content → String
  | .text s _ => s
  | .module m => m.text
  | .received m => String.ofList (Text.Lines.unify m.text.toList)

/-- What is read of a file: line feeds for the line ends of any system. -/
def receive : Content → Content
  | .text s code? => .text (String.ofList (Text.Lines.unify s.toList)) code?
  | .module m | .received m => .received m

def isEmptyProgram (cs : List Char) : Bool :=
  (Text.Lines.split cs).all fun line =>
    match line.dropWhile Text.Blank.isBlank with
    | [] => true
    | c :: _ => c == '#'

def program? : Content → Option (List Code)
  | .text s code? =>
      if isEmptyProgram s.toList then some [] else code?.filter fun cs => Code.compileAll cs
  | .module m | .received m => m.program?

end Content

end Sumi.Project
