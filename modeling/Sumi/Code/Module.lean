import Sumi.Analysis.Analyze
import Sumi.Code.OfNode
import Sumi.Code.Render
import Sumi.Code.Valid
import Sumi.Text.Lines

namespace Sumi

structure Module where
  source : Option String
  body : List Code

namespace Module

def lines (m : Module) : List String :=
  (m.source.filter (!·.isEmpty)).toList.map ("# Compiled by sumi from " ++ ·) ++
    m.body.map Code.render

def text (m : Module) : String := "\n".intercalate m.lines ++ "\n"

/-- The code of a line behind the first one of a source name. It may be blank or a comment, or else
has to be names with points between them, of which the first one counts. -/
def stray? (line : List Char) : Option (List Code) :=
  match line.dropWhile Text.Blank.isBlank with
  | [] | '#' :: _ => some []
  | cs =>
      let joined := cs.map fun c => if c = '.' then '_' else c
      if Code.isName (String.ofList joined) then
        some [.bound (String.ofList (cs.takeWhile (· != '.')))]
      else none

/-- The code that runs, if all of it compiles. Only the first line of a source name is a comment. -/
def program? (m : Module) : Option (List Code) := do
  let name := m.source.getD ""
  let stray ← (Text.Lines.split (Text.Lines.unify name.toList)).tail.mapM stray?
  if Code.compileAll m.body then some (stray.flatten ++ m.body) else none

end Module

namespace Analysis

def nodes (ns : String) : List Form → Analysis (List Node)
  | [] => do
      modify (·.enter ns)
      return []
  | form :: forms => do
      let node ← topLevel ns form
      let rest ← nodes (node.declares?.getD ns) forms
      return node :: rest

def compile (source : Option String) (ns : String) (forms : List Form) : Analysis Module := do
  let nodes ← nodes ns forms
  return ⟨source, nodes.map Code.ofNode⟩

end Analysis

end Sumi
