import Sumi.Analysis.Resolve

namespace Sumi.Analysis

/-- The parameters of a function, the last of which may take all further arguments. One with an
empty name takes none. -/
structure Parameters where
  fixed : List String
  rest : Option String
  deriving DecidableEq, Repr

def parameters (env : Env) : List Form → Analysis Parameters
  | [] => return ⟨[], none⟩
  | .symbol ⟨none, name⟩ :: forms =>
      if name = "&" then
        match forms with
        | [.symbol rest] => return ⟨[], if rest.name.isEmpty then none else some rest.name⟩
        | _ => fail env .fnRest
      else do
        let more ← parameters env forms
        return ⟨name :: more.fixed, more.rest⟩
  | form :: _ => fail env (.fnParameter form)

/-- The place of a function's body: the function itself is the outermost of the new locals. -/
def bodyEnv (env : Env) (name : Option String) (ps : Parameters) : Env :=
  (env.bindAll name.toList).bindAll (ps.fixed ++ ps.rest.toList)

end Sumi.Analysis
