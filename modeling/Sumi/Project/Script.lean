import Sumi.Machine.Eval
import Sumi.Project.Dependencies

namespace Sumi.Project

def readUrl (url : String) : Work Content := do
  match Url.read url with
  | .malformed => throw (.project (.badUrl url))
  | .elsewhere => throw (.project (.noScheme url))
  | .file path =>
      if !(← get).files.isFile path then throw (.project (.noFile path))
      return (← Work.ofFiles path Files.read).receive

/-- The nodes of a file. Even one that cannot be read makes the namespace known that it starts
in. -/
def analyzeFile (path : String) : Work (List Node) := do
  let text ← Work.ofFiles path Files.readText
  modify fun w => { w with analyzer := w.analyzer.enter Namespace.user }
  let forms ← Work.readForms text
  Work.analyze (Analysis.settling Node.settleAll (Analysis.nodes Namespace.user forms))

def compileFile (path : String) : Work Module := do
  let forms ← Work.formsOf path
  Work.analyze (Analysis.compile (some path) Namespace.user forms)

def sourcesBelow (f : Files) : Nat → String → List String → List String
  | 0, _, _ => []
  | depth + 1, path, place =>
      let names := (f.names place).mergeSort (fun s t => decide (s ≤ t))
      let isDirectory name := match f.entry? (place ++ [name]) with
        | some .directory => true
        | _ => false
      let files := names.filter (fun name => !isDirectory name && name.endsWith ".sumi")
      files.map (Path.join path) ++
        (names.filter isDirectory).flatMap fun name =>
          sourcesBelow f depth (Path.join path name) (place ++ [name])

def analyzeSources (directory : String) : Work Unit := do
  let f := (← get).files
  match f.locate directory with
  | .error .badPath => throw (.file .badPath directory)
  | .error _ => return
  | .ok place =>
      match f.entry? place with
      | some .directory =>
          (sourcesBelow f (f.entries.length + 1) directory place).forM fun path => do
            Work.tell (·.debug ("Analyzing " ++ path))
            let _ ← analyzeFile path
      | _ => return

/-- A program with everything it needs, in the order in which it runs, and the namespace whose main
function is called at the end. -/
structure Script where
  parts : List Content
  main : Option String

def mainName : String := "-main"

namespace Script

def mainCall (ns : String) : String :=
  Code.render (.var ns (Code.munge mainName)) ++ "(*sys.argv[1:])\n"

def text (s : Script) (preamble : String) : String :=
  "\n\n".intercalate
    ([preamble] ++ s.parts.map Content.toText ++ s.main.toList.map mainCall)

def run (s : Script) (args : List String) : Machine.Run Unit := do
  match s.parts.mapM Content.program? with
  | none => throw (.fault .notCompiling)
  | some programs =>
      modify fun m => { m with program := "__main__" }
      Machine.execute programs.flatten
      if let some ns := s.main then
        let f ← Machine.Run.lookupVar ns (Code.munge mainName)
        let _ ← Machine.apply Machine.depth f (args.map .str)

end Script

def declared (main : String) (requires : List String) : List Form → Work (String × List String)
  | [] => return (main, distinct requires)
  | form :: forms => do
      if form.isNs then
        let node ← Work.analyze (Analysis.topLevel Namespace.user form)
        let ns := node.declares?.getD main
        declared ns (requires ++ ((← get).analyzer.namespaceOf ns).dependencies) forms
      else declared main requires forms

def compileScript (layout : Layout) (path : String) (callMain : Bool) : Work Script := do
  Work.tell (·.debug ("Compiling source: " ++ path))
  let forms ← Work.formsOf path
  let (main, requires) ← declared Namespace.user [] forms
  let components ← closure layout [.seed requires]
  let modules ← (components.filterMap fun c =>
    if c.kind = .source then c.url else none).mapM readUrl
  let program ← Work.analyze (Analysis.compile (some path) Namespace.user forms)
  let calls := callMain && ((← get).analyzer.namespaceOf main).defs.has mainName
  return ⟨modules ++ [.module program], if calls then some main else none⟩

end Sumi.Project
