import Sumi.Code.Module
import Sumi.Project.Url
import Sumi.Project.Workspace

namespace Sumi.Project

/-- Where sources are looked for, and where modules go. -/
structure Layout where
  sources : List String
  output : String
  deriving DecidableEq, Repr

inductive Component.Kind
  | core
  | source
  | seed
  deriving DecidableEq, Repr

/-- What can be loaded: the namespaces it provides and those it requires, and where it is. -/
structure Component where
  kind : Component.Kind
  provides : List String
  requires : List String := []
  url : Option String := none
  source : Option String := none
  deriving DecidableEq, Repr

def Component.core : Component where
  kind := .core
  provides := [Namespace.core]
  url := some "sumi:core"

def Component.seed (requires : List String) : Component where
  kind := .seed
  provides := []
  requires := requires

def stem (ns : String) : String :=
  let cs := ns.toList.map fun c => if c = '-' then '_' else c
  Path.joinAll ((cs.splitOn '.').map String.ofList)

def sourceName (ns : String) : String := stem ns ++ ".sumi"

def modulePath (layout : Layout) (ns : String) : String := Path.join layout.output (stem ns ++ ".py")

def search (w : Workspace) (layout : Layout) (name : String) : Option String :=
  (((layout.sources ++ [w.library]).map (Path.join · name)).find? w.files.isFile).map
    (Path.absolute w.files.cwd)

def sourceOf (layout : Layout) (ns : String) : Work String := do
  match search (← get) layout (sourceName ns) with
  | some path => return path
  | none => throw (.project (.noSource ns (sourceName ns)))

def resource (layout : Layout) (path : String) : Work String := do
  let w ← get
  if Path.isAbsolute path then
    if w.files.isFile path then return path else throw (.project (.noFile path))
  else if w.files.isFile path then return Path.absolute w.files.cwd path
  else
    match search w layout path with
    | some found => return found
    | none => throw (.project (.noResource path))

/-- Whether a module has to be written: it is missing, or older than its source. -/
def isStale (f : Files) (source target : String) : Bool :=
  match f.time? target, f.time? source with
  | none, _ => true
  | some written, some changed => written < changed
  | some _, none => false

def writeModule (ns source target : String) (m : Module) : Work Unit := do
  if isStale (← get).files source target then
    Work.tell (·.debug ("Compiling " ++ ns ++ " -> " ++ target))
    Work.changeFiles (Path.parent target) Files.makeDirectories
    Work.changeFiles target (·.write · (.module m))

structure Opened where
  path : String
  forms : List Form
  requires : List String

def openSource (layout : Layout) (ns : String) : Work Opened := do
  let path ← sourceOf layout ns
  let forms ← Work.formsOf path
  match forms with
  | [] => throw (.project (.noHeader path ns))
  | first :: _ =>
      if !first.isNs then throw (.project (.noHeader path ns))
      let header ← Work.analyze (Analysis.topLevel Namespace.user first)
      let found := header.declares?.getD ""
      if found != ns then throw (.project (.otherHeader found path ns header.line?))
      return ⟨path, forms, ((← get).analyzer.namespaceOf ns).dependencies⟩

def build (layout : Layout) (ns : String) (s : Opened) : Work Component := do
  let m ← Work.analyze (Analysis.compile (some s.path) Namespace.user s.forms)
  let target := modulePath layout ns
  writeModule ns s.path target m
  return {
    kind := .source
    provides := [ns]
    requires := s.requires
    url := some (Url.ofPath (Path.absolute (← get).files.cwd target))
    source := some s.path }

def compileNamespace (layout : Layout) (ns : String) : Work Component := do
  build layout ns (← openSource layout ns)

structure Tour where
  ordered : List Component := [.core]
  done : List String := [Namespace.core]

/-- Visits a namespace: what it requires comes first, between the reading of its declaration and the
analysis of the rest. `path` leads from a seed to it. No path is longer than there are files, as
every namespace on it has one of its own. -/
def visit (layout : Layout) : Nat → List String → String → StateT Tour Work Unit
  | 0, _, _ => throw (.failure (.fault .tooDeep))
  | fuel + 1, path, ns => do
      if (← get).done.contains ns then return
      if path.contains ns then
        throw (.project (.cycle (path.dropWhile (· != ns) ++ [ns])))
      let s ← openSource layout ns
      s.requires.forM (visit layout fuel (path ++ [ns]))
      let c ← build layout ns s
      modify fun t => { t with ordered := t.ordered ++ [c], done := ns :: t.done }

/-- All that seeds need, in an order in which it can be loaded: the library, every namespace behind
those it requires, and the seeds. A namespace that a seed provides is not looked for on behalf of
another seed. -/
def closure (layout : Layout) (seeds : List Component) : Work (List Component) := do
  let given := seeds.flatMap (·.provides)
  let fuel := (← get).files.entries.length + 1
  let wanted := (seeds.flatMap (·.requires)).filter (!given.contains ·)
  let (_, tour) ← (wanted.forM (visit layout fuel [])).run {}
  return tour.ordered ++ seeds

end Sumi.Project
