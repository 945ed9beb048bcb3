import Sumi.Analysis.Analyze
import Sumi.Console
import Sumi.Fault

namespace Sumi.Project

structure Workspace where
  files : Files
  analyzer : Analyzer
  console : Console := {}
  /-- The directory of the sources that come with the library. -/
  library : String

abbrev Work := ExceptT Fault (StateM Workspace)

namespace Work

def tell (f : Console → Console) : Work Unit := modify fun w => { w with console := f w.console }

def showWarnings (w : Workspace) : Workspace :=
  { w with
    console := w.analyzer.warnings.reverse.foldl Console.warn w.console
    analyzer := { w.analyzer with warnings := [] } }

def analyze {α : Type} (m : Analysis α) : Work α := do
  let w ← get
  let (result, analyzer) := m.run w.analyzer
  set (showWarnings { w with analyzer := analyzer })
  match result with
  | .ok a => return a
  | .error e => throw (.analysis e)

def analyzeSilently {α : Type} (m : Analysis α) : Work α := do
  let flags := (← get).analyzer.flags
  modify fun w => { w with analyzer := { w.analyzer with flags := .silent } }
  let w ← get
  let (result, analyzer) := m.run w.analyzer
  set { w with analyzer := { analyzer with flags := flags } }
  match result with
  | .ok a => return a
  | .error e => throw (.analysis e)

def ofFiles {α : Type} (path : String) (f : Files → String → Except FileFault α) : Work α := do
  match f (← get).files path with
  | .ok a => return a
  | .error e => throw (.file e path)

def changeFiles (path : String) (f : Files → String → Except FileFault Files) : Work Unit := do
  let files ← ofFiles path f
  modify fun w => { w with files := files }

def readForms (text : String) : Work (List Form) := do
  match Form.readAll text with
  | .ok forms => return forms
  | .error e => throw (.read e)

def formsOf (path : String) : Work (List Form) := do
  readForms (← ofFiles path Files.readText)

end Work

end Sumi.Project
