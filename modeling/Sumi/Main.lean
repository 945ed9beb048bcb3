import Sumi.CommandLine.Run
import Sumi.Machine.Library
import Sumi.Project.Bundled

namespace Sumi.Main

open Project CommandLine

def library : String := "/usr/share/sumi/lib"

def source? (path : String) : IO (Option SourceText) := do
  try
    let text ← IO.FS.readFile path
    return some ⟨path, text, 0⟩
  catch _ => return none

def isSourceName (name : String) : Bool := name.endsWith ".sumi" || name.endsWith ".json"

/-- The sources in a directory's entries and at most `depth` directories further down. Links are not
followed. -/
def sourcesBelow : Nat → List IO.FS.DirEntry → IO (List SourceText)
  | 0, _ => return []
  | depth + 1, entries => do
      let found ← entries.mapM fun e => do
        let known ← e.path.symlinkMetadata
        match known.type with
        | .dir => sourcesBelow depth (← e.path.readDir).toList
        | .file =>
            if isSourceName e.fileName then
              return (← source? e.path.toString).toList.map
                ({ · with time := known.modified.sec })
            else return []
        | _ => return []
      return found.flatten

def readInput : IO String := do
  let stdin ← IO.getStdin
  let mut input := ""
  repeat
    let line ← stdin.getLine
    if line.isEmpty then break
    input := input ++ line
  return input

def textNamedBy (name : String) : IO String := do
  match ← IO.getEnv name with
  | some path => IO.FS.readFile path
  | none => return ""

def writeChanges (directory : String) (before after : Files) : IO Unit :=
  for (path, text) in before.changes after (Path.parts directory).tail do
    let path := Path.join directory path
    IO.FS.createDirAll (Path.parent path)
    IO.FS.writeFile path text

end Sumi.Main

open Sumi Project CommandLine in
def main (args : List String) : IO UInt32 := do
  let here ← IO.currentDir
  let home := (← IO.getEnv "HOME").getD ""
  let below ← Sumi.Main.sourcesBelow 64 (← here.readDir).toList
  let named ← (Config.places home ++ args).mapM Sumi.Main.source?
  let files := Files.ofSources here.toString (named.filterMap id ++ below)
  let workspace : Workspace :=
    { files := files.withLibrary Sumi.Main.library files.now
      analyzer := .ofLibrary Machine.libraryNames {}
      library := Sumi.Main.library }
  let input ← if args.contains "repl" then Sumi.Main.readInput else pure ""
  let setting : Setting := ⟨home, input, ← Sumi.Main.textNamedBy "SUMI_PREAMBLE"⟩
  let ending := CommandLine.run setting args workspace
  IO.print ending.workspace.console.out
  IO.eprint ending.workspace.console.err
  Sumi.Main.writeChanges here.toString workspace.files ending.workspace.files
  match ending.exit with
  | .ok exit => return exit.toUInt32
  | .error f => do
      IO.eprintln f.summary
      return 1
