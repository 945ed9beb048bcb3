import Sumi.CommandLine.Arguments
import Sumi.Host.Local
import Sumi.Session.Loop

namespace Sumi.CommandLine

open Project

/-- What surrounds a command: the home directory, the input, and the text that defines the library
in a script. -/
structure Setting where
  home : String
  input : String
  preamble : String

structure Ending where
  workspace : Workspace
  exit : Except Fault Nat

def buildDirectory : String := "__sumi_build__"

def scriptPath : String := buildDirectory ++ "/main.py"

def exampleSource : String :=
  "(ns hello.core\n  (:require [sumi.seq :as seq]))\n\n" ++
  "(defn -main [& args]\n  (println \"Hello Sumi, sum:\" (seq/sum [1 2 3])))\n"

def exampleConfig : String :=
  "\x7b\n  \"source_paths\": [\"src\", \".\"],\n  \"output_dir\": \".repl\"\n\x7d\n"

def overrides (i : Invocation) : List (String × Json) :=
  let text (s : Option String) : Json := s.elim .null .str
  let flag (b : Bool) : Json := if b then .bool true else .null
  ("verbose", flag i.verbose) ::
    match i.command with
    | .repl host url analyzePath warn =>
        [("host", text host), ("host_url", text url), ("analyze_path", text analyzePath),
         ("warn_on_undeclared", flag warn)]
    | _ => []

def tell (w : Workspace) (f : Console → Console) : Workspace := { w with console := f w.console }

def complain (w : Workspace) (message : String) : Ending :=
  ⟨tell w (·.complain ("Error: " ++ message)), .ok 1⟩

def stop (w : Workspace) (f : Fault) : Ending := ⟨w, .error f⟩

def build (s : Setting) (o : Options) (file : String) (callMain : Bool) (w : Workspace) :
    Except Ending (Script × Workspace) := do
  let w := tell w ({ · with verbose := o.verbose })
  if !w.files.exists? file then throw (complain w ("File '" ++ file ++ "' not found."))
  match (compileScript o.layout file callMain).run w with
  | (.error f, w) => throw (complain w ("Compilation Failed:\n" ++ f.reason))
  | (.ok script, w) =>
      let write : Work Unit := do
        if !w.files.exists? buildDirectory then
          Work.changeFiles buildDirectory Files.makeDirectories
        Work.changeFiles scriptPath (·.write · (.text (script.text s.preamble)))
      match write.run w with
      | (.ok (), w) => return (script, w)
      | (.error f, w) => throw (stop w f)

def runScript (script : Script) (args : List String) (w : Workspace) : Ending :=
  if args.any (·.toList.contains '\x00') then stop w (.failure (.fault .wrongValue))
  else
    let (result, m) := (script.run args).run Machine.initial
    let w := tell w (·.print m.printed)
    ⟨w, .ok (match result with
      | .ok () => 0
      | .error _ => 1)⟩

def place (file : String) (output : Option String) (w : Workspace) : Ending :=
  let target := match output with
    | none | some "" => scriptPath
    | some path => path
  match w.files.move scriptPath target with
  | .error f => stop w (.file f target)
  | .ok files =>
      ⟨tell { w with files := files } (·.log ("Compiled " ++ file ++ " -> " ++ target)), .ok 0⟩

/-- A symbol that a configuration file gives a meaning to cannot be called. -/
def uncallable (specials : List (String × Json)) : Session.Commands :=
  specials.map fun e =>
    (Name.ofSymbol e.1, .custom (fun _ s => (.failed (.failure (.fault .wrongType)), s)))

def startSession (s : Setting) (o : Options) (w : Workspace) : Ending :=
  match Host.Kind.ofName? o.host (some o.hostUrl) with
  | some .inProcess =>
      let w := { w with analyzer := { w.analyzer with
        flags := { undeclared := o.warnOnUndeclared } } }
      let session : Session (Option Engine) :=
        { workspace := w, host := none, layout := o.layout, verbose := o.verbose }
      let (result, session) := session.repl Host.inProcess o (uncallable o.specials) s.input
      ⟨session.workspace, result.map (fun () => 0)⟩
  | some _ => ⟨w, .ok 1⟩
  | none => stop w (.failure (.fault .wrongValue))

def initialize? (w : Workspace) : Ending :=
  let write : Work Unit := do
    Work.tell (·.log "Initializing project...")
    Work.changeFiles "src/hello" Files.makeDirectories
    Work.changeFiles "src/hello/core.sumi" (·.write · (.text exampleSource))
    Work.changeFiles Config.fileName (·.write · (.text exampleConfig))
    Work.tell (·.log "Created src/hello/core.sumi and sumi.json")
  let (result, w) := write.run w
  ⟨w, result.map (fun () => 0)⟩

def perform (s : Setting) (i : Invocation) (w : Workspace) : Ending :=
  let withOptions (act : Options → Ending) : Ending :=
    match Config.load w.files s.home i.config (overrides i) with
    | .ok o => act o
    | .error f => complain w f.message
  match i.command with
  | .init => initialize? w
  | .serve _ _ => ⟨w, .ok 1⟩
  | .repl _ _ _ _ => withOptions fun o => startSession s o w
  | .run file args => withOptions fun o =>
      match build s o file true w with
      | .ok (script, w) => runScript script args w
      | .error ending => ending
  | .compile file output => withOptions fun o =>
      match build s o file false w with
      | .ok (_, w) => place file output w
      | .error ending => ending

def run (s : Setting) (args : List String) (w : Workspace) : Ending :=
  match parse args with
  | .ok i => perform s i w
  | .error .help => ⟨tell w (·.print usage), .ok 0⟩
  | .error .senseless => ⟨w, .ok 2⟩

end Sumi.CommandLine
