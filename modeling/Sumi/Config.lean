import Sumi.Check
import Sumi.Project.Dependencies

namespace Sumi

structure Options where
  analyzePath : Option String := none
  verbose : Bool := false
  warnOnUndeclared : Bool := false
  /-- Symbols that are given a meaning of their own. -/
  specials : List (String × Json) := []
  sourcePaths : List String := ["src", "."]
  outputDir : String := ".repl"
  host : String := "inprocess"
  hostUrl : String := "http://127.0.0.1:9630"
  interpreter : Option String := none
  timeout : Option Float := none

namespace Options

def layout (o : Options) : Project.Layout := ⟨o.sourcePaths, o.outputDir⟩

open Check in
def ofMembers (members : List (String × Json)) : Checked Options :=
  let d : Options := {}
  let options := Except.ok Options.mk
  let options := both options (field members "analyze_path" (.ok d.analyzePath) (optional string))
  let options := both options (field members "verbose" (.ok d.verbose) bool)
  let options := both options (field members "warn_on_undeclared" (.ok d.warnOnUndeclared) bool)
  let options := both options (field members "special_fns" (.ok d.specials) object)
  let options := both options (field members "source_paths" (.ok d.sourcePaths) (list string))
  let options := both options (field members "output_dir" (.ok d.outputDir) string)
  let options := both options (field members "host" (.ok d.host) string)
  let options := both options (field members "host_url" (.ok d.hostUrl) string)
  let options := both options (field members "python" (.ok d.interpreter) (optional string))
  both options (field members "timeout" (.ok d.timeout) (optional float))

end Options

namespace Config

open Project

inductive Fault
  | notFound (path : String)
  | unreadable (path : String)
  | noObject (path : String)
  /-- An override would name the file. -/
  | pathOverridden
  | invalid (faults : List Check.Invalid)

def Fault.message : Fault → String
  | .notFound path => "Config file not found: " ++ path
  | .unreadable path => "Could not read " ++ path
  | .noObject path => path ++ " must contain a JSON object"
  | .pathOverridden => "An override cannot name the file"
  | .invalid _ => "Invalid configuration"

def fileName : String := "sumi.json"

/-- Where options are looked for when no file is named: here, and in the home directory. -/
def places (home : String) : List String := [fileName, Path.join home (".sumi/" ++ fileName)]

def members (f : Files) (path : String) : Except Fault (List (String × Json)) :=
  match f.readText path with
  | .error _ => .error (.unreadable path)
  | .ok text =>
      match Json.read? text with
      | none => .error (.unreadable path)
      | some (.obj members) => .ok members
      | some _ => .error (.noObject path)

def isNull : Json → Bool
  | .null => true
  | _ => false

def load (f : Files) (home : String) (path : Option String) (overrides : List (String × Json)) :
    Except Fault Options := do
  if Table.has "path" overrides then throw .pathOverridden
  if let some path := path then
    if !f.exists? path then throw (.notFound path)
  let known ← match (path.elim (places home) ([·])).find? f.exists? with
    | some path => members f path
    | none => pure []
  match Options.ofMembers (Table.putAll known (overrides.filter (fun e => !isNull e.2))) with
  | .ok options => return options
  | .error faults => throw (.invalid faults)

end Config

end Sumi
