import Sumi.Analysis.Error
import Sumi.Form.Reader
import Sumi.Machine.Failure
import Sumi.Project.Files

namespace Sumi

inductive ProjectFault
  | noHeader (source ns : String)
  | otherHeader (found source expected : String) (line : Option Nat)
  | cycle (path : List String)
  | noSource (ns rel : String)
  | noFile (path : String)
  | noResource (path : String)
  | noScheme (url : String)
  | badUrl (url : String)
  deriving DecidableEq, Repr

inductive HostFault
  | notReady
  | notLoaded (provides : List String) (value : String)
  | failed (message : String)
  deriving DecidableEq, Repr

inductive CommandFault
  | noNamespace (form : Form)
  | noSymbol (form : Form)
  | noPath (form : Form)
  | argumentCount

inductive Fault
  | read (e : Form.ReadError)
  | analysis (e : CompileError)
  | project (f : ProjectFault)
  | host (f : HostFault)
  | command (f : CommandFault)
  | file (f : Project.FileFault) (path : String)
  | failure (f : Machine.Failure)

def ProjectFault.kind : ProjectFault → String
  | .noHeader _ _ | .otherHeader _ _ _ _ | .cycle _ => "SumiCompileError"
  | .badUrl _ => "ValueError"
  | _ => "ResourceNotFound"

def compileError (message : String) (line : Option Nat) (hint : Option String) : String :=
  Report.text
    { title := "Compile error", message := message, line := line.map (fun n => (n : Int)),
      hint := hint }

def ProjectFault.message? : ProjectFault → Option String
  | .noHeader source ns =>
      compileError (source ++ " does not start with an ns declaration for " ++ ns) none none
  | .otherHeader found source expected line =>
      compileError ("Namespace " ++ found ++ " found in " ++ source ++ ", expected " ++ expected)
        line (some ("Rename the file or declare (ns " ++ expected ++ ")"))
  | .cycle path => compileError ("Circular dependency detected: " ++ " -> ".intercalate path) none none
  | .noSource ns rel =>
      "No such namespace: " ++ ns ++ ", could not locate " ++ rel ++ " on source paths"
  | .noFile path => "Can't find " ++ path
  | .noResource path => "Can't find " ++ path ++ " on source paths"
  | .noScheme url => "Unsupported resource url: " ++ url
  | .badUrl _ => none

def HostFault.message : HostFault → String
  | .notReady => "Host has not been set up"
  | .notLoaded provides value => "Failed to load " ++ ", ".intercalate provides ++ ": " ++ value
  | .failed message => message

def CommandFault.kind : CommandFault → String
  | .noNamespace _ | .noSymbol _ => "SumiCompileError"
  | .noPath _ => "ResourceNotFound"
  | .argumentCount => "TypeError"

def CommandFault.message? : CommandFault → Option String
  | .noNamespace form => some (compileError ("Expected a namespace name, got " ++ form.print) none none)
  | .noSymbol form => some (compileError ("in-ns expects a quoted symbol, got " ++ form.print) none none)
  | .noPath form => some ("load-file expects a path string, got " ++ form.print)
  | .argumentCount => none

namespace Project.FileFault

def kind : FileFault → String
  | .notFound => "FileNotFoundError"
  | .notDirectory => "NotADirectoryError"
  | .isDirectory => "IsADirectoryError"
  | .exists => "FileExistsError"
  | .nameTooLong | .busy => "OSError"
  | .badPath => "ValueError"

def reason? : FileFault → Option (Nat × String)
  | .notFound => some (2, "No such file or directory")
  | .notDirectory => some (20, "Not a directory")
  | .isDirectory => some (21, "Is a directory")
  | .exists => some (17, "File exists")
  | .nameTooLong => some (36, "File name too long")
  | .busy => some (16, "Device or resource busy")
  | .badPath => none

def text (path : String) (f : FileFault) : String :=
  match f.reason? with
  | some (number, words) =>
      "[Errno " ++ toString number ++ "] " ++ words ++ ": " ++ Text.Literal.write path
  | none => "embedded null byte"

end Project.FileFault

namespace Fault

def kind : Fault → String
  | .read _ => "SumiReadError"
  | .analysis _ => "SumiCompileError"
  | .project f => f.kind
  | .host _ => "HostError"
  | .command f => f.kind
  | .file f _ => f.kind
  | .failure f => f.kind

def message? : Fault → Option String
  | .read e => some e.text
  | .analysis e => some e.report.text
  | .project f => f.message?
  | .host f => some f.message
  | .command f => f.message?
  | .file _ _ => none
  | .failure f => f.text?

def summary (f : Fault) : String :=
  match f.message? with
  | some message => f.kind ++ ": " ++ message
  | none => f.kind

def brief (f : Fault) : String := f.message?.getD f.kind

def reason : Fault → String
  | .file f path => f.text path
  | f => f.brief

end Fault

end Sumi
