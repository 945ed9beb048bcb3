import Sumi.Project.Content
import Sumi.Project.Path
import Sumi.Table

namespace Sumi.Project

inductive FileFault
  | notFound
  | notDirectory
  | isDirectory
  | exists
  | nameTooLong
  /-- A directory that is the start or the end of other paths. -/
  | busy
  /-- A path that no system takes. -/
  | badPath
  deriving DecidableEq, Repr

inductive Entry
  | directory
  | file (content : Content) (time : Int)

structure Files where
  /-- By the parts of the absolute path. -/
  entries : Table (List String) Entry
  /-- The current directory, as a path. -/
  cwd : String
  /-- The time that is given to what is written. -/
  now : Int

namespace Files

def entry? (f : Files) (place : List String) : Option Entry :=
  if place.isEmpty then some .directory else f.entries.get? place

def isLong (part : String) : Bool := 255 < part.utf8ByteSize

def checkPath (p : String) : Except FileFault Unit :=
  if p.isEmpty then .error .notFound
  else if p.toList.contains '\x00' then .error .badPath
  else if 4096 ≤ p.utf8ByteSize then .error .nameTooLong
  else .ok ()

/-- The place that parts of a path lead to from `place`, which need not have an entry. -/
def walk (f : Files) (place : List String) : List String → Except FileFault (List String)
  | [] => .ok place
  | part :: rest =>
      match f.entry? place with
      | none => .error .notFound
      | some (.file _ _) => .error .notDirectory
      | some .directory =>
          if part = "" ∨ part = "." then walk f place rest
          else if part = ".." then walk f place.dropLast rest
          else if isLong part then .error .nameTooLong
          else walk f (place ++ [part]) rest

def locate (f : Files) (p : String) : Except FileFault (List String) := do
  checkPath p
  walk f [] (Path.parts (Path.join f.cwd p))

def find? (f : Files) (p : String) : Option Entry :=
  match f.locate p with
  | .ok place => f.entry? place
  | .error _ => none

def exists? (f : Files) (p : String) : Bool := (f.find? p).isSome

def isFile (f : Files) (p : String) : Bool :=
  match f.find? p with
  | some (.file _ _) => true
  | _ => false

def time? (f : Files) (p : String) : Option Int :=
  (f.find? p).map fun
    | .file _ time => time
    | .directory => f.now

def read (f : Files) (p : String) : Except FileFault Content := do
  let place ← f.locate p
  match f.entry? place with
  | none => .error .notFound
  | some .directory => .error .isDirectory
  | some (.file content _) => .ok content

def put (f : Files) (place : List String) (e : Entry) : Files :=
  { f with entries := f.entries.put place e }

def write (f : Files) (p : String) (content : Content) : Except FileFault Files := do
  let place ← f.locate p
  match f.entry? place.dropLast with
  | none => .error .notFound
  | some (.file _ _) => .error .notDirectory
  | some .directory =>
      match f.entry? place with
      | some .directory => .error .isDirectory
      | _ => .ok (f.put place (.file content f.now))

def makeParts (f : Files) (place : List String) : List String → Except FileFault Files
  | [] => .ok f
  | part :: rest =>
      if part = "" ∨ part = "." then makeParts f place rest
      else if part = ".." then makeParts f place.dropLast rest
      else if isLong part then .error .nameTooLong
      else
        let next := place ++ [part]
        match f.entry? next with
        | some .directory => makeParts f next rest
        | some (.file _ _) => .error (if rest.isEmpty then .exists else .notDirectory)
        | none => makeParts (f.put next .directory) next rest

def makeDirectories (f : Files) (p : String) : Except FileFault Files := do
  checkPath p
  f.makeParts [] (Path.parts (Path.join f.cwd p))

def remove (f : Files) (p : String) : Except FileFault Files := do
  let place ← f.locate p
  match f.entry? place with
  | none => .error .notFound
  | some .directory => .error .isDirectory
  | some (.file _ _) => .ok { f with entries := f.entries.filter (fun e => e.1 != place) }

/-- Gives a file the path `p`, and takes the old one away. A file of that path is replaced, a
directory is not. -/
def move (f : Files) (old p : String) : Except FileFault Files := do
  let content ← f.read old
  let source ← f.locate old
  checkPath p
  let parts := Path.parts (Path.join f.cwd p)
  let named := (parts.reverse.dropWhile (· = "")).reverse
  let place ← walk f [] named.dropLast
  match f.entry? place, named.getLast? with
  | none, _ => .error .notFound
  | some (.file _ _), _ => .error .notDirectory
  | some .directory, none => .error .busy
  | some .directory, some name =>
      if name = "." ∨ name = ".." then .error .busy
      else if isLong name then .error .nameTooLong
      else if named.length < parts.length then .error .notDirectory
      else
        let target := place ++ [name]
        match f.entry? target with
        | some .directory => .error .isDirectory
        | _ =>
            if target = source then .ok f
            else
              let f := f.put target (.file content f.now)
              .ok { f with entries := f.entries.erase source }

def names (f : Files) (place : List String) : List String :=
  f.entries.filterMap fun e => if e.1.dropLast = place then e.1.getLast? else none

end Files

def Files.readText (f : Files) (p : String) : Except FileFault String := do
  let content ← f.read p
  return String.ofList (Text.Lines.unify content.toText.toList)

end Sumi.Project
