
namespace Sumi.Project.Path

def isAbsolute (p : String) : Bool := "/".toList.isPrefixOf p.toList

/-- `p` inside `base`. An absolute path stays as it is. -/
def join (base p : String) : String :=
  if isAbsolute p || base.isEmpty then p
  else if base.toList.getLast? == some '/' then base ++ p
  else base ++ "/" ++ p

def joinAll : List String → String
  | [] => ""
  | p :: ps => ps.foldl join p

def parts (p : String) : List String := (p.toList.splitOn '/').map String.ofList

/-- Follows the parts of a path by their names alone. Nothing is above the root, and what is above
the start of a relative path stays. -/
def follow (absolute : Bool) (done : List String) : List String → List String
  | [] => done
  | part :: rest =>
      if part = "" ∨ part = "." then follow absolute done rest
      else if part = ".." then
        match done with
        | [] => follow absolute (if absolute then [] else [".."]) rest
        | last :: up => follow absolute (if last = ".." then ".." :: done else up) rest
      else follow absolute (part :: done) rest

def normal (p : String) : String :=
  let slashes := (p.toList.takeWhile (· == '/')).length
  let root := if slashes = 0 then "" else if slashes = 2 then "//" else "/"
  let s := root ++ "/".intercalate (follow (0 < slashes) [] (parts p)).reverse
  if s.isEmpty then "." else s

def absolute (cwd p : String) : String := normal (join cwd p)

def parent (p : String) : String :=
  let head := (p.toList.reverse.dropWhile (· != '/')).reverse
  if head.all (· == '/') then String.ofList head
  else String.ofList (head.reverse.dropWhile (· == '/')).reverse

end Sumi.Project.Path
