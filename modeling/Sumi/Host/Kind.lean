
namespace Sumi.Host

inductive Kind
  | inProcess
  | process
  | remote (url : String)
  deriving DecidableEq, Repr

namespace Kind

def names : List String := ["inprocess", "process", "remote"]

def defaultUrl : String := "http://127.0.0.1:9630"

def ofName? (name : String) (url : Option String) : Option Kind :=
  if name = "process" then some .process
  else if name = "remote" then
    let url := match url with
      | none | some "" => defaultUrl
      | some url => url
    some (.remote (String.ofList (url.toList.reverse.dropWhile (· == '/')).reverse))
  else if name = "inprocess" then some .inProcess
  else none

def unknown (name : String) : String :=
  "Unknown host: " ++ name ++ ". Choose one of: " ++ ", ".intercalate names

end Kind

end Sumi.Host
