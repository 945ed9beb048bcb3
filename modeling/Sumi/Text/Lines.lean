import Sumi.Text.Blank

namespace Sumi.Text.Lines

def unify : List Char → List Char
  | '\r' :: '\n' :: cs => '\n' :: unify cs
  | '\r' :: cs => '\n' :: unify cs
  | c :: cs => c :: unify cs
  | [] => []

def split : List Char → List (List Char)
  | [] => [[]]
  | c :: cs =>
      if c = '\n' then [] :: split cs
      else
        match split cs with
        | [] => [[c]]
        | line :: rest => (c :: line) :: rest

/-- The lines of a text with their line feeds, as a stream delivers them. -/
def pieces : List Char → List (List Char)
  | [] => []
  | c :: cs =>
      if c = '\n' then [c] :: pieces cs
      else
        match pieces cs with
        | [] => [[c]]
        | line :: rest => (c :: line) :: rest

def context? (source : List Char) (line : Int) : Option String :=
  if source.isEmpty ∨ line ≤ 0 then none
  else ((split source)[line.toNat - 1]?).map (fun cs => String.ofList (Blank.strip cs))

end Sumi.Text.Lines
