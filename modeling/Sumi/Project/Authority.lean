import Sumi.Text.Hex

namespace Sumi.Project.Authority

open Text

def split (separator : Char) : List Char → List (List Char)
  | [] => [[]]
  | c :: cs =>
      match split separator cs with
      | part :: parts => if c = separator then [] :: part :: parts else (c :: part) :: parts
      | [] => [[]]

def isDecimal (c : Char) : Bool := '0' ≤ c && c ≤ '9'

def isHex (c : Char) : Bool := (Hex.value? c).isSome

def isGroup (cs : List Char) : Bool := !cs.isEmpty && cs.length ≤ 4 && cs.all isHex

def isOctet (cs : List Char) : Bool :=
  !cs.isEmpty && cs.length ≤ 3 && cs.all isDecimal && (cs = ['0'] || cs.head? != some '0') &&
    cs.foldl (fun n c => 10 * n + (c.toNat - 48)) 0 < 256

def isQuad (cs : List Char) : Bool :=
  let parts := split '.' cs
  parts.length = 4 && parts.all isOctet

def groups? (cs : List Char) : Option (List (List Char)) :=
  let parts := split ':' cs
  let last := parts.getLast?.getD []
  if parts.length < 3 then none
  else if last.contains '.' then
    if isQuad last then some (parts.dropLast ++ [['0'], ['0']]) else none
  else some parts

/-- Eight groups, or fewer with an empty part in place of those that are left out. At an end of the
address that part comes with another empty one. -/
def isGroups (parts : List (List Char)) : Bool :=
  let inner := (parts.drop 1).dropLast
  match inner.findIdx? List.isEmpty with
  | none => parts.length = 8 && parts.all isGroup
  | some i =>
      let whole (side : List (List Char)) : List (List Char) := if side = [[]] then [] else side
      let given := whole (parts.take (i + 1)) ++ whole (parts.drop (i + 2))
      parts.length ≤ 9 && inner.countP List.isEmpty = 1 && given.length ≤ 7 && given.all isGroup

def isAddress (cs : List Char) : Bool :=
  let zoned := match cs.dropWhile (· != '%') with
    | [] => true
    | _ :: zone => !zone.isEmpty && !zone.contains '%'
  zoned && (groups? (cs.takeWhile (· != '%'))).any isGroups

def isFuture (cs : List Char) : Bool :=
  let version := cs.takeWhile isHex
  match cs.dropWhile isHex with
  | '.' :: rest => !version.isEmpty && !rest.isEmpty
  | _ => false

def isBracketed : List Char → Bool
  | 'v' :: cs => isFuture cs
  | cs => isAddress cs

def hostAndPort (cs : List Char) : List Char := (cs.reverse.takeWhile (· != '@')).reverse

def bracketsFit (cs : List Char) : Bool :=
  if cs.contains '[' && cs.contains ']' then
    let cs := hostAndPort cs
    match cs.takeWhile (· != '['), cs.dropWhile (· != '[') with
    | [], _ :: rest =>
        isBracketed (rest.takeWhile (· != ']')) && (rest.dropWhile (· != ']'))[1]?.all (· == ':')
    | _, _ :: _ => false
    | host, [] => isBracketed (host.takeWhile (· != ':'))
  else !cs.contains '[' && !cs.contains ']'

/-- Characters that mean the same as some with a delimiter of urls among them. -/
def disguised : List Nat :=
  [0x2047, 0x2048, 0x2049, 0x2100, 0x2101, 0x2105, 0x2106, 0x2A74, 0xFE13, 0xFE16, 0xFE55, 0xFE56,
   0xFE5F, 0xFE6B, 0xFF03, 0xFF0F, 0xFF1A, 0xFF1F, 0xFF20]

def isValid (cs : List Char) : Bool :=
  bracketsFit cs && !cs.any (fun c => disguised.contains c.toNat)

end Sumi.Project.Authority
