import Sumi.Text.Alphanumeric
import Sumi.Text.CodePoint
import Sumi.Text.Digit
import Sumi.Text.Hex

namespace Sumi.Code

open Text

def wordFor : Char → Option String
  | '-' => some "_"
  | '.' => some "_DOT_"
  | ':' => some "_COLON_"
  | '+' => some "_PLUS_"
  | '>' => some "_GT_"
  | '<' => some "_LT_"
  | '=' => some "_EQ_"
  | '~' => some "_TILDE_"
  | '!' => some "_BANG_"
  | '@' => some "_CIRCA_"
  | '#' => some "_SHARP_"
  | '\'' => some "_SINGLEQUOTE_"
  | '%' => some "_PERCENT_"
  | '^' => some "_CARET_"
  | '&' => some "_AMPERSAND_"
  | '*' => some "_STAR_"
  | '|' => some "_BAR_"
  | '\\' => some "_BSLASH_"
  | '/' => some "_SLASH_"
  | '?' => some "_QMARK_"
  | _ => none

def mungeChar (c : Char) : List Char :=
  match wordFor c with
  | some word => word.toList
  | none =>
      if Alphanumeric.isAlphanumeric c || c == '_' then [c]
      else '_' :: 'U' :: Hex.padded true 4 (CodePoint.ofChar c) ++ ['_']

def reserved : List String :=
  ["False", "None", "True", "and", "as", "assert", "async", "await", "break", "class", "continue",
   "def", "del", "elif", "else", "except", "finally", "for", "from", "global", "if", "import",
   "in", "is", "lambda", "nonlocal", "not", "or", "pass", "raise", "return", "try", "while",
   "with", "yield"]

def shield : List Char → List Char
  | [] => []
  | c :: cs => if Digit.isDigit c then '_' :: c :: cs else c :: cs

def shielded (cs : List Char) : String :=
  let s := String.ofList (shield cs)
  if reserved.contains s then s.push '_' else s

def munge (name : String) : String := shielded (name.toList.flatMap mungeChar)

/-- What stands for a part of a name that comes in parts. One of several characters must not need
any words. -/
def mungePart? : List Char → Option (List Char)
  | [] => none
  | [c] => some (mungeChar c)
  | cs => if cs.all Alphanumeric.isAlphanumeric then some cs else none

/-- The name of a local. The generated code calls helpers whose names begin with `sumi_`, which no
local may hide. -/
def mungeLocal (name : String) : String :=
  let s := munge name
  if "sumi_".toList.isPrefixOf s.toList then s.push '_' else s

def isName (s : String) : Bool :=
  match s.toList with
  | [] => false
  | c :: cs =>
      Alphanumeric.continuesName c && !Digit.isDigit c &&
        !Ranges.contains Alphanumeric.neverFirst c.toNat && cs.all Alphanumeric.continuesName

end Sumi.Code
