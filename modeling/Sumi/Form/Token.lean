import Sumi.Form.Numeral
import Sumi.Text.Blank

namespace Sumi.Form

open Text

structure Place where
  line : Nat
  column : Nat
  deriving DecidableEq, Repr, Inhabited

namespace Place

def step (p : Place) (c : Char) : Place :=
  if c = '\n' then ⟨p.line + 1, 1⟩ else ⟨p.line, p.column + 1⟩

def advance (p : Place) (cs : List Char) : Place := cs.foldl step p

end Place

inductive Bracket
  | round
  | square
  | curly
  deriving DecidableEq, Repr

inductive Mark
  | quote
  | deref
  deriving DecidableEq, Repr

inductive Token.Kind
  | opening (b : Bracket)
  | closing (b : Bracket)
  | mark (m : Mark)
  | string
  | number
  | keyword
  | symbol
  deriving DecidableEq, Repr

structure Token where
  kind : Token.Kind
  text : List Char
  place : Place
  deriving DecidableEq, Repr

/-- What the text holds at a place: a token, or a character that begins none. -/
inductive Item
  | token (t : Token)
  | stray (c : Char) (place : Place)
  deriving DecidableEq, Repr

namespace Token

def isDelimiter (c : Char) : Bool :=
  Blank.isBlank c || ['(', ')', '[', ']', '\x7b', '\x7d', '"', ';', '\'', ',', '@'].contains c

def isSeparator (c : Char) : Bool := Blank.isBlank c || c == ','

def inWord (c : Char) : Bool := !isDelimiter c

/-- The length of a string after its opening quote, up to and with the closing one. A backslash
takes the next character with it, which may not be a line feed. -/
def stringLength : List Char → Option Nat
  | [] => none
  | '"' :: _ => some 1
  | '\\' :: c :: cs => if c = '\n' then none else (stringLength cs).map (· + 2)
  | ['\\'] => none
  | _ :: cs => (stringLength cs).map (· + 1)

def beginsSymbol (c : Char) : Bool :=
  inWord c && !Digit.isDecimal c && !([':', '#', '~', '\x60', '^', '\\'].contains c)

/-- The token that begins with `c` before `rest`: its kind, and how much of `rest` it takes. A word
that is a number in full is a number. -/
def leading? (c : Char) (rest : List Char) : Option (Kind × Nat) :=
  match c with
  | '(' => some (.opening .round, 0)
  | ')' => some (.closing .round, 0)
  | '[' => some (.opening .square, 0)
  | ']' => some (.closing .square, 0)
  | '\x7b' => some (.opening .curly, 0)
  | '\x7d' => some (.closing .curly, 0)
  | '\'' => some (.mark .quote, 0)
  | '@' => some (.mark .deref, 0)
  | '"' => (stringLength rest).map (fun n => (.string, n))
  | ':' =>
      match rest.takeWhile inWord with
      | [] => none
      | d :: ds => if d = ':' then none else some (.keyword, ds.length + 1)
  | c =>
      let more := rest.takeWhile inWord
      if (Numeral.read? (c :: more)).isSome then some (.number, more.length)
      else if beginsSymbol c then some (.symbol, more.length)
      else none

def items (place : Place) (cs : List Char) : List Item :=
  match cs with
  | [] => []
  | c :: rest =>
      if isSeparator c then items (place.step c) rest
      else if c = ';' then
        items (place.advance (c :: rest.takeWhile (· != '\n'))) (rest.dropWhile (· != '\n'))
      else
        match leading? c rest with
        | none => [.stray c place]
        | some (kind, n) =>
            let text := c :: rest.take n
            .token ⟨kind, text, place⟩ :: items (place.advance text) (rest.drop n)
termination_by cs.length
decreasing_by
  · simp
  · have h := (List.dropWhile_sublist (· != '\n') (l := rest)).length_le
    simp only [List.length_cons]
    omega
  · simp only [List.length_cons, List.length_drop]
    omega

end Token

end Sumi.Form
