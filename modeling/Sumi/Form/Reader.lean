import Sumi.Form.Token
import Sumi.Report
import Sumi.Text.Lines
import Sumi.Text.Literal
import Sumi.Text.Quoted

namespace Sumi.Form

open Text

inductive ReadError.Cause
  | strayCharacter (c : Char)
  | strayToken (text : List Char)
  | strayBracket (c : Char)
  | endOfInput
  | oddMap
  | badEscape (fault : Quoted.Fault) (token : List Char)
  | longNumber (digits : Nat)
  deriving DecidableEq, Repr

structure ReadError where
  cause : ReadError.Cause
  place : Option Place := none
  context : Option String := none
  deriving DecidableEq, Repr

namespace ReadError

/-- Where a string has a bad escape: the line and column inside the string, and the number of
characters before it. -/
def escapePlace (token : List Char) (n : Nat) : String :=
  let p := Place.advance ⟨1, 1⟩ (token.take n)
  "line " ++ toString p.line ++ " column " ++ toString p.column ++ " (char " ++ toString n ++ ")"

def longNumberMessage (digits : Nat) : String :=
  "Exceeds the limit (" ++ toString Digit.limit ++ " digits) for integer string conversion: " ++
    "value has " ++ toString digits ++ " digits; " ++
    "use sys.set_int_max_str_digits() to increase the limit"

def Cause.message : Cause → String
  | .strayCharacter c => "Unexpected character " ++ Literal.write (String.singleton c)
  | .strayToken text => "Unexpected " ++ Literal.write (String.ofList text)
  | .strayBracket c => "Unmatched delimiter: " ++ String.singleton c
  | .endOfInput => "EOF while reading"
  | .oddMap => "Map literal must contain an even number of forms"
  | .badEscape (.unknownEscape n) token => "Invalid \\escape: " ++ escapePlace token n
  | .badEscape (.shortCodePoint n) token => "Invalid \\uXXXX escape: " ++ escapePlace token n
  | .longNumber digits => longNumberMessage digits

def report (e : ReadError) : Report where
  title := "Read error"
  message := e.cause.message
  line := e.place.map (fun p => (p.line : Int))
  column := e.place.map (fun p => (p.column : Int))
  context := e.context

def text (e : ReadError) : String := e.report.text

end ReadError

inductive Tree
  | leaf (t : Token)
  | mark (m : Mark) (line : Nat) (child : Tree)
  | node (b : Bracket) (line : Nat) (children : List Tree)

namespace Tree

/-- What waits for trees: an open bracket with those it has, latest first, or a mark. -/
inductive Frame
  | bracket (b : Bracket) (line : Nat) (children : List Tree)
  | mark (m : Mark) (line : Nat)

/-- The trees so far, latest first: those at the top, and the frames that are open around the next
one, innermost first. -/
structure Nest where
  frames : List Frame := []
  top : List Tree := []

def Nest.put (t : Tree) (top : List Tree) : List Frame → Nest
  | [] => ⟨[], t :: top⟩
  | .bracket b line children :: frames => ⟨.bracket b line (t :: children) :: frames, top⟩
  | .mark m line :: frames => Nest.put (.mark m line t) top frames

def Nest.step (s : Nest) (t : Token) : Except ReadError Nest :=
  match t.kind with
  | .opening b => .ok ⟨.bracket b t.place.line [] :: s.frames, s.top⟩
  | .mark m => .ok ⟨.mark m t.place.line :: s.frames, s.top⟩
  | .closing b =>
      match s.frames with
      | .bracket b' line children :: frames =>
          if b = b' then .ok (Nest.put (.node b line children.reverse) s.top frames)
          else .error ⟨.strayToken t.text, some t.place, none⟩
      | _ => .error ⟨.strayToken t.text, some t.place, none⟩
  | _ => .ok (Nest.put (.leaf t) s.top s.frames)

/-- Nests the items from state `s`. The end of the text is blamed on the last token. -/
def nest (s : Nest) (last : Place) : List Item → Except ReadError (List Tree)
  | [] =>
      if s.frames.isEmpty then .ok s.top.reverse
      else .error ⟨.endOfInput, some last, none⟩
  | .stray c place :: _ => .error ⟨.strayCharacter c, some place, none⟩
  | .token t :: items =>
      match s.step t with
      | .ok s => nest s t.place items
      | .error e => .error e

def symbolForm (s : String) : Form :=
  if s = "nil" then .nil
  else if s = "true" then .bool true
  else if s = "false" then .bool false
  else .symbol (.ofSymbol s)

def numberForm (cs : List Char) : Except ReadError Form :=
  match Numeral.read? cs with
  | none => .ok .nil
  | some n =>
      if n.isTooLong then .error ⟨.longNumber n.whole.length, none, none⟩ else .ok n.toForm

def leafForm (t : Token) : Except ReadError Form :=
  match t.kind with
  | .string =>
      match Quoted.decode 1 t.text.tail.dropLast with
      | .ok cs => .ok (.str (String.ofList cs))
      | .error fault => .error ⟨.badEscape fault t.text, none, none⟩
  | .number => numberForm t.text
  | .keyword => .ok (.keyword (.split (String.ofList t.text.tail)))
  | _ => .ok (symbolForm (String.ofList t.text))

def markName : Mark → String
  | .quote => "quote"
  | .deref => "deref"

def nodeForm (b : Bracket) (line : Nat) (items : List Form) : Except ReadError Form :=
  match b with
  | .round => .ok (.list items (some line))
  | .square => .ok (.vector items (some line))
  | .curly =>
      if items.length % 2 = 0 then .ok (.map items (some line)) else .error ⟨.oddMap, none, none⟩

mutual

def toForm : Tree → Except ReadError Form
  | .leaf t => leafForm t
  | .mark m line child => do
      let form ← child.toForm
      return .list [.sym (markName m), form] (some line)
  | .node b line children => do
      let forms ← toForms children
      nodeForm b line forms

def toForms : List Tree → Except ReadError (List Form)
  | [] => .ok []
  | t :: ts => do
      let form ← t.toForm
      let forms ← toForms ts
      return form :: forms

end

end Tree

def readChars (firstLine : Nat) (cs : List Char) : Except ReadError (List Form) :=
  let start : Place := ⟨max firstLine 1, 1⟩
  match Tree.nest {} start (Token.items start cs) with
  | .error e =>
      let context := e.place.bind (fun p => Lines.context? cs (p.line + 1 - start.line : Nat))
      .error ⟨e.cause, e.place, context⟩
  | .ok trees => Tree.toForms trees

def readAll (source : String) : Except ReadError (List Form) := readChars 1 source.toList

def readFirst (source : String) : Except ReadError Form := do
  match ← readAll source with
  | [] => .error ⟨.endOfInput, none, none⟩
  | form :: _ => .ok form

end Sumi.Form
