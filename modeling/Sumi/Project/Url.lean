import Sumi.Project.Authority

namespace Sumi.Project.Url

open Text

def isPlain (b : UInt8) : Bool :=
  let n := b.toNat
  (97 ≤ n && n ≤ 122) || (65 ≤ n && n ≤ 90) || (48 ≤ n && n ≤ 57) ||
    n == 95 || n == 46 || n == 45 || n == 126 || n == 47

def escapeByte (b : UInt8) : List Char :=
  if isPlain b then [Char.ofNat b.toNat] else '%' :: Hex.fixed true 2 b.toNat

def ofPath (p : String) : String :=
  "file://" ++ String.ofList (p.toUTF8.toList.flatMap escapeByte)

/-- The bytes of a row of ASCII characters, escapes being one byte each. A percent sign without two
digits stands for itself. -/
def bytes : List Char → List UInt8
  | '%' :: a :: b :: cs =>
      match Hex.number? [a, b] with
      | some n => UInt8.ofNat n :: bytes cs
      | none => 37 :: bytes (a :: b :: cs)
  | c :: cs => UInt8.ofNat c.toNat :: bytes cs
  | [] => []

def shape (b : Nat) : Option (Nat × Nat × Nat) :=
  if 0xC2 ≤ b ∧ b ≤ 0xDF then some (1, 0x80, 0xBF)
  else if b = 0xE0 then some (2, 0xA0, 0xBF)
  else if b = 0xED then some (2, 0x80, 0x9F)
  else if 0xE1 ≤ b ∧ b ≤ 0xEF then some (2, 0x80, 0xBF)
  else if b = 0xF0 then some (3, 0x90, 0xBF)
  else if 0xF1 ≤ b ∧ b ≤ 0xF3 then some (3, 0x80, 0xBF)
  else if b = 0xF4 then some (3, 0x80, 0x8F)
  else none

/-- What is still missing of a character: bytes, the range of the next one, and the bits so far. -/
structure Partial where
  missing : Nat
  low : Nat
  high : Nat
  code : Nat

/-- Decodes bytes. What belongs to no character becomes one replacement character for each longest
beginning of a character. -/
def decodeFrom (open? : Option Partial) : List UInt8 → List Char
  | [] => if open?.isSome then ['\ufffd'] else []
  | b :: bs =>
      let n := b.toNat
      let fresh (lead : List Char) : List Char :=
        if n < 0x80 then lead ++ Char.ofNat n :: decodeFrom none bs
        else
          match shape n with
          | some (missing, low, high) =>
              lead ++ decodeFrom (some ⟨missing, low, high, n % Nat.pow 2 (6 - missing)⟩) bs
          | none => lead ++ '\ufffd' :: decodeFrom none bs
      match open? with
      | none => fresh []
      | some p =>
          if p.low ≤ n ∧ n ≤ p.high then
            let code := p.code * 64 + n % 64
            if p.missing = 1 then Char.ofNat code :: decodeFrom none bs
            else decodeFrom (some ⟨p.missing - 1, 0x80, 0xBF, code⟩) bs
          else fresh ['\ufffd']

def decode (bs : List UInt8) : List Char := decodeFrom none bs

/-- Resolves the escapes of a text. Other characters than ASCII ones stand for themselves and part
the bytes on their two sides. -/
def unescape (pending : List Char) : List Char → List Char
  | [] => decode (bytes pending.reverse)
  | c :: cs =>
      if c.toNat < 128 then unescape (c :: pending) cs
      else decode (bytes pending.reverse) ++ c :: unescape [] cs

def isSchemeChar (c : Char) : Bool :=
  ('a' ≤ c && c ≤ 'z') || ('A' ≤ c && c ≤ 'Z') || ('0' ≤ c && c ≤ '9') || c == '+' || c == '-' ||
    c == '.'

def isLetter (c : Char) : Bool := ('a' ≤ c && c ≤ 'z') || ('A' ≤ c && c ≤ 'Z')

def scheme? (cs : List Char) : Option (String × List Char) :=
  match cs.span (· != ':') with
  | (c :: scheme, ':' :: rest) =>
      if isLetter c && scheme.all isSchemeChar then
        some (String.ofList ((c :: scheme).map Char.toLower), rest)
      else none
  | _ => none

inductive Target
  | malformed
  | elsewhere
  | file (path : String)
  deriving DecidableEq, Repr

/-- Reads a url. The path of a file stands before what a question or number sign begins, and behind
a host, which means nothing. -/
def read (url : String) : Target :=
  let cs := (url.toList.dropWhile (fun c => c.toNat ≤ 32)).filter
    (fun c => c != '\t' && c != '\n' && c != '\r')
  let (scheme, rest) := (scheme? cs).getD ("", cs)
  let (authority, rest) := match rest with
    | '/' :: '/' :: cs => cs.span (fun c => c != '/' && c != '?' && c != '#')
    | cs => ([], cs)
  if !Authority.isValid authority then .malformed
  else if scheme != "file" then .elsewhere
  else .file (String.ofList (unescape [] (rest.takeWhile (fun c => c != '?' && c != '#'))))

end Sumi.Project.Url
