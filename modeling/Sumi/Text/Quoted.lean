import Sumi.Text.CodePoint
import Sumi.Text.Hex

namespace Sumi.Text.Quoted

open CodePoint

def escape : Char → List Char
  | '"' => ['\\', '"']
  | '\\' => ['\\', '\\']
  | '\n' => ['\\', 'n']
  | '\t' => ['\\', 't']
  | '\r' => ['\\', 'r']
  | c => [c]

def encode (cs : List Char) : List Char := cs.flatMap escape

def quote (s : String) : String := String.ofList ('"' :: encode s.toList ++ ['"'])

inductive Fault
  | unknownEscape (place : Nat)
  | shortCodePoint (place : Nat)
  deriving DecidableEq, Repr

def simpleEscape? : Char → Option Char
  | '"' => some '"'
  | '\\' => some '\\'
  | '/' => some '/'
  | 'b' => some '\x08'
  | 'f' => some '\x0c'
  | 'n' => some '\n'
  | 'r' => some '\r'
  | 't' => some '\t'
  | _ => none

/-- The text that the characters between two quotes write. `place` counts the characters before
them. A pair of code points in surrogate form stands for one character. -/
def decode (place : Nat) : List Char → Except Fault (List Char)
  | [] => .ok []
  | '\\' :: 'u' :: a :: b :: c :: d :: rest =>
      match Hex.number? [a, b, c, d] with
      | none => .error (.shortCodePoint (place + 1))
      | some n =>
          match rest with
          | '\\' :: 'u' :: e :: f :: g :: h :: rest' =>
              match isHighSurrogate n, Hex.number? [e, f, g, h] with
              | true, none => .error (.shortCodePoint (place + 7))
              | true, some m =>
                  if isLowSurrogate m then
                    (decode (place + 12) rest').map (toChar (joinSurrogates n m) :: ·)
                  else (decode (place + 6) ('\\' :: 'u' :: e :: f :: g :: h :: rest')).map (toChar n :: ·)
              | false, _ =>
                  (decode (place + 6) ('\\' :: 'u' :: e :: f :: g :: h :: rest')).map (toChar n :: ·)
          | rest => (decode (place + 6) rest).map (toChar n :: ·)
  | '\\' :: 'u' :: _ => .error (.shortCodePoint (place + 1))
  | '\\' :: c :: rest =>
      match simpleEscape? c with
      | some d => (decode (place + 2) rest).map (d :: ·)
      | none => .error (.unknownEscape place)
  | ['\\'] => .error (.unknownEscape place)
  | c :: rest => (decode (place + 1) rest).map (c :: ·)

end Sumi.Text.Quoted
