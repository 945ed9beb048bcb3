import Sumi.Text.CodePoint
import Sumi.Text.Hex
import Sumi.Text.Printable

namespace Sumi.Text.Literal

def coded (n : Nat) : List Char :=
  if n < 0x100 then '\\' :: 'x' :: Hex.fixed false 2 n
  else if n < 0x10000 then '\\' :: 'u' :: Hex.fixed false 4 n
  else '\\' :: 'U' :: Hex.fixed false 8 n

def escape (quote c : Char) : List Char :=
  if c == quote || c == '\\' then ['\\', c]
  else if c == '\n' then ['\\', 'n']
  else if c == '\r' then ['\\', 'r']
  else if c == '\t' then ['\\', 't']
  else if Printable.isPrintable c then [c]
  else coded (CodePoint.ofChar c)

/-- What is written of a text where any text is taken: half a surrogate pair by its code point. -/
def spellHalves (s : String) : String :=
  if CodePoint.isEncodable s then s
  else String.ofList (s.toList.flatMap fun c =>
    if CodePoint.isHalf c then coded (CodePoint.ofChar c) else [c])

def quoteFor (cs : List Char) : Char :=
  if cs.contains '\'' && !cs.contains '"' then '"' else '\''

def encode (cs : List Char) : List Char :=
  let quote := quoteFor cs
  quote :: cs.flatMap (escape quote) ++ [quote]

def write (s : String) : String := String.ofList (encode s.toList)

end Sumi.Text.Literal
