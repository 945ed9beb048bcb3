namespace Sumi.Text.CodePoint

def isHighSurrogate (n : Nat) : Bool := 0xD800 ≤ n && n < 0xDC00

def isLowSurrogate (n : Nat) : Bool := 0xDC00 ≤ n && n < 0xE000

def joinSurrogates (high low : Nat) : Nat := 0x10000 + (high - 0xD800) * 0x400 + (low - 0xDC00)

def isSurrogate (n : Nat) : Bool := isHighSurrogate n || isLowSurrogate n

/-- The character with code point `n`. Half a surrogate pair is no character, but a text can hold
one: there a character for private use stands for it, which no text has of its own. -/
def toChar (n : Nat) : Char := if isSurrogate n then Char.ofNat (0xF0000 + n) else Char.ofNat n

def isHalf (c : Char) : Bool := 0xFD800 ≤ c.toNat && c.toNat < 0xFE000

def ofChar (c : Char) : Nat := if isHalf c then c.toNat % 0x10000 else c.toNat

def isEncodable (s : String) : Bool := s.toList.all (!isHalf ·)

end Sumi.Text.CodePoint
