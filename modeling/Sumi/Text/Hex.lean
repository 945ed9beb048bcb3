namespace Sumi.Text.Hex

def value? (c : Char) : Option Nat :=
  if '0' ≤ c ∧ c ≤ '9' then some (c.toNat - 48)
  else if 'a' ≤ c ∧ c ≤ 'f' then some (c.toNat - 87)
  else if 'A' ≤ c ∧ c ≤ 'F' then some (c.toNat - 55)
  else none

def number? (cs : List Char) : Option Nat :=
  cs.foldlM (fun n c => (value? c).map (16 * n + ·)) 0

def digit (upper : Bool) (n : Nat) : Char :=
  if n < 10 then Char.ofNat (48 + n) else Char.ofNat ((if upper then 55 else 87) + n)

def fixed (upper : Bool) : Nat → Nat → List Char
  | 0, _ => []
  | width + 1, n => fixed upper width (n / 16) ++ [digit upper (n % 16)]

def padded (upper : Bool) (width n : Nat) : List Char :=
  let digits := (Nat.toDigits 16 n).length
  fixed upper (max width digits) n

end Sumi.Text.Hex
