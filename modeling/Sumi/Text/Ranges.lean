namespace Sumi.Text.Ranges

/-- The number of entries of the ascending array `bounds`, from place `lo` up to `hi`, that are
at most `n`, counted from the start of the array. -/
def rank (bounds : Array Nat) (n lo hi : Nat) : Nat :=
  if lo < hi then
    let mid := (lo + hi) / 2
    if bounds.getD mid 0 ≤ n then rank bounds n (mid + 1) hi else rank bounds n lo mid
  else lo
termination_by hi - lo

/-- Membership in a union of intervals. `bounds` lists, in ascending order, where an interval
begins and where it has ended, so `n` is inside iff it has passed an odd number of bounds. -/
def contains (bounds : Array Nat) (n : Nat) : Bool :=
  rank bounds n 0 bounds.size % 2 == 1

end Sumi.Text.Ranges
