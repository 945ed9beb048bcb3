import Sumi.Machine.Failure

namespace Sumi.Machine.Sort

variable {α : Type}

abbrev Less (α : Type) := α → α → Result Bool

def search (before : α → Result Bool) (xs : Array α) (lo hi : Nat) : Result Nat :=
  if lo < hi then
    let mid := lo + (hi - lo) / 2
    match xs[mid]? with
    | none => .ok lo
    | some x => do
        if ← before x then search before xs (mid + 1) hi else search before xs lo mid
  else .ok lo
termination_by hi - lo

def reach (test : Nat → Result Bool) (limit last next : Nat) : Result (Nat × Nat) :=
  if next < limit then do
    if ← test next then reach test limit next (2 * next + 1) else return (last, next)
  else .ok (last, limit)
termination_by limit - next

/-- The place behind all members that stand before it, looked for from `hint` on, first in growing
steps and then in the middle of what is left. -/
def gallop (before : α → Result Bool) (xs : Array α) (hint : Nat) : Result Nat := do
  let at? (n : Nat) : Result Bool := (xs[n]?).elim (.ok false) before
  if ← at? hint then
    let (last, next) ← reach (fun n => at? (hint + n)) (xs.size - hint) 0 1
    search before xs (hint + last + 1) (hint + next)
  else
    let (last, next) ← reach (fun n => do return !(← at? (hint - n))) (hint + 1) 0 1
    search before xs (hint + 1 - next) (hint - last)

inductive Side
  | front
  | back
  deriving DecidableEq, Repr

/-- A merge under way: what was taken from the runs, latest first, and what is left of them, next
first. A run that is taken from `patience` times in a row is taken from in blocks. -/
structure Merge (α : Type) where
  side : Side
  taken : List α := []
  left : List α
  right : List α
  patience : Nat

namespace Merge

def takeLeft (m : Merge α) (n : Nat) : Merge α :=
  { m with taken := (m.left.take n).reverse ++ m.taken, left := m.left.drop n }

def takeRight (m : Merge α) (n : Nat) : Merge α :=
  { m with taken := (m.right.take n).reverse ++ m.taken, right := m.right.drop n }

def atMostOne : List α → Bool
  | [] | [_] => true
  | _ => false

/-- The run on the side that the merge starts from keeps its last member for the end. -/
def isDone (m : Merge α) : Bool :=
  match m.side with
  | .front => atMostOne m.left || m.right.isEmpty
  | .back => atMostOne m.right || m.left.isEmpty

def result (m : Merge α) : List α :=
  match m.side with
  | .front => m.taken.reverse ++ m.right ++ m.left
  | .back => m.right.reverse ++ m.left.reverse ++ m.taken

def block (m : Merge α) (before : α → Result Bool) (xs : List α) : Result Nat :=
  match m.side with
  | .front => gallop before xs.toArray 0
  | .back => do
      let xs := xs.reverse.toArray
      return xs.size - (← gallop before xs (xs.size - 1))

def blockSize : Nat := 7

mutual

def step (less : Less α) : Nat → Nat → Nat → Merge α → Result (Merge α)
  | 0, _, _, m => .ok m
  | fuel + 1, lefts, rights, m =>
      match m.left, m.right with
      | a :: _, b :: _ => do
          let rightFirst := (← less b a) == decide (m.side = .front)
          let m := if rightFirst then m.takeRight 1 else m.takeLeft 1
          let lefts := if rightFirst then 0 else lefts + 1
          let rights := if rightFirst then rights + 1 else 0
          if m.isDone then return m
          else if m.patience ≤ max lefts rights then
            blocks less fuel { m with patience := m.patience + 1 }
          else step less fuel lefts rights m
      | _, _ => .ok m

def blocks (less : Less α) : Nat → Merge α → Result (Merge α)
  | 0, m => .ok m
  | fuel + 1, m =>
      let m := { m with patience := if 1 < m.patience then m.patience - 1 else m.patience }
      match m.right with
      | [] => .ok m
      | b :: _ => do
          let lefts ← m.block (fun a => do return !(← less b a)) m.left
          let m := m.takeLeft lefts
          if m.isDone then return m
          let m := m.takeRight 1
          if m.isDone then return m
          match m.left with
          | [] => return m
          | a :: _ =>
              let rights ← m.block (fun b => less b a) m.right
              let m := m.takeRight rights
              if m.isDone then return m
              let m := m.takeLeft 1
              if m.isDone then return m
              if blockSize ≤ max lefts rights then blocks less fuel m
              else step less fuel 0 0 { m with patience := m.patience + 1 }

end

def run (less : Less α) (m : Merge α) : Result (List α × Nat) := do
  let m := match m.side with
    | .front => m.takeRight 1
    | .back => m.takeLeft 1
  if m.isDone then return (m.result, m.patience)
  let m ← step less (m.left.length + m.right.length) 0 0 m
  return (m.result, m.patience)

end Merge

/-- Merges two runs. What stands in its place already is left there, and the merge starts from the
side of the shorter rest. -/
def merge (less : Less α) (patience : Nat) (left right : List α) : Result (List α × Nat) :=
  match right with
  | [] => .ok (left, patience)
  | b :: _ => do
      let n ← gallop (fun a => do return !(← less b a)) left.toArray 0
      let rest := left.drop n
      match rest.getLast? with
      | none => return (left ++ right, patience)
      | some a =>
          let k ← gallop (fun b => less b a) right.toArray (right.length - 1)
          if k = 0 then return (left ++ right, patience)
          let side := if rest.length ≤ k then Side.front else .back
          let turn (xs : List α) : List α := if side = .front then xs else xs.reverse
          let (merged, patience) ← Merge.run less
            { side := side, left := turn rest, right := turn (right.take k), patience := patience }
          return (left.take n ++ merged ++ right.drop k, patience)

def runLength (less : Less α) (down : Bool) : α → List α → Result Nat
  | _, [] => .ok 1
  | x, y :: ys => do
      if (← less y x) == down then return (← runLength less down y ys) + 1 else return 1

def firstRun (less : Less α) : List α → Result (List α × Nat)
  | x :: y :: ys => do
      let down ← less y x
      let n := (← runLength less down y ys) + 1
      let run := (x :: y :: ys).take n
      return (if down then run.reverse else run, n)
  | xs => .ok (xs, xs.length)

def insert (less : Less α) (sorted : Array α) (x : α) : Result (Array α) := do
  let place ← search (fun y => do return !(← less x y)) sorted 0 sorted.size
  return (sorted.toList.insertIdx place x).toArray

/-- The least length of a run: a list of `n` members is cut into a power of two of such runs, or
somewhat fewer. `up` tells that a bit was lost on the way. -/
def leastRun (n up : Nat) : Nat :=
  if n < 64 then n + up else leastRun (n / 2) (max up (n % 2))
termination_by n

/-- A run that waits to be merged: its place in the list, its length, and the depth in the tree of
the border behind it. -/
structure Waiting (α : Type) where
  items : List α
  start : Nat
  size : Nat
  depth : Nat := 0

/-- How many binary digits of `a / n` and `b / n` it takes to tell the two apart. -/
def depthOf (n : Nat) : Nat → Nat → Nat → Nat
  | 0, _, _ => 0
  | fuel + 1, a, b =>
      if n ≤ a then depthOf n fuel (2 * (a - n)) (2 * (b - n)) + 1
      else if n ≤ b then 1
      else depthOf n fuel (2 * a) (2 * b) + 1

/-- The runs that wait, last first, and the patience of the next merge. -/
structure Stack (α : Type) where
  runs : List (Waiting α) := []
  patience : Nat := Merge.blockSize

def join (less : Less α) (patience : Nat) (a b : Waiting α) : Result (Waiting α × Nat) := do
  let (items, patience) ← merge less patience a.items b.items
  return ({ a with items := items, size := a.size + b.size }, patience)

/-- Merges the last two runs as long as the border between them lies deeper than `depth`. -/
def settle (less : Less α) (depth : Nat) (patience : Nat) (top : Waiting α) :
    List (Waiting α) → Result (Stack α)
  | [] => .ok ⟨[{ top with depth := depth }], patience⟩
  | run :: runs => do
      if depth < run.depth then
        let (top, patience) ← join less patience run top
        settle less depth patience top runs
      else return ⟨{ top with depth := depth } :: run :: runs, patience⟩

def push (less : Less α) (n : Nat) (s : Stack α) (run : Waiting α) : Result (Stack α) :=
  match s.runs with
  | [] => .ok { s with runs := [run] }
  | top :: runs => do
      let a := 2 * top.start + top.size
      let s ← settle less (depthOf n (n + 1) a (a + top.size + run.size)) s.patience top runs
      return { s with runs := run :: s.runs }

def cut (less : Less α) (n least : Nat) : Nat → Nat → List α → Stack α → Result (Stack α)
  | 0, _, _, s => .ok s
  | _ + 1, _, [], s => .ok s
  | fuel + 1, start, xs, s => do
      let (run, size) ← firstRun less xs
      let more := min (xs.length - size) (least - size)
      let run ← ((xs.drop size).take more).foldlM (insert less) run.toArray
      let size := size + more
      let s ← push less n s { items := run.toList, start := start, size := size }
      cut less n least fuel (start + size) (xs.drop size) s

/-- Merges all runs that wait: the last two, unless the one before them is shorter than the last. -/
def collapse (less : Less α) : Nat → Nat → List (Waiting α) → Result (List α)
  | _, _, [] => .ok []
  | _, _, [run] => .ok run.items
  | 0, _, runs => .ok (runs.reverse.flatMap (·.items))
  | fuel + 1, patience, c :: b :: a :: runs => do
      if a.size < c.size then
        let (ab, patience) ← join less patience a b
        collapse less fuel patience (c :: ab :: runs)
      else
        let (bc, patience) ← join less patience b c
        collapse less fuel patience (bc :: a :: runs)
  | fuel + 1, patience, [c, b] => do
      let (bc, patience) ← join less patience b c
      collapse less fuel patience [bc]

def sort (less : Less α) (xs : List α) : Result (List α) := do
  let n := xs.length
  let s ← cut less n (leastRun n 0) n 0 xs {}
  collapse less s.runs.length s.patience s.runs

end Sumi.Machine.Sort
