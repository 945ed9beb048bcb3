
namespace Sumi

variable {κ ν : Type}

abbrev Table (κ ν : Type) := List (κ × ν)

namespace Table

variable [BEq κ]

def get? (key : κ) : Table κ ν → Option ν
  | [] => none
  | (k, v) :: rest => if k == key then some v else get? key rest

def put (key : κ) (value : ν) : Table κ ν → Table κ ν
  | [] => [(key, value)]
  | (k, v) :: rest => if k == key then (k, value) :: rest else (k, v) :: put key value rest

def erase (key : κ) (t : Table κ ν) : Table κ ν := t.filter (fun e => !(e.1 == key))

def has (key : κ) (t : Table κ ν) : Bool := (t.get? key).isSome

def putAll (t : Table κ ν) (entries : List (κ × ν)) : Table κ ν :=
  entries.foldl (fun t e => t.put e.1 e.2) t

/-- Puts `f` of the value at `key`, or of `fresh` where there is none. -/
def update (key : κ) (fresh : ν) (f : ν → ν) (t : Table κ ν) : Table κ ν :=
  t.put key (f ((t.get? key).getD fresh))

omit [BEq κ] in
def keys (t : Table κ ν) : List κ := t.map Prod.fst

omit [BEq κ] in
def values (t : Table κ ν) : List ν := t.map Prod.snd

variable [LawfulBEq κ]

theorem get?_put_self (key : κ) (value : ν) (t : Table κ ν) :
    (t.put key value).get? key = some value := by
  induction t with
  | nil => simp [put, get?]
  | cons e t ih =>
      by_cases h : e.1 == key
      · simp [put, get?, h]
      · simp [put, get?, h, ih]

theorem get?_put_of_ne {key other : κ} (h : other ≠ key) (value : ν) (t : Table κ ν) :
    (t.put key value).get? other = t.get? other := by
  induction t with
  | nil => simp [put, get?, Ne.symm h]
  | cons e t ih =>
      by_cases hk : e.1 = key
      · simp [put, get?, hk, Ne.symm h]
      · simp [put, get?, hk, ih]

end Table

def distinct {α : Type} [BEq α] (xs : List α) : List α :=
  xs.foldl (fun seen x => if seen.contains x then seen else seen ++ [x]) []

end Sumi
