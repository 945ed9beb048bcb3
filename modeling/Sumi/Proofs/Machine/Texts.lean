import Sumi.Machine.State
import Sumi.Proofs.Form.Whole

namespace Sumi

open Form Text

namespace Form

structure Steady (t : String) : Prop where
  ne_nil : t.toList ≠ []
  worded : ∀ c ∈ t.toList, Token.inWord c = true
  same : ∀ f, readAll t = .ok [f] → f.print = t

variable {t : String} {texts : List String}

def Entry (P : String → Prop) (text : String) : Prop :=
  ∃ k v, P k ∧ P v ∧ text = k ++ " " ++ v

end Form

namespace Machine

namespace Value

def inner : Value → List Value
  | .list _ items | .row items | .vector items => items
  | .map entries => entries.flatMap fun e => [e.1, e.2]
  | _ => []

def isSpelled : Value → Bool
  | .keyword _ _ | .symbol _ _ | .float _ => true
  | _ => false

end Value

variable {m : Machine} {look : Lookup} {v u x : Value} {t : String} {depth : Nat}

inductive Within (m : Machine) : Value → Value → Prop
  | self (v : Value) : Within m v v
  | inner {v u x : Value} (direct : u ∈ v.inner) (deeper : Within m u x) : Within m v x
  | live {source : Live} {x : Value} (deeper : Within m (.map (m.entries source)) x) :
      Within m (.live source) x

/-- Every name and every number with a point that is shown in the text of the value is a word that
reads as what it is. -/
def AllSteady (m : Machine) (v : Value) : Prop :=
  ∀ x, Within m v x → x.isSpelled = true →
    ∀ depth t, x.print (m.lookup depth) true = .ok t → Form.Steady t

theorem AllSteady.inner (h : AllSteady m v) (hu : u ∈ v.inner) : AllSteady m u :=
  fun x hx => h x (.inner hu hx)

theorem AllSteady.live {source : Live} (h : AllSteady m (.live source)) :
    AllSteady m (.map (m.entries source)) :=
  fun x hx => h x (.live hx)

end Machine

end Sumi
