import Sumi.Machine.Eval
import Sumi.Proofs.Code.Names

namespace Sumi.Machine

open Library Text.Compatibility

variable {call : Call} {env : Locals} {helper : String}

/-- No local has the name of a helper. -/
def Clear (env : Locals) : Prop := ∀ s ∈ env.map Prod.fst, s ∉ Code.helpers

theorem clear_nil : Clear [] := nofun

theorem clear_of (h : (env.map Prod.fst).all (!Code.helpers.contains ·) = true) : Clear env := by
  simpa [Clear, List.all_eq_true] using h

theorem Clear.cons {s : String} {v : Value} (h : Clear env) (hs : s ∉ Code.helpers) :
    Clear ((s, v) :: env) :=
  List.forall_mem_cons.mpr ⟨hs, h⟩

theorem Clear.lookup (h : Clear env) (hh : helper ∈ Code.helpers) : env.lookup helper = none := by
  apply List.lookup_eq_none_iff.mpr
  intro p hp
  have hne : p.1 ≠ helper := fun he => h p.1 (List.mem_map_of_mem hp) (he ▸ hh)
  simpa using hne.symm

theorem Clear.assist (h : Clear env) (hh : helper ∈ Code.helpers) (args : List Value)
    (own : Run Value) : assist call env helper args own = own := by
  rw [Machine.assist, h.lookup hh]

theorem Clear.keyword (h : Clear env) (n : Name) :
    eval call env (.keyword n) = pure (.keyword (Value.ofName n).1 (Value.ofName n).2) := by
  rw [eval]
  exact h.assist (by decide) _ _

theorem Clear.symbol (h : Clear env) (n : Name) :
    eval call env (.symbol n) = pure (.symbol (Value.ofName n).1 (Value.ofName n).2) := by
  rw [eval]
  exact h.assist (by decide) _ _

theorem Clear.list (h : Clear env) (items : List Code) :
    eval call env (.list items) = (do Run.list (← evalAll call env items)) := by
  rw [eval]
  exact bind_congr fun values => h.assist (by decide) _ _

theorem Clear.var (h : Clear env) (ns attr : String) :
    eval call env (.var ns attr) = Run.lookupVar ns attr := by
  rw [eval, h.assist (by decide), pure_bind]
  rfl

theorem Clear.define (h : Clear env) (ns name : String) (value : Code) :
    eval call env (.define ns name value) =
      (do Run.define (.str ns) (.str name) (← eval call env value)) := by
  rw [eval]
  exact bind_congr fun v => h.assist (by decide) _ _

theorem Clear.assign (h : Clear env) (ns name : String) (value : Code) :
    eval call env (.assign ns name value) =
      (do Run.assign (.str ns) (.str name) (← eval call env value)) := by
  rw [eval]
  exact bind_congr fun v => h.assist (by decide) _ _

theorem Clear.provide (h : Clear env) (ns : String) (requires : List String) :
    eval call env (.provide ns requires) =
      Run.provide (.str ns) (.vector (requires.map .str)) := by
  rw [eval]
  exact h.assist (by decide) _ _

theorem Clear.recursive (h : Clear env) (label self : String) (params : List String)
    (rest : Option String) (body : Code) :
    eval call env (.recursive label self params rest body) =
      make (.recursive label self params rest body env) := by
  rw [eval, h.lookup (by decide)]

theorem Clear.cond (h : Clear env) (test yes no : Code) :
    eval call env (.cond test yes no) = (do
      if (← eval call env test).isTruthy then eval call env yes else eval call env no) := by
  rw [eval]
  apply bind_congr
  intro v
  rw [holds, h.lookup (by decide), pure_bind]

end Sumi.Machine
