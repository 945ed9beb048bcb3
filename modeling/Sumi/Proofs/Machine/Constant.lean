import Sumi.Code.OfNode
import Sumi.Proofs.Machine.Datum
import Sumi.Proofs.Machine.Results
import Sumi.Proofs.Tables

namespace Sumi

variable {f : Form} {fs : List Form}

theorem Code.ofForms_eq (fs : List Form) : Code.ofForms fs = fs.map Code.ofForm := by
  induction fs with
  | nil => rfl
  | cons f fs ih => rw [ofForms, ih, List.map_cons]

theorem Code.ofPairs_eq (fs : List Form) :
    Code.ofPairs fs = (Form.pairs fs).map fun p => (Code.ofForm p.1, Code.ofForm p.2) := by
  induction fs using Form.pairs.induct with
  | case1 k v fs ih => rw [ofPairs, ih, Form.pairs, List.map_cons]
  | case2 fs hne => rw [ofPairs.eq_2 fs hne, Form.pairs.eq_2 fs hne, List.map_nil]

namespace Machine

variable {m m' : Machine} {values : List Value} {made waiting entries : List (Value × Value)}
  {call : Library.Call} {env : Locals}

def Counted (m m' : Machine) : Prop := ∃ n, m' = { m with nextId := n }

theorem Counted.refl (m : Machine) : Counted m m := ⟨m.nextId, rfl⟩

theorem Counted.trans {m'' : Machine} (h : Counted m m') (h' : Counted m' m'') : Counted m m'' := by
  obtain ⟨n, rfl⟩ := h
  obtain ⟨n', rfl⟩ := h'
  exact ⟨n', rfl⟩

theorem Counted.kept (h : Counted m m') : Kept m m' := by
  obtain ⟨n, rfl⟩ := h
  exact fun _ _ => rfl

theorem Counted.printed (h : Counted m m') : m'.printed = m.printed := by
  obtain ⟨n, rfl⟩ := h
  rfl

end Machine

end Sumi
