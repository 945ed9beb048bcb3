import Sumi.Machine.Printer
import Sumi.Machine.Equality
import Sumi.Proofs.Form.Printing

namespace Sumi

variable {f k l : Form} {fs items : List Form}

namespace Machine

namespace Value

mutual

def ofForm : Form → Value
  | .nil => .nil
  | .bool b => .bool b
  | .int n => .int n
  | .float x => .float x
  | .str s => .str s
  | .symbol n => .symbol (ofName n).1 (ofName n).2
  | .keyword n => .keyword (ofName n).1 (ofName n).2
  | .list items _ => .row (ofForms items)
  | .vector items _ => .vector (ofForms items)
  | .map items _ => .map (ofPairs items)

def ofForms : List Form → List Value
  | [] => []
  | f :: fs => ofForm f :: ofForms fs

def ofPairs : List Form → List (Value × Value)
  | k :: v :: rest => (ofForm k, ofForm v) :: ofPairs rest
  | _ => []

end

theorem ofForms_eq (fs : List Form) : ofForms fs = fs.map ofForm := by
  induction fs with
  | nil => rfl
  | cons f fs ih => rw [ofForms, ih, List.map_cons]

end Value

def written (ps : List (Form × Form)) : List (Value × Value) :=
  ps.map fun p => (Value.ofForm p.1, Value.ofForm p.2)

theorem Value.ofPairs_eq (fs : List Form) : ofPairs fs = written (Form.pairs fs) := by
  unfold written
  induction fs using Form.pairs.induct with
  | case1 k v fs ih => rw [ofPairs, ih, Form.pairs, List.map_cons]
  | case2 fs hne => rw [ofPairs.eq_2 fs hne, Form.pairs.eq_2 fs hne, List.map_nil]

def Distinct (entries : List (Value × Value)) : Prop :=
  (∀ e ∈ entries, e.1.isHashable = true) ∧ entries.Pairwise fun e e' => Value.same e.1 e'.1 = false

instance (entries : List (Value × Value)) : Decidable (Distinct entries) := instDecidableAnd

end Machine

namespace Form

open Machine

mutual

def Keyed : Form → Prop
  | .list items _ | .vector items _ => AllKeyed items
  | .map items _ => Distinct (Value.ofPairs items) ∧ AllKeyed items
  | .nil | .bool _ | .int _ | .float _ | .str _ | .symbol _ | .keyword _ => True

def AllKeyed : List Form → Prop
  | [] => True
  | f :: fs => f.Keyed ∧ AllKeyed fs

end

end Form

namespace Machine

mutual

/-- The value is that of the data, whatever identities its lists have. -/
def Stands : Form → Value → Prop
  | .list items _, .list _ values => StandAll items values
  | .vector items _, .vector values => StandAll items values
  | .map items _, .map entries => StandEntries items entries
  | .list _ _, _ | .vector _ _, _ | .map _ _, _ => False
  | f, v => v = Value.ofForm f

def StandAll : List Form → List Value → Prop
  | [], [] => True
  | f :: fs, v :: vs => Stands f v ∧ StandAll fs vs
  | _, _ => False

def StandEntries : List Form → List (Value × Value) → Prop
  | k :: v :: rest, e :: es => (Stands k e.1 ∧ Stands v e.2) ∧ StandEntries rest es
  | _ :: _ :: _, [] => False
  | _, es => es = []

end

variable {a b v : Value} {values : List Value} {made waiting entries : List (Value × Value)}
  {line : Option Nat}

theorem standAll_iff : StandAll fs values ↔ List.Forall₂ Stands fs values := by
  induction fs generalizing values with
  | nil => cases values <;> simp [StandAll]
  | cons f fs ih => cases values <;> simp [StandAll, ih]

abbrev StandsEntry (p : Form × Form) (e : Value × Value) : Prop := Stands p.1 e.1 ∧ Stands p.2 e.2

theorem standEntries_iff :
    StandEntries items entries ↔ List.Forall₂ StandsEntry (Form.pairs items) entries := by
  induction items using Form.pairs.induct generalizing entries with
  | case1 k v fs ih => cases entries <;> simp [StandEntries, Form.pairs, ih]
  | case2 fs hne =>
      rcases fs with _ | ⟨k, _ | ⟨v, rest⟩⟩
      · simp [StandEntries, Form.pairs]
      · simp [StandEntries, Form.pairs]
      · exact absurd rfl (hne k v rest)

theorem stands_list : Stands (.list items line) v ↔
    ∃ id values, v = .list id values ∧ List.Forall₂ Stands items values := by
  cases v <;> simp [Stands, standAll_iff]

theorem stands_vector : Stands (.vector items line) v ↔
    ∃ values, v = .vector values ∧ List.Forall₂ Stands items values := by
  cases v <;> simp [Stands, standAll_iff]

theorem stands_map : Stands (.map items line) v ↔
    ∃ entries, v = .map entries ∧ List.Forall₂ StandsEntry (Form.pairs items) entries := by
  cases v <;> simp [Stands, standEntries_iff]

theorem stands_hashable (h : Stands f v) : v.isHashable = (Value.ofForm f).isHashable := by
  induction f using Form.byItems generalizing v with
  | list items line ih =>
      obtain ⟨id, values, rfl, hs⟩ := stands_list.mp h
      clear h
      rw [Value.ofForm, Value.ofForms_eq, Value.isHashable, Value.isHashable]
      induction hs with
      | nil => rfl
      | cons hv _ ih' =>
          rw [List.forall_mem_cons] at ih
          rw [List.map_cons, Value.isHashable.allHashable, Value.isHashable.allHashable, ih.1 hv,
            ih' ih.2]
  | vector items line ih =>
      obtain ⟨values, rfl, -⟩ := stands_vector.mp h
      rfl
  | map items line ih =>
      obtain ⟨entries, rfl, -⟩ := stands_map.mp h
      rfl
  | _ => rw [show v = _ from h]

theorem sameAll_stands {gs : List Form} {ws : List Value}
    (h : ∀ f ∈ fs, ∀ {l : Form} {a b : Value}, Stands f a → Stands l b →
      (Value.ofForm f).isHashable = true →
        Value.same a b = Value.same (Value.ofForm f) (Value.ofForm l))
    (hs : List.Forall₂ Stands fs values) (hs' : List.Forall₂ Stands gs ws)
    (hk : Value.isHashable.allHashable (fs.map Value.ofForm) = true) :
    Value.sameAll values ws = Value.sameAll (fs.map Value.ofForm) (gs.map Value.ofForm) := by
  induction hs generalizing gs ws with
  | nil => cases hs' <;> simp [Value.sameAll]
  | cons hv _ ih =>
      rw [List.map_cons, Value.isHashable.allHashable, Bool.and_eq_true] at hk
      rw [List.forall_mem_cons] at h
      cases hs' with
      | nil => simp [Value.sameAll]
      | cons hv' hs' =>
          rw [List.map_cons, List.map_cons, Value.sameAll, Value.sameAll, h.1 hv hv' hk.1,
            ih h.2 hs' hk.2]

theorem stands_same (ha : Stands k a) (hb : Stands l b) (hk : (Value.ofForm k).isHashable = true) :
    Value.same a b = Value.same (Value.ofForm k) (Value.ofForm l) := by
  -- a key has identities in its lists only, and sameness does not look at those
  induction k using Form.byItems generalizing a b l with
  | vector | map => cases hk
  | list items line ih =>
      obtain ⟨id, values, rfl, hs⟩ := stands_list.mp ha
      cases l with
      | list items' line' =>
          obtain ⟨id', values', rfl, hs'⟩ := stands_list.mp hb
          rw [Value.ofForm, Value.ofForms_eq, Value.isHashable] at hk
          simpa only [Value.ofForm, Value.ofForms_eq, Value.same] using sameAll_stands ih hs hs' hk
      | vector items' line' =>
          obtain ⟨values', rfl, -⟩ := stands_vector.mp hb
          simp [Value.ofForm, Value.same, Value.number?]
      | map items' line' =>
          obtain ⟨values', rfl, -⟩ := stands_map.mp hb
          simp [Value.ofForm, Value.same, Value.number?]
      | _ =>
          rw [show b = _ from hb]
          simp [Value.ofForm, Value.same, Value.number?]
  | _ =>
      rw [show a = _ from ha]
      cases l with
      | list items' line' =>
          obtain ⟨id', values', rfl, hs'⟩ := stands_list.mp hb
          simp [Value.ofForm, Value.same, Value.number?]
      | vector items' line' =>
          obtain ⟨values', rfl, -⟩ := stands_vector.mp hb
          simp [Value.ofForm, Value.same, Value.number?]
      | map items' line' =>
          obtain ⟨values', rfl, -⟩ := stands_map.mp hb
          simp [Value.ofForm, Value.same, Value.number?]
      | _ => rw [show b = _ from hb]

theorem forall_right {α β : Type} {R : α → β → Prop} {q : β → Prop} {xs : List α} {ys : List β}
    (h : List.Forall₂ R xs ys) (hq : ∀ x ∈ xs, ∀ y, R x y → q y) : ∀ y ∈ ys, q y := by
  induction h with
  | nil => exact nofun
  | cons hr _ ih =>
      rw [List.forall_mem_cons] at hq
      exact List.forall_mem_cons.mpr ⟨hq.1 _ hr, ih hq.2⟩

theorem Distinct.left (h : Distinct (made ++ entries)) : Distinct made :=
  ⟨fun e he => h.1 e (List.mem_append_left entries he), (List.pairwise_append.mp h.2).1⟩

theorem Distinct.stands {ps : List (Form × Form)} (h : Distinct (written ps))
    (hs : List.Forall₂ StandsEntry ps entries) : Distinct entries := by
  obtain ⟨hkeys, hpairs⟩ := h
  rw [written, List.forall_mem_map] at hkeys
  rw [written, List.pairwise_map] at hpairs
  refine ⟨forall_right hs fun p hp e he => (stands_hashable he.1).trans (hkeys p hp), ?_⟩
  induction hs with
  | nil => exact .nil
  | cons he hrest ih =>
      rw [List.forall_mem_cons] at hkeys
      rw [List.pairwise_cons] at hpairs ⊢
      refine ⟨forall_right hrest fun p hp e' he' => ?_, ih hkeys.2 hpairs.2⟩
      rw [stands_same he.1 he'.1 hkeys.1, hpairs.1 p hp]

variable {look : Lookup}

end Machine

end Sumi
