import Sumi.Machine.Eval
import Sumi.Proofs.Machine.Sameness

namespace Sumi.Machine

namespace Value

variable {a b c v : Value} {items xs ys : List Value} {es fs : List (Value × Value)}

def truth? : Value → Option Bool
  | .bool p => some p
  | _ => none

inductive Compared : Value → Prop
  | truth (p : Bool) : Compared (.bool p)
  | sequence {v : Value} {items : List Value} (hv : v.sequence? = some items)
      (hitems : ∀ x ∈ items, Compared x) : Compared v
  | other {v : Value} (hv : v.Regular) (ht : v.truth? = none) (hs : v.sequence? = none) : Compared v

theorem Regular.compared (h : v.Regular) : v.Compared := by
  induction h with
  | @leaf v t ht =>
      cases hp : v.truth? with
      | some p =>
          obtain rfl : v = .bool p := by cases v <;> cases hp; rfl
          exact .truth p
      | none => exact .other (.leaf ht) hp (token_sequence ht)
  | keyword hns hname => exact .other (.keyword hns hname) rfl rfl
  | symbol hns hname => exact .other (.symbol hns hname) rfl rfl
  | listed hv _ ih => exact .sequence (listed_sequence hv) ih
  | vector _ ih => exact .sequence rfl ih
  | map hd hkeys hvalues => exact .other (.map hd hkeys hvalues) rfl rfl

abbrev AllEqual (xs ys : List Value) : Prop := List.Forall₂ (fun x y => equals x y = true) xs ys

theorem equalsAll_iff : equalsAll xs ys = true ↔ AllEqual xs ys := by
  induction xs generalizing ys with
  | nil => cases ys <;> simp [equalsAll]
  | cons x xs ih => cases ys <;> simp [equalsAll, ih]

theorem equals_truth {p : Bool} : equals (.bool p) b = true ↔ .bool p = b := by
  cases b <;> simp [equals]

theorem equals_sequence (ha : a.sequence? = some xs) :
    equals a b = true ↔ ∃ ys, b.sequence? = some ys ∧ AllEqual xs ys := by
  cases a <;> cases ha <;> cases b <;> simp [equals, sequence?, equalsAll_iff]

theorem equals_other (ht : a.truth? = none) (hs : a.sequence? = none) :
    equals a b = true ↔ b.truth? = none ∧ same a b = true := by
  cases a <;> cases ht <;> cases hs <;> cases b <;> simp [equals, truth?]

theorem same_sequence (ha : a.Regular) (hb : b.Regular) (h : same a b = true)
    (hs : a.sequence? = none) : b.sequence? = none := by
  have hba := same_symm ha hb h
  cases b with
  | list | row =>
      obtain ⟨xs, hxs, -⟩ := (same_listed rfl).mp hba
      exact nomatch (listed_sequence hxs).symm.trans hs
  | vector =>
      obtain ⟨xs, rfl, -⟩ := same_vector.mp hba
      cases hs
  | _ => rfl

theorem equals_refl (h : v.Regular) : equals v v = true := by
  have hv := h.compared
  clear h
  induction hv with
  | truth p => exact equals_truth.mpr rfl
  | sequence hv _ ih => exact (equals_sequence hv).mpr ⟨_, hv, List.forall₂_same.mpr ih⟩
  | other hv ht hs => exact (equals_other ht hs).mpr ⟨ht, same_refl hv⟩

theorem equals_symm (ha : a.Regular) (hb : b.Regular) (hab : equals a b = true) :
    equals b a = true := by
  have hcompared := ha.compared
  clear ha
  induction hcompared generalizing b with
  | truth p =>
      obtain rfl := equals_truth.mp hab
      exact equals_truth.mpr rfl
  | sequence hxs _ ih =>
      obtain ⟨ys, hys, hxy⟩ := (equals_sequence hxs).mp hab
      exact (equals_sequence hys).mpr ⟨_, hxs, members_symm ih (hb.of_sequence hys) hxy⟩
  | other hv ht hs =>
      obtain ⟨htb, hsame⟩ := (equals_other ht hs).mp hab
      exact (equals_other htb (same_sequence hv hb hsame hs)).mpr ⟨ht, same_symm hv hb hsame⟩

theorem equals_trans (ha : a.Regular) (hb : b.Regular) (hc : c.Regular)
    (hab : equals a b = true) (hbc : equals b c = true) : equals a c = true := by
  have hcompared := ha.compared
  clear ha
  induction hcompared generalizing b c with
  | truth p =>
      obtain rfl := equals_truth.mp hab
      exact hbc
  | sequence hxs _ ih =>
      obtain ⟨ys, hys, hxy⟩ := (equals_sequence hxs).mp hab
      obtain ⟨zs, hzs, hyz⟩ := (equals_sequence hys).mp hbc
      exact (equals_sequence hxs).mpr
        ⟨zs, hzs, members_trans ih (hb.of_sequence hys) (hc.of_sequence hzs) hxy hyz⟩
  | other hv ht hs =>
      obtain ⟨htb, hsame⟩ := (equals_other ht hs).mp hab
      obtain ⟨htc, hsame'⟩ := (equals_other htb (same_sequence hv hb hsame hs)).mp hbc
      exact (equals_other ht hs).mpr ⟨htc, same_trans hv hb hc hsame hsame'⟩

theorem equals_left (ha : a.Regular) (hb : b.Regular) (hc : c.Regular) (hab : equals a b = true) :
    equals a c = equals b c := by
  rw [Bool.eq_iff_iff]
  constructor
  · exact equals_trans hb ha hc (equals_symm ha hb hab)
  · exact equals_trans ha hb hc hab

/-- A value that has no truth values and no lists in it, save inside maps. -/
inductive Unmixed : Value → Prop
  | vector {items : List Value} (hitems : ∀ x ∈ items, Unmixed x) : Unmixed (.vector items)
  | other {v : Value} (hv : v.Regular) (ht : v.truth? = none) (hs : v.sequence? = none) : Unmixed v

/-- The two equalities agree on rows whose members they agree on. -/
theorem allEqual_iff_allSame
    (h : ∀ x ∈ xs, ∀ y ∈ ys, equals x y = true ↔ same x y = true) :
    AllEqual xs ys ↔ AllSame xs ys := by
  rw [AllEqual, AllSame, List.forall₂_iff_zip, List.forall₂_iff_zip]
  refine and_congr_right fun _ => forall₂_congr fun x y => imp_congr_right fun hxy => ?_
  obtain ⟨hx, hy⟩ := List.of_mem_zip hxy
  exact h x hx y hy

theorem equals_unmixed (ha : a.Unmixed) (hb : b.Unmixed) : equals a b = same a b := by
  rw [Bool.eq_iff_iff]
  induction ha generalizing b with
  | other _ ht hs =>
      rw [equals_other ht hs]
      cases hb with
      | vector => exact and_iff_right rfl
      | other _ htb => exact and_iff_right htb
  | @vector xs _ ih =>
      rw [equals_sequence rfl, same_vector]
      cases hb with
      | @vector ys hys =>
          have hall : AllEqual xs ys ↔ AllSame xs ys :=
            allEqual_iff_allSame fun x hx y hy => ih x hx (hys y hy)
          simpa [sequence?] using hall
      | other _ _ hs =>
          constructor
          · rintro ⟨ys, hys, -⟩
            exact nomatch hs.symm.trans hys
          · rintro ⟨ys, rfl, -⟩
            cases hs

end Value

variable {m : Machine} {a b k v w x y : Value} {es fs : List (Value × Value)} {op : Builtin}
  {args : List Value}

def Gives (op : Builtin) (args : List Value) (answer : Value) : Prop :=
  ∀ depth m, (apply (depth + 1) (.builtin op) args).run.run m = (.ok answer, m)

theorem Gives.unique (h : Gives op args x) (h' : Gives op args y) : x = y := by
  have heq := (h 0 Machine.initial).symm.trans (h' 0 Machine.initial)
  exact Except.ok.inj (congrArg Prod.fst heq)

theorem withLiveAll_eq (f : Live → Value) (vs : List Value) :
    Value.withLiveAll f vs = vs.map (Value.withLive f) := by
  induction vs with
  | nil => rfl
  | cons v vs ih => rw [Value.withLiveAll, ih, List.map_cons]

theorem withLiveEntries_eq (f : Live → Value) (es : List (Value × Value)) :
    Value.withLiveEntries f es = es.map fun e => (e.1, e.2.withLive f) := by
  induction es with
  | nil => rfl
  | cons e es ih => rw [Value.withLiveEntries, ih, List.map_cons]

theorem withLive_regular (f : Live → Value) (hv : v.Regular) : v.withLive f = v := by
  induction hv with
  | @leaf v _ ht => cases v <;> first | rfl | cases ht
  | keyword | symbol => rfl
  | @listed v items hv _ ih =>
      have hitems : Value.withLiveAll f items = items := by
        rw [withLiveAll_eq, List.map_congr_left ih, List.map_id']
      cases v <;> cases hv <;> rw [Value.withLive, hitems]
  | vector _ ih => rw [Value.withLive, withLiveAll_eq, List.map_congr_left ih, List.map_id']
  | @map es _ _ _ _ ih =>
      have hsame : ∀ e ∈ es, (e.1, e.2.withLive f) = e := fun e he => by rw [ih e he]
      rw [Value.withLive, withLiveEntries_eq, List.map_congr_left hsame, List.map_id']

theorem settledInside_regular (hv : v.Regular) : m.settledInside 4 v = v := withLive_regular _ hv

theorem settled_regular (hv : v.Regular) : m.settled v = v := by
  cases v with
  | live map => exact absurd hv (Value.not_regular_live map)
  | _ => rfl

theorem gives_eq (ha : a.Regular) (hb : b.Regular) : Gives .eq [a, b] (.bool (Value.equals a b)) := by
  intro depth m
  change (Except.ok (Value.bool ([m.settledInside 4 b].all (Value.equals (m.settledInside 4 a)))), m) = _
  rw [settledInside_regular ha, settledInside_regular hb, List.all_cons, List.all_nil, Bool.and_true]

theorem gives_eq_iff {p : Bool} (ha : a.Regular) (hb : b.Regular) :
    Gives .eq [a, b] (.bool p) ↔ Value.equals a b = p := by
  constructor
  · intro h
    simpa using (gives_eq ha hb).unique h
  · rintro rfl
    exact gives_eq ha hb

/-- Values without doubles, sets and maps that change. -/
abbrev Datum := { v : Value // v.Regular }

/-- Among them `=` always answers, and is an equivalence. -/
theorem equality_equivalence : (∀ a b : Datum, ∃ p, Gives .eq [a.1, b.1] (.bool p)) ∧
    Equivalence fun a b : Datum => Gives .eq [a.1, b.1] (.bool true) := by
  refine ⟨fun a b => ⟨_, gives_eq a.2 b.2⟩, ?refl, ?symm, ?trans⟩
  case refl => exact fun a => (gives_eq_iff a.2 a.2).mpr (Value.equals_refl a.2)
  case symm =>
    intro a b hab
    exact (gives_eq_iff b.2 a.2).mpr (Value.equals_symm a.2 b.2 ((gives_eq_iff a.2 b.2).mp hab))
  case trans =>
    intro a b c hab hbc
    exact (gives_eq_iff a.2 c.2).mpr (Value.equals_trans a.2 b.2 c.2
      ((gives_eq_iff a.2 b.2).mp hab) ((gives_eq_iff b.2 c.2).mp hbc))

end Sumi.Machine
