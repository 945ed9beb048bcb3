import Sumi.Proofs.Machine.Maps

namespace Sumi.Machine

namespace Value

inductive Item : Value → Prop
  | nil : Item .nil
  | int (n : Int) : Item (.int n)
  | str (s : String) : Item (.str s)
  | keyword {ns name : Value} (hns : Item ns) (hname : Item name) : Item (.keyword ns name)
  | symbol {ns name : Value} (hns : Item ns) (hname : Item name) : Item (.symbol ns name)
  | listed {v : Value} {items : List Value} (hv : v.listed? = some items)
      (hitems : ∀ x ∈ items, Item x) : Item v

variable {a b c v : Value} {items : List Value}

theorem Item.regular (h : v.Item) : v.Regular := by
  induction h with
  | nil | int | str => exact .leaf rfl
  | keyword _ _ hns hname => exact .keyword hns hname
  | symbol _ _ hns hname => exact .symbol hns hname
  | listed hv _ ih => exact .listed hv ih

theorem allHashable_iff :
    isHashable.allHashable items = true ↔ ∀ x ∈ items, x.isHashable = true := by
  induction items with
  | nil => simp [isHashable.allHashable]
  | cons x items ih => simp [isHashable.allHashable, ih]

theorem Item.hashable (h : v.Item) : v.isHashable = true := by
  induction h with
  | nil | int | str => rfl
  | keyword _ _ hns hname | symbol _ _ hns hname => rw [isHashable, hns, hname]; rfl
  | @listed v items hv _ ih =>
      have hall := allHashable_iff.mpr ih
      cases v <;> cases hv <;> rw [isHashable, hall]

theorem Item.isKey (h : v.Item) : v.IsKey := ⟨h.hashable, h.regular⟩

theorem Item.truth (h : v.Item) : v.truth? = none := by
  cases h with
  | listed hv => cases v <;> first | rfl | cases hv
  | _ => rfl

theorem Item.sequence (h : v.Item) : v.sequence? = v.listed? := by
  cases h with
  | listed hv => rw [hv, listed_sequence hv]
  | _ => rfl

theorem Item.of_listed (h : v.Item) (hv : v.listed? = some items) : ∀ x ∈ items, x.Item := by
  cases h with
  | listed hv' hitems => exact Option.some_inj.mp (hv'.symm.trans hv) ▸ hitems
  | _ => cases hv

theorem equals_items (ha : a.Item) (hb : b.Item) : equals a b = same a b := by
  rw [Bool.eq_iff_iff]
  induction ha generalizing b with
  | @listed a xs hxs _ ih =>
      rw [equals_sequence (listed_sequence hxs), same_listed hxs, hb.sequence]
      refine exists_congr fun ys => and_congr_right fun hys => ?_
      exact allEqual_iff_allSame fun x hx y hy => ih x hx (hb.of_listed hys y hy)
  | _ => rw [equals_other rfl rfl, and_iff_right hb.truth]

theorem Item.equals_comm (ha : a.Item) (hb : b.Item) : equals a b = equals b a := by
  rw [Bool.eq_iff_iff]
  exact ⟨equals_symm ha.regular hb.regular, equals_symm hb.regular ha.regular⟩

theorem Item.equals_congr (ha : a.Item) (hb : b.Item) (hc : c.Item) (hab : equals a b = true) :
    equals a c = equals b c :=
  equals_left ha.regular hb.regular hc.regular hab

end Value

open Value Library

variable {x k w : Value} {xs items : List Value} {t : Table Value Value}

def firstSeen (items : List Value) : List Value :=
  (items.zipIdx.filter fun e => !(items.take e.2).any (equals e.1)).map Prod.fst

theorem firstSeen_append (xs : List Value) (x : Value) :
    firstSeen (xs ++ [x]) = if xs.any (equals x) then firstSeen xs else firstSeen xs ++ [x] := by
  have hbefore : ∀ e ∈ xs.zipIdx, (!((xs ++ [x]).take e.2).any (equals e.1)) =
      !(xs.take e.2).any (equals e.1) := by
    intro e he
    rw [List.take_append_of_le_length (List.snd_lt_of_mem_zipIdx he).le]
  unfold firstSeen
  rw [List.zipIdx_append, List.filter_append, List.map_append, List.filter_congr hbefore]
  cases hany : xs.any (equals x) <;> simp [hany]

theorem mem_of_mem_firstSeen (h : x ∈ firstSeen xs) : x ∈ xs := by
  obtain ⟨e, he, rfl⟩ := List.mem_map.mp h
  exact List.fst_mem_of_mem_zipIdx (List.mem_of_mem_filter he)

theorem any_firstSeen (hxs : ∀ y ∈ xs, y.Item) (hx : x.Item) :
    (firstSeen xs).any (equals x) = xs.any (equals x) := by
  induction xs using List.reverseRecOn with
  | nil => rfl
  | append_singleton ys y ih =>
      simp only [List.mem_append, List.mem_singleton, or_imp, forall_and, forall_eq] at hxs
      rw [firstSeen_append, List.any_append]
      cases hany : ys.any (equals y)
      · rw [if_neg Bool.false_ne_true, List.any_append, ih hxs.1]
      · -- `y` itself is left out, and what is equal to it is equal to an item before it
        rw [if_pos rfl, ih hxs.1]
        have himp : equals x y = true → ys.any (equals x) = true := by
          intro hxy
          obtain ⟨z, hz, hyz⟩ := List.any_eq_true.mp hany
          rw [List.any_eq_true]
          exact ⟨z, hz, (hx.equals_congr hxs.2 (hxs.1 z hz) hxy).trans hyz⟩
        cases hxy : equals x y
        · simp [hxy]
        · simp [himp hxy]

def amount : Value → Int
  | .int n => n
  | _ => 0

def total (t : Table Value Value) : Int := (t.values.map amount).foldr (· + ·) 0

theorem total_put (k w : Value) (t : Table Value Value) :
    total (t.put k w) + amount ((Table.get? k t).getD (.int 0)) = total t + amount w := by
  unfold total Table.values
  induction t with
  | nil => simp [Table.put, Table.get?, amount]
  | cons e t ih =>
      rw [Table.put, Table.get?]
      split
      · simp only [List.map_cons, List.foldr_cons, Option.getD_some]
        omega
      · simp only [List.map_cons, List.foldr_cons]
        omega

/-- The table has the items of a row for keys, in the order in which they were first seen, and under
each how many of the row are equal to it. -/
structure Tally (items : List Value) (t : Table Value Value) : Prop where
  sound : Sound t
  keys : t.keys = firstSeen items
  found : ∀ k : Value, k.Item → (Table.get? k t).getD (.int 0) = .int (items.countP (equals k))
  total : total t = items.length

def tally (items : List Value) : Table Value Value :=
  items.foldl (fun t x => Table.put x (.int (amount ((Table.get? x t).getD (.int 0)) + 1)) t) []

theorem tally_append (xs : List Value) (x : Value) : tally (xs ++ [x]) =
    Table.put x (.int (amount ((Table.get? x (tally xs)).getD (.int 0)) + 1)) (tally xs) := by
  rw [tally, List.foldl_append]
  rfl

theorem Tally.put (h : Tally xs t) (hxs : ∀ y ∈ xs, y.Item) (hx : x.Item) :
    Tally (xs ++ [x]) (Table.put x (.int (xs.countP (equals x) + 1)) t) where
  sound := h.sound.put hx.isKey _
  keys := by
    have hcontains : (firstSeen xs).contains x = xs.any (equals x) := by
      rw [← any_firstSeen hxs hx, Bool.eq_iff_iff, List.contains_iff_exists_mem_beq,
        List.any_eq_true]
      refine exists_congr fun y => and_congr_right fun hy => ?_
      rw [equals_items hx (hxs y (mem_of_mem_firstSeen hy))]
      rfl
    rw [keys_put h.sound.regular hx.regular, h.keys, collect, hcontains, firstSeen_append]
  found k hk := by
    rw [get?_put h.sound.regular hx.regular hk.regular, List.countP_append, List.countP_singleton,
      ← equals_items hx hk, hx.equals_comm hk]
    by_cases hkx : equals k x = true
    · have hcount : xs.countP (equals x) = xs.countP (equals k) :=
        List.countP_congr fun y hy => by rw [hk.equals_congr hx (hxs y hy) hkx]
      rw [if_pos hkx, if_pos hkx, hcount]
      rfl
    · rw [if_neg hkx, if_neg hkx]
      exact h.found k hk
  total := by
    have hput := total_put x (.int (xs.countP (equals x) + 1)) t
    rw [h.found x hx, h.total] at hput
    simp only [amount] at hput
    rw [List.length_append, List.length_singleton]
    omega

/-- Counting makes a tally of all items. -/
theorem tally_tallies (hitems : ∀ x ∈ items, x.Item) : Tally items (tally items) := by
  induction items using List.reverseRecOn with
  | nil => exact ⟨⟨⟨nofun, .nil⟩, nofun⟩, rfl, fun _ _ => rfl, rfl⟩
  | append_singleton xs x ih =>
      simp only [List.mem_append, List.mem_singleton, or_imp, forall_and, forall_eq] at hitems
      have hxs := ih hitems.1
      rw [tally_append, hxs.found x hitems.2]
      exact hxs.put hitems.1 hitems.2

theorem Tally.value (h : Tally items t) (hitems : ∀ x ∈ items, x.Item) {e : Value × Value}
    (he : e ∈ t) : e.2 = .int (items.countP (equals e.1)) := by
  have hkey : e.1 ∈ firstSeen items := h.keys ▸ List.mem_map_of_mem he
  have hfound := h.found e.1 (hitems _ (mem_of_mem_firstSeen hkey))
  rw [get?_mem h.sound he] at hfound
  exact hfound

theorem add_ints (ns : List Int) (n : Int) :
    (ns.map Value.int).foldlM (numbers Number.add) (.int n) =
      .ok (.int (n + ns.foldr (· + ·) 0)) := by
  induction ns generalizing n with
  | nil =>
      rw [List.foldr_nil, Int.add_zero]
      rfl
  | cons k ns ih =>
      rw [List.map_cons, List.foldlM_cons, List.foldr_cons, ← Int.add_assoc]
      exact ih (n + k)

theorem gives_add (ns : List Int) : Gives .add (ns.map .int) (.int (ns.foldr (· + ·) 0)) := by
  intro depth m
  have hsettled : (ns.map Value.int).map m.settled = ns.map .int := by
    rw [List.map_map]
    rfl
  change (Run.ofResult (((ns.map Value.int).map m.settled).foldlM (numbers Number.add)
    (.int 0))).run.run m = _
  rw [hsettled, add_ints, Int.zero_add]
  rfl

theorem Tally.gives_add (h : Tally items t) (hitems : ∀ x ∈ items, x.Item) :
    Gives .add t.values (.int items.length) := by
  have hints : t.values = (t.values.map amount).map .int := by
    rw [List.map_map, Table.values, List.map_map]
    refine List.map_congr_left fun e he => ?_
    change e.2 = .int (amount e.2)
    rw [h.value hitems he]
    rfl
  rw [hints, ← h.total]
  exact Machine.gives_add _

end Sumi.Machine
