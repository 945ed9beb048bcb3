import Sumi.Proofs.Machine.Equality
import Sumi.Proofs.Machine.Results

namespace Sumi.Machine

open Library

variable {items items' : List Value} {j k k' d x a w : Value} {n : Int} {i : Nat} {p : Prop}
  {op : Builtin} {args : List Value}

def Refuses (op : Builtin) (args : List Value) : Prop :=
  ∀ depth m, ∃ e, (apply (depth + 1) (.builtin op) args).run.run m = (.error e, m)

def AnswersIf (p : Prop) (op : Builtin) (args : List Value) : Prop :=
  (p → ∃ a, Gives op args a) ∧ (¬p → Refuses op args)

theorem refuses_of_leads (h : ∀ depth m, Leads (apply (depth + 1) (.builtin op) args) m
    (fun _ _ => False) (fun _ => Eq m)) : Refuses op args := by
  intro depth m
  have hm := leads_iff.mp (h depth m)
  rcases hrun : (apply (depth + 1) (.builtin op) args).run.run m with ⟨e | v, m'⟩ <;> rw [hrun] at hm
  · obtain rfl := hm
    exact ⟨e, rfl⟩
  · exact hm.elim

theorem Refuses.not_gives (h : Refuses op args) (a : Value) : ¬Gives op args a := by
  intro ha
  obtain ⟨e, he⟩ := h 0 Machine.initial
  cases (ha 0 Machine.initial).symm.trans he

theorem AnswersIf.of_gives (h : AnswersIf p op args) (ha : Gives op args a) : p := by
  by_contra hp
  exact (h.2 hp).not_gives a ha

theorem at?_eq_some_iff : at? items n = some a ↔ ∃ i : Nat, n = i ∧ items[i]? = some a := by
  unfold at?
  split
  · next hn =>
      constructor
      · nofun
      · rintro ⟨i, rfl, -⟩
        exact absurd hn (Int.not_lt.mpr (Int.natCast_nonneg i))
  · next hn =>
      have hn' : n = n.toNat := by omega
      constructor
      · exact fun h => ⟨n.toNat, hn', h⟩
      · rintro ⟨i, rfl, h⟩
        rwa [Int.toNat_natCast]

theorem at?_isSome_iff : (at? items n).isSome = true ↔ 0 ≤ n ∧ n < items.length := by
  rw [Option.isSome_iff_exists]
  simp only [at?_eq_some_iff]
  constructor
  · rintro ⟨a, i, rfl, ha⟩
    have := (List.getElem?_eq_some_iff.mp ha).1
    omega
  · rintro ⟨h0, hn⟩
    exact ⟨items[n.toNat], n.toNat, by omega, List.getElem?_eq_getElem (by omega)⟩

theorem gives_contains_vector (items : List Value) (k : Value) :
    Gives .contains [.vector items, k] (.bool (k.whole?.any fun n => (at? items n).isSome)) := by
  intro depth m
  have hwhole : (m.settled k).whole? = k.whole? := by cases k <;> rfl
  have hplace : (fun n : Int => decide (0 ≤ n) && decide (n < items.length)) =
      fun n => (at? items n).isSome := by
    funext n
    rw [Bool.eq_iff_iff, at?_isSome_iff, Bool.and_eq_true, decide_eq_true_eq, decide_eq_true_eq]
  change (Except.ok (Value.bool ((m.settled k).whole?.any _)), m) = _
  rw [hwhole, ← hplace]

theorem gives_get_vector (items : List Value) (k d : Value) :
    Gives .get [.vector items, k, d] (((index? k).bind (at? items)).getD d) := by
  intro depth m
  cases k <;> rfl

theorem nth?_whole (hk : k.whole? = some n) : nth? items k = .ok (at? items n) := by
  have hnumber : k.number? = some (.int n) := by cases k <;> cases hk <;> rfl
  have hlower : ((Number.int n).compare? (.int 0)).any (· != .lt) = decide (0 ≤ n) := by
    rw [Number.compare?, Option.any_some, Bool.eq_iff_iff, bne_iff_ne, Ne, compare_lt_iff_lt,
      decide_eq_true_eq, not_lt]
  have hupper : ((Number.int n).compare? (.int items.length) == some .lt) =
      decide (n < items.length) := by
    rw [Number.compare?, Bool.eq_iff_iff, beq_iff_eq, Option.some_inj, compare_lt_iff_lt,
      decide_eq_true_eq]
  unfold nth?
  rw [hnumber, hk]
  dsimp only
  simp only [hlower, hupper, Bool.and_eq_true, decide_eq_true_eq, ← at?_isSome_iff]
  split
  · rfl
  · next hnone => rw [Option.not_isSome_iff_eq_none.mp hnone]

/-- A double may be inside the vector, but no member stands there. -/
theorem nth?_other (hk : k.whole? = none) : nth? items k ≠ .ok (some a) := by
  unfold nth?
  rw [hk]
  split
  · nofun
  · dsimp only
    split <;> nofun

theorem nth?_eq_some_iff :
    nth? items k = .ok (some a) ↔ k.whole?.bind (at? items) = some a := by
  cases hk : k.whole? with
  | none => exact ⟨fun h => absurd h (nth?_other hk), nofun⟩
  | some n => rw [nth?_whole hk, Option.bind_some, Except.ok.injEq]

theorem gives_nth (h : k.whole?.bind (at? items) = some a) : Gives .nth [.vector items, k] a := by
  intro depth m
  change (Run.ofResult (nth? items k) >>= fun r => _ : Run Value).run.run m = _
  rw [nth?_eq_some_iff.mpr h]
  rfl

theorem refuses_nth (h : k.whole?.bind (at? items) = none) : Refuses .nth [.vector items, k] := by
  apply refuses_of_leads
  intro depth m
  change Leads (Run.ofResult (nth? items k) >>= fun r => _ : Run Value) m _ _
  rcases hr : nth? items k with e | ⟨_ | a⟩
  · exact leads_throw.mpr rfl
  · change Leads (Run.plain k >>= fun text => _) m _ _
    exact leads_past (plain_looks k) (fun text => leads_throw.mpr rfl) fun _ => rfl
  · cases h.symm.trans (nth?_eq_some_iff.mp hr)

theorem gives_nth_iff :
    Gives .nth [.vector items, k] a ↔ k.whole?.bind (at? items) = some a := by
  refine ⟨fun ha => ?_, gives_nth⟩
  cases h : k.whole?.bind (at? items) with
  | none => exact absurd ha ((refuses_nth h).not_gives a)
  | some b => rw [(gives_nth h).unique ha]

theorem run_assoc (items : List Value) (k x : Value) (depth : Nat) (m : Machine) :
    (apply (depth + 1) (.builtin .assoc) [.vector items, k, x]).run.run m =
      ((assocVector items k x).map .vector, m) := by
  change (Run.ofResult ((assocVector items k x >>= pure) >>= fun ys => pure (Value.vector ys))).run.run m = _
  rcases assocVector items k x with e | ys <;> rfl

theorem same_int {m : Int} : Value.same (.int n) (.int m) = true ↔ n = m := by
  rw [Value.same_leaf rfl (.leaf rfl)]
  simp [Value.token?]

def Value.counted : Value → Value
  | .bool b => .int (if b then 1 else 0)
  | k => k

def Value.meant (items : List Value) : Value → Value
  | .bool b => .int (if b then 1 else 0)
  | .int n => .int (if n < 0 ∧ 0 ≤ n + items.length then n + items.length else n)
  | .float y => if Value.same (.float y) (.int items.length) then .int items.length else .float y
  | k => k

theorem whole?_counted (k : Value) : k.counted.whole? = k.whole? := by cases k <;> rfl

theorem assocVector_end (h : Value.same k (.int items.length) = true) :
    assocVector items k x = .ok (items ++ [x]) := if_pos h

def placed (size : Nat) (n : Int) : Int := if n < 0 then n + size else n

theorem assocVector_int (hn : n ≠ items.length) : assocVector items (.int n) x =
    if 0 ≤ placed items.length n ∧ placed items.length n < items.length then
      .ok (items.set (placed items.length n).toNat x)
    else .error (.fault .outOfRange) := by
  rw [assocVector, if_neg fun h => hn (same_int.mp h)]
  rfl

theorem assocVector_at (hi : i < items.length) :
    assocVector items (.int i) x = .ok (items.set i x) := by
  have hplace : placed items.length i = i := if_neg (by omega)
  rw [assocVector_int (by omega), hplace, if_pos (by omega), Int.toNat_natCast]

theorem assocVector_negative (hn : n < 0) (hlow : 0 ≤ n + items.length) :
    assocVector items (.int n) x = .ok (items.set (n + items.length).toNat x) := by
  have hplace : placed items.length n = n + items.length := if_pos hn
  rw [assocVector_int (by omega), hplace, if_pos (by omega)]

theorem assocVector_outside (hn : n + items.length < 0 ∨ items.length < n) :
    assocVector items (.int n) x = .error (.fault .outOfRange) := by
  rw [assocVector_int (by omega), if_neg]
  unfold placed
  split <;> omega

theorem assocVector_bool (b : Bool) :
    assocVector items (.bool b) x = assocVector items (.int (if b then 1 else 0)) x := by
  have hsame : Value.same (.bool b) (.int items.length) =
      Value.same (.int (if b then 1 else 0)) (.int items.length) := by
    rw [Bool.eq_iff_iff, Value.same_leaf rfl (.leaf rfl), Value.same_leaf rfl (.leaf rfl)]
  rw [assocVector, assocVector, hsame]
  rfl

theorem assocVector_meant (items : List Value) (k x : Value) :
    assocVector items (k.meant items) x = assocVector items k x := by
  cases k with
  | bool b => rw [assocVector_bool, Value.meant]
  | int n =>
      rw [Value.meant]
      split
      · next hn =>
          have hplace : n + items.length = (n + items.length).toNat := by omega
          rw [assocVector_negative hn.1 hn.2, hplace, assocVector_at (by omega), Int.toNat_natCast]
      · rfl
  | float y =>
      rw [Value.meant]
      split
      · next hy => rw [assocVector_end hy, assocVector_end (same_int.mpr rfl)]
      · rfl
  | _ => rfl

theorem assocVector_other (hk : k.whole? = none) (hend : Value.same k (.int items.length) = false) :
    assocVector items k x = .error .wrongType := by
  rw [assocVector, if_neg (ne_true_of_eq_false hend), hk]

theorem gives_assoc_iff : Gives .assoc [.vector items, k, x] w ↔
    ∃ items', assocVector items k x = .ok items' ∧ w = .vector items' := by
  constructor
  · intro h
    have hrun := (run_assoc items k x 0 Machine.initial).symm.trans (h 0 Machine.initial)
    rcases hassoc : assocVector items k x with e | items' <;> rw [hassoc] at hrun
    · cases hrun
    · exact ⟨items', rfl, (Except.ok.inj (congrArg Prod.fst hrun)).symm⟩
  · rintro ⟨items', h, rfl⟩ depth m
    rw [run_assoc, h]
    rfl

theorem refuses_assoc (h : ∀ items', assocVector items k x ≠ .ok items') :
    Refuses .assoc [.vector items, k, x] := by
  intro depth m
  rw [run_assoc]
  rcases hassoc : assocVector items k x with e | items'
  · exact ⟨e, rfl⟩
  · exact absurd hassoc (h items')

def Value.IsIndex (items : List Value) (k : Value) : Prop := ∃ i : Nat, k = .int i ∧ i < items.length

def Updates (items : List Value) (k x w : Value) : Prop :=
  (∀ d, Gives .get [w, k, d] x) ∧
    ∀ j d, j ≠ k → ∃ a, Gives .get [.vector items, j, d] a ∧ Gives .get [w, j, d] a

/-- The functions agree on whether the key is the place of a member. Putting takes the place behind
the last one too, and changes the one member that it is asked to. -/
structure Indexed (items : List Value) (k : Value) : Prop where
  contains : ∃ p, Gives .contains [.vector items, k] (.bool p) ∧ (p = true ↔ k.IsIndex items)
  get : ∀ d ∉ items, ∃ a, Gives .get [.vector items, k, d] a ∧ (a ≠ d ↔ k.IsIndex items)
  nth : AnswersIf (k.IsIndex items) .nth [.vector items, k]
  assoc : ∀ x, AnswersIf (k.IsIndex items ∨ k = .int items.length) .assoc [.vector items, k, x]
  updates : ∀ x w, Gives .assoc [.vector items, k, x] w → Updates items k x w

/-- A key of which some function makes more than a place: a truth value, a number that counts from the
end, or a double that is the length. -/
def Value.Astray (items : List Value) : Value → Prop
  | .bool b => (if b then 1 else 0) ≤ items.length
  | .int n => n < 0 ∧ 0 ≤ n + items.length
  | .float y => Value.same (.float y) (.int items.length) = true
  | _ => False

theorem isIndex_iff : k.IsIndex items ↔ ((index? k).bind (at? items)).isSome = true := by
  rw [Option.isSome_bind, Option.any_eq_true]
  constructor
  · rintro ⟨i, rfl, hi⟩
    exact ⟨i, rfl, at?_isSome_iff.mpr (by omega)⟩
  · rintro ⟨n, hk, hn⟩
    obtain rfl : k = .int n := by
      cases k <;> cases hk
      rfl
    obtain ⟨h0, hlen⟩ := at?_isSome_iff.mp hn
    exact ⟨n.toNat, by rw [Int.toNat_of_nonneg h0], by omega⟩

theorem number_cast (b : Bool) : ((if b then 1 else 0 : Nat) : Int) = if b then 1 else 0 := by
  cases b <;> rfl

theorem place_of_not_astray (h : ¬k.Astray items) :
    k.whole?.bind (at? items) = (index? k).bind (at? items) := by
  cases k with
  | bool b =>
      change at? items (if b then 1 else 0) = none
      rw [← Option.not_isSome_iff_eq_none, at?_isSome_iff]
      rintro ⟨-, hb⟩
      rw [← number_cast] at hb
      exact h (Nat.le_of_lt (Int.ofNat_lt.mp hb))
  | _ => rfl

theorem at?_congr {i : Nat} (h : ∀ j, j ≠ i → items'[j]? = items[j]?) (hn : n ≠ i) :
    at? items' n = at? items n := by
  unfold at?
  split
  · rfl
  · exact h n.toNat (by omega)

theorem updates_of_getElem? (hi : items'[i]? = some x) (h : ∀ j, j ≠ i → items'[j]? = items[j]?) :
    Updates items (.int i) x (.vector items') := by
  constructor
  · intro d
    have hget := gives_get_vector items' (.int i) d
    have hx : at? items' i = some x := at?_eq_some_iff.mpr ⟨i, rfl, hi⟩
    rw [index?, Option.bind_some, hx] at hget
    exact hget
  · intro j d hj
    have hsame : (index? j).bind (at? items') = (index? j).bind (at? items) := by
      cases j with
      | int n => exact at?_congr h fun hn => hj (by rw [hn])
      | _ => rfl
    refine ⟨_, gives_get_vector items j d, ?_⟩
    rw [← hsame]
    exact gives_get_vector items' j d

theorem updates_set (hi : i < items.length) :
    Updates items (.int i) x (.vector (items.set i x)) :=
  updates_of_getElem? (List.getElem?_set_self hi) fun _ hj => List.getElem?_set_ne (Ne.symm hj)

theorem updates_append : Updates items (.int items.length) x (.vector (items ++ [x])) := by
  apply updates_of_getElem?
  · exact List.getElem?_concat_length
  · intro j hj
    rcases Nat.lt_or_gt_of_ne hj with hlt | hgt
    · exact List.getElem?_append_left hlt
    · rw [List.getElem?_eq_none (by simp; omega), List.getElem?_eq_none (by omega)]

theorem assocVector_between (hlow : 0 ≤ n + items.length) (hup : n ≤ items.length) (x : Value) :
    ∃ items', assocVector items (.int n) x = .ok items' := by
  by_cases hend : n = items.length
  · exact ⟨_, assocVector_end (same_int.mpr hend)⟩
  · by_cases hn : n < 0
    · exact ⟨_, assocVector_negative hn hlow⟩
    · have hat : assocVector items (.int n.toNat) x = .ok (items.set n.toNat x) :=
        assocVector_at (by omega)
      rw [Int.toNat_of_nonneg (by omega)] at hat
      exact ⟨_, hat⟩

theorem Value.Astray.succeeds (h : k.Astray items) (x : Value) :
    ∃ items', assocVector items k x = .ok items' := by
  cases k with
  | bool b =>
      rw [assocVector_bool]
      have hb : (if b then 1 else 0) ≤ items.length := h
      rw [← number_cast]
      exact assocVector_between (by omega) (Int.ofNat_le.mpr hb) x
  | int n => exact assocVector_between h.2 (by have := h.1; omega) x
  | float y => exact ⟨_, assocVector_end h⟩
  | _ => exact h.elim

theorem Value.Astray.not_place (h : k.Astray items) :
    ¬(k.IsIndex items ∨ k = .int items.length) := by
  rintro (⟨i, rfl, -⟩ | rfl)
  · exact absurd h.1 (by omega)
  · exact absurd h.1 (by omega)

theorem assocVector_cases (h : ¬k.Astray items) (x : Value) :
    (∃ i : Nat, k = .int i ∧ i < items.length ∧ assocVector items k x = .ok (items.set i x)) ∨
      k = .int items.length ∧ assocVector items k x = .ok (items ++ [x]) ∨
      ¬(k.IsIndex items ∨ k = .int items.length) ∧ ∃ e, assocVector items k x = .error e := by
  have hother (hk : k.whole? = none) (hend : Value.same k (.int items.length) = false) :
      ¬(k.IsIndex items ∨ k = .int items.length) ∧ ∃ e, assocVector items k x = .error e := by
    refine ⟨?_, _, assocVector_other hk hend⟩
    rintro (⟨i, rfl, -⟩ | rfl) <;> cases hk
  cases k with
  | int n =>
      have hn : ¬(n < 0 ∧ 0 ≤ n + items.length) := h
      by_cases hend : n = items.length
      · exact .inr (.inl ⟨by rw [hend], assocVector_end (same_int.mpr hend)⟩)
      · by_cases hplace : 0 ≤ n ∧ n < items.length
        · refine .inl ⟨n.toNat, by rw [Int.toNat_of_nonneg hplace.1], by omega, ?_⟩
          have hat : assocVector items (.int n.toNat) x = .ok (items.set n.toNat x) :=
            assocVector_at (by omega)
          rwa [Int.toNat_of_nonneg hplace.1] at hat
        · refine .inr (.inr ⟨?_, _, assocVector_outside (by omega)⟩)
          rintro (⟨i, hi, hlen⟩ | hi) <;> injection hi with hi <;> omega
  | bool b =>
      have hb : ¬(if b then 1 else 0) ≤ items.length := h
      refine .inr (.inr ⟨?_, .fault .outOfRange, ?_⟩)
      · rintro (⟨i, hi, -⟩ | hi) <;> cases hi
      · rw [assocVector_bool]
        rw [← number_cast]
        exact assocVector_outside (.inr (by omega))
  | float y => exact .inr (.inr (hother rfl (Bool.eq_false_iff.mpr h)))
  | _ => exact .inr (.inr (hother rfl (by simp [Value.same, Value.number?])))

theorem indexed_of_not_astray (h : ¬k.Astray items) : Indexed items k where
  contains := by
    refine ⟨_, gives_contains_vector items k, ?_⟩
    rw [isIndex_iff, ← place_of_not_astray h, Option.isSome_bind]
  get d hd := by
    refine ⟨_, gives_get_vector items k d, ?_⟩
    rw [isIndex_iff]
    cases hplace : (index? k).bind (at? items) with
    | none => simp
    | some a =>
        obtain ⟨n, -, hn⟩ := Option.bind_eq_some_iff.mp hplace
        obtain ⟨i, -, hi⟩ := at?_eq_some_iff.mp hn
        have hne : a ≠ d := fun had => hd (had ▸ List.mem_of_getElem? hi)
        simpa using hne
  nth := by
    rw [isIndex_iff, ← place_of_not_astray h]
    constructor
    · intro hsome
      obtain ⟨a, ha⟩ := Option.isSome_iff_exists.mp hsome
      exact ⟨a, gives_nth ha⟩
    · exact fun hnone => refuses_nth (Option.not_isSome_iff_eq_none.mp hnone)
  assoc x := by
    rcases assocVector_cases h x with ⟨i, rfl, hi, hset⟩ | ⟨rfl, hend⟩ | ⟨hno, e, he⟩
    · exact ⟨fun _ => ⟨_, gives_assoc_iff.mpr ⟨_, hset, rfl⟩⟩, fun hn => absurd (.inl ⟨i, rfl, hi⟩) hn⟩
    · exact ⟨fun _ => ⟨_, gives_assoc_iff.mpr ⟨_, hend, rfl⟩⟩, fun hn => absurd (.inr rfl) hn⟩
    · refine ⟨fun hp => absurd hp hno, fun _ => refuses_assoc fun items' hok => ?_⟩
      cases he.symm.trans hok
  updates x w hw := by
    obtain ⟨items', hassoc, rfl⟩ := gives_assoc_iff.mp hw
    rcases assocVector_cases h x with ⟨i, rfl, hi, hset⟩ | ⟨rfl, hend⟩ | ⟨-, e, he⟩
    · cases hassoc.symm.trans hset
      exact updates_set hi
    · cases hassoc.symm.trans hend
      exact updates_append
    · cases hassoc.symm.trans he

theorem Indexed.not_astray (h : Indexed items k) : ¬k.Astray items := by
  intro hk
  obtain ⟨items', hassoc⟩ := hk.succeeds .nil
  exact hk.not_place ((h.assoc .nil).of_gives (gives_assoc_iff.mpr ⟨items', hassoc, rfl⟩))

theorem meant_not_astray (items : List Value) (k : Value) : ¬(k.meant items).Astray items := by
  cases k with
  | bool b =>
      rintro ⟨hneg, -⟩
      cases b <;> simp at hneg
  | int n =>
      rintro ⟨hneg, hlow⟩
      split at hneg <;> split at hlow <;> omega
  | float y =>
      rw [Value.meant]
      split
      · rintro ⟨h, -⟩
        omega
      · assumption
  | _ => exact id

/-- The functions agree on every key that is not astray, and on no other. A truth value is a number to
all of them, save where a place is looked up. Putting takes each key for one that is not astray. -/
theorem vector_places (items : List Value) (k : Value) :
    (Indexed items k ↔ ¬k.Astray items) ∧
      (∀ a, Gives .contains [.vector items, k] a ↔ Gives .contains [.vector items, k.counted] a) ∧
      (∀ a, Gives .nth [.vector items, k] a ↔ Gives .nth [.vector items, k.counted] a) ∧
      Indexed items (k.meant items) ∧
      ∀ x w, Gives .assoc [.vector items, k, x] w ↔
        Gives .assoc [.vector items, k.meant items, x] w := by
  refine ⟨⟨Indexed.not_astray, indexed_of_not_astray⟩, fun a => ?contains, fun a => ?nth,
    indexed_of_not_astray (meant_not_astray items k), fun x w => ?assoc⟩
  case contains =>
    have hk := gives_contains_vector items k
    have hcounted := gives_contains_vector items k.counted
    rw [whole?_counted] at hcounted
    constructor
    · exact fun ha => hk.unique ha ▸ hcounted
    · exact fun ha => hcounted.unique ha ▸ hk
  case nth => rw [gives_nth_iff, gives_nth_iff, whole?_counted]
  case assoc => rw [gives_assoc_iff, gives_assoc_iff, assocVector_meant]

/-- A truth value is no place, and yet the vector is said to contain it. -/
theorem truth_not_indexed : ¬∀ (items : List Value) (k : Value), Indexed items k := by
  intro h
  obtain ⟨p, hp, hindex⟩ := (h [.int 1, .int 2] (.bool true)).contains
  have htrue : Gives .contains [.vector [.int 1, .int 2], .bool true] (.bool true) := fun _ _ => rfl
  cases htrue.unique hp
  obtain ⟨i, hi, -⟩ := hindex.mp rfl
  cases hi

end Sumi.Machine
