import Sumi.Proofs.Machine.Equality
import Sumi.Proofs.Leads
import Sumi.Proofs.Tables

namespace Sumi.Machine

open Library

variable {m : Machine} {k key v w : Value} {ks : List Value} {t : Table Value Value}
  {es fs pairs : List (Value × Value)}

structure Value.IsKey (v : Value) : Prop where
  hashable : v.isHashable = true
  regular : v.Regular

/-- A table whose keys are distinct and have no doubles. -/
structure Sound (t : Table Value Value) : Prop where
  distinct : Distinct t
  regular : ∀ e ∈ t, e.1.Regular

theorem Sound.isKey (h : Sound t) {e : Value × Value} (he : e ∈ t) : e.1.IsKey :=
  ⟨h.distinct.1 e he, h.regular e he⟩

theorem Value.Regular.sound (h : (Value.map t).Regular) : Sound t :=
  ⟨h.of_map.1, fun e he => (h.of_map.2 e he).1⟩

theorem mem_put {e : Value × Value} (he : e ∈ t.put k v) :
    e = (k, v) ∨ e ∈ t ∨ ∃ e' ∈ t, e = (e'.1, v) := by
  induction t with
  | nil => exact .inl (List.mem_singleton.mp he)
  | cons e' t ih =>
      rw [Table.put] at he
      split at he <;> rcases List.mem_cons.mp he with rfl | he
      · exact .inr (.inr ⟨e', List.mem_cons_self, rfl⟩)
      · exact .inr (.inl (List.mem_cons_of_mem e' he))
      · exact .inr (.inl List.mem_cons_self)
      · rcases ih he with h | h | ⟨e'', he'', h⟩
        · exact .inl h
        · exact .inr (.inl (List.mem_cons_of_mem e' h))
        · exact .inr (.inr ⟨e'', List.mem_cons_of_mem e' he'', h⟩)

theorem forall_put {p : Value → Prop} (ht : ∀ e ∈ t, p e.1) (hk : p k) :
    ∀ e ∈ t.put k v, p e.1 := by
  intro e he
  rcases mem_put he with rfl | he | ⟨e', he', rfl⟩
  · exact hk
  · exact ht e he
  · exact ht e' he'

theorem forall_put_values {p : Value → Prop} (ht : ∀ e ∈ t, p e.2) (hv : p v) :
    ∀ e ∈ t.put k v, p e.2 := by
  intro e he
  rcases mem_put he with rfl | he | ⟨e', -, rfl⟩
  · exact hv
  · exact ht e he
  · exact hv

theorem Sound.put (h : Sound t) (hk : k.IsKey) (v : Value) : Sound (t.put k v) := by
  obtain ⟨⟨hh, hd⟩, hr⟩ := h
  refine ⟨⟨forall_put (p := fun x => x.isHashable = true) hh hk.hashable, ?_⟩,
    forall_put hr hk.regular⟩
  clear hh hr
  induction t with
  | nil => exact List.pairwise_singleton _ _
  | cons e t ih =>
      obtain ⟨he, hd⟩ := List.pairwise_cons.mp hd
      rw [Table.put]
      split
      · exact List.pairwise_cons.mpr ⟨he, hd⟩
      · next hek =>
          refine List.pairwise_cons.mpr ⟨?_, ih hd⟩
          exact forall_put (p := fun x => Value.same e.1 x = false) he (Bool.eq_false_iff.mpr hek)

theorem length_put (h : Table.get? k t = some v) : (t.put k w).length = t.length := by
  induction t with
  | nil => cases h
  | cons e t ih =>
      rw [Table.get?] at h
      rw [Table.put]
      split
      · rfl
      · next hek =>
          rw [if_neg hek] at h
          rw [List.length_cons, List.length_cons, ih h]

theorem Sound.putAll (h : Sound t) (hpairs : ∀ e ∈ pairs, e.1.IsKey) : Sound (t.putAll pairs) := by
  induction pairs generalizing t with
  | nil => exact h
  | cons e pairs ih =>
      rw [List.forall_mem_cons] at hpairs
      exact ih (h.put hpairs.1 e.2) hpairs.2

theorem putAll_keys (hpairs : ∀ e ∈ pairs, e.1.IsKey) :
    Library.putAll t pairs = .ok (t.putAll pairs) := by
  induction pairs generalizing t with
  | nil => rfl
  | cons e pairs ih =>
      rw [List.forall_mem_cons] at hpairs
      have hrest := ih (t := t.put e.1 e.2) hpairs.2
      unfold Library.putAll at hrest ⊢
      rw [List.foldlM_cons, Value.hashed, if_pos hpairs.1.hashable]
      exact hrest

def flat (pairs : List (Value × Value)) : List Value := pairs.flatMap fun e => [e.1, e.2]

theorem pairUp_flat (pairs : List (Value × Value)) : pairUp (flat pairs) = pairs := by
  induction pairs with
  | nil => rfl
  | cons e pairs ih => exact congrArg (e :: ·) ih

theorem length_flat (pairs : List (Value × Value)) : (flat pairs).length = 2 * pairs.length := by
  induction pairs with
  | nil => rfl
  | cons e pairs ih =>
      change (flat pairs).length + 2 = _
      rw [ih, List.length_cons, Nat.mul_succ]

theorem gives_assoc (hne : pairs ≠ []) (hpairs : ∀ e ∈ pairs, e.1.IsKey) :
    Gives .assoc (.map t :: flat pairs) (.map (t.putAll pairs)) := by
  intro depth m
  have hlength : ¬(flat pairs).length < 2 := by
    have := List.length_pos_iff.mpr hne
    rw [length_flat]
    omega
  change (if (flat pairs).length < 2 then Run.fault .wrongType else
    Run.ofResult (assoc (.map t) (pairUp (flat pairs)))).run.run m = _
  have hassoc : assoc (.map t) pairs = .ok (.map (t.putAll pairs)) := by
    change (Library.putAll t pairs >>= fun es => pure (Value.map es)) = _
    rw [putAll_keys hpairs]
    rfl
  rw [if_neg hlength, pairUp_flat, hassoc]
  rfl

theorem gives_assoc_one (hk : k.IsKey) : Gives .assoc [.map t, k, v] (.map (t.put k v)) := by
  have hassoc : Gives .assoc (.map t :: flat [(k, v)]) (.map (Table.putAll t [(k, v)])) :=
    gives_assoc (List.cons_ne_nil _ _) (List.forall_mem_singleton.mpr hk)
  exact hassoc

theorem get?_put (ht : ∀ e ∈ t, e.1.Regular) (hk : k.Regular) (hkey : key.Regular) :
    Table.get? key (t.put k v) = if Value.same k key then some v else Table.get? key t := by
  induction t with
  | nil => rfl
  | cons e t ih =>
      rw [List.forall_mem_cons] at ht
      rw [Table.put, Table.get?]
      by_cases hek : e.1 == k
      · have hsame : (e.1 == key) = Value.same k key :=
          Value.same_left ht.1 hk hkey hek
        rw [if_pos hek, Table.get?, hsame]
        split <;> rfl
      · rw [if_neg hek, Table.get?, ih ht.2]
        split
        · next hekey =>
            rw [if_neg]
            exact fun hkk => hek (Value.same_trans ht.1 hkey hk hekey (Value.same_symm hk hkey hkk))
        · rfl

theorem get?_iff (ht : Sound t) (hkey : key.Regular) : Table.get? key t = some v ↔
    ∃ e ∈ t, Value.same e.1 key = true ∧ e.2 = v := by
  obtain ⟨⟨-, hd⟩, hr⟩ := ht
  induction t with
  | nil => simp [Table.get?]
  | cons e t ih =>
      rw [List.forall_mem_cons] at hr
      rw [List.pairwise_cons] at hd
      rw [Table.get?, List.exists_mem_cons_iff]
      split
      · next he =>
          have hrest : ¬∃ e' ∈ t, Value.same e'.1 key = true ∧ e'.2 = v := by
            rintro ⟨e', he', hsame, -⟩
            have hback := Value.same_symm (hr.2 e' he') hkey hsame
            have hee' := Value.same_trans hr.1 hkey (hr.2 e' he') he hback
            exact Bool.false_ne_true ((hd.1 e' he').symm.trans hee')
          rw [or_iff_left hrest, Option.some_inj]
          exact (and_iff_right he).symm
      · next he =>
          rw [or_iff_right fun h => he h.1]
          exact ih hr.2 hd.2

theorem gives_count : Gives .count [.map es] (.int es.length) := by
  intro depth m
  change (Except.ok (Value.int (es.map fun e => Value.vector [e.1, e.2]).length), m) = _
  rw [List.length_map]

theorem gives_contains (es : List (Value × Value)) (hk : k.IsKey) :
    Gives .contains [.map es, k] (.bool (Table.has k es)) := by
  intro depth m
  change (Run.ofResult (hasKey (.map es) (m.settled k)) >>= fun p => pure (Value.bool p)).run.run m = _
  rw [settled_regular hk.regular, hasKey, Value.hashed, if_pos hk.hashable]
  rfl

theorem gives_lookUp (es : List (Value × Value)) (hk : k.IsKey) :
    Gives .get [.map es, k, v] ((Table.get? k es).getD v) := by
  intro depth m
  change (Run.ofResult (lookUp (.map es) k v)).run.run m = _
  rw [lookUp, Value.hashed, if_pos hk.hashable]
  rfl

theorem gives_get (es : List (Value × Value)) (hk : k.IsKey) :
    Gives .get [.map es, k] ((Table.get? k es).getD .nil) :=
  gives_lookUp (v := .nil) es hk

def Matches (R : Value → Value → Prop) (es fs : List (Value × Value)) : Prop :=
  (∃ n, Gives .count [.map es] n ∧ Gives .count [.map fs] n) ∧
    ∀ k ∈ Table.keys es, Gives .contains [.map fs, k] (.bool true) ∧
      ∃ v w, Gives .get [.map es, k] v ∧ Gives .get [.map fs, k] w ∧ R v w

theorem counts_iff :
    (∃ n, Gives .count [.map es] n ∧ Gives .count [.map fs] n) ↔ es.length = fs.length := by
  constructor
  · rintro ⟨n, hes, hfs⟩
    have heq := (gives_count.unique hes).trans (hfs.unique gives_count)
    injection heq with heq
    exact Int.ofNat_inj.mp heq
  · intro h
    exact ⟨_, gives_count, h ▸ gives_count⟩

theorem get?_mem (hes : Sound es) {e : Value × Value} (he : e ∈ es) :
    Table.get? e.1 es = some e.2 :=
  (get?_iff hes (hes.regular e he)).mpr ⟨e, he, Value.same_refl (hes.regular e he), rfl⟩

theorem matches_iff {R : Value → Value → Prop} (hes : Sound es) (hfs : Sound fs) :
    Matches R es fs ↔ es.length = fs.length ∧
      ∀ e ∈ es, ∃ f ∈ fs, Value.same e.1 f.1 = true ∧ R e.2 f.2 := by
  rw [Matches, counts_iff, Table.keys, List.forall_mem_map]
  refine and_congr_right fun _ => forall₂_congr fun e he => ?_
  have hkey := hes.isKey he
  have hhere := gives_get es hkey
  rw [get?_mem hes he] at hhere
  constructor
  · rintro ⟨hhas, v, w, hv, hw, hR⟩
    obtain rfl := hhere.unique hv
    obtain ⟨w', hw'⟩ : ∃ w', Table.get? e.1 fs = some w' := by
      have hhas := hhas.unique (gives_contains fs hkey)
      injection hhas with hhas
      exact Option.isSome_iff_exists.mp hhas.symm
    obtain ⟨f, hf, hsame, rfl⟩ := (get?_iff hfs hkey.regular).mp hw'
    have hthere := gives_get fs hkey
    rw [hw'] at hthere
    obtain rfl := hthere.unique hw
    exact ⟨f, hf, Value.same_symm (hfs.regular f hf) hkey.regular hsame, hR⟩
  · rintro ⟨f, hf, hsame, hR⟩
    have hw : Table.get? e.1 fs = some f.2 := (get?_iff hfs hkey.regular).mpr
      ⟨f, hf, Value.same_symm hkey.regular (hfs.regular f hf) hsame, rfl⟩
    have hhas := gives_contains fs hkey
    have hthere := gives_get fs hkey
    rw [Table.has, hw] at hhas
    rw [hw] at hthere
    exact ⟨hhas, e.2, f.2, hhere, hthere, hR⟩

theorem equals_maps (hes : (Value.map es).Regular) (hfs : (Value.map fs).Regular) :
    Gives .eq [.map es, .map fs] (.bool true) ↔ es.length = fs.length ∧
      ∀ e ∈ es, ∃ f ∈ fs, Value.same e.1 f.1 = true ∧ Value.same e.2 f.2 = true := by
  rw [gives_eq_iff hes hfs, Value.equals_other rfl rfl, Value.same_map]
  constructor
  · rintro ⟨-, fs', hfs', h⟩
    injection hfs' with hfs'
    exact hfs' ▸ h
  · exact fun h => ⟨rfl, fs, rfl, h⟩

theorem put_partner (ht : ∀ e ∈ t, e.2.Regular) (hv : Table.get? k t = some v)
    (hvw : Value.same v w = true) :
    ∀ e ∈ t, ∃ f ∈ t.put k w, f.1 = e.1 ∧ Value.same e.2 f.2 = true := by
  induction t with
  | nil => exact nofun
  | cons e t ih =>
      rw [List.forall_mem_cons] at ht ⊢
      rw [Table.get?] at hv
      rw [Table.put]
      split at hv
      · next hek =>
          obtain rfl : e.2 = v := Option.some_inj.mp hv
          rw [if_pos hek]
          refine ⟨⟨(e.1, w), List.mem_cons_self, rfl, hvw⟩, fun e' he' => ?_⟩
          exact ⟨e', List.mem_cons_of_mem _ he', rfl, Value.same_refl (ht.2 e' he')⟩
      · next hek =>
          rw [if_neg hek]
          refine ⟨⟨e, List.mem_cons_self, rfl, Value.same_refl ht.1⟩, fun e' he' => ?_⟩
          obtain ⟨f, hf, hkey, hvalue⟩ := ih ht.2 hv e' he'
          exact ⟨f, List.mem_cons_of_mem e hf, hkey, hvalue⟩

theorem regular_put (ht : (Value.map t).Regular) (hk : k.IsKey) (hw : w.Regular) :
    (Value.map (t.put k w)).Regular := by
  have hput := ht.sound.put hk w
  exact .map hput.distinct hput.regular (forall_put_values (fun e he => (ht.of_map.2 e he).2) hw)

theorem same_put (ht : (Value.map t).Regular) (hv : Table.get? k t = some v)
    (hvw : Value.same v w = true) : Value.same (.map t) (.map (t.put k w)) = true := by
  have hvalues : ∀ e ∈ t, e.2.Regular := fun e he => (ht.of_map.2 e he).2
  refine Value.same_map.mpr ⟨_, rfl, (length_put hv).symm, fun e he => ?_⟩
  obtain ⟨f, hf, hkey, hvalue⟩ := put_partner hvalues hv hvw e he
  have hsame := Value.same_refl (ht.sound.regular e he)
  exact ⟨f, hf, hkey.symm ▸ hsame, hvalue⟩

/-- Maps are equal when they have equally many keys and, under every key, the same values; equal
ones, where these have no truth values and no lists in them. The same value put in the place of
another changes nothing. -/
theorem map_equality (hes : (Value.map es).Regular) (hfs : (Value.map fs).Regular) :
    (Gives .eq [.map es, .map fs] (.bool true) ↔
        Matches (fun v w => Value.same v w = true) es fs) ∧
      ((∀ e ∈ es ++ fs, e.2.Unmixed) → (Gives .eq [.map es, .map fs] (.bool true) ↔
        Matches (fun v w => Gives .eq [v, w] (.bool true)) es fs)) ∧
      ∀ k v w : Value, k.IsKey → w.Regular → Table.get? k es = some v → Value.same v w = true →
        ∃ es', Gives .assoc [.map es, k, w] (.map es') ∧
          ∀ p, Gives .eq [.map es', .map fs] (.bool p) ↔ Gives .eq [.map es, .map fs] (.bool p) := by
  refine ⟨?same, ?unmixed, ?replaced⟩
  case same => rw [equals_maps hes hfs, matches_iff hes.sound hfs.sound]
  case unmixed =>
    intro hall
    rw [equals_maps hes hfs, matches_iff hes.sound hfs.sound]
    refine and_congr_right fun _ => forall₂_congr fun e he => exists_congr fun f => ?_
    refine and_congr_right fun hf => and_congr_right fun _ => ?_
    rw [gives_eq_iff (hes.of_map.2 e he).2 (hfs.of_map.2 f hf).2, Value.equals_unmixed
      (hall e (List.mem_append_left fs he)) (hall f (List.mem_append_right es hf))]
  case replaced =>
    intro k v w hk hw hv hvw
    have hput := regular_put hes hk hw
    have hsame := same_put hes hv hvw
    have hequal : Value.equals (.map es) (.map (Table.put k w es)) = true :=
      (Value.equals_other rfl rfl).mpr ⟨rfl, hsame⟩
    refine ⟨_, gives_assoc_one hk, fun p => ?_⟩
    rw [gives_eq_iff hput hfs, gives_eq_iff hes hfs, Value.equals_left hes hput hfs hequal]

theorem regular_single (hv : v.Regular) : (Value.map [(.int 0, v)]).Regular :=
  .map ⟨List.forall_mem_singleton.mpr rfl, List.pairwise_singleton _ _⟩
    (List.forall_mem_singleton.mpr (.leaf rfl)) (List.forall_mem_singleton.mpr hv)

/-- A truth value and the number that is the same. -/
theorem map_equality_single :
    Gives .eq [.map [(.int 0, .int 1)], .map [(.int 0, .bool true)]] (.bool true) ∧
      Matches (fun v w => Value.same v w = true) [(.int 0, .int 1)] [(.int 0, .bool true)] := by
  have hes := regular_single (v := .int 1) (.leaf rfl)
  have hfs := regular_single (v := .bool true) (.leaf rfl)
  have hequal := (gives_eq_iff (p := true) hes hfs).mpr (by decide +kernel)
  exact ⟨hequal, (map_equality hes hfs).1.mp hequal⟩

/-- To `=` they are not equal, but the maps that have them under one key are. -/
theorem map_equality_mixed : ¬∀ es fs : List (Value × Value),
    (Value.map es).Regular → (Value.map fs).Regular →
      (Gives .eq [.map es, .map fs] (.bool true) ↔
        Matches (fun v w => Gives .eq [v, w] (.bool true)) es fs) := by
  intro h
  have hes := regular_single (v := .int 1) (.leaf rfl)
  have hfs := regular_single (v := .bool true) (.leaf rfl)
  have hequal := (gives_eq_iff (p := true) hes hfs).mpr (by decide +kernel)
  obtain ⟨-, hall⟩ := (matches_iff hes.sound hfs.sound).mp ((h _ _ hes hfs).mp hequal)
  obtain ⟨f, hf, -, heq⟩ := hall _ List.mem_cons_self
  obtain rfl := List.mem_singleton.mp hf
  have hdiffer : Gives .eq [.int 1, .bool true] (.bool false) := fun _ _ => rfl
  cases heq.unique hdiffer

def entry (e : Value × Value) : Value := .vector [e.1, e.2]

theorem mapOf_keys (hpairs : ∀ e ∈ pairs, e.1.IsKey) :
    mapOf pairs = .ok (.map (Table.putAll [] pairs)) := by
  rw [mapOf, putAll_keys hpairs]
  rfl

theorem gives_hashMap (hpairs : ∀ e ∈ pairs, e.1.IsKey) :
    Gives .hashMap (flat pairs) (.map (Table.putAll [] pairs)) := by
  intro depth m
  change (if (flat pairs).length % 2 = 0 then Run.ofResult (mapOf (pairUp (flat pairs)))
    else Run.fail (.thrown "hash-map requires an even number of arguments")).run.run m = _
  rw [length_flat, if_pos (Nat.mul_mod_right 2 _), pairUp_flat, mapOf_keys hpairs]
  rfl

theorem conjOne_entry {e : Value × Value} (he : e.1.IsKey) :
    (conjOne (.map t) (entry e)).run.run m = (.ok (.map (t.put e.1 e.2)), m) := by
  change (Run.ofResult (Library.putAll t [e]) >>= fun es => pure (Value.map es)).run.run m = _
  rw [putAll_keys (List.forall_mem_singleton.mpr he)]
  rfl

theorem conj_entries (hpairs : ∀ e ∈ pairs, e.1.IsKey) :
    (conj (.map t) (pairs.map entry)).run.run m = (.ok (.map (t.putAll pairs)), m) := by
  change ((pairs.map entry).foldlM conjOne (.map t)).run.run m = _
  induction pairs generalizing t with
  | nil => rfl
  | cons e pairs ih =>
      rw [List.forall_mem_cons] at hpairs
      rw [List.map_cons, List.foldlM_cons]
      exact run_bind_ok_iff.mpr ⟨_, m, conjOne_entry hpairs.1, ih hpairs.2⟩

theorem gives_conj (hpairs : ∀ e ∈ pairs, e.1.IsKey) :
    Gives .conj (.map t :: pairs.map entry) (.map (t.putAll pairs)) :=
  fun _ _ => conj_entries hpairs

theorem settled_items {vs : List Value} (hv : v.items? = some vs) : m.settled v = v := by
  cases v <;> first | rfl | cases hv

theorem itemsOf_eq {vs : List Value} (hv : v.items? = some vs) : v.itemsOf = .ok vs := by
  rw [Value.itemsOf, hv]
  rfl

theorem gives_into {coll : Value} (hpairs : ∀ e ∈ pairs, e.1.IsKey)
    (hcoll : coll.items? = some (pairs.map entry)) :
    Gives .into [.map t, coll] (.map (t.putAll pairs)) := by
  intro depth m
  change (Run.ofResult (m.settled coll).itemsOf >>= conj (.map t)).run.run m = _
  rw [settled_items hcoll, itemsOf_eq hcoll]
  exact conj_entries hpairs

theorem gives_zipmap {ks vs : Value} (hpairs : ∀ e ∈ pairs, e.1.IsKey)
    (hks : ks.items? = some (pairs.map Prod.fst)) (hvs : vs.items? = some (pairs.map Prod.snd)) :
    Gives .zipmap [ks, vs] (.map (Table.putAll [] pairs)) := by
  intro depth m
  have hzip : zipmap ks vs = .ok (.map (Table.putAll [] pairs)) := by
    rw [zipmap, itemsOf_eq hks, itemsOf_eq hvs, ← mapOf_keys hpairs]
    exact congrArg mapOf (List.zip_of_prod rfl rfl).symm
  change (Run.ofResult (zipmap (m.settled ks) (m.settled vs))).run.run m = _
  rw [settled_items hks, settled_items hvs, hzip]
  rfl

theorem absorb_one {e : Value × Value} (he : e.1.IsKey) :
    absorb t (.map [e]) = .ok (t.put e.1 e.2) := by
  cases t with
  | nil => rfl
  | cons e' t => exact putAll_keys (List.forall_mem_singleton.mpr he)

theorem absorb_ones (hpairs : ∀ e ∈ pairs, e.1.IsKey) :
    (pairs.map fun e => Value.map [e]).foldlM absorb t = .ok (t.putAll pairs) := by
  induction pairs generalizing t with
  | nil => rfl
  | cons e pairs ih =>
      rw [List.forall_mem_cons] at hpairs
      rw [List.map_cons, List.foldlM_cons, absorb_one hpairs.1]
      exact ih hpairs.2

theorem gives_merge (hne : pairs ≠ []) (hpairs : ∀ e ∈ pairs, e.1.IsKey) :
    Gives .merge (pairs.map fun e => .map [e]) (.map (Table.putAll [] pairs)) := by
  intro depth m
  have hsettled : (pairs.map fun e => Value.map [e]).map m.settled = pairs.map fun e => .map [e] := by
    rw [List.map_map]
    rfl
  have hmerge : merge (pairs.map fun e => .map [e]) = .ok (.map (Table.putAll [] pairs)) := by
    obtain ⟨e, rest, rfl⟩ := List.exists_cons_of_ne_nil hne
    change (((e :: rest).map fun e => Value.map [e]).foldlM absorb []) >>= (fun es => pure (Value.map es)) = _
    rw [absorb_ones hpairs]
    rfl
  change (Run.ofResult (merge ((pairs.map fun e => Value.map [e]).map m.settled))).run.run m = _
  rw [hsettled, hmerge]
  rfl

/-- Of a map in the making, no entry waits before all that are put into it at once are there. -/
theorem evalMap_run {call : Call} {env : Locals} {soon : Nat} {made : Table Value Value}
    {waiting : List (Value × Value)} {entries : List (Code × Code)} {m' : Machine}
    (hpairs : ∀ e ∈ pairs, e.1.IsKey) (hwaiting : ∀ e ∈ waiting, e.1.IsKey)
    (hsoon : soon = 0 ∨ waiting = [])
    (h : (evalAll call env (entries.flatMap fun e => [e.1, e.2])).run.run m = (.ok (flat pairs), m')) :
    (evalMap call env soon made waiting entries).run.run m =
      (.ok (.map (made.putAll (waiting.reverse ++ pairs))), m') := by
  -- while entries are put in one by one none waits, so none overtakes another
  induction entries generalizing soon made waiting pairs m with
  | nil =>
      rw [List.flatMap_nil, evalAll] at h
      have hflat : flat pairs = [] := (Except.ok.inj (congrArg Prod.fst h)).symm
      obtain rfl : pairs = [] := by
        cases pairs with
        | nil => rfl
        | cons => cases hflat
      obtain rfl : m = m' := congrArg Prod.snd h
      rw [evalMap, putAll_keys (by simpa using hwaiting), List.append_nil]
      rfl
  | cons c entries ih =>
      change (evalAll call env (c.1 :: c.2 :: _)).run.run m = _ at h
      rw [evalAll, run_bind_ok_iff] at h
      obtain ⟨key, m₁, hkey, h⟩ := h
      rw [evalAll, bind_assoc, run_bind_ok_iff] at h
      obtain ⟨value, m₂, hvalue, h⟩ := h
      simp only [bind_assoc, pure_bind] at h
      obtain ⟨vs, m₃, hvs, h⟩ := run_bind_ok_iff.mp h
      have hflat : key :: value :: vs = flat pairs := Except.ok.inj (congrArg Prod.fst h)
      obtain rfl : m₃ = m' := congrArg Prod.snd h
      cases pairs with
      | nil => cases hflat
      | cons e pairs =>
          obtain ⟨rfl, rfl, rfl⟩ : key = e.1 ∧ value = e.2 ∧ vs = flat pairs := by
            simpa [flat] using hflat
          rw [List.forall_mem_cons] at hpairs
          rw [evalMap]
          refine run_bind_ok_iff.mpr ⟨_, m₁, hkey, run_bind_ok_iff.mpr ⟨_, m₂, hvalue, ?_⟩⟩
          cases soon with
          | zero =>
              have hwaiting' : ∀ e' ∈ e :: waiting, e'.1.IsKey :=
                List.forall_mem_cons.mpr ⟨hpairs.1, hwaiting⟩
              have hrow : waiting.reverse ++ e :: pairs = (e :: waiting).reverse ++ pairs := by simp
              rw [hrow]
              exact ih hpairs.2 hwaiting' (.inl rfl) hvs
          | succ soon =>
              obtain rfl : waiting = [] := hsoon.resolve_left (Nat.succ_ne_zero soon)
              rw [putAll_keys (List.forall_mem_singleton.mpr hpairs.1)]
              exact ih hpairs.2 (List.forall_mem_nil _) (.inr rfl) hvs

theorem eval_map {call : Call} {env : Locals} {entries : List (Code × Code)} {m' : Machine}
    (hpairs : ∀ e ∈ pairs, e.1.IsKey)
    (h : (evalAll call env (entries.flatMap fun e => [e.1, e.2])).run.run m = (.ok (flat pairs), m')) :
    (eval call env (.map entries)).run.run m = (.ok (.map (Table.putAll [] pairs)), m') := by
  rw [eval]
  exact evalMap_run hpairs (List.forall_mem_nil _) (.inr rfl) h

def lastValue (key : Value) (pairs : List (Value × Value)) : Option Value :=
  (pairs.filter fun e => Value.same e.1 key).getLast?.map Prod.snd

theorem lastValue_cons {e : Value × Value} : lastValue key (e :: pairs) =
    (lastValue key pairs).or (if Value.same e.1 key then some e.2 else none) := by
  unfold lastValue
  rw [List.filter_cons]
  split
  · rw [List.getLast?_cons]
    cases (pairs.filter fun e => Value.same e.1 key).getLast? <;> rfl
  · simp

theorem get?_putAll (ht : ∀ e ∈ t, e.1.Regular) (hpairs : ∀ e ∈ pairs, e.1.IsKey)
    (hkey : key.Regular) :
    Table.get? key (t.putAll pairs) = (lastValue key pairs).or (Table.get? key t) := by
  induction pairs generalizing t with
  | nil => rfl
  | cons e pairs ih =>
      rw [List.forall_mem_cons] at hpairs
      have hrest := ih (forall_put (v := e.2) ht hpairs.1.regular) hpairs.2
      rw [get?_put ht hpairs.1.regular hkey] at hrest
      rw [lastValue_cons, Option.or_assoc]
      refine hrest.trans (congrArg (lastValue key pairs).or ?_)
      split <;> rfl

theorem keys_put (ht : ∀ e ∈ t, e.1.Regular) (hk : k.Regular) :
    Table.keys (t.put k v) = collect (Table.keys t) k := by
  induction t with
  | nil => rfl
  | cons e t ih =>
      rw [List.forall_mem_cons] at ht
      have hflip : (k == e.1) = (e.1 == k) := by
        rw [Bool.eq_iff_iff]
        exact ⟨Value.same_symm hk ht.1, Value.same_symm ht.1 hk⟩
      have hcontains : (Table.keys (e :: t)).contains k = (e.1 == k || (Table.keys t).contains k) := by
        rw [← hflip]
        exact List.contains_cons
      rw [Table.put, collect, hcontains]
      by_cases hek : e.1 == k
      · rw [if_pos hek, hek, Bool.true_or, if_pos rfl]
        rfl
      · rw [if_neg hek, Bool.eq_false_iff.mpr hek, Bool.false_or]
        have hcons : Table.keys (e :: Table.put k v t) = e.1 :: collect (Table.keys t) k :=
          congrArg (e.1 :: ·) (ih ht.2)
        rw [hcons, collect]
        split <;> rfl

theorem keys_putAll (ht : ∀ e ∈ t, e.1.Regular) (hpairs : ∀ e ∈ pairs, e.1.IsKey) :
    Table.keys (t.putAll pairs) = (pairs.map Prod.fst).foldl collect (Table.keys t) := by
  induction pairs generalizing t with
  | nil => rfl
  | cons e pairs ih =>
      rw [List.forall_mem_cons] at hpairs
      have hrest := ih (forall_put (v := e.2) ht hpairs.1.regular) hpairs.2
      rw [keys_put ht hpairs.1.regular] at hrest
      exact hrest

theorem any_same {a b : Value} (ha : a.Regular) (hb : b.Regular) (hks : ∀ k ∈ ks, k.Regular)
    (hab : Value.same a b = true) : ks.any (Value.same a) = ks.any (Value.same b) := by
  rw [Bool.eq_iff_iff, List.any_eq_true, List.any_eq_true]
  refine exists_congr fun k => and_congr_right fun hk => ?_
  rw [Value.same_left ha hb (hks k hk) hab]

theorem get?_without (ht : ∀ e ∈ t, e.1.Regular) (hks : ∀ k ∈ ks, k.Regular) (hkey : key.Regular) :
    Table.get? key (without t ks) =
      if ks.any (Value.same key) then none else Table.get? key t := by
  induction t with
  | nil => simp [without, Table.get?]
  | cons e t ih =>
      rw [List.forall_mem_cons] at ht
      unfold without at ih ⊢
      rw [List.filter_cons, Table.get?]
      by_cases hany : ks.any (Value.same e.1) = true
      · have hkeys : e.1 == key → ks.any (Value.same key) = true := fun hek =>
          (any_same ht.1 hkey hks hek).symm.trans hany
        rw [hany, if_neg (by decide), ih ht.2]
        split
        · rfl
        · next hnot => rw [if_neg fun hek => hnot (hkeys hek)]
      · have hkeys : e.1 == key → ks.any (Value.same key) = false := fun hek =>
          (any_same ht.1 hkey hks hek).symm.trans (Bool.eq_false_iff.mpr hany)
        rw [Bool.eq_false_iff.mpr hany, if_pos (by decide), Table.get?, ih ht.2]
        split
        · next hek => rw [hkeys hek]; rfl
        · rfl

theorem gives_dissoc (hks : ∀ k ∈ ks, k.Regular) :
    Gives .dissoc (.map t :: ks) (.map (without t ks)) := by
  intro depth m
  have hsettled : ks.map m.settled = ks := by
    rw [List.map_congr_left fun k hk => settled_regular (hks k hk), List.map_id']
  change (dissoc (apply depth) (.map t) (ks.map m.settled)).run.run m = _
  rw [hsettled]
  rfl

/-- Every way of making a map of the pairs comes to the same one. It has their keys in the order in
which they came first, each with the value that it was last paired with, and without some keys it
has all others as before. -/
structure MadeOf (pairs : List (Value × Value)) (t : Table Value Value) : Prop where
  literal : ∀ (call : Call) (env : Locals) (entries : List (Code × Code)) (m m' : Machine),
    (evalAll call env (entries.flatMap fun e => [e.1, e.2])).run.run m = (.ok (flat pairs), m') →
      (eval call env (.map entries)).run.run m = (.ok (.map t), m')
  hashMap : Gives .hashMap (flat pairs) (.map t)
  assoc : Gives .assoc (.map [] :: flat pairs) (.map t)
  conj : Gives .conj (.map [] :: pairs.map entry) (.map t)
  into : ∀ coll : Value, coll.items? = some (pairs.map entry) → Gives .into [.map [], coll] (.map t)
  zipmap : ∀ ks vs : Value, ks.items? = some (pairs.map Prod.fst) →
    vs.items? = some (pairs.map Prod.snd) → Gives .zipmap [ks, vs] (.map t)
  merge : Gives .merge (pairs.map fun e => .map [e]) (.map t)
  order : t.keys = distinct (pairs.map Prod.fst)
  apart : t.Pairwise fun e e' => Value.same e.1 e'.1 = false
  found : ∀ k default : Value, k.IsKey →
    Gives .contains [.map t, k] (.bool (lastValue k pairs).isSome) ∧
      Gives .get [.map t, k] ((lastValue k pairs).getD .nil) ∧
      Gives .get [.map t, k, default] ((lastValue k pairs).getD default)
  others : ∀ ks : List Value, (∀ k ∈ ks, k.IsKey) →
    ∃ rest : Table Value Value, Gives .dissoc (.map t :: ks) (.map rest) ∧
      rest = t.filter (fun e => !ks.any (Value.same e.1)) ∧
      ∀ k default : Value, k.IsKey →
        Gives .contains [.map rest, k]
            (.bool (!ks.any (Value.same k) && (lastValue k pairs).isSome)) ∧
          Gives .get [.map rest, k, default]
            (if ks.any (Value.same k) then default else (lastValue k pairs).getD default)

theorem made_alike (hne : pairs ≠ []) (hpairs : ∀ e ∈ pairs, e.1.IsKey) :
    MadeOf pairs (Table.putAll [] pairs) := by
  have hsound : Sound (Table.putAll [] pairs) :=
    Sound.putAll (t := []) ⟨⟨nofun, .nil⟩, nofun⟩ hpairs
  have hget : ∀ {k : Value}, k.IsKey →
      Table.get? k (Table.putAll [] pairs) = lastValue k pairs := by
    intro k hk
    rw [get?_putAll (t := []) nofun hpairs hk.regular]
    exact Option.or_none
  refine ⟨fun call env entries m m' => eval_map hpairs, gives_hashMap hpairs, gives_assoc hne hpairs,
    gives_conj hpairs, fun coll => gives_into hpairs, fun ks vs => gives_zipmap hpairs,
    gives_merge hne hpairs, keys_putAll (t := []) nofun hpairs, hsound.distinct.2, ?found, ?others⟩
  case found =>
    intro k default hk
    rw [← hget hk]
    exact ⟨gives_contains _ hk, gives_get _ hk, gives_lookUp _ hk⟩
  case others =>
    intro ks hks
    refine ⟨_, gives_dissoc fun k hk => (hks k hk).regular, rfl, fun k default hk => ?_⟩
    have hrest := get?_without hsound.regular (fun k hk => (hks k hk).regular) hk.regular
    rw [hget hk] at hrest
    have hcontains := gives_contains (without (Table.putAll [] pairs) ks) hk
    have hlook := gives_lookUp (v := default) (without (Table.putAll [] pairs) ks) hk
    rw [Table.has, hrest] at hcontains
    rw [hrest] at hlook
    cases hany : ks.any (Value.same k) <;> rw [hany] at hcontains hlook
    · exact ⟨hcontains, hlook⟩
    · exact ⟨hcontains, hlook⟩

/-- A truth value and a number that are the same key: the first one stands in the map, with the value
of the second. -/
theorem made_alike_repeated : MadeOf
    [(.bool true, .str "a"), (.int 2, .nil), (.int 1, .str "b")]
    [(.bool true, .str "b"), (.int 2, .nil)] := by
  have hpairs : ∀ e ∈ ([(.bool true, .str "a"), (.int 2, .nil), (.int 1, .str "b")] :
      List (Value × Value)), e.1.IsKey := by
    simp only [List.forall_mem_cons]
    exact ⟨⟨rfl, .leaf rfl⟩, ⟨rfl, .leaf rfl⟩, ⟨rfl, .leaf rfl⟩, List.forall_mem_nil _⟩
  have hother : (Value.bool true == Value.int 2) = false := by decide +kernel
  have hsame : (Value.bool true == Value.int 1) = true := by decide +kernel
  have hmade := made_alike (List.cons_ne_nil _ _) hpairs
  simpa [Table.putAll, Table.put, hother, hsame] using hmade

end Sumi.Machine
