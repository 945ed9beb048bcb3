import Sumi.Proofs.Machine.Datum

namespace Sumi.Machine.Value

def token? : Value → Option Value
  | .bool b => some (.int (if b then 1 else 0))
  | .var id _ _ => some (.var id .nil .nil)
  | .fn id _ => some (.fn id .forward)
  | .float _ | .keyword _ _ | .symbol _ _ | .list _ _ | .row _ | .vector _ | .map _ | .set _
  | .live _ => none
  | v => some v

def listed? : Value → Option (List Value)
  | .list _ items | .row items => some items
  | _ => none

/-- Values made of leaves, names, lists, vectors and maps with distinct keys. -/
inductive Regular : Value → Prop
  | leaf {v t : Value} (ht : v.token? = some t) : Regular v
  | keyword {ns name : Value} (hns : Regular ns) (hname : Regular name) :
      Regular (.keyword ns name)
  | symbol {ns name : Value} (hns : Regular ns) (hname : Regular name) : Regular (.symbol ns name)
  | listed {v : Value} {items : List Value} (hv : v.listed? = some items)
      (hitems : ∀ x ∈ items, Regular x) : Regular v
  | vector {items : List Value} (hitems : ∀ x ∈ items, Regular x) : Regular (.vector items)
  | map {entries : List (Value × Value)} (hd : Distinct entries)
      (hkeys : ∀ e ∈ entries, Regular e.1) (hvalues : ∀ e ∈ entries, Regular e.2) :
      Regular (.map entries)

variable {a b c v t ns name : Value} {items xs ys zs : List Value}
  {es fs entries : List (Value × Value)}

theorem not_regular_float (x : Float) : ¬Regular (.float x)
  | .leaf ht => nomatch ht
  | .listed hv _ => nomatch hv

theorem not_regular_live (map : Live) : ¬Regular (.live map)
  | .leaf ht => nomatch ht
  | .listed hv _ => nomatch hv

theorem Regular.of_keyword : Regular (.keyword ns name) → ns.Regular ∧ name.Regular
  | .leaf ht => nomatch ht
  | .keyword hns hname => ⟨hns, hname⟩
  | .listed hv _ => nomatch hv

theorem Regular.of_symbol : Regular (.symbol ns name) → ns.Regular ∧ name.Regular
  | .leaf ht => nomatch ht
  | .symbol hns hname => ⟨hns, hname⟩
  | .listed hv _ => nomatch hv

theorem token_sequence (ht : v.token? = some t) : v.sequence? = none := by
  cases v <;> first | rfl | cases ht

theorem Regular.of_sequence (h : v.Regular) (hv : v.sequence? = some items) :
    ∀ x ∈ items, x.Regular := by
  cases h with
  | leaf ht => exact nomatch (token_sequence ht).symm.trans hv
  | listed hl hitems => cases v <;> cases hl <;> cases hv <;> exact hitems
  | vector hitems => cases hv; exact hitems
  | keyword | symbol | map => cases hv

theorem Regular.of_map (h : Regular (.map entries)) :
    Distinct entries ∧ ∀ e ∈ entries, e.1.Regular ∧ e.2.Regular :=
  match h with
  | .leaf ht => nomatch ht
  | .listed hv _ => nomatch hv
  | .map hd hkeys hvalues => ⟨hd, fun e he => ⟨hkeys e he, hvalues e he⟩⟩

theorem listed_sequence (hv : v.listed? = some items) : v.sequence? = some items := by
  cases v <;> first | exact hv | cases hv

abbrev AllSame (xs ys : List Value) : Prop := List.Forall₂ (fun x y => same x y = true) xs ys

theorem sameAll_iff : sameAll xs ys = true ↔ AllSame xs ys := by
  induction xs generalizing ys with
  | nil => cases ys <;> simp [sameAll]
  | cons x xs ih => cases ys <;> simp [sameAll, ih]

theorem sameEntries_iff : sameEntries es fs = true ↔
    ∀ e ∈ es, ∃ f ∈ fs, same e.1 f.1 = true ∧ same e.2 f.2 = true := by
  induction es with
  | nil => simp [sameEntries]
  | cons e es ih =>
      rw [sameEntries, Bool.and_eq_true, List.any_eq_true, ih, List.forall_mem_cons]
      simp only [Bool.and_eq_true]

theorem same_leaf (ha : a.token? = some t) (hb : b.Regular) :
    same a b = true ↔ some t = b.token? := by
  cases a <;> cases ha <;> cases b <;> first
    | exact absurd hb (not_regular_float _)
    | simp [same, token?, number?, Number.equals, Number.compare?]

theorem same_keyword : same (.keyword ns name) b = true ↔
    ∃ ns' name', b = .keyword ns' name' ∧ same ns ns' = true ∧ same name name' = true := by
  cases b <;> simp [same, number?]

theorem same_symbol : same (.symbol ns name) b = true ↔
    ∃ ns' name', b = .symbol ns' name' ∧ same ns ns' = true ∧ same name name' = true := by
  cases b <;> simp [same, number?]

theorem same_listed (ha : a.listed? = some xs) :
    same a b = true ↔ ∃ ys, b.listed? = some ys ∧ AllSame xs ys := by
  cases a <;> cases ha <;> cases b <;> simp [same, listed?, number?, sameAll_iff]

theorem same_vector : same (.vector xs) b = true ↔ ∃ ys, b = .vector ys ∧ AllSame xs ys := by
  cases b <;> simp [same, number?, sameAll_iff]

theorem same_map : same (.map es) b = true ↔ ∃ fs, b = .map fs ∧ es.length = fs.length ∧
    ∀ e ∈ es, ∃ f ∈ fs, same e.1 f.1 = true ∧ same e.2 f.2 = true := by
  cases b <;> simp [same, number?, sameEntries_iff]

section

variable {R : Value → Value → Prop}

theorem members_symm (ih : ∀ x ∈ xs, ∀ {y}, y.Regular → R x y → R y x)
    (hys : ∀ y ∈ ys, y.Regular) (h : List.Forall₂ R xs ys) : List.Forall₂ R ys xs := by
  induction h with
  | nil => exact .nil
  | cons hxy _ ihrest =>
      rw [List.forall_mem_cons] at ih hys
      exact .cons (ih.1 hys.1 hxy) (ihrest ih.2 hys.2)

theorem members_trans
    (ih : ∀ x ∈ xs, ∀ {y z}, y.Regular → z.Regular → R x y → R y z → R x z)
    (hys : ∀ y ∈ ys, y.Regular) (hzs : ∀ z ∈ zs, z.Regular) (h : List.Forall₂ R xs ys)
    (h' : List.Forall₂ R ys zs) : List.Forall₂ R xs zs := by
  induction h generalizing zs with
  | nil => exact h'
  | cons hxy _ ihrest =>
      obtain _ | ⟨hyz, h'⟩ := h'
      rw [List.forall_mem_cons] at ih hys hzs
      exact .cons (ih.1 hys.1 hzs.1 hxy hyz) (ihrest ih.2 hys.2 hzs.2 h')

end

theorem same_refl (h : v.Regular) : same v v = true := by
  induction h with
  | leaf ht => exact (same_leaf ht (.leaf ht)).mpr ht.symm
  | @keyword ns name _ _ hns hname => exact same_keyword.mpr ⟨ns, name, rfl, hns, hname⟩
  | @symbol ns name _ _ hns hname => exact same_symbol.mpr ⟨ns, name, rfl, hns, hname⟩
  | @listed v items hv _ ih => exact (same_listed hv).mpr ⟨items, hv, List.forall₂_same.mpr ih⟩
  | @vector items _ ih => exact same_vector.mpr ⟨items, rfl, List.forall₂_same.mpr ih⟩
  | @map entries _ _ _ hkeys hvalues =>
      exact same_map.mpr ⟨entries, rfl, rfl, fun e he => ⟨e, he, hkeys e he, hvalues e he⟩⟩

theorem same_trans (ha : a.Regular) (hb : b.Regular) (hc : c.Regular) (hab : same a b = true)
    (hbc : same b c = true) : same a c = true := by
  -- on the first value: sameness gives the other two its shape
  induction ha generalizing b c with
  | leaf ht =>
      have htb := (same_leaf ht hb).mp hab
      have htc := (same_leaf htb.symm hc).mp hbc
      exact (same_leaf ht hc).mpr htc
  | keyword _ _ hns hname =>
      obtain ⟨ns', name', rfl, hns', hname'⟩ := same_keyword.mp hab
      obtain ⟨ns'', name'', rfl, hns'', hname''⟩ := same_keyword.mp hbc
      obtain ⟨hb, hb'⟩ := hb.of_keyword
      obtain ⟨hc, hc'⟩ := hc.of_keyword
      exact same_keyword.mpr ⟨_, _, rfl, hns hb hc hns' hns'', hname hb' hc' hname' hname''⟩
  | symbol _ _ hns hname =>
      obtain ⟨ns', name', rfl, hns', hname'⟩ := same_symbol.mp hab
      obtain ⟨ns'', name'', rfl, hns'', hname''⟩ := same_symbol.mp hbc
      obtain ⟨hb, hb'⟩ := hb.of_symbol
      obtain ⟨hc, hc'⟩ := hc.of_symbol
      exact same_symbol.mpr ⟨_, _, rfl, hns hb hc hns' hns'', hname hb' hc' hname' hname''⟩
  | listed hxs _ ih =>
      obtain ⟨ys, hys, hxy⟩ := (same_listed hxs).mp hab
      obtain ⟨zs, hzs, hyz⟩ := (same_listed hys).mp hbc
      exact (same_listed hxs).mpr ⟨zs, hzs, members_trans ih (hb.of_sequence (listed_sequence hys))
        (hc.of_sequence (listed_sequence hzs)) hxy hyz⟩
  | vector _ ih =>
      obtain ⟨ys, rfl, hys⟩ := same_vector.mp hab
      obtain ⟨zs, rfl, hzs⟩ := same_vector.mp hbc
      exact same_vector.mpr ⟨zs, rfl, members_trans ih (hb.of_sequence rfl) (hc.of_sequence rfl)
        hys hzs⟩
  | map _ _ _ hkeys hvalues =>
      obtain ⟨fs, rfl, hlength, hfs⟩ := same_map.mp hab
      obtain ⟨gs, rfl, hlength', hgs⟩ := same_map.mp hbc
      refine same_map.mpr ⟨gs, rfl, hlength.trans hlength', fun e he => ?_⟩
      obtain ⟨f, hf, hkey, hvalue⟩ := hfs e he
      obtain ⟨g, hg, hkey', hvalue'⟩ := hgs f hf
      obtain ⟨hfk, hfv⟩ := hb.of_map.2 f hf
      obtain ⟨hgk, hgv⟩ := hc.of_map.2 g hg
      exact ⟨g, hg, hkeys e he hfk hgk hkey hkey', hvalues e he hfv hgv hvalue hvalue'⟩

/-- Where each member has a partner in a row no longer than its own, and no two have the same one,
everything there is a partner. -/
theorem partnered {α β : Type} {R : α → β → Prop} {xs : List α} {ys : List β}
    (hlength : ys.length ≤ xs.length) (hpartner : ∀ x ∈ xs, ∃ y ∈ ys, R x y)
    (hapart : xs.Pairwise fun x x' => ∀ y ∈ ys, R x y → ¬R x' y) : ∀ y ∈ ys, ∃ x ∈ xs, R x y := by
  induction xs generalizing ys with
  | nil =>
      obtain rfl : ys = [] := List.length_eq_zero_iff.mp (Nat.le_zero.mp hlength)
      exact nofun
  | cons x xs ih =>
      obtain ⟨⟨y, hy, hxy⟩, hrest⟩ := List.forall_mem_cons.mp hpartner
      obtain ⟨hx, hapart⟩ := List.pairwise_cons.mp hapart
      obtain ⟨before, behind, rfl⟩ := List.append_of_mem hy
      have hother : ∀ y', y' ∈ before ++ y :: behind → y' ≠ y → y' ∈ before ++ behind := by
        intro y' hy' hne
        simpa [hne] using hy'
      have hothers : ∀ x' ∈ xs, ∃ y' ∈ before ++ behind, R x' y' := by
        intro x' hx'
        obtain ⟨y', hy', hxy'⟩ := hrest x' hx'
        refine ⟨y', hother y' hy' ?_, hxy'⟩
        rintro rfl
        exact hx x' hx' y' hy hxy hxy'
      have hapart' : xs.Pairwise fun x x' => ∀ y ∈ before ++ behind, R x y → ¬R x' y :=
        hapart.imp fun h y' hy' => h y' (by simp at hy' ⊢; tauto)
      intro y' hy'
      by_cases hne : y' = y
      · exact ⟨x, List.mem_cons_self, hne ▸ hxy⟩
      · obtain ⟨x', hx', hxy'⟩ := ih (by simp at hlength ⊢; omega) hothers hapart' y'
          (hother y' hy' hne)
        exact ⟨x', List.mem_cons_of_mem x hx', hxy'⟩

/-- In the map, every entry has another one of its own: the keys there are distinct, and there are
no more entries than here. -/
theorem same_symm (ha : a.Regular) (hb : b.Regular) (hab : same a b = true) :
    same b a = true := by
  induction ha generalizing b with
  | @leaf a t ht =>
      have htb := (same_leaf ht hb).mp hab
      exact (same_leaf htb.symm (.leaf ht)).mpr ht.symm
  | keyword _ _ hns hname =>
      obtain ⟨ns', name', rfl, hns', hname'⟩ := same_keyword.mp hab
      obtain ⟨hb, hb'⟩ := hb.of_keyword
      exact same_keyword.mpr ⟨_, _, rfl, hns hb hns', hname hb' hname'⟩
  | symbol _ _ hns hname =>
      obtain ⟨ns', name', rfl, hns', hname'⟩ := same_symbol.mp hab
      obtain ⟨hb, hb'⟩ := hb.of_symbol
      exact same_symbol.mpr ⟨_, _, rfl, hns hb hns', hname hb' hname'⟩
  | listed hxs _ ih =>
      obtain ⟨ys, hys, hxy⟩ := (same_listed hxs).mp hab
      exact (same_listed hys).mpr
        ⟨_, hxs, members_symm ih (hb.of_sequence (listed_sequence hys)) hxy⟩
  | vector _ ih =>
      obtain ⟨ys, rfl, hys⟩ := same_vector.mp hab
      exact same_vector.mpr ⟨_, rfl, members_symm ih (hb.of_sequence rfl) hys⟩
  | @map es hd hkeysr hvaluesr hkeys hvalues =>
      obtain ⟨fs, rfl, hlength, hpartner⟩ := same_map.mp hab
      have hfs := hb.of_map.2
      -- two entries with one partner would have the same key
      have hapart : es.Pairwise fun e e' => ∀ f ∈ fs, (same e.1 f.1 = true ∧ same e.2 f.2 = true) →
          ¬(same e'.1 f.1 = true ∧ same e'.2 f.2 = true) := by
        refine hd.2.imp_of_mem fun {e e'} he he' hne f hf h h' => ?_
        have hback : same f.1 e'.1 = true := hkeys e' he' (hfs f hf).1 h'.1
        have hsame : same e.1 e'.1 = true :=
          same_trans (hkeysr e he) (hfs f hf).1 (hkeysr e' he') h.1 hback
        exact Bool.false_ne_true (hne.symm.trans hsame)
      refine same_map.mpr ⟨es, rfl, hlength.symm, fun f hf => ?_⟩
      obtain ⟨e, he, hkey, hvalue⟩ := partnered hlength.ge hpartner hapart f hf
      exact ⟨e, he, hkeys e he (hfs f hf).1 hkey, hvalues e he (hfs f hf).2 hvalue⟩

theorem same_left (ha : a.Regular) (hb : b.Regular) (hc : c.Regular) (hab : same a b = true) :
    same a c = same b c := by
  rw [Bool.eq_iff_iff]
  constructor
  · exact same_trans hb ha hc (same_symm ha hb hab)
  · exact same_trans ha hb hc hab

end Sumi.Machine.Value
