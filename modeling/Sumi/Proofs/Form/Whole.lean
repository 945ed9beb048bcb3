import Sumi.Proofs.Form.Printing
import Sumi.Proofs.Text.Spares

namespace Sumi.Form

open Text Token Terminal

variable {P Q R : List Form → Prop} {w v : List Char} {fs : List Form} {f : Form} {s : String}

/-- An item around which nothing is read: no token at all, or one that makes no form. -/
def Item.Halting : Item → Prop
  | .stray _ _ => True
  | .token t => t.kind.isAtom = true ∧ ∃ e, Tree.leafForm t = .error e

def Halts (w : List Char) : Prop :=
  ∀ (p : Place) (rest : List Char), Stops rest → ∃ i ∈ items p (w ++ rest), i.Halting

def Whole (P : List Form → Prop) (w : List Char) : Prop := (∃ fs, P fs ∧ Writes w fs) ∨ Halts w

theorem Whole.mono (h : Whole P w) (hq : ∀ fs, P fs → Q fs) : Whole Q w :=
  h.imp_left fun ⟨fs, hp, hw⟩ => ⟨fs, hq fs hp, hw⟩

mutual

/-- All tokens of a form that make forms by themselves do. -/
theorem Derives.atoms {ts : List Token} {f : Form} (h : Derives ts f) :
    ∀ t ∈ ts, t.kind.isAtom = true → ∃ g, Tree.leafForm t = .ok g := by
  have bare {t : Token} {k : Kind} (ht : t.kind = k) (hk : k.isAtom = false) :
      t.kind.isAtom = true → ∃ g, Tree.leafForm t = .ok g := fun ha => by
    rw [ht, hk] at ha
    cases ha
  cases h with
  | atom _ value => exact List.forall_mem_singleton.mpr fun _ => ⟨_, value⟩
  | mark kind form => exact List.forall_mem_cons.mpr ⟨bare kind rfl, form.atoms⟩
  | list opening forms closing | vector opening forms closing | map opening forms closing =>
      refine List.forall_mem_cons.mpr ⟨bare opening rfl, List.forall_mem_append.mpr ⟨forms.atoms, ?_⟩⟩
      exact List.forall_mem_singleton.mpr (bare closing rfl)

theorem DerivesAll.atoms {ts : List Token} {fs : List Form} (h : DerivesAll ts fs) :
    ∀ t ∈ ts, t.kind.isAtom = true → ∃ g, Tree.leafForm t = .ok g := by
  cases h with
  | nil => exact List.forall_mem_nil _
  | cons first rest => exact List.forall_mem_append.mpr ⟨first.atoms, rest.atoms⟩

end

/-- White space parts two texts. -/
theorem Whole.append (h : Whole P w) (h' : Whole Q v) (sep : List Char) (hne : sep ≠ [])
    (hsep : ∀ c ∈ sep, isSeparator c = true) (hr : ∀ fs gs, P fs → Q gs → R (fs ++ gs)) :
    Whole R (w ++ (sep ++ v)) := by
  have hstops (rest : List Char) := stops_separator hne hsep (v ++ rest)
  rcases h with ⟨fs, hp, hw⟩ | hh
  · rcases h' with ⟨gs, hq, hv⟩ | hh
    · exact .inl ⟨fs ++ gs, hr fs gs hp hq, hw.append sep hne hsep hv⟩
    · refine .inr fun p rest hrest => ?_
      obtain ⟨ts, _, hi, -⟩ := hw p _ (hstops rest)
      obtain ⟨i, hmem, hhalt⟩ := hh ((p.advance w).advance sep) rest hrest
      refine ⟨i, ?_, hhalt⟩
      rw [List.append_assoc, List.append_assoc, hi, Lexing.items_blank _ _ hsep]
      exact List.mem_append_right _ hmem
  · refine .inr fun p rest _ => ?_
    rw [List.append_assoc, List.append_assoc]
    exact hh p _ (hstops rest)

theorem whole_intercalate {sep : String} (hne : sep.toList ≠ [])
    (hsep : ∀ c ∈ sep.toList, isSeparator c = true) {T : String → List Form → Prop}
    {texts : List String} (h : ∀ text ∈ texts, Whole (T text) text.toList) :
    Whole (fun fs => ∃ rows, List.Forall₂ T texts rows ∧ fs = rows.flatten)
      (sep.intercalate texts).toList := by
  induction texts with
  | nil => exact .inl ⟨[], ⟨[], .nil, rfl⟩, writes_nil⟩
  | cons text texts ih =>
      obtain ⟨hfirst, hothers⟩ := List.forall_mem_cons.mp h
      cases texts with
      | nil =>
          refine Whole.mono (by simpa using hfirst) fun fs hfs => ?_
          exact ⟨[fs], .cons hfs .nil, by simp⟩
      | cons next texts =>
          rw [String.intercalate_cons_cons, String.toList_append, String.toList_append,
            List.append_assoc]
          refine hfirst.append (ih hothers) sep.toList hne hsep ?_
          rintro fs _ hfs ⟨rows, hrows, rfl⟩
          exact ⟨fs :: rows, .cons hfs hrows, rfl⟩

theorem Halts.between (h : Halts w) (b : Bracket) : Halts (b.left :: (w ++ [b.right])) := by
  intro p rest _
  obtain ⟨i, hmem, hhalt⟩ := h (p.advance [b.left]) (b.right :: rest) (stops_right b rest)
  refine ⟨i, ?_, hhalt⟩
  rw [List.cons_append, List.append_assoc, List.singleton_append, items_left]
  exact List.mem_cons_of_mem _ hmem

theorem whole_list (h : Whole P w) (line : Option Nat) :
    Whole (fun fs => ∃ gs, P gs ∧ fs = [.list gs line]) ('(' :: (w ++ [')'])) :=
  h.imp (fun ⟨gs, hp, hw⟩ => ⟨_, ⟨gs, hp, rfl⟩, writes_list hw line⟩) fun hh => hh.between .round

theorem whole_vector (h : Whole P w) (line : Option Nat) :
    Whole (fun fs => ∃ gs, P gs ∧ fs = [.vector gs line]) ('[' :: (w ++ [']'])) :=
  h.imp (fun ⟨gs, hp, hw⟩ => ⟨_, ⟨gs, hp, rfl⟩, writes_vector hw line⟩) fun hh => hh.between .square

theorem whole_map (h : Whole P w) (even : ∀ gs, P gs → gs.length % 2 = 0) (line : Option Nat) :
    Whole (fun fs => ∃ gs, P gs ∧ fs = [.map gs line]) ('\x7b' :: (w ++ ['\x7d'])) :=
  h.imp (fun ⟨gs, hp, hw⟩ => ⟨_, ⟨gs, hp, rfl⟩, writes_map hw (even gs hp) line⟩)
    fun hh => hh.between .curly

theorem leafForm_word {k : Kind} (hk : k = .number ∨ k = .keyword ∨ k = .symbol) (w : List Char) :
    ∃ r, ∀ p, Tree.leafForm ⟨k, w, p⟩ = r := by
  rcases hk with rfl | rfl | rfl
  · exact ⟨Tree.numberForm w, fun _ => rfl⟩
  · exact ⟨.ok (.keyword (.split (String.ofList w.tail))), fun _ => rfl⟩
  · exact ⟨.ok (Tree.symbolForm (String.ofList w)), fun _ => rfl⟩

theorem whole_word (hne : w ≠ []) (hw : ∀ c ∈ w, inWord c = true) : Whole (·.length = 1) w := by
  obtain ⟨c, v, rfl⟩ := List.exists_cons_of_ne_nil hne
  obtain ⟨hc, hv⟩ := List.forall_mem_cons.mp hw
  obtain ⟨hsep, hs⟩ := Lexing.apart_of_inWord hc
  have hall : v.takeWhile inWord = v := List.takeWhile_eq_self_iff.mpr hv
  cases head_cases hsep hs v with
  | opening b h | closing b h => rcases h with rfl | rfl | rfl <;> exact absurd hc (by decide)
  | mark m h => rcases h with rfl | rfl <;> exact absurd hc (by decide)
  | string h =>
      subst h
      exact absurd hc (by decide)
  | word _ hkind hsame =>
      -- the token at the head of a word is decided by the word alone
      have hlead {rest : List Char} (hrest : Stops rest) : leading? c (v ++ rest) = leading? c v :=
        hsame _ ((takeWhile_run hv hrest).trans hall.symm)
      cases hl : leading? c v with
      | none =>
          refine .inr fun p rest hrest => ⟨.stray c p, ?_, trivial⟩
          rw [List.cons_append, Lexing.items_stray p hsep hs ((hlead hrest).trans hl)]
          exact List.mem_singleton_self _
      | some token =>
          obtain ⟨k, n⟩ := token
          obtain ⟨hk, rfl⟩ := hkind k n hl
          rw [hall] at hl
          obtain ⟨r, hr⟩ := leafForm_word hk (c :: v)
          have hatom : k.isAtom = true := by
            rcases hk with rfl | rfl | rfl <;> rfl
          have hchosen (rest : List Char) (hrest : Stops rest) :=
            chosen_of_leading? hsep hs ((hlead hrest).trans hl)
          cases r with
          | ok f => exact .inl ⟨[f], rfl, writes_atom hatom hchosen hr⟩
          | error e =>
              refine .inr fun p rest hrest => ⟨.token ⟨k, c :: v, p⟩, ?_, hatom, e, hr p⟩
              rw [Lexing.items_chosen p (hchosen rest hrest)]
              exact List.mem_cons_self

theorem arrange_ne_nil (l : Decimal.Shortest.Layout) (cs : List Char) (place : Int) :
    Decimal.Shortest.arrange l cs place ≠ [] := by
  unfold Decimal.Shortest.arrange
  split
  · split <;> simp
  · dsimp only
    split <;> simp

theorem write_ne_nil (x : Float) : (Decimal.Shortest.write x).toList ≠ [] := by
  unfold Decimal.Shortest.write
  split
  · decide
  · rw [String.toList_ofList]
    split
    · exact List.cons_ne_nil _ _
    · split
      · decide
      · split
        · decide
        · exact arrange_ne_nil _ _ _

theorem whole_float (x : Float) : Whole (·.length = 1) (Decimal.Shortest.write x).toList := by
  have hword : ∀ c ∈ numerals, inWord c = true := List.all_iff_forall_prop.mp (by decide)
  exact whole_word (write_ne_nil x) fun c hc => hword c (write_numerals x c hc)

/-- A name is printed as it was written, or without the slash that it was written with. -/
theorem split_written (s : String) : (Name.split s).text = s ∨
    ∃ name, s.toList = '/' :: name ∧ (Name.split s).text = String.ofList name := by
  by_cases hns : (Name.split s).ns = some ""
  · rcases split_cases s with he | ⟨ns, name, hs, he⟩
    · rw [he] at hns
      cases hns
    · rw [he] at hns ⊢
      have hnil : String.ofList ns = "" := Option.some.inj hns
      obtain rfl : ns = [] := String.ofList_eq_empty_iff.mp hnil
      exact .inr ⟨name, hs, rfl⟩
  · exact .inl (split_text hns)

theorem symbolForm_written (s : String) : (Tree.symbolForm s).print = s ∨
    ∃ name, name ≠ [] ∧ s.toList = '/' :: name ∧
      (Tree.symbolForm s).print = String.ofList name := by
  unfold Tree.symbolForm
  split
  · next hs => exact .inl hs.symm
  · split
    · next hs => exact .inl hs.symm
    · split
      · next hs => exact .inl hs.symm
      · unfold Name.ofSymbol
        split
        · exact .inl rfl
        · next hslash =>
          refine (split_written s).imp_right fun ⟨name, hs, ht⟩ => ⟨name, ?_, hs, ht⟩
          rintro rfl
          exact hslash (String.toList_inj.mp hs)

theorem whole_symbolForm (hw : w ≠ []) (hword : ∀ c ∈ w, inWord c = true) :
    Whole (·.length = 1) (Tree.symbolForm (String.ofList w)).print.toList := by
  rcases symbolForm_written (String.ofList w) with he | ⟨name, hne, hs, he⟩
  · rw [he, String.toList_ofList]
    exact whole_word hw hword
  · rw [String.toList_ofList] at hs
    rw [he, String.toList_ofList]
    exact whole_word hne fun c hc => hword c (hs ▸ List.mem_cons_of_mem _ hc)

theorem whole_keyword (hword : ∀ c ∈ w, inWord c = true) :
    Whole (·.length = 1) (print (.keyword (.split (String.ofList w)))).toList := by
  have hcolon {v : List Char} (hv : ∀ c ∈ v, inWord c = true) :
      Whole (·.length = 1) (":" ++ String.ofList v).toList := by
    have hw := whole_word (List.cons_ne_nil ':' v) (List.forall_mem_cons.mpr ⟨by decide, hv⟩)
    simpa using hw
  rcases split_written (String.ofList w) with he | ⟨name, hs, he⟩
  · rw [print, he]
    exact hcolon hword
  · rw [String.toList_ofList] at hs
    rw [print, he]
    exact hcolon fun c hc => hword c (hs ▸ List.mem_cons_of_mem _ hc)

theorem Writes.whole (h : Writes w [f]) : Whole (·.length = 1) w := .inl ⟨[f], rfl, h⟩

theorem leaf_whole {t : Token} (ht : t.Proper) (atom : t.kind.isAtom = true)
    (h : Tree.leafForm t = .ok f) : Whole (·.length = 1) f.print.toList := by
  obtain ⟨kind, text, place⟩ := t
  obtain ⟨rest, ht⟩ := ht
  have hmem := ht.takes.fits.writes
  unfold Tree.leafForm at h
  cases kind with
  | opening | closing | mark => cases atom
  | string =>
      dsimp only at h
      split at h <;> cases h
      exact (writes_str _).whole
  | number =>
      rcases Tree.numberForm_cases h with rfl | ⟨x, rfl⟩ | ⟨n, rfl, hfits⟩
      · exact (print_writes (f := .nil) trivial).whole
      · exact whole_float x
      · exact (writes_int hfits).whole
  | keyword =>
      cases h
      exact whole_keyword (keyword_worded hmem)
  | symbol =>
      cases h
      obtain ⟨hne, hword⟩ := symbol_worded hmem
      exact whole_symbolForm hne hword

theorem whole_printAll (h : ∀ f ∈ fs, Whole (·.length = 1) f.print.toList) :
    Whole (fun _ => True) (" ".intercalate (printAll fs)).toList := by
  refine (whole_intercalate (by decide) separates_space
    (T := fun _ gs => gs.length = 1) ?_).mono fun _ _ => trivial
  rw [printAll_eq]
  exact List.forall_mem_map.mpr h

theorem whole_printPairs (h : ∀ f ∈ fs, Whole (·.length = 1) f.print.toList) :
    Whole (fun gs => gs.length % 2 = 0) (", ".intercalate (printPairs fs)).toList := by
  refine (whole_intercalate (by decide) separates_comma
    (T := fun _ gs => gs.length = 2) ?_).mono ?_
  · rw [printPairs_eq]
    refine List.forall_mem_map.mpr fun p hp => ?_
    obtain ⟨hk, hv⟩ := mem_pairs hp
    have hpair := (h p.1 hk).append (h p.2 hv) " ".toList (by decide) separates_space
      (R := fun gs => gs.length = 2) fun gs gs' hg hg' => by rw [List.length_append, hg, hg']
    simpa using hpair
  · rintro _ ⟨rows, hrows, rfl⟩
    generalize printPairs fs = texts at hrows
    induction hrows with
    | nil => rfl
    | cons hrow _ ih => rw [List.flatten_cons, List.length_append, hrow, Nat.add_mod_left, ih]

mutual

theorem Derives.whole {ts : List Token} {f : Form} (h : Derives ts f) (ht : ∀ t ∈ ts, t.Proper) :
    Whole (·.length = 1) f.print.toList := by
  have single {gs : List Form} {g : Form} (he : gs = [g]) : gs.length = 1 := by rw [he]; rfl
  cases h with
  | atom atom value => exact leaf_whole (ht _ List.mem_cons_self) atom value
  | @mark q m us f kind form =>
      have hf := form.whole fun t hm => ht t (List.mem_cons_of_mem _ hm)
      have hm := print_writes (markName_legible m)
      have hall := whole_printAll
        (List.forall_mem_cons.mpr ⟨hm.whole, List.forall_mem_singleton.mpr hf⟩)
      simpa [print] using (whole_list hall none).mono fun _ ⟨_, _, he⟩ => single he
  | list opening forms closing =>
      have hall := whole_printAll (forms.whole (proper_inner ht))
      simpa [print] using (whole_list hall none).mono fun _ ⟨_, _, he⟩ => single he
  | vector opening forms closing =>
      have hall := whole_printAll (forms.whole (proper_inner ht))
      simpa [print] using (whole_vector hall none).mono fun _ ⟨_, _, he⟩ => single he
  | map opening forms closing even =>
      have hall := whole_printPairs (forms.whole (proper_inner ht))
      simpa [print] using (whole_map hall (fun _ h => h) none).mono fun _ ⟨_, _, he⟩ => single he

theorem DerivesAll.whole {ts : List Token} {fs : List Form} (h : DerivesAll ts fs)
    (ht : ∀ t ∈ ts, t.Proper) : ∀ f ∈ fs, Whole (·.length = 1) f.print.toList := by
  cases h with
  | nil => exact List.forall_mem_nil _
  | cons first rest =>
      rw [List.forall_mem_append] at ht
      exact List.forall_mem_cons.mpr ⟨first.whole ht.1, rest.whole ht.2⟩

end

end Sumi.Form
