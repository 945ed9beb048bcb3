import Mathlib.Data.Bool.AllAny
import Sumi.Code.Render
import Sumi.Proofs.Form.Named
import Sumi.Proofs.Machine.Constant
import Sumi.Proofs.Text.Literals

namespace Sumi

open Text

namespace Form

mutual

def FloatFree : Form → Prop
  | .float _ => False
  | .list items _ | .vector items _ | .map items _ => AllFloatFree items
  | _ => True

def AllFloatFree : List Form → Prop
  | [] => True
  | f :: fs => f.FloatFree ∧ AllFloatFree fs

end

mutual

/-- Every key in the form has a value. -/
def Paired : Form → Prop
  | .list items _ | .vector items _ => AllPaired items
  | .map items _ => items.length % 2 = 0 ∧ AllPaired items
  | _ => True

def AllPaired : List Form → Prop
  | [] => True
  | f :: fs => f.Paired ∧ AllPaired fs

end

variable {fs : List Form}

theorem allFloatFree_iff : AllFloatFree fs ↔ ∀ f ∈ fs, f.FloatFree := by
  induction fs with
  | nil => simp [AllFloatFree]
  | cons f fs ih => simp [AllFloatFree, ih]

theorem allPaired_iff : AllPaired fs ↔ ∀ f ∈ fs, f.Paired := by
  induction fs with
  | nil => simp [AllPaired]
  | cons f fs ih => simp [AllPaired, ih]

theorem paired_inherited : Inherited Paired where
  leaf t ht f h := by
    unfold Tree.leafForm at h
    split at h
    · split at h <;> cases h
      trivial
    · rcases Tree.numberForm_cases h with rfl | ⟨x, rfl⟩ | ⟨n, rfl, -⟩ <;> trivial
    · cases h
      trivial
    · cases h
      unfold Tree.symbolForm
      repeat' split
      all_goals trivial
  marked m line f h := ⟨trivial, h, trivial⟩
  list items line h := allPaired_iff.mpr h
  vector items line h := allPaired_iff.mpr h
  map items line heven h := ⟨heven, allPaired_iff.mpr h⟩

theorem eq_of_pairs {α : Type} {xs ys : List α} (hx : xs.length % 2 = 0) (hy : ys.length % 2 = 0)
    (h : pairs xs = pairs ys) : xs = ys := by
  induction xs using pairs.induct generalizing ys with
  | case1 a b rest ih =>
      rcases ys with _ | ⟨c, _ | ⟨d, ys⟩⟩
      · cases h
      · cases h
      · obtain ⟨he, hrest⟩ := List.cons.inj h
        obtain ⟨rfl, rfl⟩ := Prod.mk.inj he
        simp only [List.length_cons, Nat.add_assoc, Nat.reduceAdd, Nat.add_mod_right] at hx hy
        rw [ih hx hy hrest]
  | case2 xs hne =>
      have hempty {zs : List α} (hz : zs.length % 2 = 0) (hp : pairs zs = []) : zs = [] := by
        rcases zs with _ | ⟨_, _ | _⟩
        · rfl
        · cases hz
        · cases hp
      rw [pairs.eq_2 xs hne] at h
      rw [hempty hx (pairs.eq_2 xs hne), hempty hy h.symm]

end Form

def closers : List Char := [')', ']', '\x7d']

def Ended (cs : List Char) : Prop := ∀ c ∈ cs.head?, isFigure c = false

section

variable {α β : Type} {text : α → List Char} {key : α → β} {close : Char} {xs ys : List α}
  {rest rest' : List Char}

/-- Items that tell what they are, whatever follows them. -/
def Told (text : α → List Char) (key : α → β) (xs ys : List α) : Prop :=
  ∀ x ∈ xs, ∀ y ∈ ys, ∀ rest rest', Ended rest → Ended rest' →
    text x ++ rest = text y ++ rest' → key x = key y ∧ rest = rest'

theorem intercalate_cons (sep : List Char) (x : α) (xs : List α) :
    sep.intercalate ((x :: xs).map text) = text x ++ xs.flatMap fun x => sep ++ text x := by
  induction xs generalizing x with
  | nil => simp
  | cons y ys ih =>
      rw [List.map_cons, List.map_cons, List.intercalate_cons_cons, ← List.map_cons, ih]
      simp

theorem ended_nil : Ended [] := by
  rintro _ ⟨⟩

theorem ended_cons {c : Char} (h : isFigure c = false) (cs : List Char) : Ended (c :: cs) := by
  rintro _ ⟨⟩
  exact h

theorem ended_row (hclose : close ∈ closers) (xs : List α) (rest : List Char) :
    Ended ((xs.flatMap fun x => ", ".toList ++ text x) ++ close :: rest) := by
  have hall : ∀ d ∈ closers, isFigure d = false := List.all_iff_forall_prop.mp (by decide)
  cases xs with
  | nil => exact ended_cons (hall close hclose) rest
  | cons x xs => exact ended_cons rfl _

theorem Told.tail {x y : α} (h : Told text key (x :: xs) (y :: ys)) : Told text key xs ys :=
  fun a ha b hb => h a (List.mem_cons_of_mem _ ha) b (List.mem_cons_of_mem _ hb)

theorem Told.more (h : Told text key xs ys) (hclose : close ∈ closers)
    (he : (xs.flatMap fun x => ", ".toList ++ text x) ++ close :: rest =
      (ys.flatMap fun y => ", ".toList ++ text y) ++ close :: rest') :
    xs.map key = ys.map key ∧ rest = rest' := by
  have hcomma : close ≠ ',' := by
    rintro rfl
    revert hclose
    decide
  induction xs generalizing ys with
  | nil =>
      cases ys with
      | nil => exact ⟨rfl, (List.cons.inj he).2⟩
      | cons y ys => exact absurd (List.cons.inj he).1 hcomma
  | cons x xs ih =>
      cases ys with
      | nil => exact absurd (List.cons.inj he).1.symm hcomma
      | cons y ys =>
          simp only [List.flatMap_cons, List.append_assoc, List.append_cancel_left_eq] at he
          obtain ⟨hkey, hmore⟩ := h x List.mem_cons_self y List.mem_cons_self _ _
            (ended_row hclose xs rest) (ended_row hclose ys rest') he
          obtain ⟨hkeys, hrest⟩ := ih h.tail hmore
          exact ⟨by rw [List.map_cons, List.map_cons, hkey, hkeys], hrest⟩

/-- Neither does an item begin like the end of the row, so the row tells where it ends. -/
theorem Told.row (h : Told text key xs ys) (hclose : close ∈ closers)
    (hx : ∀ x ∈ xs, ∀ rest, (text x ++ rest).head? ≠ some close)
    (hy : ∀ y ∈ ys, ∀ rest, (text y ++ rest).head? ≠ some close)
    (he : ", ".toList.intercalate (xs.map text) ++ close :: rest =
      ", ".toList.intercalate (ys.map text) ++ close :: rest') :
    xs.map key = ys.map key ∧ rest = rest' := by
  cases xs with
  | nil =>
      cases ys with
      | nil => exact ⟨rfl, (List.cons.inj he).2⟩
      | cons y ys =>
          rw [intercalate_cons, List.append_assoc] at he
          exact absurd (congrArg List.head? he).symm (hy y List.mem_cons_self _)
  | cons x xs =>
      cases ys with
      | nil =>
          rw [intercalate_cons, List.append_assoc] at he
          exact absurd (congrArg List.head? he) (hx x List.mem_cons_self _)
      | cons y ys =>
          rw [intercalate_cons, intercalate_cons, List.append_assoc, List.append_assoc] at he
          obtain ⟨hkey, hmore⟩ := h x List.mem_cons_self y List.mem_cons_self _ _
            (ended_row hclose xs rest) (ended_row hclose ys rest') he
          obtain ⟨hkeys, hrest⟩ := h.tail.more hclose hmore
          exact ⟨by rw [List.map_cons, List.map_cons, hkey, hkeys], hrest⟩

end

namespace Code

def emitted (f : Form) : List Char := (ofForm f).render.toList

variable {f g : Form} {items : List Form} {line : Option Nat} {rest rest' : List Char}

theorem renderAll_eq (cs : List Code) : renderAll cs = cs.map render := by
  induction cs with
  | nil => rfl
  | cons c cs ih => exact congrArg (c.render :: ·) ih

theorem renderEntries_eq (es : List (Code × Code)) :
    renderEntries es = es.map fun e => e.1.render ++ ": " ++ e.2.render := by
  induction es with
  | nil => rfl
  | cons e es ih => exact congrArg ((e.1.render ++ ": " ++ e.2.render) :: ·) ih

theorem toList_row (items : List Form) : (commas (renderAll (ofForms items))).toList =
    ", ".toList.intercalate (items.map emitted) := by
  rw [commas, String.toList_intercalate, renderAll_eq, ofForms_eq, List.map_map, List.map_map]
  rfl

theorem toList_between (before text behind : String) (rest : List Char) :
    (before ++ text ++ behind).toList ++ rest =
      before.toList ++ (text.toList ++ (behind.toList ++ rest)) := by
  rw [String.toList_append, String.toList_append, List.append_assoc, List.append_assoc]

theorem emitted_list : emitted (.list items line) ++ rest =
    "sumi_list(".toList ++ (", ".toList.intercalate (items.map emitted) ++ ')' :: rest) := by
  rw [← toList_row]
  exact toList_between _ _ _ rest

theorem emitted_vector : emitted (.vector items line) ++ rest =
    '[' :: (", ".toList.intercalate (items.map emitted) ++ ']' :: rest) := by
  rw [← toList_row]
  exact toList_between _ _ _ rest

def emittedEntry (p : Form × Form) : List Char := emitted p.1 ++ (": ".toList ++ emitted p.2)

theorem emitted_map : emitted (.map items line) ++ rest =
    '\x7b' :: (", ".toList.intercalate ((Form.pairs items).map emittedEntry) ++ '\x7d' :: rest) := by
  have hrow : (commas (renderEntries (ofPairs items))).toList =
      ", ".toList.intercalate ((Form.pairs items).map emittedEntry) := by
    rw [commas, String.toList_intercalate, renderEntries_eq, ofPairs_eq, List.map_map, List.map_map]
    congr 1
    apply List.map_congr_left
    intro p _
    rw [Function.comp_apply, Function.comp_apply, String.toList_append, String.toList_append,
      List.append_assoc]
    rfl
  rw [← hrow]
  exact toList_between _ _ _ rest

theorem toList_write (s : String) : ∃ cs, (Literal.write s).toList = '\'' :: cs ∨
    (Literal.write s).toList = '"' :: cs := by
  rw [Literal.write, String.toList_ofList, Literal.encode]
  rcases Literal.quoteFor_isQuote s.toList with h | h <;> rw [h]
  · exact ⟨_, .inl rfl⟩
  · exact ⟨_, .inr rfl⟩

theorem write_ne_none {s : String} :
    (Literal.write s).toList ++ rest ≠ "None".toList ++ rest' := by
  obtain ⟨cs, h | h⟩ := toList_write s <;> rw [h] <;> exact fun he => by cases he

theorem literalOrNone_unique {a b : Option String}
    (h : (literalOrNone a).toList ++ rest = (literalOrNone b).toList ++ rest') :
    a = b ∧ rest = rest' := by
  cases a with
  | none =>
      cases b with
      | none => exact ⟨rfl, List.append_cancel_left h⟩
      | some t => exact absurd h.symm write_ne_none
  | some s =>
      cases b with
      | none => exact absurd h write_ne_none
      | some t =>
          obtain ⟨rfl, hrest⟩ := Literal.write_unique h
          exact ⟨rfl, hrest⟩

def emittedName (n : Name) : List Char :=
  (literalOrNone n.ns).toList ++ (", ".toList ++ ((Literal.write n.name).toList ++ [')']))

theorem toList_nameText (helper : String) (n : Name) :
    (nameText helper n).toList = helper.toList ++ '(' :: emittedName n := by
  have hparts (a b c d e f : String) : (a ++ b ++ c ++ d ++ e ++ f).toList =
      a.toList ++ (b.toList ++ (c.toList ++ (d.toList ++ (e.toList ++ f.toList)))) := by
    simp only [String.toList_append, List.append_assoc]
  have hopen : "(".toList = ['('] := rfl
  have hclose : ")".toList = [')'] := rfl
  rw [nameText, hparts, hopen, hclose, emittedName, List.singleton_append]

theorem emittedName_append (n : Name) (rest : List Char) : emittedName n ++ rest =
    (literalOrNone n.ns).toList ++
      (", ".toList ++ ((Literal.write n.name).toList ++ ([')'] ++ rest))) := by
  rw [emittedName, List.append_assoc, List.append_assoc, List.append_assoc]

theorem emittedName_unique {n m : Name} (h : emittedName n ++ rest = emittedName m ++ rest') :
    n = m ∧ rest = rest' := by
  obtain ⟨ns, name⟩ := n
  obtain ⟨ns', name'⟩ := m
  rw [emittedName_append, emittedName_append] at h
  obtain ⟨rfl, hname⟩ := literalOrNone_unique h
  have hliteral := List.append_cancel_left hname
  obtain ⟨rfl, hrest⟩ := Literal.write_unique hliteral
  exact ⟨rfl, List.append_cancel_left hrest⟩

theorem emitted_symbol (n : Name) : emitted (.symbol n) ++ rest =
    "sumi_symbol(".toList ++ (emittedName n ++ rest) := by
  rw [← List.append_assoc]
  exact congrArg (· ++ rest) (toList_nameText "sumi_symbol" n)

theorem emitted_keyword (n : Name) : emitted (.keyword n) ++ rest =
    "sumi_keyword(".toList ++ (emittedName n ++ rest) := by
  rw [← List.append_assoc]
  exact congrArg (· ++ rest) (toList_nameText "sumi_keyword" n)

theorem toString_unique {n m : Int} (hr : Ended rest) (hr' : Ended rest')
    (h : (toString n).toList ++ rest = (toString m).toList ++ rest') : n = m ∧ rest = rest' := by
  have hrun := congrArg (List.takeWhile isFigure) h
  rw [takeWhile_run (toString_figures n) hr, takeWhile_run (toString_figures m) hr'] at hrun
  refine ⟨?_, List.append_cancel_left (hrun ▸ h)⟩
  obtain ⟨i, hi, hn, -⟩ := Form.read?_toString n
  obtain ⟨j, hj, hm, -⟩ := Form.read?_toString m
  rw [hrun, hj] at hi
  cases hi
  exact Form.int.inj (hn.symm.trans hm)

def kindOf? : List Char → Option Nat
  | [] => none
  | c :: cs =>
      if c ∈ closers then none
      else if c = 'N' then some 0
      else if c = 'T' ∨ c = 'F' then some 1
      else if c = '\'' ∨ c = '"' then some 4
      else if c = '[' then some 8
      else if c = '\x7b' then some 9
      else if c = 's' then
        if cs[4]? = some 's' then some 5 else if cs[4]? = some 'k' then some 6 else some 7
      else some 2

theorem kindOf?_figure {c : Char} (h : isFigure c = true) (cs : List Char) :
    kindOf? (c :: cs) = some 2 := by
  have hne (d : Char) (hd : isFigure d = false) : c ≠ d := by
    rintro rfl
    rw [h] at hd
    cases hd
  have hclosers : c ∉ closers := by
    have hall : ∀ d ∈ closers, isFigure d = false := List.all_iff_forall_prop.mp (by decide)
    exact fun hc => hne c (hall c hc) rfl
  rw [kindOf?, if_neg hclosers, if_neg (hne 'N' rfl),
    if_neg (not_or.mpr ⟨hne 'T' rfl, hne 'F' rfl⟩),
    if_neg (not_or.mpr ⟨hne '\'' rfl, hne '"' rfl⟩), if_neg (hne '[' rfl),
    if_neg (hne '\x7b' rfl), if_neg (hne 's' rfl)]

theorem kindOf?_emitted (hf : f.FloatFree) (rest : List Char) :
    kindOf? (emitted f ++ rest) = some f.ctorIdx := by
  cases f with
  | float x => cases hf
  | nil => rfl
  | bool b => cases b <;> rfl
  | int n =>
      change kindOf? ((toString n).toList ++ rest) = some 2
      cases hn : (toString n).toList with
      | nil =>
          obtain ⟨i, hi, -⟩ := Form.read?_toString n
          rw [hn] at hi
          cases hi
      | cons c cs =>
          have hc := toString_figures n c (by rw [hn]; exact List.mem_cons_self)
          exact kindOf?_figure hc _
  | str s =>
      change kindOf? ((Literal.write s).toList ++ rest) = some 4
      obtain ⟨cs, h | h⟩ := toList_write s <;> rw [h] <;> rfl
  | symbol n =>
      rw [emitted_symbol]
      rfl
  | keyword n =>
      rw [emitted_keyword]
      rfl
  | list items line =>
      rw [emitted_list]
      rfl
  | vector items line =>
      rw [emitted_vector]
      rfl
  | map items line =>
      rw [emitted_map]
      rfl

theorem ctorIdx_of_emitted (hf : f.FloatFree) (hg : g.FloatFree)
    (h : emitted f ++ rest = emitted g ++ rest') : f.ctorIdx = g.ctorIdx := by
  have hkind := congrArg kindOf? h
  rw [kindOf?_emitted hf, kindOf?_emitted hg] at hkind
  exact Option.some.inj hkind

theorem head?_emitted (hf : f.FloatFree) {close : Char} (hclose : close ∈ closers)
    (rest : List Char) : (emitted f ++ rest).head? ≠ some close := by
  intro h
  have hkind := kindOf?_emitted hf rest
  obtain ⟨cs, hcs⟩ := List.head?_eq_some_iff.mp h
  rw [hcs, kindOf?, if_pos hclose] at hkind
  cases hkind

def Unique (f : Form) : Prop := ∀ {g : Form} {rest rest' : List Char}, f.FloatFree → f.Paired →
  g.FloatFree → g.Paired → Ended rest → Ended rest' → emitted f ++ rest = emitted g ++ rest' →
  f.unlined = g.unlined ∧ rest = rest'

theorem told_forms {items others : List Form} {close : Char} (ih : ∀ f ∈ items, Unique f)
    (hf : Form.AllFloatFree items) (hp : Form.AllPaired items) (hg : Form.AllFloatFree others)
    (hq : Form.AllPaired others) (hclose : close ∈ closers)
    (h : ", ".toList.intercalate (items.map emitted) ++ close :: rest =
      ", ".toList.intercalate (others.map emitted) ++ close :: rest') :
    Form.unlinedAll items = Form.unlinedAll others ∧ rest = rest' := by
  rw [Form.allFloatFree_iff] at hf hg
  rw [Form.allPaired_iff] at hp hq
  rw [Form.unlinedAll_eq, Form.unlinedAll_eq]
  have htold : Told emitted Form.unlined items others := fun f hmem g hmem' _ _ hr hr' he =>
    ih f hmem (hf f hmem) (hp f hmem) (hg g hmem') (hq g hmem') hr hr' he
  exact htold.row hclose (fun f hmem rest => head?_emitted (hf f hmem) hclose rest)
    (fun g hmem rest => head?_emitted (hg g hmem) hclose rest) h

theorem emittedEntry_append (p : Form × Form) (rest : List Char) :
    emittedEntry p ++ rest = emitted p.1 ++ (": ".toList ++ (emitted p.2 ++ rest)) := by
  rw [emittedEntry, List.append_assoc, List.append_assoc]

theorem told_entries {items others : List Form} (ih : ∀ f ∈ items, Unique f)
    (hf : Form.AllFloatFree items) (hp : (Form.map items line).Paired)
    (hg : Form.AllFloatFree others) {line' : Option Nat} (hq : (Form.map others line').Paired)
    (h : ", ".toList.intercalate ((Form.pairs items).map emittedEntry) ++ '\x7d' :: rest =
      ", ".toList.intercalate ((Form.pairs others).map emittedEntry) ++ '\x7d' :: rest') :
    Form.unlinedAll items = Form.unlinedAll others ∧ rest = rest' := by
  obtain ⟨heven, hp⟩ := hp
  obtain ⟨heven', hq⟩ := hq
  rw [Form.allFloatFree_iff] at hf hg
  rw [Form.allPaired_iff] at hp hq
  have htold : Told emittedEntry (fun p => (p.1.unlined, p.2.unlined)) (Form.pairs items)
      (Form.pairs others) := by
    intro p hpair q hpair' rest rest' hr hr' he
    obtain ⟨hk, hv⟩ := Form.mem_pairs hpair
    obtain ⟨hk', hv'⟩ := Form.mem_pairs hpair'
    rw [emittedEntry_append, emittedEntry_append] at he
    have hcolon (cs : List Char) : Ended (": ".toList ++ cs) := ended_cons rfl _
    obtain ⟨hkey, hmore⟩ := ih p.1 hk (hf _ hk) (hp _ hk) (hg _ hk') (hq _ hk') (hcolon _) (hcolon _)
      he
    obtain ⟨hvalue, hrest⟩ := ih p.2 hv (hf _ hv) (hp _ hv) (hg _ hv') (hq _ hv') hr hr'
      (List.append_cancel_left hmore)
    exact ⟨Prod.ext hkey hvalue, hrest⟩
  have hhead {items : List Form} (hfree : ∀ f ∈ items, f.FloatFree) (p : Form × Form)
      (hpair : p ∈ Form.pairs items) (rest : List Char) :
      (emittedEntry p ++ rest).head? ≠ some '\x7d' := by
    rw [emittedEntry_append]
    exact head?_emitted (hfree _ (Form.mem_pairs hpair).1) (by decide) _
  obtain ⟨hkeys, hrest⟩ := htold.row (by decide) (hhead hf) (hhead hg) h
  refine ⟨?_, hrest⟩
  rw [← Form.pairs_map, ← Form.pairs_map] at hkeys
  rw [Form.unlinedAll_eq, Form.unlinedAll_eq]
  apply Form.eq_of_pairs _ _ hkeys
  · rw [List.length_map, heven]
  · rw [List.length_map, heven']

/-- The text of a form as data tells the form, and where the text ends. -/
theorem emitted_unique (hf : f.FloatFree) (hp : f.Paired) (hg : g.FloatFree) (hq : g.Paired)
    (hr : Ended rest) (hr' : Ended rest') (h : emitted f ++ rest = emitted g ++ rest') :
    f.unlined = g.unlined ∧ rest = rest' := by
  -- two kinds of forms differ where they begin, and within one kind the texts are taken apart alike
  induction f using Form.byItems generalizing g rest rest' with
  | float x => cases hf
  | nil =>
      cases g with
      | nil => exact ⟨rfl, List.append_cancel_left h⟩
      | _ => cases ctorIdx_of_emitted hf hg h
  | bool b =>
      cases g with
      | bool b' =>
          cases b <;> cases b'
          · exact ⟨rfl, List.append_cancel_left h⟩
          · exact absurd (List.cons.inj h).1 (by decide)
          · exact absurd (List.cons.inj h).1 (by decide)
          · exact ⟨rfl, List.append_cancel_left h⟩
      | _ => cases ctorIdx_of_emitted hf hg h
  | int n =>
      cases g with
      | int m =>
          obtain ⟨rfl, hrest⟩ := toString_unique hr hr' h
          exact ⟨rfl, hrest⟩
      | _ => cases ctorIdx_of_emitted hf hg h
  | str s =>
      cases g with
      | str t =>
          obtain ⟨rfl, hrest⟩ := Literal.write_unique h
          exact ⟨rfl, hrest⟩
      | _ => cases ctorIdx_of_emitted hf hg h
  | symbol n =>
      cases g with
      | symbol m =>
          rw [emitted_symbol, emitted_symbol] at h
          obtain ⟨rfl, hrest⟩ := emittedName_unique (List.append_cancel_left h)
          exact ⟨rfl, hrest⟩
      | _ => cases ctorIdx_of_emitted hf hg h
  | keyword n =>
      cases g with
      | keyword m =>
          rw [emitted_keyword, emitted_keyword] at h
          obtain ⟨rfl, hrest⟩ := emittedName_unique (List.append_cancel_left h)
          exact ⟨rfl, hrest⟩
      | _ => cases ctorIdx_of_emitted hf hg h
  | list items line ih =>
      cases g with
      | list others line' =>
          rw [emitted_list, emitted_list] at h
          obtain ⟨hkeys, hrest⟩ := told_forms ih hf hp hg hq (by decide) (List.append_cancel_left h)
          exact ⟨by rw [Form.unlined, Form.unlined, hkeys], hrest⟩
      | _ => cases ctorIdx_of_emitted hf hg h
  | vector items line ih =>
      cases g with
      | vector others line' =>
          rw [emitted_vector, emitted_vector] at h
          obtain ⟨hkeys, hrest⟩ := told_forms ih hf hp hg hq (by decide) (List.cons.inj h).2
          exact ⟨by rw [Form.unlined, Form.unlined, hkeys], hrest⟩
      | _ => cases ctorIdx_of_emitted hf hg h
  | map items line ih =>
      cases g with
      | map others line' =>
          rw [emitted_map, emitted_map] at h
          obtain ⟨hkeys, hrest⟩ := told_entries ih hf hp hg hq (List.cons.inj h).2
          exact ⟨by rw [Form.unlined, Form.unlined, hkeys], hrest⟩
      | _ => cases ctorIdx_of_emitted hf hg h

theorem ofForm_unlined (f : Form) : ofForm f.unlined = ofForm f := by
  induction f using Form.byItems with
  | list items line ih | vector items line ih =>
      have hall : items.map (ofForm ∘ Form.unlined) = items.map ofForm := List.map_congr_left ih
      simp only [Form.unlined, ofForm, Form.unlinedAll_eq, ofForms_eq, List.map_map, hall]
  | map items line ih =>
      have hall : ((Form.pairs items).map fun p => (ofForm p.1.unlined, ofForm p.2.unlined)) =
          (Form.pairs items).map fun p => (ofForm p.1, ofForm p.2) :=
        List.map_congr_left fun p hp => by
          rw [ih _ (Form.mem_pairs hp).1, ih _ (Form.mem_pairs hp).2]
      simp only [Form.unlined, ofForm, Form.unlinedAll_eq, ofPairs_eq, Form.pairs_map, List.map_map,
        Function.comp_def, hall]
  | _ => rfl

/-- Two forms that are read and have no double in them have one text as data exactly if they are the
same but for the lines they stand on. -/
theorem constant_text {source other : String} {forms others : List Form}
    (hread : Form.readAll source = .ok forms) (hother : Form.readAll other = .ok others)
    (hf : f ∈ forms) (hg : g ∈ others) (hfloat : f.FloatFree) (hgfloat : g.FloatFree) :
    (ofForm f).render = (ofForm g).render ↔ f.unlined = g.unlined := by
  constructor
  · intro h
    have hpair := Form.readAll_inherited Form.paired_inherited hread f hf
    have hgpair := Form.readAll_inherited Form.paired_inherited hother g hg
    have htext : emitted f ++ [] = emitted g ++ [] := congrArg (fun s => s.toList ++ []) h
    exact (emitted_unique hfloat hpair hgfloat hgpair ended_nil ended_nil htext).1
  · intro h
    rw [← ofForm_unlined f, h, ofForm_unlined g]

def nested (line inner : Nat) : Form :=
  .vector [.int 1, .map [.keyword (.plain "k"), .str "a', [\x7d]"] (some inner)] (some line)

theorem nested_text :
    Form.readAll "[1 \x7b:k \"a', [\x7d]\"\x7d]" = .ok [nested 1 1] ∧
      Form.readAll "\n[1\n\x7b:k \"a', [\x7d]\"\x7d]" = .ok [nested 2 3] ∧
      (nested 1 1).FloatFree ∧ (nested 2 3).FloatFree ∧
      (ofForm (nested 1 1)).render = (ofForm (nested 2 3)).render := by
  have hread : Form.readAll "[1 \x7b:k \"a', [\x7d]\"\x7d]" = .ok [nested 1 1] := by
    with_unfolding_all rfl
  have hother : Form.readAll "\n[1\n\x7b:k \"a', [\x7d]\"\x7d]" = .ok [nested 2 3] := by
    with_unfolding_all rfl
  have hfree (line inner : Nat) : (nested line inner).FloatFree := by
    simp [nested, Form.FloatFree, Form.AllFloatFree]
  exact ⟨hread, hother, hfree 1 1, hfree 2 3,
    (constant_text hread hother (by simp) (by simp) (hfree 1 1) (hfree 2 3)).mpr rfl⟩

end Code

end Sumi
