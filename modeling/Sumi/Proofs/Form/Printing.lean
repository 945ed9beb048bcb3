import Mathlib.Data.Nat.Digits.Defs
import Sumi.Form.Printer
import Sumi.Proofs.Form.Judgement
import Sumi.Proofs.Form.Numeral

namespace Sumi.Form

open Text Token Terminal

mutual

def unlined : Form → Form
  | .list items _ => .list (unlinedAll items) none
  | .vector items _ => .vector (unlinedAll items) none
  | .map items _ => .map (unlinedAll items) none
  | f => f

def unlinedAll : List Form → List Form
  | [] => []
  | f :: fs => f.unlined :: unlinedAll fs

end

variable {fs : List Form}

theorem unlinedAll_eq (fs : List Form) : unlinedAll fs = fs.map unlined := by
  induction fs with
  | nil => rfl
  | cons f fs ih => rw [unlinedAll, ih, List.map_cons]

theorem printAll_eq (fs : List Form) : printAll fs = fs.map print := by
  induction fs with
  | nil => rfl
  | cons f fs ih => rw [printAll, ih, List.map_cons]

theorem mem_pairs {α : Type} {xs : List α} {p : α × α} (h : p ∈ pairs xs) : p.1 ∈ xs ∧ p.2 ∈ xs := by
  induction xs using pairs.induct with
  | case1 a b rest ih =>
      rcases List.mem_cons.mp h with rfl | h
      · simp
      · exact ⟨by simp [(ih h).1], by simp [(ih h).2]⟩
  | case2 xs hne =>
      rw [pairs.eq_2 xs hne] at h
      cases h

theorem pairs_map {α β : Type} (g : α → β) (xs : List α) :
    pairs (xs.map g) = (pairs xs).map fun p => (g p.1, g p.2) := by
  induction xs using pairs.induct with
  | case1 a b rest ih => simp only [List.map_cons, pairs, ih]
  | case2 xs hne =>
      match xs with
      | [] | [_] => rfl
      | a :: b :: rest => exact absurd rfl (hne a b rest)

theorem printPairs_eq (fs : List Form) :
    printPairs fs = (pairs fs).map fun p => p.1.print ++ " " ++ p.2.print := by
  induction fs using pairs.induct with
  | case1 k v fs ih => rw [printPairs, ih, pairs, List.map_cons]
  | case2 fs hne => rw [printPairs.eq_2 fs hne, pairs.eq_2 fs hne, List.map_nil]

mutual

/-- There is no double in the form, and no name in it has an empty namespace. -/
def Plain : Form → Prop
  | .float _ => False
  | .symbol n | .keyword n => n.ns ≠ some ""
  | .list items _ | .vector items _ | .map items _ => AllPlain items
  | .nil | .bool _ | .int _ | .str _ => True

def AllPlain : List Form → Prop
  | [] => True
  | f :: fs => f.Plain ∧ AllPlain fs

end

def IsWord (w : List Char) : Prop :=
  w ∈ language (token .symbol) ∧ w ∉ language (token .number)

mutual

/-- Every name and number in the form reads as it is printed, and there is no double and no half of
a pair. -/
def Legible : Form → Prop
  | .float _ => False
  | .symbol n => Tree.symbolForm n.text = .symbol n ∧ IsWord n.text.toList
  | .keyword n => Name.split n.text = n ∧ ':' :: n.text.toList ∈ language (token .keyword)
  | .list items _ | .vector items _ => AllLegible items
  | .map items _ => items.length % 2 = 0 ∧ AllLegible items
  | .int n => Digit.fits n = true
  | .nil | .bool _ | .str _ => True

def AllLegible : List Form → Prop
  | [] => True
  | f :: fs => f.Legible ∧ AllLegible fs

end

theorem allLegible_iff : AllLegible fs ↔ ∀ f ∈ fs, f.Legible := by
  induction fs with
  | nil => simp [AllLegible]
  | cons f fs ih => simp [AllLegible, ih]

theorem split_cases (s : String) : Name.split s = .plain s ∨
    ∃ ns name, s.toList = ns ++ '/' :: name ∧
      Name.split s = .qualified (String.ofList ns) (String.ofList name) := by
  unfold Name.split
  rw [List.span_eq_takeWhile_dropWhile]
  cases hd : s.toList.dropWhile (· != '/') with
  | nil => exact .inl rfl
  | cons c name =>
      have hc := head?_dropWhile (· != '/') s.toList c (by rw [hd]; rfl)
      obtain rfl : c = '/' := by simpa using hc
      refine .inr ⟨s.toList.takeWhile (· != '/'), name, ?_, rfl⟩
      rw [← hd, List.takeWhile_append_dropWhile]

theorem qualified_text {ns : String} (h : ns ≠ "") (name : String) :
    (Name.qualified ns name).text = ns ++ "/" ++ name := by
  simp [Name.text, Name.qualified, h]

theorem split_text {s : String} (h : (Name.split s).ns ≠ some "") : (Name.split s).text = s := by
  rcases split_cases s with he | ⟨ns, name, hs, he⟩
  · rw [he]
    rfl
  · rw [he] at h ⊢
    rw [qualified_text fun hn => h (congrArg some hn), ← String.toList_inj, hs]
    simp

theorem ofSymbol_text {s : String} (h : (Name.ofSymbol s).ns ≠ some "") :
    (Name.ofSymbol s).text = s := by
  unfold Name.ofSymbol at h ⊢
  split at h
  · next hs =>
    rw [if_pos hs]
    rfl
  · next hs =>
    rw [if_neg hs]
    exact split_text h

def Token.Proper (t : Token) : Prop := ∃ rest, (token t.kind).Chosen t.text rest

theorem items_proper {p : Place} {cs : List Char} {t : Token} (h : .token t ∈ items p cs) :
    t.Proper := by
  have hlexes := lexes_items p cs
  generalize items p cs = row at h hlexes
  induction hlexes with
  | done => cases h
  | skip _ _ _ ih => exact ih h
  | @token p k w rest row chosen next ih =>
      rcases List.mem_cons.mp h with he | h
      · cases he
        exact ⟨rest, chosen⟩
      · exact ih h
  | stray => simp at h

theorem not_number (ht : (token .symbol).Chosen w rest) : w ∉ language (token .number) := by
  obtain ⟨htakes, hfirst⟩ := chosen_iff.mp ht
  intro hmem
  exact hfirst nofun ⟨w, rest, rfl, takes_iff.mpr ⟨hmem, (takes_iff.mp htakes).2⟩⟩

theorem symbol_legible {s : String} (hw : IsWord s.toList)
    (hp : (Tree.symbolForm s).Plain) : (Tree.symbolForm s).Legible := by
  by_cases hsym : Tree.symbolForm s = .symbol (.ofSymbol s)
  · rw [hsym] at hp ⊢
    have htext := ofSymbol_text hp
    refine ⟨?_, ?_⟩
    · rw [htext, hsym]
    · rwa [htext]
  · unfold Tree.symbolForm at hsym ⊢
    split
    · trivial
    · split
      · trivial
      · split
        · trivial
        · simp_all

theorem leaf_legible {t : Token} (ht : t.Proper) (atom : t.kind.isAtom = true) {f : Form}
    (h : Tree.leafForm t = .ok f) (hp : f.Plain) : f.Legible := by
  obtain ⟨kind, text, place⟩ := t
  obtain ⟨rest, ht⟩ := ht
  have hmem := ht.takes.fits.writes
  unfold Tree.leafForm at h
  cases kind with
  | opening | closing | mark => cases atom
  | string =>
      dsimp only at h
      split at h <;> cases h
      trivial
  | number =>
      rcases Tree.numberForm_cases h with rfl | ⟨x, rfl⟩ | ⟨n, rfl, hfits⟩
      · trivial
      · exact hp.elim
      · exact hfits
  | keyword =>
      cases h
      obtain ⟨c, v, hv, -⟩ := mem_keyword.mp hmem
      dsimp only at hv hmem
      rw [hv] at hp hmem ⊢
      have htext := split_text hp
      refine ⟨?_, ?_⟩
      · rw [htext]
      · rwa [htext, String.toList_ofList]
  | symbol =>
      cases h
      refine symbol_legible ⟨?_, ?_⟩ hp
      · rwa [String.toList_ofList]
      · rw [String.toList_ofList]
        exact not_number ht

theorem isWord_cons {c : Char} {v : List Char} (hc : beginsSymbol c = true)
    (hv : v.all inWord = true) (hr : Numeral.read? (c :: v) = none) : IsWord (c :: v) := by
  refine ⟨mem_symbol.mpr ⟨c, v, rfl, hc, List.all_eq_true.mp hv⟩, fun hn => ?_⟩
  rw [mem_number, hr] at hn
  cases hn

theorem markName_legible (m : Mark) : (sym (Tree.markName m)).Legible := by
  cases m with
  | quote => exact ⟨rfl, isWord_cons (c := 'q') (v := "uote".toList) (by decide) (by decide) rfl⟩
  | deref => exact ⟨rfl, isWord_cons (c := 'd') (v := "eref".toList) (by decide) (by decide) rfl⟩

theorem proper_inner {o c : Token} {us : List Token} (h : ∀ t ∈ o :: (us ++ [c]), t.Proper) :
    ∀ t ∈ us, t.Proper :=
  fun t ht => h t (List.mem_cons_of_mem _ (List.mem_append_left _ ht))

mutual

theorem Derives.legible {ts : List Token} {f : Form} (h : Derives ts f)
    (ht : ∀ t ∈ ts, t.Proper) (hp : f.Plain) : f.Legible := by
  cases h with
  | atom atom value => exact leaf_legible (ht _ List.mem_cons_self) atom value hp
  | @mark q m us f kind form =>
      have hf := form.legible (fun t hm => ht t (List.mem_cons_of_mem _ hm)) hp.2.1
      exact ⟨markName_legible m, hf, trivial⟩
  | list opening forms closing => exact forms.legible (proper_inner ht) hp
  | vector opening forms closing => exact forms.legible (proper_inner ht) hp
  | map opening forms closing even => exact ⟨even, forms.legible (proper_inner ht) hp⟩

theorem DerivesAll.legible {ts : List Token} {fs : List Form} (h : DerivesAll ts fs)
    (ht : ∀ t ∈ ts, t.Proper) (hp : AllPlain fs) : AllLegible fs := by
  cases h with
  | nil => trivial
  | cons first rest =>
      rw [List.forall_mem_append] at ht
      exact ⟨first.legible ht.1 hp.1, rest.legible ht.2 hp.2⟩

end

def Stops (cs : List Char) : Prop := ∀ c ∈ cs.head?, inWord c = false

/-- The text is cut into tokens that derive the forms, in front of any text that stops words. -/
def Writes (w : List Char) (fs : List Form) : Prop :=
  ∀ (p : Place) (rest : List Char), Stops rest → ∃ tokens gs,
    items p (w ++ rest) = tokens.map .token ++ items (p.advance w) rest ∧
      DerivesAll tokens gs ∧ unlinedAll gs = unlinedAll fs

variable {w v rest : List Char} {fs gs : List Form} {f : Form} {k : Kind}

theorem writes_nil : Writes [] [] :=
  fun _ _ _ => ⟨[], [], rfl, .nil, rfl⟩

theorem unlinedAll_append (fs gs : List Form) :
    unlinedAll (fs ++ gs) = unlinedAll fs ++ unlinedAll gs := by
  induction fs with
  | nil => rfl
  | cons f fs ih => rw [List.cons_append, unlinedAll, unlinedAll, ih, List.cons_append]

theorem DerivesAll.append {ts us : List Token} (h : DerivesAll ts fs) (h' : DerivesAll us gs) :
    DerivesAll (ts ++ us) (fs ++ gs) := by
  induction fs generalizing ts with
  | nil =>
      cases h
      exact h'
  | cons f fs ih =>
      cases h with
      | cons first rest =>
          rw [List.append_assoc]
          exact .cons first (ih rest)

theorem stops_separator {sep : List Char} (hne : sep ≠ [])
    (hsep : ∀ c ∈ sep, isSeparator c = true) (cs : List Char) : Stops (sep ++ cs) := by
  obtain ⟨c, sep, rfl⟩ := List.exists_cons_of_ne_nil hne
  rintro _ ⟨⟩
  exact Lexing.inWord_of_isSeparator (hsep c List.mem_cons_self)

theorem Writes.append (h : Writes w fs) (sep : List Char) (hne : sep ≠ [])
    (hsep : ∀ c ∈ sep, isSeparator c = true) (h' : Writes v gs) :
    Writes (w ++ (sep ++ v)) (fs ++ gs) := by
  intro p rest hrest
  obtain ⟨ts, fs', hi, hd, he⟩ := h p _ (stops_separator hne hsep (v ++ rest))
  obtain ⟨us, gs', hi', hd', he'⟩ := h' ((p.advance w).advance sep) rest hrest
  refine ⟨ts ++ us, fs' ++ gs', ?_, hd.append hd', ?_⟩
  · rw [List.append_assoc, List.append_assoc, hi, Lexing.items_blank _ _ hsep, hi', List.map_append,
      List.append_assoc, Tree.advance_append, Tree.advance_append]
  · rw [unlinedAll_append, unlinedAll_append, he, he']

theorem writes_intercalate (sep : String) (hne : sep.toList ≠ [])
    (hsep : ∀ c ∈ sep.toList, isSeparator c = true) {texts : List String} {rows : List (List Form)}
    (h : List.Forall₂ (fun text fs => Writes text.toList fs) texts rows) :
    Writes (sep.intercalate texts).toList rows.flatten := by
  induction h with
  | nil => exact writes_nil
  | @cons text fs texts rows first others ih =>
      cases others with
      | nil => simpa using first
      | @cons text' fs' texts' rows' second others =>
          rw [String.intercalate_cons_cons, List.flatten_cons, String.toList_append,
            String.toList_append, List.append_assoc]
          exact first.append sep.toList hne hsep ih

theorem writes_atom (atom : k.isAtom = true) (chosen : ∀ rest, Stops rest → (token k).Chosen w rest)
    (value : ∀ p, Tree.leafForm ⟨k, w, p⟩ = .ok f) : Writes w [f] := by
  intro p rest hrest
  exact ⟨[⟨k, w, p⟩], [f], Lexing.items_chosen p (chosen rest hrest),
    derivesAll_single (.atom atom (value p)), rfl⟩

/-- A word that is no number in full is chosen before anything that stops words. -/
theorem chosen_word (hmem : w ∈ (token k).language) (hgoes : (token k).goesOn = inWord)
    (hword : ∀ c ∈ w, inWord c = true) (hn : k ≠ .number → w ∉ language (token .number))
    (hrest : Stops rest) : (token k).Chosen w rest := by
  refine chosen_iff.mpr ⟨takes_iff.mpr ⟨hmem, by rwa [hgoes]⟩, ?_⟩
  rintro hk ⟨v, rest', he, hv⟩
  obtain ⟨hv, hrest'⟩ := takes_iff.mp hv
  have hrun := congrArg (List.takeWhile inWord) he
  rw [takeWhile_run (worded_number v hv) hrest', takeWhile_run hword hrest] at hrun
  exact hn (fun h => hk (congrArg token h)) (hrun ▸ hv)

theorem chosen_symbol (hw : IsWord w) (hrest : Stops rest) : (token .symbol).Chosen w rest :=
  chosen_word hw.1 rfl (symbol_worded hw.1).2 (fun _ => hw.2) hrest

theorem chosen_number (hw : w ∈ language (token .number)) (hrest : Stops rest) :
    (token .number).Chosen w rest :=
  chosen_word hw rfl (worded_number w hw) (fun h => absurd rfl h) hrest

theorem chosen_keyword (hw : w ∈ language (token .keyword)) (hrest : Stops rest) :
    (token .keyword).Chosen w rest := by
  obtain ⟨c, v, rfl, -, hc, hv⟩ := mem_keyword.mp hw
  refine chosen_word hw rfl ?_ (fun _ hn => ?_) hrest
  · exact List.forall_mem_cons.mpr ⟨by decide, List.forall_mem_cons.mpr ⟨hc, hv⟩⟩
  · cases mem_number.mp hn

theorem chosen_delimiter {c : Char} (hmem : c :: w ∈ (token k).language)
    (hgoes : (token k).goesOn = fun _ => false) (hc : inWord c = false) (rest : List Char) :
    (token k).Chosen (c :: w) rest :=
  chosen_iff.mpr ⟨takes_iff.mpr ⟨hmem, by simp [hgoes]⟩, fun _ => not_numbered hc _⟩

theorem escape_mem_piece (c : Char) : Quoted.escape c ∈ piece := by
  have escaped (d : Char) (hd : d ≠ '\n') : ['\\', d] ∈ piece :=
    (Language.mem_add _ _ _).mpr (.inr (cons_mem_one_mul.mpr ⟨rfl, d, by simpa using hd, rfl⟩))
  unfold Quoted.escape
  split
  · exact escaped '"' (by decide)
  · exact escaped '\\' (by decide)
  · exact escaped 'n' (by decide)
  · exact escaped 't' (by decide)
  · exact escaped 'r' (by decide)
  · next hq hb _ _ _ =>
    exact (Language.mem_add _ _ _).mpr (.inl ⟨c, by simpa using ⟨hq, hb⟩, rfl⟩)

theorem quoted_mem (cs : List Char) :
    '"' :: (Quoted.encode cs ++ ['"']) ∈ language (token .string) := by
  have hpieces : ∀ v ∈ cs.map Quoted.escape, v ∈ piece := by
    intro v hv
    obtain ⟨c, -, rfl⟩ := List.mem_map.mp hv
    exact escape_mem_piece c
  rw [mem_string, Quoted.encode, List.flatMap_def, stringLength_of_mem hpieces, List.length_append]
  rfl

theorem writes_str (s : String) : Writes (Quoted.quote s).toList [.str s] := by
  rw [Quoted.quote, String.toList_ofList, List.cons_append]
  refine writes_atom (k := .string) rfl (fun rest _ => ?_) (fun p => ?_)
  · exact chosen_delimiter (quoted_mem s.toList) rfl (by decide) rest
  · simp [Tree.leafForm, Quoted.decode_encode]

theorem value?_of_isDigit {c : Char} (h : c.isDigit = true) :
    Digit.value? c = some (c.toNat - '0'.toNat) := by
  have hdigit : 48 ≤ c.val ∧ c.val ≤ 57 := by simpa [Char.isDigit] using h
  have hlow : '0' ≤ c := hdigit.1
  have hhigh : c ≤ '9' := hdigit.2
  have hle : c.toNat ≤ '9'.toNat := hhigh
  have hascii : c.toNat < 128 := Nat.lt_of_le_of_lt hle (by decide)
  simp [Digit.value?, hascii, hlow, hhigh]

theorem valueOf_digits {cs : List Char} (h : ∀ c ∈ cs, c.isDigit = true) :
    Numeral.valueOf (cs.filterMap Digit.value?) = Nat.ofDigitChars 10 cs 0 := by
  unfold Numeral.valueOf Nat.ofDigitChars
  generalize 0 = n
  induction cs generalizing n with
  | nil => rfl
  | cons c cs ih =>
      obtain ⟨hc, hcs⟩ := List.forall_mem_cons.mp h
      rw [List.filterMap_cons_some (value?_of_isDigit hc)]
      exact ih hcs _

theorem read?_digits (hw : w ∈ digits) :
    Numeral.read? w = some ⟨false, w.filterMap Digit.value?, none, none⟩ ∧
      Numeral.read? ('-' :: w) = some ⟨true, w.filterMap Digit.value?, none, none⟩ := by
  have hdigits := digits?_append hw (nofun : Undigital [])
  rw [List.append_nil] at hdigits
  have hsign : Numeral.sign? w = (false, w) := by
    obtain ⟨c, v, rfl, hc, -⟩ := mem_one_mul.mp hw
    exact sign?_decimal hc v
  have hminus : Numeral.sign? ('-' :: w) = (true, w) := rfl
  constructor
  · simp [Numeral.read?, hsign, hdigits, Numeral.fraction?, Numeral.exponent?]
  · simp [Numeral.read?, hminus, hdigits, Numeral.fraction?, Numeral.exponent?]

theorem read?_toString (n : Int) :
    ∃ m, Numeral.read? (toString n).toList = some m ∧ m.toForm = .int n ∧
      (Digit.fits n = true → m.isTooLong = false) := by
  have hdigit (k : Nat) : ∀ c ∈ Nat.toDigits 10 k, c.isDigit = true :=
    fun c hc => Nat.isDigit_of_mem_toDigits (by decide) (by decide) hc
  have hmem (k : Nat) : Nat.toDigits 10 k ∈ digits :=
    mem_digits.mpr ⟨Nat.toDigits_ne_nil, fun c hc => by
      rw [Digit.isDecimal, value?_of_isDigit (hdigit k c hc)]
      rfl⟩
  have hvalue (k : Nat) : Numeral.valueOf ((Nat.toDigits 10 k).filterMap Digit.value?) = k := by
    rw [valueOf_digits (hdigit k), Nat.ofDigitChars_toDigits (by decide) (by decide)]
  have hshort {k : Nat} (hk : k < Digit.bound) (negative : Bool) :
      Numeral.isTooLong ⟨negative, (Nat.toDigits 10 k).filterMap Digit.value?, none, none⟩ = false := by
    have hlength := (List.length_filterMap_le Digit.value? _).trans
      (Nat.toDigits_length 10 k _ (by decide) (Digit.bound_eq ▸ hk))
    simpa [Numeral.isTooLong] using fun _ => hlength
  rw [Int.toString_eq_repr]
  cases n with
  | ofNat k =>
      refine ⟨_, by simpa [Int.repr, Nat.toList_repr] using (read?_digits (hmem k)).1, ?_,
        fun h => hshort (by simpa [Digit.fits] using h) _⟩
      simp [Numeral.toForm, Numeral.isWhole, Numeral.toInt, hvalue]
  | negSucc k =>
      refine ⟨_, by simpa [Int.repr, Nat.toList_repr] using (read?_digits (hmem (k + 1))).2, ?_,
        fun h => hshort (by simpa [Digit.fits] using h) _⟩
      simp [Numeral.toForm, Numeral.isWhole, Numeral.toInt, hvalue, Int.negSucc_eq]

theorem writes_int {n : Int} (h : Digit.fits n = true) : Writes (toString n).toList [.int n] := by
  obtain ⟨m, hm, hf, hshort⟩ := read?_toString n
  refine writes_atom (k := .number) rfl (fun rest => chosen_number ?_) (fun p => ?_)
  · exact mem_number.mpr (by rw [hm]; rfl)
  · change Tree.numberForm _ = _
    simp only [Tree.numberForm, hm, hshort h, Bool.false_eq_true, if_false, hf]

theorem writes_word {s : String} (hw : IsWord s.toList) : Writes s.toList [Tree.symbolForm s] :=
  writes_atom (k := .symbol) rfl (fun _ => chosen_symbol hw)
    fun p => by simp [Tree.leafForm]

theorem writes_keyword {n : Name} (hsplit : Name.split n.text = n)
    (hw : ':' :: n.text.toList ∈ language (token .keyword)) :
    Writes (":" ++ n.text).toList [.keyword n] := by
  rw [String.toList_append]
  exact writes_atom (k := .keyword) rfl (fun _ => chosen_keyword hw)
    fun p => by simp [Tree.leafForm, hsplit]

theorem stops_right (b : Bracket) (rest : List Char) : Stops (b.right :: rest) := by
  rintro _ ⟨⟩
  cases b <;> decide

theorem items_left (b : Bracket) (p : Place) (cs : List Char) : items p (b.left :: cs) =
    .token ⟨.opening b, [b.left], p⟩ :: items (p.advance [b.left]) cs :=
  Lexing.items_chosen p
    (chosen_delimiter (mem_opening.mpr rfl) rfl (by cases b <;> decide) cs)

theorem items_right (b : Bracket) (p : Place) (cs : List Char) : items p (b.right :: cs) =
    .token ⟨.closing b, [b.right], p⟩ :: items (p.advance [b.right]) cs :=
  Lexing.items_chosen p
    (chosen_delimiter (mem_closing.mpr rfl) rfl (by cases b <;> decide) cs)

theorem writes_between (b : Bracket) (h : Writes w fs) (p : Place) (rest : List Char) :
    ∃ o c ts gs, items p (b.left :: (w ++ [b.right]) ++ rest) =
        (o :: (ts ++ [c])).map .token ++ items (p.advance (b.left :: (w ++ [b.right]))) rest ∧
      o.kind = .opening b ∧ DerivesAll ts gs ∧ c.kind = .closing b ∧
      unlinedAll gs = unlinedAll fs := by
  obtain ⟨ts, gs, hi, hd, he⟩ := h (p.advance [b.left]) (b.right :: rest) (stops_right b rest)
  refine ⟨⟨.opening b, [b.left], p⟩, ⟨.closing b, [b.right], (p.advance [b.left]).advance w⟩,
    ts, gs, ?_, rfl, hd, rfl, he⟩
  rw [List.cons_append, List.append_assoc, List.singleton_append, items_left, hi, items_right,
    List.map_cons, List.map_append, List.cons_append, List.append_assoc, ← Tree.advance_append,
    ← Tree.advance_append]
  simp

theorem writes_list (h : Writes w fs) (line : Option Nat) :
    Writes ('(' :: (w ++ [')'])) [.list fs line] := by
  intro p rest _
  obtain ⟨o, c, ts, gs, hi, ho, hd, hc, he⟩ := writes_between .round h p rest
  exact ⟨_, _, hi, derivesAll_single (.list ho hd hc), by simp [unlinedAll, unlined, he]⟩

theorem writes_vector (h : Writes w fs) (line : Option Nat) :
    Writes ('[' :: (w ++ [']'])) [.vector fs line] := by
  intro p rest _
  obtain ⟨o, c, ts, gs, hi, ho, hd, hc, he⟩ := writes_between .square h p rest
  exact ⟨_, _, hi, derivesAll_single (.vector ho hd hc), by simp [unlinedAll, unlined, he]⟩

theorem unlinedAll_length (fs : List Form) : (unlinedAll fs).length = fs.length := by
  induction fs with
  | nil => rfl
  | cons f fs ih => rw [unlinedAll, List.length_cons, List.length_cons, ih]

theorem writes_map (h : Writes w fs) (even : fs.length % 2 = 0) (line : Option Nat) :
    Writes ('\x7b' :: (w ++ ['\x7d'])) [.map fs line] := by
  intro p rest _
  obtain ⟨o, c, ts, gs, hi, ho, hd, hc, he⟩ := writes_between .curly h p rest
  have hlen : gs.length = fs.length := by rw [← unlinedAll_length, he, unlinedAll_length]
  exact ⟨_, _, hi, derivesAll_single (.map ho hd hc (hlen ▸ even)),
    by simp [unlinedAll, unlined, he]⟩

theorem separates_space : ∀ c ∈ " ".toList, isSeparator c = true := List.all_eq_true.mp (by decide)

theorem separates_comma : ∀ c ∈ ", ".toList, isSeparator c = true := List.all_eq_true.mp (by decide)

theorem writes_printAll (h : ∀ f ∈ fs, Writes f.print.toList [f]) :
    Writes (" ".intercalate (printAll fs)).toList fs := by
  have hrows : List.Forall₂ (fun text fs => Writes text.toList fs) (printAll fs)
      (fs.map fun f => [f]) := by
    induction fs with
    | nil => exact .nil
    | cons f fs ih =>
        rw [List.forall_mem_cons] at h
        exact .cons h.1 (ih h.2)
  have hw := writes_intercalate " " (by decide) separates_space hrows
  rwa [← List.flatMap_def, List.flatMap_singleton'] at hw

theorem flatten_pairs {α : Type} {xs : List α} (even : xs.length % 2 = 0) :
    ((pairs xs).map fun p => [p.1, p.2]).flatten = xs := by
  induction xs using pairs.induct with
  | case1 a b rest ih =>
      rw [List.length_cons, List.length_cons] at even
      simpa [pairs] using ih (by omega)
  | case2 xs hne =>
      match xs with
      | [] => rfl
      | [_] => cases even
      | a :: b :: rest => exact absurd rfl (hne a b rest)

theorem writes_printPairs (even : fs.length % 2 = 0) (h : ∀ f ∈ fs, Writes f.print.toList [f]) :
    Writes (", ".intercalate (printPairs fs)).toList fs := by
  have hrows : List.Forall₂ (fun text fs => Writes text.toList fs) (printPairs fs)
      ((pairs fs).map fun p => [p.1, p.2]) := by
    clear even
    induction fs using pairs.induct with
    | case1 k v fs ih =>
        simp only [List.forall_mem_cons] at h
        have hpair := h.1.append " ".toList (by decide) separates_space h.2.1
        refine .cons ?_ (ih h.2.2)
        simpa using hpair
    | case2 fs hne =>
        rcases fs with _ | ⟨k, _ | ⟨v, rest⟩⟩
        · exact .nil
        · exact .nil
        · exact absurd rfl (hne k v rest)
  have hw := writes_intercalate ", " (by decide) separates_comma hrows
  rwa [flatten_pairs even] at hw

/-- The text of a form is cut into tokens that derive the form. -/
theorem print_writes (h : f.Legible) : Writes f.print.toList [f] := by
  induction f using byItems with
  | nil => exact writes_word (isWord_cons (v := ['i', 'l']) (by decide) (by decide) rfl)
  | bool b =>
      cases b with
      | true =>
          exact writes_word (isWord_cons (v := ['r', 'u', 'e']) (by decide) (by decide) rfl)
      | false =>
          exact writes_word (isWord_cons (v := ['a', 'l', 's', 'e']) (by decide) (by decide) rfl)
  | int n => exact writes_int h
  | float => exact h.elim
  | str s => exact writes_str s
  | symbol n =>
      have hw := writes_word h.2
      rwa [h.1] at hw
  | keyword n => exact writes_keyword h.1 h.2
  | list items line ih =>
      have hitems := fun f hf => ih f hf (allLegible_iff.mp h f hf)
      simpa [print] using writes_list (writes_printAll hitems) line
  | vector items line ih =>
      have hitems := fun f hf => ih f hf (allLegible_iff.mp h f hf)
      simpa [print] using writes_vector (writes_printAll hitems) line
  | map items line ih =>
      have hitems := fun f hf => ih f hf (allLegible_iff.mp h.2 f hf)
      simpa [print] using writes_map (writes_printPairs h.1 hitems) h.1 line

theorem readAll_of_writes {s : String} (h : Writes s.toList fs) :
    ∃ gs, readAll s = .ok gs ∧ unlinedAll gs = unlinedAll fs := by
  obtain ⟨ts, gs, hi, hd, he⟩ := h (startOf 1) [] nofun
  rw [List.append_nil, items, List.append_nil] at hi
  exact ⟨gs, readChars_derives.mpr ⟨ts, hi, hd⟩, he⟩

theorem readAll_of_writes_single {s : String} (h : Writes s.toList [f]) :
    ∃ g, readAll s = .ok [g] ∧ g.unlined = f.unlined := by
  obtain ⟨gs, hread, he⟩ := readAll_of_writes h
  rcases gs with _ | ⟨g, _ | ⟨g', gs⟩⟩
  · simp [unlinedAll] at he
  · exact ⟨g, hread, (List.cons.inj he).1⟩
  · simp [unlinedAll] at he

/-- What is printed reads as the form, lines aside. -/
theorem readAll_of_legible {f : Form} (h : f.Legible) :
    ∃ g, readAll f.print = .ok [g] ∧ g.unlined = f.unlined :=
  readAll_of_writes_single (print_writes h)

theorem DerivesAll.of_mem {ts : List Token} (h : DerivesAll ts fs) (hf : f ∈ fs) :
    ∃ us, Derives us f ∧ ∀ t ∈ us, t ∈ ts := by
  induction fs generalizing ts with
  | nil => cases hf
  | cons g fs ih =>
      cases h with
      | @cons us vs _ _ first rest =>
          rcases List.mem_cons.mp hf with rfl | hf
          · exact ⟨us, first, fun t ht => List.mem_append_left vs ht⟩
          · obtain ⟨ws, hd, hsub⟩ := ih rest hf
            exact ⟨ws, hd, fun t ht => List.mem_append_right us (hsub t ht)⟩

theorem readAll_derives {source : String} {forms : List Form} {f : Form}
    (h : readAll source = .ok forms) (hf : f ∈ forms) :
    ∃ us, Derives us f ∧ ∀ t ∈ us, t.Proper := by
  obtain ⟨tokens, hi, hd⟩ := readChars_derives.mp h
  obtain ⟨us, hus, hsub⟩ := hd.of_mem hf
  exact ⟨us, hus, fun t ht => items_proper (hi ▸ List.mem_map_of_mem (hsub t ht))⟩

/-- What is read is legible, if it is plain. -/
theorem readAll_legible {source : String} {forms : List Form} {f : Form}
    (h : readAll source = .ok forms) (hf : f ∈ forms) (hp : f.Plain) : f.Legible := by
  obtain ⟨us, hus, hproper⟩ := readAll_derives h hf
  exact hus.legible hproper hp

/-- A form that is read, has no double and no empty namespace is what its text reads as. -/
theorem readAll_print {source : String} {forms : List Form} {f : Form}
    (h : readAll source = .ok forms) (hf : f ∈ forms) (hp : f.Plain) :
    ∃ g, readAll f.print = .ok [g] ∧ g.unlined = f.unlined :=
  readAll_of_legible (readAll_legible h hf hp)

/-- A quoted vector of a keyword, a string, a number and a map. -/
theorem readAll_print_quoted : ∃ f g,
    readAll "'[:a \"b\\n\" -7\n \x7bx/y nil\x7d]" = .ok [f] ∧
      f.print = "(quote [:a \"b\\n\" -7 \x7bx/y nil\x7d])" ∧
      readAll f.print = .ok [g] ∧ g.unlined = f.unlined := by
  let form : Form := .list [.sym "quote", .vector [.keyword (.plain "a"), .str "b\n", .int (-7),
    .map [.symbol (.qualified "x" "y"), .nil] (some 2)] (some 1)] (some 1)
  have hread : readAll "'[:a \"b\\n\" -7\n \x7bx/y nil\x7d]" = .ok [form] := by
    with_unfolding_all rfl
  have hplain : form.Plain := by
    simp [form, Plain, AllPlain, sym, Name.plain, Name.qualified]
  obtain ⟨g, hg, he⟩ := readAll_print hread List.mem_cons_self hplain
  exact ⟨form, g, hread, by decide +kernel, hg, he⟩

end Sumi.Form
