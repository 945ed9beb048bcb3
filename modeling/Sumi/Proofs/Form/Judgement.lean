import Sumi.Proofs.Form.Derivation
import Sumi.Proofs.Form.Lexing
import Sumi.Proofs.Text.Escapes

namespace Sumi.Form

open Text Sumi.Form.Tree

mutual

/-- A row of tokens derives a form. A collection has the line of its first character. -/
inductive Derives : List Token → Form → Prop
  | atom {t : Token} {f : Form} (atom : t.kind.isAtom = true) (value : leafForm t = .ok f) :
      Derives [t] f
  | mark {q : Token} {m : Mark} {ts : List Token} {f : Form} (kind : q.kind = .mark m)
      (form : Derives ts f) : Derives (q :: ts) (.list [sym (markName m), f] (some q.place.line))
  | list {o c : Token} {ts : List Token} {fs : List Form} (opening : o.kind = .opening .round)
      (forms : DerivesAll ts fs) (closing : c.kind = .closing .round) :
      Derives (o :: (ts ++ [c])) (.list fs (some o.place.line))
  | vector {o c : Token} {ts : List Token} {fs : List Form} (opening : o.kind = .opening .square)
      (forms : DerivesAll ts fs) (closing : c.kind = .closing .square) :
      Derives (o :: (ts ++ [c])) (.vector fs (some o.place.line))
  | map {o c : Token} {ts : List Token} {fs : List Form} (opening : o.kind = .opening .curly)
      (forms : DerivesAll ts fs) (closing : c.kind = .closing .curly)
      (even : fs.length % 2 = 0) : Derives (o :: (ts ++ [c])) (.map fs (some o.place.line))

inductive DerivesAll : List Token → List Form → Prop
  | nil : DerivesAll [] []
  | cons {ts us : List Token} {f : Form} {fs : List Form} (first : Derives ts f)
      (rest : DerivesAll us fs) : DerivesAll (ts ++ us) (f :: fs)

end

theorem derivesAll_single {ts : List Token} {f : Form} (h : Derives ts f) : DerivesAll ts [f] := by
  have hcons := DerivesAll.cons h .nil
  rwa [List.append_nil] at hcons

/-- A tree that makes no form: a map in it has an odd number of forms, a string in it has an escape
that is none, or a whole number in it has more digits than may be read. -/
inductive Tree.Faulty : Tree → Prop
  | string {t : Token} (kind : t.kind = .string) (escape : ¬ Quoted.Sound t.text.tail.dropLast) :
      Faulty (.leaf t)
  | number {t : Token} {n : Numeral} (kind : t.kind = .number) (text : Numeral.read? t.text = some n)
      (long : n.isTooLong = true) : Faulty (.leaf t)
  | map {line : Nat} {children : List Tree} (odd : children.length % 2 = 1) :
      Faulty (.node .curly line children)
  | mark {m : Mark} {line : Nat} {child : Tree} (inner : Faulty child) : Faulty (.mark m line child)
  | node {b : Bracket} {line : Nat} {children : List Tree} {child : Tree} (mem : child ∈ children)
      (inner : Faulty child) : Faulty (.node b line children)

def Faulty (tokens : List Token) : Prop :=
  ∃ trees, ParsesAll tokens trees ∧ ∃ t ∈ trees, t.Faulty

def Item.place : Item → Place
  | .token t => t.place
  | .stray _ place => place

def Item.cause : Item → ReadError.Cause
  | .token t => .strayToken t.text
  | .stray c _ => .strayCharacter c

/-- What the grammar says of the items of a text is what came of reading it. -/
structure Judged (items : List Item) (result : Except ReadError (List Form)) : Prop where
  cases : (∃ before i after, FirstBlamed items before i after) ∨
    ∃ tokens, items = tokens.map .token ∧ Blameless tokens
  blamed : ∀ before i after, FirstBlamed items before i after →
    ∃ e what, result = .error e ∧ e.place = some i.place ∧ e.cause = i.cause ∧
      e.cause.message = "Unexpected " ++ what
  unfinished : ∀ tokens, items = tokens.map .token → Blameless tokens →
    ((∃ e, result = .error e ∧ e.cause.message = "EOF while reading") ↔ Unfinished tokens)
  faulty : ∀ tokens, items = tokens.map .token → Blameless tokens → ¬ Unfinished tokens →
    ((∃ e, result = .error e) ↔ Faulty tokens)
  read : ∀ tokens, items = tokens.map .token → Blameless tokens → ¬ Unfinished tokens →
    ¬ Faulty tokens → ∃ forms, result = .ok forms ∧ ∀ others, DerivesAll tokens others ↔ others = forms

namespace Tree

theorem toForm_mark {m : Mark} {line : Nat} {child : Tree} {f : Form} :
    (Tree.mark m line child).toForm = .ok f ↔
      ∃ g, child.toForm = .ok g ∧ f = .list [sym (markName m), g] (some line) := by
  rw [toForm]
  cases child.toForm with
  | error e => simp [bind, Except.bind]
  | ok g => simp [bind, Except.bind, pure, Except.pure, eq_comm]

theorem toForm_node {b : Bracket} {line : Nat} {children : List Tree} {f : Form} :
    (Tree.node b line children).toForm = .ok f ↔
      ∃ fs, toForms children = .ok fs ∧ nodeForm b line fs = .ok f := by
  rw [toForm]
  cases toForms children with
  | error e => simp [bind, Except.bind]
  | ok fs => simp [bind, Except.bind]

theorem toForms_cons {t : Tree} {ts : List Tree} {fs : List Form} :
    toForms (t :: ts) = .ok fs ↔
      ∃ f gs, t.toForm = .ok f ∧ toForms ts = .ok gs ∧ fs = f :: gs := by
  rw [toForms]
  cases t.toForm with
  | error e => simp [bind, Except.bind]
  | ok f =>
      cases toForms ts with
      | error e => simp [bind, Except.bind]
      | ok gs => simp [bind, Except.bind, pure, Except.pure, eq_comm]

theorem toForms_length {ts : List Tree} {fs : List Form} (h : toForms ts = .ok fs) :
    fs.length = ts.length := by
  induction ts generalizing fs with
  | nil =>
      cases h
      rfl
  | cons t ts ih =>
      obtain ⟨f, gs, -, hgs, rfl⟩ := toForms_cons.mp h
      rw [List.length_cons, List.length_cons, ih hgs]

theorem faulty_leaf {t : Token} : (Tree.leaf t).Faulty ↔
    t.kind = .string ∧ ¬ Quoted.Sound t.text.tail.dropLast ∨
      t.kind = .number ∧ ∃ n, Numeral.read? t.text = some n ∧ n.isTooLong = true := by
  constructor
  · rintro (⟨hk, he⟩ | ⟨hk, hr, hlong⟩)
    · exact .inl ⟨hk, he⟩
    · exact .inr ⟨hk, _, hr, hlong⟩
  · rintro (⟨hk, he⟩ | ⟨hk, n, hr, hlong⟩)
    · exact .string hk he
    · exact .number hk hr hlong

theorem leafForm_ok_iff {t : Token} : (∃ f, leafForm t = .ok f) ↔ ¬ (Tree.leaf t).Faulty := by
  rw [faulty_leaf, ← Quoted.decode_isOk 1]
  unfold leafForm
  cases t.kind with
  | string => cases Quoted.decode 1 t.text.tail.dropLast <;> simp [Except.isOk, Except.toBool]
  | number =>
      dsimp only
      unfold numberForm
      cases Numeral.read? t.text with
      | none => simp
      | some n => cases hl : n.isTooLong <;> simp [hl]
  | opening | closing | mark | keyword | symbol => simp

theorem nodeForm_ok_iff {b : Bracket} {line : Nat} {fs : List Form} :
    (∃ f, nodeForm b line fs = .ok f) ↔ ¬ (b = .curly ∧ fs.length % 2 = 1) := by
  cases b with
  | round | square => simp [nodeForm]
  | curly => by_cases h : fs.length % 2 = 0 <;> simp [nodeForm, h]

mutual

theorem toForm_ok_iff (t : Tree) : (∃ f, t.toForm = .ok f) ↔ ¬ t.Faulty := by
  cases t with
  | leaf t => exact leafForm_ok_iff
  | mark m line child =>
      simp only [toForm_mark]
      constructor
      · rintro ⟨_, g, hg, -⟩ (_ | _ | _ | inner)
        exact (toForm_ok_iff child).mp ⟨g, hg⟩ inner
      · intro h
        obtain ⟨g, hg⟩ := (toForm_ok_iff child).mpr fun inner => h (.mark inner)
        exact ⟨_, g, hg, rfl⟩
  | node b line children =>
      simp only [toForm_node]
      constructor
      · rintro ⟨f, fs, hfs, hf⟩ hfaulty
        cases hfaulty with
        | map odd =>
            refine nodeForm_ok_iff.mp ⟨f, hf⟩ ⟨rfl, ?_⟩
            rw [toForms_length hfs, odd]
        | node mem inner => exact (toForms_ok_iff children).mp ⟨fs, hfs⟩ _ mem inner
      · intro h
        obtain ⟨fs, hfs⟩ := (toForms_ok_iff children).mpr fun t mem inner => h (.node mem inner)
        have heven : ¬ (b = .curly ∧ fs.length % 2 = 1) := by
          rintro ⟨rfl, hodd⟩
          exact h (.map ((toForms_length hfs).symm ▸ hodd))
        obtain ⟨f, hf⟩ := nodeForm_ok_iff.mpr heven
        exact ⟨f, fs, hfs, hf⟩
termination_by sizeOf t

theorem toForms_ok_iff (ts : List Tree) : (∃ fs, toForms ts = .ok fs) ↔ ∀ t ∈ ts, ¬ t.Faulty := by
  cases ts with
  | nil => exact iff_of_true ⟨[], rfl⟩ nofun
  | cons t ts =>
      simp only [toForms_cons, List.forall_mem_cons, ← toForm_ok_iff t, ← toForms_ok_iff ts]
      constructor
      · rintro ⟨_, f, gs, hf, hgs, -⟩
        exact ⟨⟨f, hf⟩, gs, hgs⟩
      · rintro ⟨⟨f, hf⟩, gs, hgs⟩
        exact ⟨_, f, gs, hf, hgs, rfl⟩
termination_by sizeOf ts

end

def SecondPass (e : ReadError) : Prop :=
  e.cause = .oddMap ∨ (∃ fault text, e.cause = .badEscape fault text) ∨
    ∃ digits, e.cause = .longNumber digits

theorem SecondPass.message_ne {e : ReadError} (h : SecondPass e) :
    e.cause.message ≠ "EOF while reading" := by
  -- the second letter tells these messages from the one about the end
  have other (before after : String) {c : Char} (hb : before.toList[1]? = some c) (hc : c ≠ 'O') :
      before ++ after ≠ "EOF while reading" := by
    intro he
    have hsecond := congrArg (·.toList[1]?) he
    rw [String.toList_append, List.getElem?_append_left (List.getElem?_eq_some_iff.mp hb).1,
      hb] at hsecond
    exact hc (Option.some.inj hsecond)
  rcases h with h | ⟨fault, text, h⟩ | ⟨digits, h⟩ <;> rw [h]
  · exact fun he => absurd (congrArg String.length he) (by decide)
  · cases fault with
    | unknownEscape n => exact other "Invalid \\escape: " _ rfl (by decide)
    | shortCodePoint n => exact other "Invalid \\uXXXX escape: " _ rfl (by decide)
  · change ReadError.longNumberMessage digits ≠ _
    unfold ReadError.longNumberMessage
    simp only [String.append_assoc]
    exact other "Exceeds the limit (" _ rfl (by decide)

theorem bind_error {α β : Type} {x : Except ReadError α} {g : α → Except ReadError β}
    {e : ReadError} (h : x >>= g = .error e) : x = .error e ∨ ∃ a, x = .ok a ∧ g a = .error e := by
  cases x with
  | error e' =>
      cases h
      exact .inl rfl
  | ok a => exact .inr ⟨a, rfl, h⟩

theorem leafForm_error {t : Token} {e : ReadError} (h : leafForm t = .error e) : SecondPass e := by
  unfold leafForm at h
  split at h
  · split at h <;> cases h
    exact .inr (.inl ⟨_, _, rfl⟩)
  · unfold numberForm at h
    split at h
    · cases h
    · split at h <;> cases h
      exact .inr (.inr ⟨_, rfl⟩)
  · cases h
  · cases h

theorem nodeForm_error {b : Bracket} {line : Nat} {fs : List Form} {e : ReadError}
    (h : nodeForm b line fs = .error e) : SecondPass e := by
  cases b with
  | round | square => cases h
  | curly =>
      unfold nodeForm at h
      dsimp only at h
      split at h <;> cases h
      exact .inl rfl

mutual

theorem toForm_error {t : Tree} {e : ReadError} (h : t.toForm = .error e) : SecondPass e := by
  cases t with
  | leaf t => exact leafForm_error h
  | mark m line child =>
      rw [toForm] at h
      rcases bind_error h with h | ⟨_, -, h⟩
      · exact toForm_error h
      · cases h
  | node b line children =>
      rw [toForm] at h
      rcases bind_error h with h | ⟨_, -, h⟩
      · exact toForms_error h
      · exact nodeForm_error h
termination_by sizeOf t

theorem toForms_error {ts : List Tree} {e : ReadError} (h : toForms ts = .error e) :
    SecondPass e := by
  cases ts with
  | nil => cases h
  | cons t ts =>
      rw [toForms] at h
      rcases bind_error h with h | ⟨_, -, h⟩
      · exact toForm_error h
      · rcases bind_error h with h | ⟨_, -, h⟩
        · exact toForms_error h
        · cases h
termination_by sizeOf ts

end

end Tree

mutual

theorem Derives.parses {ts : List Token} {f : Form} (h : Derives ts f) :
    ∃ t, Parses ts t ∧ t.toForm = .ok f := by
  cases h with
  | atom atom value => exact ⟨_, .leaf atom, value⟩
  | mark kind form =>
      obtain ⟨t, hp, ht⟩ := form.parses
      exact ⟨_, .mark kind hp, toForm_mark.mpr ⟨_, ht, rfl⟩⟩
  | list opening forms closing | vector opening forms closing =>
      obtain ⟨trees, hp, ht⟩ := forms.parses
      exact ⟨_, .node opening hp closing, toForm_node.mpr ⟨_, ht, rfl⟩⟩
  | map opening forms closing even =>
      obtain ⟨trees, hp, ht⟩ := forms.parses
      exact ⟨_, .node opening hp closing, toForm_node.mpr ⟨_, ht, if_pos even⟩⟩

theorem DerivesAll.parses {ts : List Token} {fs : List Form} (h : DerivesAll ts fs) :
    ∃ trees, ParsesAll ts trees ∧ toForms trees = .ok fs := by
  cases h with
  | nil => exact ⟨[], .nil, rfl⟩
  | cons first rest =>
      obtain ⟨t, hp, ht⟩ := first.parses
      obtain ⟨trees, hps, hts⟩ := rest.parses
      exact ⟨t :: trees, .cons hp hps, toForms_cons.mpr ⟨_, _, ht, hts, rfl⟩⟩

end

mutual

theorem Parses.derives {ts : List Token} {t : Tree} (h : Parses ts t) {f : Form}
    (hf : t.toForm = .ok f) : Derives ts f := by
  cases h with
  | leaf atom => exact .atom atom hf
  | mark kind form =>
      obtain ⟨g, hg, rfl⟩ := toForm_mark.mp hf
      exact .mark kind (form.derives hg)
  | @node o c b ts children opening forms closing =>
      obtain ⟨fs, hfs, hf⟩ := toForm_node.mp hf
      have hforms := forms.derives hfs
      cases b with
      | round =>
          cases hf
          exact .list opening hforms closing
      | square =>
          cases hf
          exact .vector opening hforms closing
      | curly =>
          unfold nodeForm at hf
          dsimp only at hf
          split at hf
          · next even =>
            cases hf
            exact .map opening hforms closing even
          · cases hf

theorem ParsesAll.derives {ts : List Token} {trees : List Tree} (h : ParsesAll ts trees)
    {fs : List Form} (hfs : toForms trees = .ok fs) : DerivesAll ts fs := by
  cases h with
  | nil =>
      cases hfs
      exact .nil
  | cons first rest =>
      obtain ⟨f, gs, hf, hgs, rfl⟩ := toForms_cons.mp hfs
      exact .cons (first.derives hf) (rest.derives hgs)

end

theorem derivesAll_iff {ts : List Token} {trees : List Tree} (h : ParsesAll ts trees)
    {fs : List Form} : DerivesAll ts fs ↔ toForms trees = .ok fs := by
  refine ⟨fun hd => ?_, h.derives⟩
  obtain ⟨trees', hp, hfs⟩ := hd.parses
  rwa [parsesAll_unique h hp]

namespace Tree

variable {ts : List Token} {s : Nest}

theorem nest_reaches (h : Reaches ts s) (start : Place) (items : List Item) :
    ∃ last, nest {} start (ts.map .token ++ items) = nest s last items := by
  induction ts using List.reverseRecOn generalizing s items with
  | nil =>
      rw [reaches_nil.mp h]
      exact ⟨start, rfl⟩
  | append_singleton ts t ih =>
      obtain ⟨s₀, hs, hstep⟩ := reaches_concat.mp h
      obtain ⟨last, hl⟩ := ih hs (.token t :: items)
      refine ⟨t.place, ?_⟩
      rw [List.map_append, List.append_assoc, List.map_singleton, List.singleton_append, hl, nest,
        hstep]

theorem nest_blamed {items after : List Item} {before : List Token} {i : Item}
    (h : FirstBlamed items before i after) (start : Place) :
    nest {} start items = .error ⟨i.cause, some i.place, none⟩ := by
  obtain ⟨s, hs⟩ := blameless_iff.mp h.first
  obtain ⟨last, hl⟩ := nest_reaches hs start (i :: after)
  rw [h.split, hl]
  cases hi : i with
  | stray c place => rfl
  | token t =>
      have hb := h.blamed
      rw [hi] at hb
      rw [nest, step_of_blamed hs hb]
      rfl

theorem nest_unfinished (h : Reaches ts s) (hu : Unfinished ts) (start : Place) :
    ∃ last, nest {} start (ts.map .token) = .error ⟨.endOfInput, some last, none⟩ := by
  obtain ⟨last, hl⟩ := nest_reaches h start []
  have hf : ¬ s.frames.isEmpty = true :=
    fun he => (frames_iff h).mp (List.isEmpty_iff.mp he) hu
  rw [List.append_nil] at hl
  exact ⟨last, by rw [hl, nest, if_neg hf]⟩

theorem nest_finished (h : Reaches ts s) (hu : ¬ Unfinished ts) (start : Place) :
    ∃ trees, nest {} start (ts.map .token) = .ok trees ∧ ParsesAll ts trees := by
  obtain ⟨last, hl⟩ := nest_reaches h start []
  have hf := (frames_iff h).mpr hu
  rw [List.append_nil] at hl
  refine ⟨s.top.reverse, ?_, parsesAll_iff.mpr ?_⟩
  · rw [hl, nest, hf]
    rfl
  · rcases s with ⟨frames, top⟩
    cases hf
    rwa [List.reverse_reverse]

end Tree

section

variable {firstLine : Nat} {cs : List Char} {tokens : List Token}

def startOf (firstLine : Nat) : Place := ⟨max firstLine 1, 1⟩

theorem readChars_error {e : ReadError}
    (h : nest {} (startOf firstLine) (Token.items (startOf firstLine) cs) = .error e) :
    ∃ context, readChars firstLine cs = .error ⟨e.cause, e.place, context⟩ := by
  unfold startOf at h
  simp only [readChars, h]
  exact ⟨_, rfl⟩

theorem readChars_nested {trees : List Tree}
    (h : nest {} (startOf firstLine) (Token.items (startOf firstLine) cs) = .ok trees) :
    readChars firstLine cs = toForms trees := by
  unfold startOf at h
  simp only [readChars, h]

theorem cause_message (i : Item) : ∃ what, i.cause.message = "Unexpected " ++ what := by
  cases i with
  | token t => exact ⟨_, rfl⟩
  | stray c place =>
      refine ⟨"character " ++ Literal.write (String.singleton c), ?_⟩
      rw [← String.append_assoc]
      rfl

theorem judged (firstLine : Nat) (cs : List Char) :
    Judged (Token.items (startOf firstLine) cs) (readChars firstLine cs) where
  cases := blamed_or_blameless _
  blamed before i after h := by
    obtain ⟨context, he⟩ := readChars_error (nest_blamed h _)
    obtain ⟨what, hw⟩ := cause_message i
    exact ⟨_, what, he, rfl, rfl, hw⟩
  unfinished tokens hi hb := by
    obtain ⟨s, hs⟩ := blameless_iff.mp hb
    constructor
    · rintro ⟨e, he, hm⟩
      by_contra hu
      obtain ⟨trees, ht, -⟩ := nest_finished hs hu (startOf firstLine)
      rw [← hi] at ht
      rw [readChars_nested ht] at he
      exact (toForms_error he).message_ne hm
    · intro hu
      obtain ⟨last, hl⟩ := nest_unfinished hs hu (startOf firstLine)
      rw [← hi] at hl
      obtain ⟨context, he⟩ := readChars_error hl
      exact ⟨_, he, rfl⟩
  faulty tokens hi hb hu := by
    obtain ⟨s, hs⟩ := blameless_iff.mp hb
    obtain ⟨trees, ht, hp⟩ := nest_finished hs hu (startOf firstLine)
    rw [← hi] at ht
    -- the tokens have one row of trees only, so it does not matter which one is looked at
    have hfaulty : Faulty tokens ↔ ∃ t ∈ trees, t.Faulty := by
      refine ⟨fun ⟨trees', hp', hf⟩ => ?_, fun hf => ⟨trees, hp, hf⟩⟩
      rwa [parsesAll_unique hp hp']
    rw [readChars_nested ht, hfaulty]
    have hok := toForms_ok_iff trees
    cases hf : toForms trees with
    | error e => simpa [hf] using hok
    | ok fs => simpa [hf] using hok
  read tokens hi hb hu hf := by
    obtain ⟨s, hs⟩ := blameless_iff.mp hb
    obtain ⟨trees, ht, hp⟩ := nest_finished hs hu (startOf firstLine)
    rw [← hi] at ht
    obtain ⟨forms, hforms⟩ := (toForms_ok_iff trees).mpr fun t hm hft => hf ⟨trees, hp, t, hm, hft⟩
    rw [readChars_nested ht]
    refine ⟨forms, hforms, fun others => ?_⟩
    rw [derivesAll_iff hp, hforms, Except.ok.injEq, eq_comm]

/-- Reading succeeds with the forms that the items derive, all of them tokens. -/
theorem readChars_derives {forms : List Form} : readChars firstLine cs = .ok forms ↔
    ∃ tokens, Token.items (startOf firstLine) cs = tokens.map .token ∧ DerivesAll tokens forms := by
  constructor
  · intro h
    have hj := judged firstLine cs
    rcases hj.cases with ⟨before, i, after, hb⟩ | ⟨tokens, hi, hb⟩
    · obtain ⟨e, -, he, -⟩ := hj.blamed before i after hb
      cases h.symm.trans he
    · have hu : ¬ Unfinished tokens := fun hu => by
        obtain ⟨e, he, -⟩ := (hj.unfinished tokens hi hb).mpr hu
        cases h.symm.trans he
      have hf : ¬ Faulty tokens := fun hf => by
        obtain ⟨e, he⟩ := (hj.faulty tokens hi hb hu).mpr hf
        cases h.symm.trans he
      obtain ⟨forms', hforms, hd⟩ := hj.read tokens hi hb hu hf
      cases h.symm.trans hforms
      exact ⟨tokens, hi, (hd forms).mpr rfl⟩
  · rintro ⟨tokens, hi, hd⟩
    obtain ⟨trees, hp, ht⟩ := hd.parses
    refine (readChars_ok_iff firstLine cs forms).mpr ⟨⟨[], trees.reverse⟩, ?_, rfl, ?_⟩
    · exact (congrArg (Nest.build {}) hi).trans (parsesAll_iff.mp hp)
    · rwa [List.reverse_reverse]

end

/-- The grammar says what reading a text comes to: it cuts the text into items in one way, and
these decide between an item that has no place, a missing end, a faulty form, and the forms. -/
theorem readChars_judged (firstLine : Nat) (cs : List Char) :
    ∃ items, (∀ row, Lexes ⟨max firstLine 1, 1⟩ cs row ↔ row = items) ∧
      Judged items (readChars firstLine cs) :=
  ⟨_, fun _ => lexes_iff, judged firstLine cs⟩

def ones (n : Nat) : List Char := List.replicate n '1'

theorem read?_ones {n : Nat} (h : n ≠ 0) :
    Numeral.read? (ones n) = some ⟨false, List.replicate n 1, none, none⟩ := by
  obtain ⟨k, rfl⟩ := Nat.exists_eq_succ_of_ne_zero h
  have hone : Digit.value? '1' = some 1 := by decide
  have hdecimal : Digit.isDecimal '1' = true := by decide
  have hsign : Numeral.sign? (ones (k + 1)) = (false, ones (k + 1)) := rfl
  have hdigits : Numeral.digits? (ones (k + 1)) = some (List.replicate (k + 1) 1, []) := by
    simp [Numeral.digits?, ones, List.replicate_succ, hdecimal, hone]
  simp [Numeral.read?, hsign, hdigits, Numeral.fraction?, Numeral.exponent?]

/-- A text in which there is no map and no string, and which is still not read: its one number has
too many digits. -/
theorem long_number_rejected : ¬ ∀ (cs : List Char) (tokens : List Token),
    Lexes ⟨1, 1⟩ cs (tokens.map .token) → Blameless tokens → ¬ Unfinished tokens →
    (∀ t ∈ tokens, t.kind ≠ .string ∧ t.kind ≠ .opening .curly) →
      ∃ forms, readChars 1 cs = .ok forms := by
  intro h
  let t : Token := ⟨.number, ones (Digit.limit + 1), ⟨1, 1⟩⟩
  have hr : Numeral.read? t.text = some ⟨false, List.replicate (Digit.limit + 1) 1, none, none⟩ :=
    read?_ones (Nat.succ_ne_zero _)
  have hchosen : (Terminal.token .number).Chosen t.text [] :=
    Terminal.chosen_iff.mpr
      ⟨Terminal.takes_iff.mpr ⟨Terminal.mem_number.mpr (by rw [hr]; rfl), by rintro _ ⟨⟩⟩,
        fun hk => absurd rfl hk⟩
  have hitems : Token.items ⟨1, 1⟩ t.text = [t].map .token := by
    have hi := Lexing.items_chosen ⟨1, 1⟩ hchosen
    rwa [List.append_nil, Token.items] at hi
  have hreaches : Reaches [t] ⟨[], [.leaf t]⟩ := rfl
  obtain ⟨forms, hforms⟩ := h t.text [t] (lexes_iff.mpr hitems.symm)
    (blameless_iff.mpr ⟨_, hreaches⟩) ((frames_iff hreaches).mp rfl)
    (List.forall_mem_singleton.mpr ⟨by decide, by decide⟩)
  have hnest : nest {} (startOf 1) (Token.items (startOf 1) t.text) = .ok [.leaf t] :=
    (congrArg (nest {} (startOf 1)) hitems).trans rfl
  rw [readChars_nested hnest] at hforms
  have hlong : Numeral.isTooLong ⟨false, List.replicate (Digit.limit + 1) 1, none, none⟩ = true := by
    simp [Numeral.isTooLong, Numeral.isWhole]
  exact (toForms_ok_iff [.leaf t]).mp ⟨forms, hforms⟩ _ List.mem_cons_self (.number rfl hr hlong)
end Sumi.Form
