import Mathlib.Data.List.Induction
import Sumi.Proofs.Form.Scanning

namespace Sumi.Form

open Sumi.Form.Tree

def Token.Kind.isAtom : Token.Kind → Bool
  | .string | .number | .keyword | .symbol => true
  | .opening _ | .closing _ | .mark _ => false

mutual

/-- A row of tokens is one form, with this tree. -/
inductive Parses : List Token → Tree → Prop
  | leaf {t : Token} (atom : t.kind.isAtom = true) : Parses [t] (.leaf t)
  | mark {q : Token} {m : Mark} {ts : List Token} {child : Tree} (kind : q.kind = .mark m)
      (form : Parses ts child) : Parses (q :: ts) (.mark m q.place.line child)
  | node {o c : Token} {b : Bracket} {ts : List Token} {children : List Tree}
      (opening : o.kind = .opening b) (forms : ParsesAll ts children)
      (closing : c.kind = .closing b) : Parses (o :: (ts ++ [c])) (.node b o.place.line children)

inductive ParsesAll : List Token → List Tree → Prop
  | nil : ParsesAll [] []
  | cons {ts us : List Token} {t : Tree} {children : List Tree} (first : Parses ts t)
      (rest : ParsesAll us children) : ParsesAll (ts ++ us) (t :: children)

end

variable {ts us : List Token} {t : Token} {tree : Tree} {trees : List Tree} {s s' : Nest}

theorem parsesAll_single (h : Parses ts tree) : ParsesAll ts [tree] := by
  have hcons := ParsesAll.cons h .nil
  rwa [List.append_nil] at hcons

theorem ParsesAll.append {trees' : List Tree} (h : ParsesAll ts trees) (h' : ParsesAll us trees') :
    ParsesAll (ts ++ us) (trees ++ trees') := by
  induction trees generalizing ts with
  | nil =>
      cases h
      exact h'
  | cons tree trees ih =>
      cases h with
      | cons first rest =>
          rw [List.append_assoc]
          exact .cons first (ih rest)

theorem Parses.ne_nil (h : Parses ts tree) : ts ≠ [] := by
  cases h <;> exact List.cons_ne_nil _ _

namespace Tree

def Nest.add (s : Nest) (t : Tree) : Nest := Nest.put t s.top s.frames

theorem foldl_add_bracket (b : Bracket) (line : Nat) (children : List Tree) (frames : List Frame)
    (top : List Tree) (trees : List Tree) :
    trees.foldl Nest.add ⟨.bracket b line children :: frames, top⟩ =
      ⟨.bracket b line (trees.reverse ++ children) :: frames, top⟩ := by
  induction trees generalizing children with
  | nil => rfl
  | cons t trees ih => simpa [Nest.add, Nest.put] using ih (t :: children)

theorem foldl_add_top (top trees : List Tree) :
    trees.foldl Nest.add ⟨[], top⟩ = ⟨[], trees.reverse ++ top⟩ := by
  induction trees generalizing top with
  | nil => rfl
  | cons t trees ih => simpa [Nest.add, Nest.put] using ih (t :: top)

theorem step_leaf (s : Nest) (h : t.kind.isAtom = true) : s.step t = .ok (s.add (.leaf t)) := by
  unfold Nest.step
  split <;> simp_all [Token.Kind.isAtom, Nest.add]

theorem step_opening (s : Nest) {b : Bracket} (h : t.kind = .opening b) :
    s.step t = .ok ⟨.bracket b t.place.line [] :: s.frames, s.top⟩ := by
  rw [Nest.step, h]

theorem step_mark (s : Nest) {m : Mark} (h : t.kind = .mark m) :
    s.step t = .ok ⟨.mark m t.place.line :: s.frames, s.top⟩ := by
  rw [Nest.step, h]

theorem step_closing {b : Bracket} (h : t.kind = .closing b) (line : Nat) (children : List Tree)
    (frames : List Frame) (top : List Tree) :
    Nest.step ⟨.bracket b line children :: frames, top⟩ t =
      .ok (Nest.add ⟨frames, top⟩ (.node b line children.reverse)) := by
  simp [Nest.step, h, Nest.add]

theorem build_token (s : Nest) (h : s.step t = .ok s') (items : List Item) :
    s.build (.token t :: items) = s'.build items := by
  rw [Nest.build, h]
  rfl

mutual

theorem build_parses {ts : List Token} {tree : Tree} (h : Parses ts tree) (s : Nest)
    (items : List Item) : s.build (ts.map .token ++ items) = (s.add tree).build items := by
  cases h with
  | leaf atom => exact build_token s (step_leaf s atom) items
  | mark kind form =>
      rw [List.map_cons, List.cons_append, build_token s (step_mark s kind),
        build_parses form]
      rfl
  | node opening forms closing =>
      rw [List.map_cons, List.cons_append, build_token s (step_opening s opening), List.map_append,
        List.append_assoc, build_parsesAll forms, foldl_add_bracket]
      rw [List.map_singleton, List.singleton_append, build_token _ (step_closing closing ..)]
      simp

theorem build_parsesAll {ts : List Token} {trees : List Tree} (h : ParsesAll ts trees) (s : Nest)
    (items : List Item) :
    s.build (ts.map .token ++ items) = (trees.foldl Nest.add s).build items := by
  cases h with
  | nil => rfl
  | cons first rest =>
      rw [List.map_append, List.append_assoc, build_parses first, build_parsesAll rest]
      rfl

end

/-- The tokens that a state stands for: those of its trees, and of the frames around the next
one. -/
inductive Stands : Nest → List Token → Prop
  | top {ts : List Token} {top : List Tree} (forms : ParsesAll ts top.reverse) :
      Stands ⟨[], top⟩ ts
  | bracket {ts us : List Token} {o : Token} {b : Bracket} {children top : List Tree}
      {frames : List Frame} (outer : Stands ⟨frames, top⟩ ts) (kind : o.kind = .opening b)
      (forms : ParsesAll us children.reverse) :
      Stands ⟨.bracket b o.place.line children :: frames, top⟩ (ts ++ o :: us)
  | mark {ts : List Token} {q : Token} {m : Mark} {top : List Tree} {frames : List Frame}
      (outer : Stands ⟨frames, top⟩ ts) (kind : q.kind = .mark m) :
      Stands ⟨.mark m q.place.line :: frames, top⟩ (ts ++ [q])

theorem Stands.add (h : Stands s ts) (hp : Parses us tree) : Stands (s.add tree) (ts ++ us) := by
  induction h generalizing us tree with
  | top forms =>
      refine .top ?_
      rw [List.reverse_cons]
      exact forms.append (parsesAll_single hp)
  | bracket outer kind forms =>
      rw [List.append_assoc, List.cons_append]
      refine .bracket outer kind ?_
      rw [List.reverse_cons]
      exact forms.append (parsesAll_single hp)
  | mark outer kind ih =>
      rw [List.append_assoc]
      exact ih (.mark kind hp)

theorem Stands.step (h : Stands s ts) (hs : s.step t = .ok s') : Stands s' (ts ++ [t]) := by
  cases hk : t.kind with
  | string | number | keyword | symbol =>
      rw [step_leaf s (by rw [hk]; rfl)] at hs
      cases hs
      exact h.add (.leaf (by rw [hk]; rfl))
  | opening b =>
      rw [step_opening s hk] at hs
      cases hs
      exact .bracket h hk .nil
  | mark m =>
      rw [step_mark s hk] at hs
      cases hs
      exact .mark h hk
  | closing b =>
      cases h with
      | top | mark => simp [Nest.step, hk] at hs
      | @bracket ts us o b' children top frames outer kind forms =>
          by_cases hb : b = b'
          · subst hb
            rw [step_closing hk] at hs
            cases hs
            rw [List.append_assoc]
            exact outer.add (.node kind forms hk)
          · simp [Nest.step, hk, hb] at hs

def Reaches (ts : List Token) (s : Nest) : Prop := Nest.build {} (ts.map .token) = some s

theorem build_append (s : Nest) (items more : List Item) :
    s.build (items ++ more) = (s.build items).bind (·.build more) := by
  induction items generalizing s with
  | nil => rfl
  | cons i items ih =>
      cases i with
      | stray => rfl
      | token t =>
          rw [List.cons_append, Nest.build, Nest.build, Option.bind_assoc]
          simp only [ih]

theorem reaches_nil : Reaches [] s ↔ s = {} := by
  simp [Reaches, Nest.build, eq_comm]

theorem reaches_concat : Reaches (ts ++ [t]) s' ↔ ∃ s, Reaches ts s ∧ s.step t = .ok s' := by
  unfold Reaches
  rw [List.map_append, build_append, Option.bind_eq_some_iff]
  refine exists_congr fun s => and_congr_right fun _ => ?_
  cases hs : s.step t <;> simp [Nest.build, hs, Except.toOption]

theorem Reaches.stands (h : Reaches ts s) : Stands s ts := by
  induction ts using List.reverseRecOn generalizing s with
  | nil =>
      rw [reaches_nil.mp h]
      exact .top .nil
  | append_singleton ts t ih =>
      obtain ⟨s, hs, hstep⟩ := reaches_concat.mp h
      exact (ih hs).step hstep

/-- Nesting finds the trees of a row, and there are no others. -/
theorem parsesAll_iff : ParsesAll ts trees ↔ Reaches ts ⟨[], trees.reverse⟩ := by
  constructor
  · intro h
    have hb := build_parsesAll h {} []
    rw [List.append_nil, foldl_add_top, List.append_nil] at hb
    exact hb
  · intro h
    cases h.stands with
    | top forms => rwa [List.reverse_reverse] at forms

theorem parsesAll_unique {trees' : List Tree} (h : ParsesAll ts trees) (h' : ParsesAll ts trees') :
    trees = trees' := by
  have he := Option.some.inj ((parsesAll_iff.mp h).symm.trans (parsesAll_iff.mp h'))
  exact List.reverse_inj.mp (congrArg Nest.top he)

end Tree

def opened (ts : List Token) : List Bracket :=
  ts.foldl (fun open' t =>
    match t.kind with
    | .opening b => b :: open'
    | .closing _ => open'.tail
    | _ => open') []

inductive Blamed (before : List Token) : Item → Prop
  | stray (c : Char) (p : Place) : Blamed before (.stray c p)
  | unmatched {t : Token} {b : Bracket} (closing : t.kind = .closing b)
      (unmatched : (opened before).head? ≠ some b) : Blamed before (.token t)
  | marked {t q : Token} {b : Bracket} {m : Mark} (closing : t.kind = .closing b)
      (last : before.getLast? = some q) (mark : q.kind = .mark m) : Blamed before (.token t)

def Blameless (tokens : List Token) : Prop :=
  ∀ before t after, tokens = before ++ t :: after → ¬ Blamed before (.token t)

structure FirstBlamed (items : List Item) (before : List Token) (i : Item) (after : List Item) :
    Prop where
  split : items = before.map .token ++ i :: after
  blamed : Blamed before i
  first : Blameless before

def Begun (ts : List Token) : Prop := ∃ us vs t, ts = us ++ vs ∧ Parses us t

theorem Begun.append (h : Begun ts) (more : List Token) : Begun (ts ++ more) := by
  obtain ⟨us, vs, t, rfl, hp⟩ := h
  exact ⟨us, vs ++ more, t, List.append_assoc .., hp⟩

inductive Unfinished (tokens : List Token) : Prop
  | bracket (waiting : opened tokens ≠ [])
  | mark {before after : List Token} {q : Token} {m : Mark} (split : tokens = before ++ q :: after)
      (kind : q.kind = .mark m) (alone : ¬ Begun after)

namespace Tree

def Frame.bracket? : Frame → Option Bracket
  | .bracket b _ _ => some b
  | .mark _ _ => none

theorem add_bracket? (s : Nest) (t : Tree) :
    (s.add t).frames.filterMap Frame.bracket? = s.frames.filterMap Frame.bracket? := by
  rcases s with ⟨frames, top⟩
  induction frames generalizing t with
  | nil => rfl
  | cons f frames ih =>
      cases f with
      | bracket => rfl
      | mark m line => exact ih (.mark m line t)

theorem opened_concat (ts : List Token) (t : Token) : opened (ts ++ [t]) =
    match t.kind with
    | .opening b => b :: opened ts
    | .closing _ => (opened ts).tail
    | _ => opened ts := by
  rw [opened, List.foldl_append]
  rfl

structure Recalls (s : Nest) (ts : List Token) : Prop where
  brackets : s.frames.filterMap Frame.bracket? = opened ts
  ready : Ready s.frames ↔ ∀ q ∈ ts.getLast?, ∀ m, q.kind ≠ .mark m

theorem Recalls.of_add {tree : Tree} (h : s.frames.filterMap Frame.bracket? = opened (ts ++ [t]))
    (hk : ∀ m, t.kind ≠ .mark m) : Recalls (s.add tree) (ts ++ [t]) where
  brackets := (add_bracket? s tree).trans h
  ready := iff_of_true (put_frames tree s.top s.frames).2 (by simpa using hk)

theorem Recalls.step (h : Recalls s ts) (hs : s.step t = .ok s') : Recalls s' (ts ++ [t]) := by
  cases hk : t.kind with
  | string | number | keyword | symbol =>
      rw [step_leaf s (by rw [hk]; rfl)] at hs
      cases hs
      refine .of_add ?_ (by simp [hk])
      rw [h.brackets, opened_concat, hk]
  | opening b =>
      rw [step_opening s hk] at hs
      cases hs
      refine ⟨?_, iff_of_true (by simp [Ready, Frame.isBracket]) (by simp [hk])⟩
      rw [opened_concat, hk, ← h.brackets]
      rfl
  | mark m =>
      rw [step_mark s hk] at hs
      cases hs
      refine ⟨?_, iff_of_false (by simp [Ready, Frame.isBracket]) (by simp [hk])⟩
      rw [opened_concat, hk, ← h.brackets]
      rfl
  | closing b =>
      rcases s with ⟨_ | ⟨⟨b', line, children⟩ | ⟨m, line⟩, frames⟩, top⟩
      · simp [Nest.step, hk] at hs
      · by_cases hb : b = b'
        · subst hb
          rw [step_closing hk] at hs
          cases hs
          refine .of_add ?_ (by simp [hk])
          rw [opened_concat, hk, ← h.brackets]
          rfl
        · simp [Nest.step, hk, hb] at hs
      · simp [Nest.step, hk] at hs

theorem Reaches.recalls (h : Reaches ts s) : Recalls s ts := by
  induction ts using List.reverseRecOn generalizing s with
  | nil =>
      rw [reaches_nil.mp h]
      exact ⟨rfl, iff_of_true nofun nofun⟩
  | append_singleton ts t ih =>
      obtain ⟨s, hs, hstep⟩ := reaches_concat.mp h
      exact (ih hs).step hstep

theorem step_of_blamed (h : Reaches ts s) (hb : Blamed ts (.token t)) :
    s.step t = .error ⟨.strayToken t.text, some t.place, none⟩ := by
  obtain ⟨hbrackets, hready⟩ := h.recalls
  cases hb with
  | @unmatched t b closing unmatched =>
      rw [← hbrackets] at unmatched
      rcases s with ⟨_ | ⟨⟨b', line, children⟩ | ⟨m, line⟩, frames⟩, top⟩
      · simp [Nest.step, closing]
      · have hne : b ≠ b' := fun he => unmatched (by rw [he]; rfl)
        simp [Nest.step, closing, hne]
      · simp [Nest.step, closing]
  | @marked t q b m closing last mark =>
      rcases s with ⟨_ | ⟨⟨b', line, children⟩ | ⟨m, line⟩, frames⟩, top⟩
      · simp [Nest.step, closing]
      · exact absurd mark (hready.mp (by simp [Ready, Frame.isBracket]) q last m)
      · simp [Nest.step, closing]

theorem step_of_not_blamed (h : Reaches ts s) (hb : ¬ Blamed ts (.token t)) :
    ∃ s', s.step t = .ok s' := by
  obtain ⟨hbrackets, hready⟩ := h.recalls
  cases hk : t.kind with
  | string | number | keyword | symbol => exact ⟨_, step_leaf s (by rw [hk]; rfl)⟩
  | opening b => exact ⟨_, step_opening s hk⟩
  | mark m => exact ⟨_, step_mark s hk⟩
  | closing b =>
      have hlast : ∀ q ∈ ts.getLast?, ∀ m, q.kind ≠ .mark m :=
        fun q hq m hm => hb (.marked hk hq hm)
      have hhead : (opened ts).head? = some b := by
        by_contra hne
        exact hb (.unmatched hk hne)
      have hframes := hready.mpr hlast
      rcases s with ⟨_ | ⟨⟨b', line, children⟩ | ⟨m, line⟩, frames⟩, top⟩
      · rw [← hbrackets] at hhead
        cases hhead
      · rw [← hbrackets] at hhead
        cases hhead
        exact ⟨_, step_closing hk ..⟩
      · simp [Ready, Frame.isBracket] at hframes

theorem blameless_concat : Blameless (ts ++ [t]) ↔ Blameless ts ∧ ¬ Blamed ts (.token t) := by
  constructor
  · intro h
    refine ⟨fun before u after he => ?_, h ts t [] rfl⟩
    exact h before u (after ++ [t]) (by rw [he, List.append_assoc, List.cons_append])
  · rintro ⟨h, hb⟩ before u after he
    rcases split_concat he with ⟨rfl, rfl, -⟩ | ⟨after, -, he⟩
    · exact hb
    · exact h before u after he

theorem blamed_or_blameless (items : List Item) :
    (∃ before i after, FirstBlamed items before i after) ∨
      ∃ tokens, items = tokens.map .token ∧ Blameless tokens := by
  have split (before : List Token) (hb : Blameless before) (rest : List Item)
      (he : items = before.map .token ++ rest) :
      (∃ before i after, FirstBlamed items before i after) ∨
        ∃ tokens, items = tokens.map .token ∧ Blameless tokens := by
    induction rest generalizing before with
    | nil => exact .inr ⟨before, by rw [he, List.append_nil], hb⟩
    | cons i rest ih =>
        by_cases hi : Blamed before i
        · exact .inl ⟨before, i, rest, he, hi, hb⟩
        · cases i with
          | stray c p => exact absurd (.stray c p) hi
          | token t =>
              refine ih (before ++ [t]) (blameless_concat.mpr ⟨hb, hi⟩) ?_
              rw [he, List.map_append, List.append_assoc, List.map_singleton, List.singleton_append]
  exact split [] (by simp [Blameless]) items rfl

/-- Nesting gets over the rows in which every token has its place, and no others. -/
theorem blameless_iff : Blameless ts ↔ ∃ s, Reaches ts s := by
  induction ts using List.reverseRecOn with
  | nil => exact iff_of_true (by simp [Blameless]) ⟨{}, reaches_nil.mpr rfl⟩
  | append_singleton ts t ih =>
      rw [blameless_concat, ih]
      constructor
      · rintro ⟨⟨s, hs⟩, hb⟩
        obtain ⟨s', hstep⟩ := step_of_not_blamed hs hb
        exact ⟨s', reaches_concat.mpr ⟨s, hs, hstep⟩⟩
      · rintro ⟨s', hs'⟩
        obtain ⟨s, hs, hstep⟩ := reaches_concat.mp hs'
        refine ⟨⟨s, hs⟩, fun hb => ?_⟩
        rw [step_of_blamed hs hb] at hstep
        cases hstep

mutual

theorem marked_parses {ts : List Token} {tree : Tree} (h : Parses ts tree)
    {before after : List Token} {q : Token} {m : Mark} (hs : ts = before ++ q :: after)
    (hk : q.kind = .mark m) : Begun after := by
  cases h with
  | leaf atom =>
      obtain ⟨rfl, hs⟩ | ⟨-, hs⟩ := List.singleton_eq_append_iff.mp hs
      · cases hs
        rw [hk] at atom
        cases atom
      · cases hs
  | mark kind form =>
      cases before with
      | nil =>
          cases hs
          exact ⟨after, [], _, (List.append_nil _).symm, form⟩
      | cons p before => exact marked_parses form (List.cons.inj hs).2 hk
  | node opening forms closing =>
      cases before with
      | nil =>
          cases hs
          rw [hk] at opening
          cases opening
      | cons p before =>
          rcases split_concat (List.cons.inj hs).2 with ⟨-, rfl, -⟩ | ⟨after, rfl, hforms⟩
          · rw [hk] at closing
            cases closing
          · exact (marked_parsesAll forms hforms hk).append _

theorem marked_parsesAll {ts : List Token} {trees : List Tree} (h : ParsesAll ts trees)
    {before after : List Token} {q : Token} {m : Mark} (hs : ts = before ++ q :: after)
    (hk : q.kind = .mark m) : Begun after := by
  cases h with
  | nil => exact absurd hs (by simp)
  | cons first rest =>
      rcases List.append_eq_append_iff.mp hs with ⟨more, rfl, hrest⟩ | ⟨more, hfirst, hafter⟩
      · exact marked_parsesAll rest hrest hk
      · cases more with
        | nil => exact marked_parsesAll rest (hafter.symm.trans (List.nil_append _).symm) hk
        | cons p more =>
            obtain ⟨rfl, rfl⟩ := List.cons.inj hafter
            exact (marked_parses first hfirst hk).append _

end

theorem frames_iff (h : Reaches ts s) : s.frames = [] ↔ ¬ Unfinished ts := by
  obtain ⟨hbrackets, hready⟩ := h.recalls
  constructor
  · intro hf
    rintro (hopen | ⟨hs, hk, halone⟩)
    · rw [← hbrackets, hf] at hopen
      exact hopen rfl
    · cases h.stands with
      | top forms => exact halone (marked_parsesAll forms hs hk)
      | bracket | mark => cases hf
  · intro hu
    rcases s with ⟨_ | ⟨⟨b', line, children⟩ | ⟨m, line⟩, frames⟩, top⟩
    · rfl
    · refine absurd (.bracket ?_) hu
      rw [← hbrackets]
      exact List.cons_ne_nil _ _
    · cases h.stands with
      | mark outer kind =>
          refine absurd (.mark rfl kind ?_) hu
          rintro ⟨us, vs, t, he, hp⟩
          exact hp.ne_nil (List.append_eq_nil_iff.mp he.symm).1

end Tree

end Sumi.Form
