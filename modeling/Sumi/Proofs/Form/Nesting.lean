import Sumi.Form.Reader

namespace Sumi.Form

namespace Tree

def Nest.build (s : Nest) : List Item → Option Nest
  | [] => some s
  | .stray _ _ :: _ => none
  | .token t :: items => (s.step t).toOption.bind (·.build items)

theorem nest_ok_iff (s : Nest) (last : Place) (items : List Item) (trees : List Tree) :
    nest s last items = .ok trees ↔
      ∃ t, s.build items = some t ∧ t.frames = [] ∧ t.top.reverse = trees := by
  induction items generalizing s last with
  | nil => cases h : s.frames <;> simp [nest, Nest.build, h]
  | cons i items ih =>
      cases i with
      | stray => simp [nest, Nest.build]
      | token t => cases h : s.step t <;> simp [nest, Nest.build, h, Except.toOption, ih]

def Nest.over (s : Nest) (base : List Tree) : Nest := { s with top := s.top ++ base }

theorem put_over (t : Tree) (top base : List Tree) (frames : List Frame) :
    Nest.put t (top ++ base) frames = (Nest.put t top frames).over base := by
  induction frames generalizing t with
  | nil => rfl
  | cons f frames ih =>
      cases f with
      | bracket => rfl
      | mark m line => exact ih _

theorem step_over (s : Nest) (base : List Tree) (t : Token) :
    ((s.over base).step t).toOption = (s.step t).toOption.map (·.over base) := by
  rcases s with ⟨frames, top⟩
  cases hk : t.kind with
  | opening | mark => simp [Nest.step, Nest.over, hk, Except.toOption]
  | string | number | keyword | symbol =>
      simp [Nest.step, Nest.over, hk, Except.toOption, put_over]
  | closing b =>
      rcases frames with _ | ⟨⟨b', line, children⟩ | ⟨m, line⟩, frames⟩
      · simp [Nest.step, Nest.over, hk, Except.toOption]
      · by_cases hb : b = b' <;> simp [Nest.step, Nest.over, hk, hb, Except.toOption, put_over]
      · simp [Nest.step, Nest.over, hk, Except.toOption]

theorem build_over (s : Nest) (base : List Tree) (items : List Item) :
    (s.over base).build items = (s.build items).map (·.over base) := by
  induction items generalizing s with
  | nil => rfl
  | cons i items ih =>
      cases i with
      | stray => rfl
      | token t =>
          rw [Nest.build, Nest.build, step_over]
          cases s.step t <;> simp [Except.toOption, ih]

theorem toForms_append (ts us : List Tree) :
    toForms (ts ++ us) = (toForms ts).bind fun fs => (toForms us).map (fs ++ ·) := by
  induction ts with
  | nil => cases h : toForms us <;> simp [toForms, h, Except.bind, Except.map]
  | cons t ts ih =>
      rw [List.cons_append, toForms, toForms, ih]
      cases t.toForm with
      | error e => rfl
      | ok f =>
          cases toForms ts with
          | error e => rfl
          | ok fs => cases toForms us <;> rfl

end Tree

def Token.flat (t : Token) : Token := { t with place := ⟨t.place.line, 0⟩ }

def Item.flat : Item → Item
  | .token t => .token t.flat
  | .stray c place => .stray c ⟨place.line, 0⟩

theorem step_line {p q : Place} (h : p.line = q.line) (c : Char) :
    (p.step c).line = (q.step c).line := by
  unfold Place.step
  split <;> simp [h]

theorem advance_line {p q : Place} (h : p.line = q.line) (cs : List Char) :
    (p.advance cs).line = (q.advance cs).line := by
  induction cs generalizing p q with
  | nil => exact h
  | cons c cs ih => exact ih (step_line h c)

theorem advance_line_eq (p : Place) (cs : List Char) :
    (p.advance cs).line = p.line + cs.count '\n' := by
  induction cs generalizing p with
  | nil => rfl
  | cons c cs ih =>
      have hs : (p.step c).advance cs = p.advance (c :: cs) := rfl
      rw [← hs, ih]
      by_cases hc : c = '\n'
      · simp [Place.step, hc]
        omega
      · simp [Place.step, hc]

theorem items_flat {p q : Place} (h : p.line = q.line) (cs : List Char) :
    (Token.items p cs).map Item.flat = (Token.items q cs).map Item.flat := by
  fun_induction Token.items p cs generalizing q with
  | case1 => simp [Token.items]
  | case2 p c rest hc ih => rw [Token.items.eq_2, if_pos hc, ih (step_line h c)]
  | case3 p rest hc ih => rw [Token.items.eq_2, if_neg hc, if_pos rfl, ih (advance_line h _)]
  | case4 p c rest hc hs hl => simp [Token.items.eq_2, hc, hs, hl, Item.flat, h]
  | case5 p c rest hc hs kind n hl text =>
      rename_i ih
      rw [Token.items.eq_2, if_neg hc, if_neg hs, hl]
      simp [Item.flat, Token.flat, h, text, ih (advance_line h _)]

namespace Tree

mutual

def flat : Tree → Tree
  | .leaf t => .leaf t.flat
  | .mark m line child => .mark m line child.flat
  | .node b line children => .node b line (flatAll children)

def flatAll : List Tree → List Tree
  | [] => []
  | t :: ts => t.flat :: flatAll ts

end

theorem flatAll_eq_map (ts : List Tree) : flatAll ts = ts.map flat := by
  induction ts with
  | nil => rfl
  | cons t ts ih => rw [flatAll, ih, List.map_cons]

mutual

theorem toForm_flat : (t : Tree) → t.flat.toForm = t.toForm
  | .leaf _ => rfl
  | .mark m line child => by rw [flat, toForm, toForm, toForm_flat child]
  | .node b line children => by rw [flat, toForm, toForm, toForms_flat children]

theorem toForms_flat : (ts : List Tree) → toForms (flatAll ts) = toForms ts
  | [] => rfl
  | t :: ts => by rw [flatAll, toForms, toForms, toForm_flat t, toForms_flat ts]

end

def Frame.flat : Frame → Frame
  | .bracket b line children => .bracket b line (flatAll children)
  | .mark m line => .mark m line

def Nest.flat (s : Nest) : Nest := ⟨s.frames.map Frame.flat, flatAll s.top⟩

theorem put_flat (t : Tree) (top : List Tree) (frames : List Frame) :
    Nest.put t.flat (flatAll top) (frames.map Frame.flat) = (Nest.put t top frames).flat := by
  induction frames generalizing t with
  | nil => rfl
  | cons f frames ih =>
      cases f with
      | bracket => rfl
      | mark m line => exact ih (.mark m line t)

theorem step_flat (s : Nest) (t : Token) :
    (s.flat.step t.flat).toOption = (s.step t).toOption.map Nest.flat := by
  rcases s with ⟨frames, top⟩
  have hf : t.flat.kind = t.kind := rfl
  cases hk : t.kind with
  | opening | mark => simp [Nest.step, Nest.flat, hf, hk, Except.toOption]; rfl
  | string | number | keyword | symbol =>
      simp only [Nest.step, Nest.flat, hf, hk, Except.toOption, Option.map_some]
      rw [show Tree.leaf t.flat = (Tree.leaf t).flat from rfl, put_flat]
      rfl
  | closing b =>
      rcases frames with _ | ⟨⟨b', line, children⟩ | ⟨m, line⟩, frames⟩
      · simp [Nest.step, Nest.flat, hf, hk, Except.toOption]
      · by_cases hb : b = b'
        · simp only [Nest.step, Nest.flat, hf, hk, hb, Except.toOption, List.map_cons, Frame.flat,
            if_true, Option.map_some]
          rw [show Tree.node b' line (flatAll children).reverse = (Tree.node b' line children.reverse).flat
            by simp [flat, flatAll_eq_map], put_flat]
          rfl
        · simp [Nest.step, Nest.flat, Frame.flat, hf, hk, hb, Except.toOption]
      · simp [Nest.step, Nest.flat, Frame.flat, hf, hk, Except.toOption]

theorem build_flat (s : Nest) (items : List Item) :
    s.flat.build (items.map Item.flat) = (s.build items).map Nest.flat := by
  induction items generalizing s with
  | nil => rfl
  | cons i items ih =>
      cases i with
      | stray => rfl
      | token t =>
          rw [List.map_cons, Item.flat, Nest.build, Nest.build, step_flat]
          cases s.step t <;> simp [Except.toOption, ih]

end Tree

open Sumi.Form.Tree

def Reads (place : Place) (cs : List Char) (forms : List Form) : Prop :=
  ∃ s, Nest.build {} (Token.items place cs) = some s ∧ s.frames = [] ∧
    toForms s.top.reverse = .ok forms

theorem readChars_ok_iff (n : Nat) (cs : List Char) (forms : List Form) :
    readChars n cs = .ok forms ↔ Reads ⟨max n 1, 1⟩ cs forms := by
  have h := nest_ok_iff {} ⟨max n 1, 1⟩ (Token.items ⟨max n 1, 1⟩ cs)
  simp only [readChars, Reads]
  cases hn : nest {} ⟨max n 1, 1⟩ (Token.items ⟨max n 1, 1⟩ cs) with
  | error e =>
      simp only [hn, reduceCtorEq, false_iff, not_exists, not_and] at h ⊢
      intro s hs hf
      exact absurd rfl (h s.top.reverse s hs hf)
  | ok trees =>
      obtain ⟨s, hs, hf, ht⟩ := (h trees).mp hn
      simp [hs, hf, ht]

theorem Reads.of_line {p q : Place} {cs : List Char} {forms : List Form} (h : p.line = q.line)
    (hr : Reads p cs forms) : Reads q cs forms := by
  obtain ⟨s, hs, hf, ht⟩ := hr
  have hp := build_flat {} (Token.items p cs)
  have hq := build_flat {} (Token.items q cs)
  rw [items_flat h, hq, hs] at hp
  obtain ⟨t, hb, he⟩ := Option.map_eq_some_iff.mp hp
  have hframes : t.frames.map Frame.flat = s.frames.map Frame.flat := congrArg Nest.frames he
  have htop : flatAll t.top = flatAll s.top := congrArg Nest.top he
  refine ⟨t, hb, by simpa [hf] using hframes, ?_⟩
  rw [← ht, ← toForms_flat, ← toForms_flat s.top.reverse, flatAll_eq_map, flatAll_eq_map,
    List.map_reverse, List.map_reverse, ← flatAll_eq_map, ← flatAll_eq_map, htop]

theorem Reads.unique {p : Place} {cs : List Char} {forms others : List Form}
    (h : Reads p cs forms) (h' : Reads p cs others) : forms = others := by
  obtain ⟨s, hs, _, hf⟩ := h
  obtain ⟨t, ht, _, hg⟩ := h'
  cases hs.symm.trans ht
  exact Except.ok.inj (hf.symm.trans hg)

def Parted (p q : List Char) : Prop :=
  ∀ (place : Place) (s : Nest), s.build (Token.items place (p ++ q)) =
    (s.build (Token.items place p)).bind (·.build (Token.items (place.advance p) q))

/-- Nothing is open behind `p`, if all of its tokens have a place. -/
def Closed (p : List Char) : Prop :=
  ∀ (place : Place) (s : Nest), Nest.build {} (Token.items place p) = some s → s.frames = []

/-- A text reads as its parts do. -/
theorem reads_append_iff {p q : List Char} (hp : Parted p q) (hc : Closed p) (place : Place)
    (forms : List Form) :
    Reads place (p ++ q) forms ↔
      ∃ fs gs, Reads place p fs ∧ Reads (place.advance p) q gs ∧ forms = fs ++ gs := by
  -- nothing is open behind `p`, so nesting goes on there as it begins, over the trees so far
  have base (s : Nest) (hs : s.frames = []) (items : List Item) :
      s.build items = (Nest.build {} items).map (·.over s.top) := by
    rw [← build_over]
    congr 1
    cases s
    cases hs
    simp [Nest.over]
  constructor
  · rintro ⟨u, hu, hf, ht⟩
    rw [hp] at hu
    obtain ⟨s, hs, hu⟩ := Option.bind_eq_some_iff.mp hu
    have hsf := hc place s hs
    rw [base s hsf] at hu
    obtain ⟨t, hb, rfl⟩ := Option.map_eq_some_iff.mp hu
    simp only [Nest.over, List.reverse_append, toForms_append] at ht
    cases hfs : toForms s.top.reverse with
    | error e => simp [hfs, Except.bind] at ht
    | ok fs =>
        cases hgs : toForms t.top.reverse with
        | error e => simp [hfs, hgs, Except.bind, Except.map] at ht
        | ok gs =>
            rw [hfs, hgs] at ht
            exact ⟨fs, gs, ⟨s, hs, hsf, hfs⟩, ⟨t, hb, hf, hgs⟩, (Except.ok.inj ht).symm⟩
  · rintro ⟨fs, gs, ⟨s, hs, hsf, hfs⟩, ⟨t, hb, htf, hgs⟩, rfl⟩
    refine ⟨t.over s.top, ?_, htf, ?_⟩
    · rw [hp, hs, Option.bind_some, base s hsf, hb]
      rfl
    · simp [Nest.over, toForms_append, hfs, hgs, Except.bind, Except.map]

end Sumi.Form
