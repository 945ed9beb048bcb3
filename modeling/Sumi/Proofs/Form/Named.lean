import Mathlib.Data.List.TakeDrop
import Mathlib.Data.List.TakeWhile
import Sumi.Proofs.Analysis.Mention
import Sumi.Proofs.Form.Numeral

namespace Sumi.Form

theorem allNamed_iff (forms : List Form) : allNamed forms = true ↔ ∀ f ∈ forms, f.isNamed = true := by
  induction forms with
  | nil => simp [allNamed]
  | cons f forms ih => simp [allNamed, ih]

def Item.HasText : Item → Prop
  | .token t => t.text ≠ []
  | .stray _ _ => True

theorem items_hasText (place : Place) (cs : List Char) :
    ∀ i ∈ Token.items place cs, i.HasText := by
  induction place, cs using Token.items.induct with
  | case1 place => simp [Token.items]
  | case2 place c rest hc ih =>
      rw [Token.items, if_pos hc]
      exact ih
  | case3 place rest hc ih =>
      rw [Token.items, if_neg hc, if_pos rfl]
      exact ih
  | case4 place c rest hc hs hl =>
      rw [Token.items, if_neg hc, if_neg hs, hl]
      simp [Item.HasText]
  | case5 place c rest hc hs kind n hl text ih =>
      rw [Token.items, if_neg hc, if_neg hs, hl]
      intro i hi
      rcases List.mem_cons.mp hi with rfl | hi
      · exact List.cons_ne_nil c _
      · exact ih i hi

namespace Tree

mutual

def HasText : Tree → Prop
  | .leaf t => t.text ≠ []
  | .mark _ _ child => child.HasText
  | .node _ _ children => AllHaveText children

def AllHaveText : List Tree → Prop
  | [] => True
  | t :: ts => t.HasText ∧ AllHaveText ts

end

theorem allHaveText_iff (ts : List Tree) : AllHaveText ts ↔ ∀ t ∈ ts, t.HasText := by
  induction ts with
  | nil => simp [AllHaveText]
  | cons t ts ih => simp [AllHaveText, ih]

def Frame.HasText : Frame → Prop
  | .bracket _ _ children => AllHaveText children
  | .mark _ _ => True

structure Nest.HasText (s : Nest) : Prop where
  frames : ∀ f ∈ s.frames, f.HasText
  top : AllHaveText s.top

theorem put_hasText {t : Tree} (ht : t.HasText) {top : List Tree} {frames : List Frame}
    (h : Nest.HasText ⟨frames, top⟩) : (Nest.put t top frames).HasText := by
  induction frames generalizing t with
  | nil => exact ⟨h.frames, ht, h.top⟩
  | cons f frames ih =>
      have hrest : Nest.HasText ⟨frames, top⟩ :=
        ⟨fun f hf => h.frames f (List.mem_cons_of_mem _ hf), h.top⟩
      cases f with
      | mark m line => exact ih (t := .mark m line t) ht hrest
      | bracket b line children =>
          refine ⟨?_, h.top⟩
          intro f hf
          rcases List.mem_cons.mp hf with rfl | hf
          · exact ⟨ht, h.frames (.bracket b line children) List.mem_cons_self⟩
          · exact hrest.frames f hf

theorem step_hasText {s s' : Nest} {t : Token} (ht : t.text ≠ []) (h : s.HasText)
    (hs : s.step t = .ok s') : s'.HasText := by
  have hopen {f : Frame} (hf : f.HasText) : Nest.HasText ⟨f :: s.frames, s.top⟩ :=
    ⟨List.forall_mem_cons.mpr ⟨hf, h.frames⟩, h.top⟩
  unfold Nest.step at hs
  split at hs
  · cases hs
    exact hopen trivial
  · cases hs
    exact hopen trivial
  · split at hs
    · next b b' line children frames hframes =>
        split at hs
        · cases hs
          have hall := h.frames
          rw [hframes, List.forall_mem_cons] at hall
          refine put_hasText ?_ ⟨hall.2, h.top⟩
          have hchildren := hall.1
          rw [Frame.HasText, allHaveText_iff] at hchildren
          rw [HasText, allHaveText_iff]
          simpa using hchildren
        · cases hs
    · cases hs
  · cases hs
    exact put_hasText (t := .leaf t) ht h

theorem nest_hasText {items : List Item} (hi : ∀ i ∈ items, i.HasText) {s : Nest} {last : Place}
    {trees : List Tree} (h : s.HasText) (ht : nest s last items = .ok trees) :
    ∀ t ∈ trees, t.HasText := by
  induction items generalizing s last with
  | nil =>
      rw [nest] at ht
      split at ht
      · cases ht
        simpa using (allHaveText_iff _).mp h.top
      · cases ht
  | cons i items ih =>
      rw [List.forall_mem_cons] at hi
      cases i with
      | stray => cases ht
      | token t =>
          rw [nest] at ht
          cases hs : s.step t with
          | error e =>
              rw [hs] at ht
              cases ht
          | ok s' =>
              rw [hs] at ht
              exact ih hi.2 (step_hasText hi.1 h hs) ht

end Tree

structure Inherited (P : Form → Prop) : Prop where
  leaf : ∀ t : Token, t.text ≠ [] → ∀ f, Tree.leafForm t = .ok f → P f
  marked : ∀ m line f, P f → P (.list [sym (Tree.markName m), f] line)
  list : ∀ items line, (∀ f ∈ items, P f) → P (.list items line)
  vector : ∀ items line, (∀ f ∈ items, P f) → P (.vector items line)
  map : ∀ items line, items.length % 2 = 0 → (∀ f ∈ items, P f) → P (.map items line)

variable {P : Form → Prop}

theorem Inherited.node (hp : Inherited P) {b : Bracket} {line : Nat} {items : List Form}
    (hi : ∀ f ∈ items, P f) {f : Form} (h : Tree.nodeForm b line items = .ok f) : P f := by
  cases b with
  | round =>
      cases h
      exact hp.list items _ hi
  | square =>
      cases h
      exact hp.vector items _ hi
  | curly =>
      unfold Tree.nodeForm at h
      dsimp only at h
      split at h
      · next heven =>
          cases h
          exact hp.map items _ heven hi
      · cases h

namespace Tree

mutual

theorem toForm_inherited (hp : Inherited P) {t : Tree} (ht : t.HasText) {f : Form}
    (h : t.toForm = .ok f) : P f := by
  cases t with
  | leaf t => exact hp.leaf t ht f h
  | mark m line child =>
      rw [toForm] at h
      cases hc : child.toForm with
      | error e =>
          rw [hc] at h
          cases h
      | ok form =>
          rw [hc] at h
          cases h
          exact hp.marked m _ form (toForm_inherited hp (t := child) ht hc)
  | node b line children =>
      rw [toForm] at h
      cases hc : toForms children with
      | error e =>
          rw [hc] at h
          cases h
      | ok forms =>
          rw [hc] at h
          exact hp.node (toForms_inherited hp ht hc) h
termination_by sizeOf t

theorem toForms_inherited (hp : Inherited P) {ts : List Tree} (ht : AllHaveText ts)
    {forms : List Form} (h : toForms ts = .ok forms) : ∀ f ∈ forms, P f := by
  cases ts with
  | nil =>
      cases h
      simp
  | cons t ts =>
      rw [toForms] at h
      cases hf : t.toForm with
      | error e =>
          rw [hf] at h
          cases h
      | ok form =>
          cases hfs : toForms ts with
          | error e =>
              rw [hf, hfs] at h
              cases h
          | ok forms' =>
              rw [hf, hfs] at h
              cases h
              exact List.forall_mem_cons.mpr
                ⟨toForm_inherited hp ht.1 hf, toForms_inherited hp ht.2 hfs⟩
termination_by sizeOf ts

end

end Tree

theorem readAll_inherited (hp : Inherited P) {source : String} {forms : List Form}
    (h : readAll source = .ok forms) : ∀ f ∈ forms, P f := by
  unfold readAll readChars at h
  dsimp only at h
  split at h
  · cases h
  · next trees hn =>
      have hempty : Tree.Nest.HasText {} := ⟨nofun, trivial⟩
      have htext := Tree.nest_hasText (items_hasText _ _) hempty hn
      exact Tree.toForms_inherited hp ((Tree.allHaveText_iff trees).mpr htext) h

theorem symbolForm_named {s : String} (h : s ≠ "") : (Tree.symbolForm s).isNamed = true := by
  unfold Tree.symbolForm
  repeat' split
  · rfl
  · rfl
  · rfl
  · unfold Name.ofSymbol
    split
    · next hs =>
        subst hs
        rfl
    · unfold Name.split
      split
      · rfl
      · simpa [isNamed] using h

theorem leafForm_named {t : Token} (ht : t.text ≠ []) {f : Form} (h : Tree.leafForm t = .ok f) :
    f.isNamed = true := by
  unfold Tree.leafForm at h
  split at h
  · split at h <;> cases h
    rfl
  · rcases Tree.numberForm_cases h with rfl | ⟨x, rfl⟩ | ⟨n, rfl, -⟩ <;> rfl
  · cases h
    rfl
  · cases h
    apply symbolForm_named
    simpa using ht

theorem named_inherited : Inherited (·.isNamed = true) where
  leaf _ ht _ h := leafForm_named ht h
  marked m line f h := by
    cases m <;> simpa [isNamed, allNamed, sym, Name.plain, Tree.markName] using h
  list items line h := (allNamed_iff items).mpr h
  vector items line h := (allNamed_iff items).mpr h
  map items line _ h := (allNamed_iff items).mpr h

theorem readAll_named {source : String} {forms : List Form} (h : readAll source = .ok forms) :
    ∀ f ∈ forms, f.isNamed = true :=
  readAll_inherited named_inherited h

/-- A name without a namespace has no slash in it, unless that is all there is to it. -/
def Undivided (n : Name) : Prop := n.ns = none → n.name = "/" ∨ '/' ∉ n.name.toList

theorem ofSymbol_undivided (s : String) : Undivided (.ofSymbol s) := by
  unfold Name.ofSymbol
  split
  · next hs => exact fun _ => .inl hs
  · unfold Name.split
    split
    · exact nofun
    · next before hspan =>
      rw [List.span_eq_takeWhile_dropWhile, Prod.mk.injEq, List.dropWhile_eq_nil_iff] at hspan
      exact fun _ => .inr fun hm => absurd (hspan.2 '/' hm) (by decide)

structure Begins (f : Form) : Prop where
  symbol : ∀ n, f = .symbol n → Undivided n
  second : ∀ head n rest line, f = .list (head :: .symbol n :: rest) line → Undivided n

theorem leafForm_begins {t : Token} {f : Form} (h : Tree.leafForm t = .ok f) : Begins f := by
  unfold Tree.leafForm at h
  split at h
  · split at h <;> cases h
    exact ⟨nofun, nofun⟩
  · rcases Tree.numberForm_cases h with rfl | ⟨x, rfl⟩ | ⟨n, rfl, -⟩ <;> exact ⟨nofun, nofun⟩
  · cases h
    exact ⟨nofun, nofun⟩
  · cases h
    unfold Tree.symbolForm
    repeat' split
    · exact ⟨nofun, nofun⟩
    · exact ⟨nofun, nofun⟩
    · exact ⟨nofun, nofun⟩
    · refine ⟨?_, nofun⟩
      rintro n he
      cases he
      exact ofSymbol_undivided _

theorem begins_inherited : Inherited Begins where
  leaf _ _ _ h := leafForm_begins h
  marked m line f h := by
    refine ⟨nofun, ?_⟩
    rintro head n rest line' he
    cases he
    exact h.symbol n rfl
  list items line h := by
    refine ⟨nofun, ?_⟩
    rintro head n rest line' he
    cases he
    exact (h (.symbol n) (by simp)).symbol n rfl
  vector _ _ _ := ⟨nofun, nofun⟩
  map _ _ _ _ := ⟨nofun, nofun⟩

/-- The second of a list that is read, if it is a symbol, has an undivided name. -/
theorem readAll_begins {source : String} {forms : List Form} (h : readAll source = .ok forms) :
    ∀ f ∈ forms, Begins f :=
  readAll_inherited begins_inherited h

end Sumi.Form
