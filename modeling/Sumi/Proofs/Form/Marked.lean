import Sumi.Proofs.Form.Judgement

namespace Sumi.Form

open Token Terminal Sumi.Form.Tree

variable {cs : List Char} {x : Form} {rest : List Form}

theorem tokens_of_build {items : List Item} {s t : Nest} (h : s.build items = some t) :
    ∃ tokens : List Token, items = tokens.map .token := by
  induction items generalizing s with
  | nil => exact ⟨[], rfl⟩
  | cons i items ih =>
      cases i with
      | stray => cases h
      | token u =>
          obtain ⟨s', -, h⟩ := Option.bind_eq_some_iff.mp h
          obtain ⟨tokens, rfl⟩ := ih h
          exact ⟨u :: tokens, rfl⟩

theorem reads_iff_parses {p : Place} {forms : List Form} : Reads p cs forms ↔
    ∃ tokens trees, items p cs = tokens.map .token ∧ ParsesAll tokens trees ∧
      toForms trees = .ok forms := by
  constructor
  · rintro ⟨⟨frames, top⟩, hb, rfl, ht⟩
    obtain ⟨tokens, hi⟩ := tokens_of_build hb
    refine ⟨tokens, top.reverse, hi, parsesAll_iff.mpr ?_, ht⟩
    rwa [Reaches, ← hi, List.reverse_reverse]
  · rintro ⟨tokens, trees, hi, hp, ht⟩
    refine ⟨⟨[], trees.reverse⟩, ?_, rfl, ?_⟩
    · rw [hi]
      exact parsesAll_iff.mp hp
    · rwa [List.reverse_reverse]

theorem items_mark (m : Mark) (p : Place) (cs : List Char) :
    items p (m.char :: cs) = .token ⟨.mark m, [m.char], p⟩ :: items (p.advance [m.char]) cs := by
  have hchosen : (token (.mark m)).Chosen [m.char] cs :=
    chosen_iff.mpr ⟨takes_iff.mpr ⟨mem_mark.mpr rfl, fun _ _ => rfl⟩,
      fun _ => not_numbered (by cases m <;> decide) cs⟩
  exact Lexing.items_chosen p hchosen

theorem reads_marked (m : Mark) {p : Place} (h : Reads p cs (x :: rest)) :
    Reads p (m.char :: cs) (.list [sym (markName m), x] (some p.line) :: rest) := by
  have hline : p.line = (p.advance [m.char]).line := by
    rw [advance_line_eq]
    cases m <;> rfl
  obtain ⟨tokens, trees, hi, hp, ht⟩ := reads_iff_parses.mp (h.of_line hline)
  cases hp with
  | nil => cases ht
  | @cons ts us t trees first others =>
      obtain ⟨f, gs, hf, hgs, he⟩ := toForms_cons.mp ht
      obtain ⟨rfl, rfl⟩ := List.cons.inj he
      have hmarked : ParsesAll (⟨.mark m, [m.char], p⟩ :: ts ++ us) (.mark m p.line t :: trees) :=
        .cons (.mark rfl first) others
      refine reads_iff_parses.mpr ⟨_, _, ?_, hmarked, ?_⟩
      · rw [items_mark, hi]
        rfl
      · exact toForms_cons.mpr ⟨_, _, toForm_mark.mpr ⟨x, hf, rfl⟩, hgs, rfl⟩

def marked (m : Mark) (source : String) : String := String.ofList (m.char :: source.toList)

theorem readAll_marked (m : Mark) {source : String} (h : readAll source = .ok (x :: rest)) :
    readAll (marked m source) = .ok (.list [sym (markName m), x] (some 1) :: rest) := by
  rw [readAll, readChars_ok_iff] at h ⊢
  rw [marked, String.toList_ofList]
  exact reads_marked m h

end Sumi.Form
