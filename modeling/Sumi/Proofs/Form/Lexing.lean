import Sumi.Proofs.Form.Terminal

namespace Sumi.Form

open Text Token

/-- The items of a text that begins at a place, by the terminals of the grammar. What is at the
head of the text is a token or stands between tokens, or no terminal takes any of it. -/
inductive Lexes : Place → List Char → List Item → Prop
  | done (p : Place) : Lexes p [] []
  | skip {p : Place} {t : Terminal} {w rest : List Char} {items : List Item}
      (between : t = .blank ∨ t = .comment) (chosen : t.Chosen w rest)
      (next : Lexes (p.advance w) rest items) : Lexes p (w ++ rest) items
  | token {p : Place} {k : Kind} {w rest : List Char} {items : List Item}
      (chosen : (Terminal.token k).Chosen w rest) (next : Lexes (p.advance w) rest items) :
      Lexes p (w ++ rest) (.token ⟨k, w, p⟩ :: items)
  | stray {p : Place} {c : Char} {cs : List Char}
      (nothing : ∀ (t : Terminal) w rest, w ++ rest = c :: cs → ¬ t.Takes w rest) :
      Lexes p (c :: cs) [.stray c p]

namespace Lexing

open Terminal

variable {t : Terminal} {k : Kind} {c : Char} {w rest cs : List Char}

theorem apart_of_inWord (hc : inWord c = true) : isSeparator c = false ∧ c ≠ ';' := by
  constructor
  · refine Bool.eq_false_iff.mpr fun hs => ?_
    rcases Bool.or_eq_true_iff.mp hs with hb | he
    · simp [inWord, isDelimiter, hb] at hc
    · rw [eq_of_beq he] at hc
      exact absurd hc (by decide)
  · rintro rfl
    exact absurd hc (by decide)

theorem inWord_of_isSeparator (hc : isSeparator c = true) : inWord c = false := by
  refine Bool.eq_false_iff.mpr fun hword => ?_
  rw [(apart_of_inWord hword).1] at hc
  cases hc

theorem begins_of_mem (hw : w ∈ (token k).language) :
    ∃ c v, w = c :: v ∧ isSeparator c = false ∧ c ≠ ';' := by
  cases k with
  | opening b => exact ⟨b.left, [], mem_opening.mp hw, by cases b <;> decide⟩
  | closing b => exact ⟨b.right, [], mem_closing.mp hw, by cases b <;> decide⟩
  | mark m => exact ⟨m.char, [], mem_mark.mp hw, by cases m <;> decide⟩
  | string =>
      obtain ⟨c, v, rfl, hc, -⟩ := mem_one_mul.mp hw
      obtain rfl := eq_of_beq hc
      exact ⟨'"', v, rfl, by decide⟩
  | number =>
      cases w with
      | nil => cases mem_number.mp hw
      | cons c v =>
          exact ⟨c, v, rfl, apart_of_inWord (worded_number _ hw c List.mem_cons_self)⟩
  | keyword =>
      obtain ⟨c, v, rfl, -⟩ := mem_keyword.mp hw
      exact ⟨':', c :: v, rfl, by decide⟩
  | symbol =>
      obtain ⟨c, v, rfl, hc, -⟩ := mem_symbol.mp hw
      exact ⟨c, v, rfl, apart_of_inWord (inWord_of_beginsSymbol hc)⟩

theorem chosen_blank (hc : isSeparator c = true) (hw : ∀ d ∈ w, isSeparator d = true)
    (hr : ∀ d ∈ rest.head?, isSeparator d = false) : blank.Chosen (c :: w) rest := by
  refine chosen_iff.mpr ⟨takes_iff.mpr ⟨mem_blank.mpr ⟨c, w, rfl, hc, hw⟩, hr⟩, fun _ => ?_⟩
  exact not_numbered (inWord_of_isSeparator hc) (w ++ rest)

theorem chosen_comment (hw : ∀ d ∈ w, (d != '\n') = true)
    (hr : ∀ d ∈ rest.head?, (d != '\n') = false) : comment.Chosen (';' :: w) rest := by
  refine chosen_iff.mpr ⟨takes_iff.mpr ⟨mem_comment.mpr ⟨w, rfl, hw⟩, hr⟩, fun _ => ?_⟩
  exact not_numbered (by decide) (w ++ rest)

theorem chosen_of_takes (h : t.Takes w rest) :
    ∃ (t : Terminal) (v rest' : List Char), v ++ rest' = w ++ rest ∧ t.Chosen v rest' := by
  by_cases hn : Numbered (w ++ rest)
  · obtain ⟨v, rest', he, hv⟩ := hn
    exact ⟨token .number, v, rest', he, hv, fun ht => absurd rfl ht⟩
  · exact ⟨t, w, rest, rfl, chosen_iff.mpr ⟨h, fun _ => hn⟩⟩

theorem items_blank (p : Place) (rest : List Char) (hw : ∀ d ∈ w, isSeparator d = true) :
    items p (w ++ rest) = items (p.advance w) rest := by
  induction w generalizing p with
  | nil => rfl
  | cons d w ih =>
      obtain ⟨hd, hw⟩ := List.forall_mem_cons.mp hw
      rw [List.cons_append, items.eq_2, if_pos hd]
      exact ih (p.step d) hw

theorem items_comment (p : Place) (hw : ∀ d ∈ w, (d != '\n') = true)
    (hr : ∀ d ∈ rest.head?, (d != '\n') = false) :
    items p (';' :: w ++ rest) = items (p.advance (';' :: w)) rest := by
  have hd : (w ++ rest).dropWhile (· != '\n') = rest := by
    rw [(takeWhile_parted _ w rest fun _ => hr).2, List.dropWhile_eq_nil_iff.mpr hw,
      List.nil_append]
  rw [List.cons_append, items.eq_2, if_neg (by decide), if_pos rfl, hd, takeWhile_run hw hr]

theorem items_token (p : Place) (hc : isSeparator c = false) (hs : c ≠ ';')
    (h : leading? c (w ++ rest) = some (k, w.length)) :
    items p (c :: w ++ rest) = .token ⟨k, c :: w, p⟩ :: items (p.advance (c :: w)) rest := by
  rw [List.cons_append, items.eq_2, if_neg (by simp [hc]), if_neg hs, h]
  simp only [List.take_left, List.drop_left]

theorem items_chosen (p : Place) (h : (token k).Chosen w rest) :
    items p (w ++ rest) = .token ⟨k, w, p⟩ :: items (p.advance w) rest := by
  obtain ⟨c, v, rfl, hc, hs⟩ := begins_of_mem h.takes.fits.writes
  exact items_token p hc hs (leading?_of_chosen h)

theorem items_stray (p : Place) (hc : isSeparator c = false) (hs : c ≠ ';')
    (h : leading? c cs = none) : items p (c :: cs) = [.stray c p] := by
  rw [items.eq_2, if_neg (by simp [hc]), if_neg hs, h]

theorem leading?_eq_none (h : ∀ (t : Terminal) w rest, w ++ rest = c :: cs → ¬ t.Takes w rest) :
    isSeparator c = false ∧ c ≠ ';' ∧ leading? c cs = none := by
  have hsep : isSeparator c = false := by
    refine Bool.eq_false_iff.mpr fun hc => ?_
    refine h blank (c :: cs.takeWhile isSeparator) (cs.dropWhile isSeparator) ?_ ?_
    · rw [List.cons_append, List.takeWhile_append_dropWhile]
    · exact (chosen_blank hc (fun d => List.mem_takeWhile_imp) (head?_dropWhile _ cs)).takes
  have hs : c ≠ ';' := by
    rintro rfl
    refine h comment (';' :: cs.takeWhile (· != '\n')) (cs.dropWhile (· != '\n')) ?_ ?_
    · rw [List.cons_append, List.takeWhile_append_dropWhile]
    · exact (chosen_comment (fun d => List.mem_takeWhile_imp) (head?_dropWhile _ cs)).takes
  refine ⟨hsep, hs, Option.eq_none_iff_forall_not_mem.mpr fun ⟨k, n⟩ hk => ?_⟩
  have hn : (cs.take n).length = n := List.length_take_of_le (leading?_le hsep hs hk)
  refine h (token k) (c :: cs.take n) (cs.drop n) ?_ ?_
  · rw [List.cons_append, List.take_append_drop]
  · refine (chosen_of_leading? hsep hs ?_).takes
    rwa [List.take_append_drop, hn]

theorem not_takes (hc : isSeparator c = false) (hs : c ≠ ';') (h : leading? c cs = none)
    (t : Terminal) (w rest : List Char) (he : w ++ rest = c :: cs) : ¬ t.Takes w rest := by
  intro htakes
  obtain ⟨t, w, rest, he', hchosen⟩ := chosen_of_takes htakes
  rw [he] at he'
  have hmem := hchosen.takes.fits.writes
  cases t with
  | blank =>
      obtain ⟨d, v, rfl, hd, -⟩ := mem_blank.mp hmem
      obtain ⟨rfl, -⟩ : d = c ∧ v ++ rest = cs := List.cons.inj he'
      rw [hc] at hd
      cases hd
  | comment =>
      obtain ⟨v, rfl, -⟩ := mem_comment.mp hmem
      obtain ⟨rfl, -⟩ : ';' = c ∧ v ++ rest = cs := List.cons.inj he'
      exact hs rfl
  | token k =>
      obtain ⟨d, v, rfl, -⟩ := begins_of_mem hmem
      obtain ⟨rfl, rfl⟩ : d = c ∧ v ++ rest = cs := List.cons.inj he'
      rw [leading?_of_chosen hchosen] at h
      cases h

end Lexing

open Lexing Terminal

theorem Lexes.eq_items {p : Place} {cs : List Char} {row : List Item} (h : Lexes p cs row) :
    row = items p cs := by
  induction h with
  | done p => simp [items]
  | @skip p t w rest row between chosen next ih =>
      rw [ih]
      obtain ⟨hmem, hstop⟩ := takes_iff.mp chosen.takes
      rcases between with rfl | rfl
      · obtain ⟨c, v, rfl, hc, hv⟩ := mem_blank.mp hmem
        exact (items_blank p _ (List.forall_mem_cons.mpr ⟨hc, hv⟩)).symm
      · obtain ⟨v, rfl, hv⟩ := mem_comment.mp hmem
        exact (items_comment p hv hstop).symm
  | token chosen next ih => rw [ih, items_chosen _ chosen]
  | stray nothing =>
      obtain ⟨hc, hs, hl⟩ := leading?_eq_none nothing
      exact (items_stray _ hc hs hl).symm

theorem lexes_items (p : Place) (cs : List Char) : Lexes p cs (items p cs) := by
  -- blanks are taken one by one by the reader and all at once by the grammar, so the induction is
  -- on the length of the text
  induction hn : cs.length using Nat.strong_induction_on generalizing p cs with
  | _ n ih =>
    cases cs with
    | nil => simpa [items] using Lexes.done p
    | cons c cs =>
        have shorter (w : List Char) {rest : List Char} (he : w ++ rest = cs) :
            Lexes (p.advance (c :: w)) rest (items (p.advance (c :: w)) rest) := by
          refine ih rest.length ?_ _ rest rfl
          rw [← hn, ← he, List.length_cons, List.length_append]
          omega
        by_cases hc : isSeparator c = true
        · have he := List.takeWhile_append_dropWhile (p := isSeparator) (l := cs)
          have hall : ∀ d ∈ cs.takeWhile isSeparator, isSeparator d = true :=
            fun d => List.mem_takeWhile_imp
          have hstep := items_blank p (cs.dropWhile isSeparator)
            (List.forall_mem_cons.mpr ⟨hc, hall⟩)
          have hskip := Lexes.skip (.inl rfl) (chosen_blank hc hall (head?_dropWhile _ cs))
            (shorter _ he)
          rwa [← hstep, List.cons_append, he] at hskip
        · rw [Bool.not_eq_true] at hc
          by_cases hs : c = ';'
          · subst hs
            have he := List.takeWhile_append_dropWhile (p := (· != '\n')) (l := cs)
            have hall : ∀ d ∈ cs.takeWhile (· != '\n'), (d != '\n') = true :=
              fun d => List.mem_takeWhile_imp
            have hstep := items_comment p hall (head?_dropWhile _ cs)
            have hskip := Lexes.skip (.inr rfl) (chosen_comment hall (head?_dropWhile _ cs))
              (shorter _ he)
            rwa [← hstep, List.cons_append, he] at hskip
          · cases hl : leading? c cs with
            | none =>
                rw [items_stray p hc hs hl]
                exact .stray (not_takes hc hs hl)
            | some kn =>
                obtain ⟨k, n⟩ := kn
                have he := List.take_append_drop n cs
                have hlen : (cs.take n).length = n :=
                  List.length_take_of_le (leading?_le hc hs hl)
                have hl' : leading? c (cs.take n ++ cs.drop n) = some (k, (cs.take n).length) := by
                  rwa [he, hlen]
                have htoken := Lexes.token (chosen_of_leading? hc hs hl') (shorter _ he)
                rwa [← items_token p hc hs hl', List.cons_append, he] at htoken

/-- The grammar cuts a text into the items that the reader finds. -/
theorem lexes_iff {p : Place} {cs : List Char} {row : List Item} :
    Lexes p cs row ↔ row = items p cs :=
  ⟨Lexes.eq_items, fun h => h ▸ lexes_items p cs⟩

end Sumi.Form
