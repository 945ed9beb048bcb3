import Sumi.Form.Stream
import Sumi.Proofs.Form.Prefix

namespace Sumi

namespace Text.Lines

theorem pieces_flatten (cs : List Char) : (pieces cs).flatten = cs := by
  induction cs with
  | nil => rfl
  | cons c cs ih =>
      unfold pieces
      split
      · simp [ih]
      · cases hp : pieces cs with
        | nil =>
            rw [hp] at ih
            simp [← ih]
        | cons line rest =>
            rw [hp] at ih
            simpa using ih

def Whole (line : List Char) : Prop := line.getLast? = some '\n' ∧ line.count '\n' = 1

theorem pieces_whole (cs : List Char) : ∀ line ∈ (pieces cs).dropLast, Whole line := by
  -- a character joins the first piece, which is whole unless it is the last one, too
  induction cs with
  | nil => simp [pieces]
  | cons c cs ih =>
      unfold pieces
      split
      · next hc =>
          subst hc
          intro line hl
          cases hp : pieces cs with
          | nil => simp [hp] at hl
          | cons l rest =>
              rw [hp] at ih
              rw [hp, List.dropLast_cons_of_ne_nil (by simp)] at hl
              rcases List.mem_cons.mp hl with rfl | hl
              · exact ⟨rfl, rfl⟩
              · exact ih line hl
      · next hc =>
          cases hp : pieces cs with
          | nil => simp
          | cons l rest =>
              rw [hp] at ih
              cases rest with
              | nil => simp
              | cons l' rest =>
                  simp only [List.dropLast_cons_of_ne_nil, ne_eq, reduceCtorEq, not_false_eq_true]
                    at ih ⊢
                  intro line hl
                  rcases List.mem_cons.mp hl with rfl | hl
                  · obtain ⟨hlast, hcount⟩ := ih l (by simp)
                    refine ⟨?_, by simpa [hc] using hcount⟩
                    rw [List.getLast?_cons, hlast]
                    rfl
                  · exact ih line (List.mem_cons_of_mem _ hl)

end Text.Lines

namespace Form.Stream

open Text Text.Lines

def drain (s : Stream) : Except ReadError (List Form) :=
  match _hn : s.next? with
  | none => .ok []
  | some (.error e, _) => .error e
  | some (.ok form, t) => (form :: ·) <$> t.drain
termination_by (s.weight, s.pending.length)
decreasing_by exact (next?_shorter _hn).lex

theorem drain_eq (s : Stream) : s.drain =
    match s.next? with
    | none => .ok []
    | some (.error e, _) => .error e
    | some (.ok form, t) => (form :: ·) <$> t.drain := by
  rw [drain]
  split <;> simp only [*]

def rest (s : Stream) : List Char := s.buffer ++ s.lines.flatten

/-- While lines are to come, the buffer holds whole lines and is counted from the right one. -/
structure Tidy (s : Stream) : Prop where
  whole : ∀ line ∈ s.lines.dropLast, Whole line
  positive : 1 ≤ s.bufferLine
  ended : s.lines ≠ [] → s.buffer = [] ∨ s.buffer.getLast? = some '\n'
  counted : s.lines ≠ [] → s.bufferLine + s.buffer.count '\n' = s.taken + 1

def Yields (s : Stream) (forms : List Form) : Prop :=
  ∃ gs, Reads ⟨s.bufferLine, 1⟩ s.rest gs ∧ forms = s.pending ++ gs

theorem tidy_ofText (s : String) : (ofText s).Tidy where
  whole := pieces_whole _
  positive := Nat.le_refl 1
  ended _ := .inl rfl
  counted _ := rfl

theorem yields_ofText (s : String) (forms : List Form) :
    (ofText s).Yields forms ↔ readAll s = .ok forms := by
  rw [readAll, readChars_ok_iff]
  simp [Yields, rest, ofText, pieces_flatten]

theorem take_tidy {s : Stream} (h : s.Tidy) {line : List Char} {rest : List (List Char)}
    (hl : s.lines = line :: rest) : (s.take line rest).Tidy := by
  have hw : rest ≠ [] → Whole line := by
    intro hr
    refine h.whole line ?_
    rw [hl, List.dropLast_cons_of_ne_nil hr]
    exact List.mem_cons_self
  have hrest : ∀ l ∈ rest.dropLast, Whole l := by
    intro l hm
    refine h.whole l ?_
    rw [hl, List.dropLast_cons_of_ne_nil (by rintro rfl; simp at hm)]
    exact List.mem_cons_of_mem _ hm
  have hne : s.lines ≠ [] := by simp [hl]
  unfold take
  split
  · exact ⟨hrest, Nat.le_add_left 1 _, fun hr => .inr (hw hr).1,
      fun hr => by rw [(hw hr).2]⟩
  · refine ⟨hrest, h.positive, fun hr => .inr ?_, fun hr => ?_⟩
    · simp [(hw hr).1]
    · have := h.counted hne
      simp only [List.count_append, (hw hr).2]
      omega

/-- Taking a line changes nothing about the forms: a buffer is dropped only where it holds none. -/
theorem take_yields {s : Stream} (h : s.Tidy) (hp : s.pending = [])
    (hc : Boundary.complete s.buffer = .ok 0) {line : List Char} {rest : List (List Char)}
    (hl : s.lines = line :: rest) (forms : List Form) :
    (s.take line rest).Yields forms ↔ s.Yields forms := by
  have hne : s.lines ≠ [] := by simp [hl]
  unfold take
  split
  · next hv =>
      have hb (gs : List Form) : Reads ⟨s.bufferLine, 1⟩ (s.buffer ++ s.lines.flatten) gs ↔ _ :=
        Boundary.reads_vacant_append hc hv (h.ended hne) ⟨s.bufferLine, 1⟩ gs
      have hline : (Place.advance ⟨s.bufferLine, 1⟩ s.buffer).line = s.taken + 1 :=
        (advance_line_eq _ _).trans (h.counted hne)
      have hs (gs : List Form) : Reads ⟨s.taken + 1, 1⟩ (line ++ rest.flatten) gs ↔
          Reads ⟨s.bufferLine, 1⟩ s.rest gs := by
        rw [Stream.rest, hb gs, hl]
        exact ⟨Reads.of_line hline.symm, Reads.of_line hline⟩
      simp only [Yields, hp]
      exact exists_congr fun gs => and_congr_left fun _ => hs gs
  · simp [Yields, Stream.rest, hp, hl]

theorem advance_tidy {s : Stream} (h : s.Tidy) (n : Nat) : (s.advance n).1.Tidy := by
  have hsplit : (s.buffer.take n).count '\n' + (s.buffer.drop n).count '\n' =
      s.buffer.count '\n' := by rw [← List.count_append, List.take_append_drop]
  refine ⟨h.whole, Nat.le_add_right_of_le h.positive, fun hne => ?_, fun hne => ?_⟩
  · show s.buffer.drop n = [] ∨ (s.buffer.drop n).getLast? = some '\n'
    rcases h.ended hne with hb | hb
    · simp [hb]
    · rw [List.getLast?_drop, hb]
      by_cases hn : s.buffer.length ≤ n
      · exact .inl (List.drop_eq_nil_of_le hn)
      · simp [hn]
  · have := h.counted hne
    show s.bufferLine + (s.buffer.take n).count '\n' + (s.buffer.drop n).count '\n' = s.taken + 1
    omega

/-- A complete beginning of the buffer reads on its own, whatever the lines to come hold. -/
theorem advance_yields {s : Stream} (h : s.Tidy) {n : Nat}
    (hc : Boundary.complete s.buffer = .ok (n + 1)) (hp : s.pending = []) (forms : List Form) :
    s.Yields forms ↔ ∃ fs, (s.advance (n + 1)).2 = .ok fs ∧
      Yields { (s.advance (n + 1)).1 with pending := fs } forms := by
  have hmore : s.lines.flatten = [] ∨ s.buffer.getLast? = some '\n' := by
    by_cases hne : s.lines = []
    · exact .inl (by simp [hne])
    · refine .inr ((h.ended hne).resolve_left ?_)
      intro hb
      rw [hb, Boundary.complete_nil] at hc
      cases hc
  obtain ⟨hparted, hclosed⟩ := Boundary.complete_parted hc (Nat.succ_ne_zero n) hmore
  have hrest : s.rest = s.buffer.take (n + 1) ++ (s.buffer.drop (n + 1) ++ s.lines.flatten) := by
    rw [← List.append_assoc, List.take_append_drop, rest]
  have hline := advance_line_eq ⟨s.bufferLine, 1⟩ (s.buffer.take (n + 1))
  have hmax : max s.bufferLine 1 = s.bufferLine := Nat.max_eq_left h.positive
  simp only [Yields, hp, List.nil_append, hrest, reads_append_iff hparted hclosed]
  constructor
  · rintro ⟨_, ⟨fs, gs, hf, hg, rfl⟩, rfl⟩
    refine ⟨fs, (readChars_ok_iff _ _ _).mpr ?_, gs, hg.of_line hline, rfl⟩
    rwa [hmax]
  · rintro ⟨fs, hf, gs, hg, rfl⟩
    have hf := (readChars_ok_iff _ _ _).mp hf
    rw [hmax] at hf
    exact ⟨_, ⟨fs, gs, hf, hg.of_line hline.symm, rfl⟩, rfl⟩

/-- What a reading says about the forms of a stream. -/
def Answers (s : Stream) : Option (Except ReadError Form × Stream) → Prop
  | none => ∀ forms, s.Yields forms ↔ forms = []
  | some (.error _, _) => ∀ forms, ¬ s.Yields forms
  | some (.ok form, t) =>
      t.Tidy ∧ ∀ forms, s.Yields forms ↔ ∃ more, forms = form :: more ∧ t.Yields more

theorem Answers.of_iff {s t : Stream} (h : ∀ forms, s.Yields forms ↔ t.Yields forms)
    {answer : Option (Except ReadError Form × Stream)} (ha : t.Answers answer) :
    s.Answers answer := by
  rcases answer with _ | ⟨_ | form, u⟩
  · exact fun forms => (h forms).trans (ha forms)
  · exact fun forms => (not_congr (h forms)).mpr (ha forms)
  · exact ⟨ha.1, fun forms => (h forms).trans (ha.2 forms)⟩

theorem next?_answers {s : Stream} (h : s.Tidy) : s.Answers s.next? := by
  -- a form waits, the scan blames a bracket, a line is taken, only white space is left, a form
  -- stays unfinished, or a complete beginning is read, with forms or with an error
  fun_induction next? s with
  | case1 s form rest hp =>
      refine ⟨⟨h.whole, h.positive, h.ended, h.counted⟩, fun forms => ?_⟩
      simp only [Yields, hp]
      constructor
      · rintro ⟨gs, hg, rfl⟩
        exact ⟨rest ++ gs, rfl, gs, hg, rfl⟩
      · rintro ⟨_, rfl, gs, hg, rfl⟩
        exact ⟨gs, hg, rfl⟩
  | case2 s hp e hc =>
      rintro forms ⟨gs, hg, -⟩
      exact Boundary.not_reads_of_error hc _ _ gs hg
  | case3 s hp hc line rest hl ih =>
      exact (ih (take_tidy h hl)).of_iff fun forms => (take_yields h hp hc hl forms).symm
  | case4 s hp hc hl hv =>
      intro forms
      have hr : Reads ⟨s.bufferLine, 1⟩ s.rest [] := by
        simpa [rest, hl] using Boundary.reads_vacant hv _
      constructor
      · rintro ⟨gs, hg, rfl⟩
        rw [hp, hg.unique hr]
        rfl
      · rintro rfl
        exact ⟨[], hr, by rw [hp]; rfl⟩
  | case5 s hp hc hl hv =>
      rintro forms ⟨gs, hg, -⟩
      rw [rest, hl, List.flatten_nil, List.append_nil] at hg
      exact hv (Boundary.vacant_of_reads hc hg)
  | case6 s hp n hc s' fs ha ih =>
      have ht := advance_tidy h (n + 1)
      have hy := advance_yields h hc hp
      rw [ha] at ht hy
      refine (ih ⟨ht.whole, ht.positive, ht.ended, ht.counted⟩).of_iff fun forms => ?_
      rw [hy forms]
      constructor
      · rintro ⟨_, he, hg⟩
        cases he
        exact hg
      · exact fun hg => ⟨fs, rfl, hg⟩
  | case7 s hp n hc s' e ha =>
      intro forms hg
      obtain ⟨fs, hf, -⟩ := (advance_yields h hc hp forms).mp hg
      rw [ha] at hf
      cases hf

theorem drain_yields {s : Stream} (h : s.Tidy) (forms : List Form) :
    s.drain = .ok forms ↔ s.Yields forms := by
  induction s using drain.induct generalizing forms with
  | case1 s hn =>
      have ha := next?_answers h
      rw [hn] at ha
      rw [drain_eq, hn, ha forms]
      exact ⟨fun he => (Except.ok.inj he).symm, fun he => by rw [he]⟩
  | case2 s e t hn =>
      have ha := next?_answers h
      rw [hn] at ha
      rw [drain_eq, hn]
      exact ⟨fun he => (nomatch he), fun hy => absurd hy (ha forms)⟩
  | case3 s form t hn ih =>
      have ha := next?_answers h
      rw [hn] at ha
      obtain ⟨ht, hy⟩ := ha
      rw [drain_eq, hn, hy forms]
      show (form :: ·) <$> t.drain = .ok forms ↔ _
      cases hd : t.drain with
      | error e =>
          refine ⟨fun he => (nomatch he), ?_⟩
          rintro ⟨more, -, hm⟩
          rw [← ih ht, hd] at hm
          cases hm
      | ok more =>
          have hm := (ih ht more).mp hd
          constructor
          · intro he
            exact ⟨more, (Except.ok.inj he).symm, hm⟩
          · rintro ⟨others, rfl, ho⟩
            rw [← ih ht, hd] at ho
            cases ho
            rfl

/-- A stream of lines gives the forms of its text, in order and each with its lines, and fails
exactly where the text has no reading. -/
theorem drain_ofText (s : String) (forms : List Form) :
    (ofText s).drain = .ok forms ↔ readAll s = .ok forms :=
  (drain_yields (tidy_ofText s) forms).trans (yields_ofText s forms)

end Form.Stream

end Sumi
