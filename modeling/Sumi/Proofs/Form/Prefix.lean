import Mathlib.Data.List.Induction
import Sumi.Proofs.Form.Scanning

namespace Sumi.Form.Boundary

open Text Token Sumi.Form.Tree Scan

namespace Scan

theorem outside_ok {s t : Scan} {c : Char} (h : s.outside c = .ok t) :
    t.last = s.last ∨ t.mode = .between ∧ t.depth = 0 ∧ t.last = t.seen := by
  unfold outside at h
  repeat' split at h
  all_goals cases h
  any_goals exact .inl rfl
  unfold mark
  split
  · exact .inr ⟨rfl, ‹_›, rfl⟩
  · exact .inl rfl

theorem outside_error {s : Scan} {c : Char} {x : Except ReadError Nat} (h : s.outside c = .error x) :
    s.depth = 0 ∧ (c = ')' ∨ c = ']' ∨ c = '\x7d') ∧
      x = if s.last = 0 then .error ⟨.strayBracket c, none, none⟩ else .ok s.last := by
  unfold outside at h
  repeat' split at h
  all_goals cases h
  all_goals exact ⟨‹_›, by simpa using ‹[')', ']', '\x7d'].contains c = true›, by simp [*]⟩

/-- A step finds at most one end of a form: in front of the character or behind it. -/
theorem step_ok {s t : Scan} {c : Char} (h : s.step c = .ok t) :
    t.last = s.last ∨ s.mode = .word ∧ isDelimiter c = true ∧ s.depth = 0 ∧ t.last = s.seen ∨
      t.mode = .between ∧ t.depth = 0 ∧ t.last = t.seen := by
  -- a form can end with a closing bracket or quote, or in front of what ends a word
  cases hm : s.mode with
  | between =>
      simp only [step, hm] at h
      exact (outside_ok h).imp_right .inr
  | word =>
      simp only [step, hm] at h
      split at h
      · rcases outside_ok h with hl | hl
        · by_cases hd : s.depth = 0
          · exact .inr (.inl ⟨rfl, ‹_›, hd, by simpa [mark, hd] using hl⟩)
          · exact .inl (by simpa [mark, hd] using hl)
        · exact .inr (.inr hl)
      · cases h
        exact .inl rfl
  | comment =>
      simp only [step, hm] at h
      split at h
      · exact (outside_ok h).imp_right .inr
      · cases h
        exact .inl rfl
  | string =>
      simp only [step, hm] at h
      split at h
      · cases h
        unfold mark
        split
        · exact .inr (.inr ⟨rfl, ‹_›, rfl⟩)
        · exact .inl rfl
      · cases h
        exact .inl rfl
  | escape =>
      simp only [step, hm] at h
      cases h
      exact .inl rfl

/-- The scan stops only at a closing bracket, where no bracket is open. -/
theorem step_error {s : Scan} {c : Char} {x : Except ReadError Nat} (h : s.step c = .error x) :
    s.depth = 0 ∧ (c = ')' ∨ c = ']' ∨ c = '\x7d') ∧ (∀ cs, s.Still (c :: cs)) ∧
      x = if s.rested.last = 0 then .error ⟨.strayBracket c, none, none⟩ else .ok s.rested.last := by
  have hstill : ∀ cs, s.Still (c :: cs) := by
    intro cs
    cases hm : s.mode with
    | between => simp [Still, hm]
    | word =>
        simp only [step, hm] at h
        split at h
        · simpa [Still, hm]
        · cases h
    | comment =>
        simp only [step, hm] at h
        split at h
        · simpa [Still, hm]
        · cases h
    | string =>
        simp only [step, hm] at h
        split at h <;> cases h
    | escape =>
        simp only [step, hm] at h
        cases h
  rw [step_still (hstill [])] at h
  obtain ⟨hd, hc, hx⟩ := outside_error h
  exact ⟨(rested_eq s).2.1 ▸ hd, hc, hstill, hx⟩

theorem step_lineFeed {s t : Scan} (h : s.step '\n' = .ok t) :
    t.mode = .between ∨ t.mode = .string := by
  have hd : isDelimiter '\n' = true := by decide
  have ho (u : Scan) : u.outside '\n' = .ok (u.past .between 1) := outside_separator u (by decide)
  cases hm : s.mode <;> simp [step, hm, hd, ho] at h <;> subst h <;> simp [past, moveTo]

theorem passes_seen {s t : Scan} {cs : List Char} (h : s.Passes cs t) (hs : s.Sound) :
    t.Sound ∧ t.seen = s.seen + cs.length := by
  induction cs generalizing s with
  | nil =>
      cases passes_nil.mp h
      exact ⟨hs, rfl⟩
  | cons c cs ih =>
      obtain ⟨m, hm, ht⟩ := passes_cons.mp h
      have hf := step_follows hs c
      rw [hm] at hf
      obtain ⟨hsound, hseen⟩ := ih ht hf.1
      exact ⟨hsound, by rw [hseen, hf.2, List.length_cons]; omega⟩

theorem still_lineFeed {s t : Scan} {cs : List Char} (h : s.Passes cs t)
    (hl : cs.getLast? = some '\n') (ht : t.Still []) (ds : List Char) : t.Still ds := by
  obtain ⟨init, rfl⟩ := List.getLast?_eq_some_iff.mp hl
  obtain ⟨m, _, hm⟩ := passes_append.mp h
  obtain ⟨u, hu, he⟩ := passes_cons.mp hm
  cases passes_nil.mp he
  rcases step_lineFeed hu with hm | hm
  · simp [Still, hm]
  · simp [Still, hm] at ht

/-- The scan stops at a character that stands behind what it gets over. -/
theorem stops {s : Scan} {cs : List Char} {x : Except ReadError Nat}
    (h : cs.foldlM step s = .error x) :
    ∃ pre c post m, cs = pre ++ c :: post ∧ s.Passes pre m ∧ m.step c = .error x := by
  induction cs generalizing s with
  | nil => cases h
  | cons c cs ih =>
      rw [List.foldlM_cons] at h
      cases hs : s.step c with
      | error y =>
          rw [hs] at h
          cases h
          exact ⟨[], c, cs, s, rfl, passes_nil.mpr rfl, hs⟩
      | ok m =>
          rw [hs] at h
          obtain ⟨pre, d, post, u, rfl, hp, hu⟩ := ih h
          exact ⟨c :: pre, d, post, u, rfl, passes_cons.mpr ⟨m, hs, hp⟩, hu⟩

/-- A form has ended between two texts, and nothing reaches from one into the other. -/
def Ends (cs ds : List Char) : Prop :=
  ∃ u : Scan, Passes {} cs u ∧ u.depth = 0 ∧ u.rested.last = u.seen ∧
    (u.mode = .between ∨ u.mode = .word ∧ ∃ d rest, ds = d :: rest ∧ isDelimiter d = true)

theorem Ends.append {cs ds : List Char} (h : Ends cs ds) (more : List Char) :
    Ends cs (ds ++ more) := by
  obtain ⟨u, hu, hd, hl, hm⟩ := h
  refine ⟨u, hu, hd, hl, hm.imp_right ?_⟩
  rintro ⟨hw, d, rest, rfl, hdel⟩
  exact ⟨hw, d, rest ++ more, rfl, hdel⟩

theorem ends_of_word {cs : List Char} {u : Scan} (hp : Passes {} cs u) (hm : u.mode = .word)
    (hd : u.depth = 0) {c : Char} (hc : isDelimiter c = true) (ds : List Char) :
    Ends cs (c :: ds) ∧ cs.length = u.seen := by
  have hlast : u.rested.last = u.seen := by simp [rested, hm, mark, hd]
  have hseen : u.seen = cs.length := by simpa using (passes_seen hp (Nat.le_refl 0)).2
  exact ⟨⟨u, hp, hd, hlast, .inr ⟨hm, c, ds, rfl, hc⟩⟩, hseen.symm⟩

/-- Where the scan says that a form ended, one did. -/
theorem passes_ends {cs : List Char} {t : Scan} (h : Passes {} cs t) :
    t.last = 0 ∨ ∃ pre post, cs = pre ++ post ∧ pre.length = t.last ∧ Ends pre post := by
  induction cs using List.reverseRecOn generalizing t with
  | nil =>
      cases passes_nil.mp h
      exact .inl rfl
  | append_singleton cs c ih =>
      obtain ⟨m, hm, ht⟩ := passes_append.mp h
      obtain ⟨u, hstep, he⟩ := passes_cons.mp ht
      cases passes_nil.mp he
      rcases step_ok hstep with hl | ⟨hw, hdel, hd, hl⟩ | ⟨hb, hd, hl⟩
      · rw [hl]
        refine (ih hm).imp_right ?_
        rintro ⟨pre, post, rfl, hlen, hends⟩
        exact ⟨pre, post ++ [c], by simp, hlen, hends.append [c]⟩
      · obtain ⟨hends, hlen⟩ := ends_of_word hm hw hd hdel []
        exact .inr ⟨cs, [c], rfl, hlen.trans hl.symm, hends⟩
      · have hseen := (passes_seen h (Nat.le_refl 0)).2
        refine .inr ⟨cs ++ [c], [], by simp, by simpa [hl] using hseen.symm, t, h, hd, ?_, .inl hb⟩
        rw [rested_of_between hb, hl]

theorem rested_ends {cs : List Char} {t : Scan} (h : Passes {} cs t) (hpos : t.rested.last ≠ 0) :
    t.mode = .word ∧ t.depth = 0 ∧ t.rested.last = t.seen ∨
      ∃ pre post, cs = pre ++ post ∧ pre.length = t.rested.last ∧ Ends pre post := by
  by_cases hw : t.mode = .word ∧ t.depth = 0
  · exact .inl ⟨hw.1, hw.2, by simp [rested, hw.1, mark, hw.2]⟩
  · have hl : t.rested.last = t.last := by
      unfold rested mark
      split <;> simp_all
    rw [hl] at hpos ⊢
    exact .inr ((passes_ends h).resolve_left hpos)

theorem Ends.still {cs ds : List Char} (h : Ends cs ds) :
    ∃ u : Scan, Passes {} cs u ∧ u.Still ds ∧ u.depth = 0 ∧ u.rested.last = u.seen := by
  obtain ⟨u, hu, hd, hl, hm⟩ := h
  refine ⟨u, hu, ?_, hd, hl⟩
  rcases hm with hm | ⟨hm, d, rest, rfl, hdel⟩
  · simp [Still, hm]
  · simpa [Still, hm] using hdel

end Scan

theorem complete_ok {cs : List Char} {n : Nat} (h : complete cs = .ok n) :
    (∃ t, Passes {} cs t ∧ t.rested.last = n) ∨
      ∃ pre c post m, cs = pre ++ c :: post ∧ Passes {} pre m ∧ isDelimiter c = true ∧
        m.rested.last = n ∧ n ≠ 0 := by
  unfold complete at h
  cases hf : cs.foldlM Scan.step {} with
  | ok t =>
      rw [hf] at h
      exact .inl ⟨t, hf, (finish_eq t).symm.trans (Except.ok.inj h)⟩
  | error x =>
      rw [hf] at h
      change x = .ok n at h
      obtain ⟨pre, c, post, m, rfl, hp, hs⟩ := stops hf
      obtain ⟨-, hc, -, hx⟩ := step_error hs
      refine .inr ⟨pre, c, post, m, rfl, hp, ?_, ?_⟩
      · rcases hc with rfl | rfl | rfl <;> decide
      · rw [h] at hx
        split at hx
        · cases hx
        · cases hx
          exact ⟨rfl, ‹_›⟩

/-- The complete beginning of a text ends with a form. More of a text may follow only a whole
line. -/
theorem complete_still {cs more : List Char} {n : Nat} (h : complete cs = .ok n) (hn : n ≠ 0)
    (hm : more = [] ∨ cs.getLast? = some '\n') :
    ∃ u : Scan, Passes {} (cs.take n) u ∧ u.Still (cs.drop n ++ more) ∧ u.depth = 0 ∧
      u.rested.last = u.seen := by
  have of_ends {pre post : List Char} (hcs : cs = pre ++ post) (hlen : pre.length = n)
      (he : Ends pre post) : ∃ u : Scan, Passes {} (cs.take n) u ∧
        u.Still (cs.drop n ++ more) ∧ u.depth = 0 ∧ u.rested.last = u.seen := by
    subst hcs hlen
    simpa using (he.append more).still
  rcases complete_ok h with ⟨t, hp, rfl⟩ | ⟨pre, c, post, m, rfl, hp, hc, rfl, -⟩
  · rcases rested_ends hp hn with ⟨hw, hd, hl⟩ | ⟨pre, post, hcs, hlen, he⟩
    · have hseen : t.seen = cs.length := by simpa using (passes_seen hp (Nat.le_refl 0)).2
      have hopen : t.Still [] := by simp [Still, hw]
      rw [hl, hseen, List.take_length, List.drop_length]
      refine ⟨t, hp, ?_, hd, hseen ▸ hl⟩
      rcases hm with rfl | hm
      · exact hopen
      · exact still_lineFeed hp hm hopen _
    · exact of_ends hcs hlen he
  · rcases rested_ends hp hn with ⟨hw, hd, hl⟩ | ⟨v, w, rfl, hlen, he⟩
    · obtain ⟨he, hlen⟩ := ends_of_word hp hw hd hc post
      exact of_ends rfl (hlen.trans hl.symm) he
    · exact of_ends (List.append_assoc _ _ _) hlen (he.append _)

theorem still_start (cs : List Char) : Still {} cs := trivial

theorem tracks_start : Tracks (rested {}) {} :=
  ⟨rfl, Nat.le_refl 0, fun _ => by simp [Ready]⟩

theorem complete_parted {cs more : List Char} {n : Nat} (h : complete cs = .ok n) (hn : n ≠ 0)
    (hm : more = [] ∨ cs.getLast? = some '\n') :
    Parted (cs.take n) (cs.drop n ++ more) ∧ Closed (cs.take n) := by
  obtain ⟨u, hu, hs, hd, hl⟩ := complete_still h hn hm
  refine ⟨fun place s => build_parted (still_start _) hu hs place s, fun place s hb => ?_⟩
  obtain ⟨ht, -⟩ := build_tracks (still_start _) hu place tracks_start hb
  have hr := rested_eq u
  exact (ht.ready (hl.trans hr.2.2.symm)).eq_nil (ht.depth.trans (hr.2.1.trans hd))

theorem build_closing {c : Char} (hc : c = ')' ∨ c = ']' ∨ c = '\x7d') {n : Nest}
    (hn : openBrackets n.frames = 0) (place : Place) (cs : List Char) :
    n.build (items place (c :: cs)) = none := by
  have hitems : ∃ t b rest, items place (c :: cs) = .token t :: rest ∧ t.kind = .closing b := by
    rcases hc with rfl | rfl | rfl
    · exact ⟨_, .round, _, by rw [items.eq_2]; rfl, rfl⟩
    · exact ⟨_, .square, _, by rw [items.eq_2]; rfl, rfl⟩
    · exact ⟨_, .curly, _, by rw [items.eq_2]; rfl, rfl⟩
  obtain ⟨t, b, rest, hi, hk⟩ := hitems
  have hstep : (n.step t).toOption = none := by
    rcases hf : n.frames with _ | ⟨⟨b', line, children⟩ | ⟨m, line⟩, frames⟩
    · simp [Nest.step, hk, hf, Except.toOption]
    · simp [hf] at hn
    · simp [Nest.step, hk, hf, Except.toOption]
  rw [hi, Nest.build, hstep]
  rfl

/-- A text with a bracket closed too early is not readable, however it goes on. -/
theorem not_reads_of_error {cs : List Char} {e : ReadError} (h : complete cs = .error e)
    (more : List Char) (place : Place) (forms : List Form) : ¬ Reads place (cs ++ more) forms := by
  unfold complete at h
  cases hf : cs.foldlM Scan.step {} with
  | ok t =>
      rw [hf] at h
      cases h
  | error x =>
      obtain ⟨pre, c, post, m, rfl, hp, hs⟩ := stops hf
      obtain ⟨hd, hc, hstill, -⟩ := step_error hs
      rintro ⟨s, hb, -⟩
      rw [List.append_assoc, List.cons_append, build_parted (still_start _) hp (hstill _)] at hb
      obtain ⟨n, hn, hb⟩ := Option.bind_eq_some_iff.mp hb
      obtain ⟨ht, -⟩ := build_tracks (still_start _) hp place tracks_start hn
      have hclosed : openBrackets n.frames = 0 := ht.depth.trans ((rested_eq m).2.1.trans hd)
      rw [build_closing hc hclosed] at hb
      cases hb

theorem isVacant_cons {c : Char} (hs : c ≠ ';') (cs : List Char) :
    isVacant (c :: cs) = (isSeparator c && isVacant cs) := by
  by_cases hc : c = '\n'
  · subst hc
    simp [isVacant, Lines.split, show isSeparator '\n' = true by decide]
  · cases hl : Lines.split cs with
    | nil => simp [isVacant, Lines.split, hc, hs, hl]
    | cons line rest =>
        simp [isVacant, Lines.split, hc, hs, hl, Bool.and_assoc]

theorem isVacant_comment (cs : List Char) :
    isVacant (';' :: cs) = isVacant (cs.dropWhile (· != '\n')) := by
  have htail (cs : List Char) : isVacant (cs.dropWhile (· != '\n')) =
      (Lines.split cs).tail.all (fun line => (line.takeWhile (· != ';')).all isSeparator) := by
    induction cs with
    | nil => rfl
    | cons c cs ih =>
        by_cases hc : c = '\n'
        · subst hc
          simp [isVacant, Lines.split]
        · rw [List.dropWhile_cons, if_pos (by simpa using hc), ih]
          cases hl : Lines.split cs <;> simp [Lines.split, hc, hl]
  rw [htail]
  cases hl : Lines.split cs <;> simp [isVacant, Lines.split, hl]

theorem isVacant_iff (place : Place) (cs : List Char) :
    isVacant cs = true ↔ items place cs = [] := by
  fun_induction items place cs with
  | case1 => exact ⟨fun _ => rfl, fun _ => rfl⟩
  | case2 place c rest hc ih =>
      have hs : c ≠ ';' := by
        rintro rfl
        revert hc
        decide
      rw [isVacant_cons hs, hc, Bool.true_and, ih]
  | case3 place rest hc ih => rw [isVacant_comment, ih]
  | case4 place c rest hc hs => simp [isVacant_cons hs, hc]
  | case5 place c rest hc hs => simp [isVacant_cons hs, hc]

/-- What reads but has no complete beginning holds no form at all. -/
theorem vacant_of_reads {cs : List Char} (h : complete cs = .ok 0) {place : Place}
    {forms : List Form} (hr : Reads place cs forms) : isVacant cs = true := by
  obtain ⟨s, hb, hf, -⟩ := hr
  rw [isVacant_iff place]
  rcases complete_ok h with ⟨t, hp, hl⟩ | ⟨_, _, _, _, _, _, _, _, hn⟩
  · obtain ⟨-, -, -, hpos⟩ := build_tracks (still_start _) hp place tracks_start hb
    by_contra hi
    exact absurd hl (hpos hi hf).ne'
  · exact absurd rfl hn

theorem reads_vacant {cs : List Char} (h : isVacant cs = true) (place : Place) :
    Reads place cs [] := by
  rw [isVacant_iff place] at h
  exact ⟨{}, by rw [h]; rfl, rfl, rfl⟩

theorem reads_vacant_append {cs more : List Char} (h : complete cs = .ok 0)
    (hv : isVacant cs = true) (hl : cs = [] ∨ cs.getLast? = some '\n') (place : Place)
    (forms : List Form) :
    Reads place (cs ++ more) forms ↔ Reads (place.advance cs) more forms := by
  rcases hl with rfl | hl
  · rfl
  rcases complete_ok h with ⟨t, hp, -⟩ | ⟨_, _, _, _, _, _, _, _, hn⟩
  · have hi := (isVacant_iff place cs).mp hv
    have hb0 : Nest.build {} (items place cs) = some {} := by
      rw [hi]
      rfl
    obtain ⟨-, hopen, -⟩ := build_tracks (still_start _) hp place tracks_start hb0
    have hb := build_parted (still_start _) hp (still_lineFeed hp hl hopen more) place {}
    rw [hi, Nest.build, Option.bind_some] at hb
    unfold Reads
    rw [hb]
  · exact absurd rfl hn

end Sumi.Form.Boundary
