import Sumi.Form.Boundary
import Sumi.Proofs.Form.Nesting
import Sumi.Proofs.Rows

namespace Sumi.Form

open Text Token Boundary

namespace Token

/-- What may stand at the head of a text that begins neither with a blank nor with a comment. The
token at the head of a word is decided by the word alone. -/
inductive Head (c : Char) (rest : List Char) : Prop
  | opening (b : Bracket) (hc : c = '(' ∨ c = '[' ∨ c = '\x7b')
      (h : leading? c rest = some (.opening b, 0))
  | closing (b : Bracket) (hc : c = ')' ∨ c = ']' ∨ c = '\x7d')
      (h : leading? c rest = some (.closing b, 0))
  | mark (m : Mark) (hc : c = '\'' ∨ c = '@') (h : leading? c rest = some (.mark m, 0))
  | string (hc : c = '"') (h : leading? c rest = (stringLength rest).map (fun n => (.string, n)))
  | word (hc : inWord c = true)
      (h : ∀ kind n, leading? c rest = some (kind, n) →
        (kind = .number ∨ kind = .keyword ∨ kind = .symbol) ∧ n = (rest.takeWhile inWord).length)
      (same : ∀ other : List Char, other.takeWhile inWord = rest.takeWhile inWord →
        leading? c other = leading? c rest)

/-- A word is a number before it is a symbol, unless it is a keyword. -/
theorem leading?_word {c : Char} (hc : inWord c = true) (hk : c ≠ ':') (rest : List Char) :
    leading? c rest =
      if (Numeral.read? (c :: rest.takeWhile inWord)).isSome then
        some (.number, (rest.takeWhile inWord).length)
      else if beginsSymbol c then some (.symbol, (rest.takeWhile inWord).length)
      else none := by
  unfold leading?
  split <;> first | rfl | exact absurd hc (by decide) | exact absurd rfl hk

theorem head_cases {c : Char} (hc : isSeparator c = false) (hs : c ≠ ';') (rest : List Char) :
    Head c rest := by
  simp only [isSeparator, Bool.or_eq_false_iff, beq_eq_false_iff_ne] at hc
  by_cases h1 : c = '('; · subst h1; exact .opening .round (by simp) rfl
  by_cases h2 : c = '['; · subst h2; exact .opening .square (by simp) rfl
  by_cases h3 : c = '\x7b'; · subst h3; exact .opening .curly (by simp) rfl
  by_cases h4 : c = ')'; · subst h4; exact .closing .round (by simp) rfl
  by_cases h5 : c = ']'; · subst h5; exact .closing .square (by simp) rfl
  by_cases h6 : c = '\x7d'; · subst h6; exact .closing .curly (by simp) rfl
  by_cases h7 : c = '\''; · subst h7; exact .mark .quote (by simp) rfl
  by_cases h8 : c = '@'; · subst h8; exact .mark .deref (by simp) rfl
  by_cases h9 : c = '"'; · subst h9; exact .string rfl rfl
  have hw : inWord c = true := by simp [inWord, isDelimiter, *]
  by_cases h10 : c = ':'
  · subst h10
    refine .word hw (fun kind n h => ?_) (fun other ho => ?_)
    · cases hr : rest.takeWhile inWord with
      | nil => simp [leading?, hr] at h
      | cons d ds =>
          simp only [leading?, hr, Option.ite_none_left_eq_some, Option.some.injEq,
            Prod.mk.injEq] at h
          exact ⟨.inr (.inl h.2.1.symm), by simp [← h.2.2]⟩
    · simp only [leading?, ho]
  · have plain := leading?_word hw h10
    refine .word hw (fun kind n h => ?_) (fun other ho => by rw [plain, plain, ho])
    rw [plain] at h
    split at h
    · cases h; simp
    · split at h
      · cases h; simp
      · cases h

theorem stringLength_plain {c : Char} (hq : c ≠ '"') (hb : c ≠ '\\') (cs : List Char) :
    stringLength (c :: cs) = (stringLength cs).map (· + 1) := by
  rw [stringLength.eq_def]
  split <;> simp_all

theorem stringLength_append {cs : List Char} {n : Nat} (h : stringLength cs = some n)
    (ds : List Char) : stringLength (cs ++ ds) = some n := by
  fun_induction stringLength cs generalizing n with
  | case1 | case3 | case5 => cases h
  | case2 => simpa [stringLength] using h
  | case4 c cs hc ih =>
      obtain ⟨k, hk, rfl⟩ := Option.map_eq_some_iff.mp h
      simp [stringLength, hc, ih hk]
  | case6 c cs hq he hb ih =>
      obtain ⟨k, hk, rfl⟩ := Option.map_eq_some_iff.mp h
      have hc : c ≠ '\\' := fun hc => by
        cases cs with
        | nil => exact hb hc rfl
        | cons d ds => exact he d ds hc rfl
      simp [stringLength_plain hq hc, ih hk]

theorem stringLength_le {cs : List Char} {n : Nat} (h : stringLength cs = some n) :
    n ≤ cs.length := by
  fun_induction stringLength cs generalizing n with
  | case1 | case3 | case5 => cases h
  | case2 => cases h; simp
  | case4 c cs hc ih | case6 c cs hq he hb ih =>
      obtain ⟨k, hk, rfl⟩ := Option.map_eq_some_iff.mp h
      have := ih hk
      simp only [List.length_cons]
      omega

/-- The token at the head of a text stays when more text follows that belongs to no word and to no
string at its end. -/
theorem leading?_append {c : Char} (hc : isSeparator c = false) (hs : c ≠ ';') {cs ds : List Char}
    (hw : inWord c = true → cs.dropWhile inWord = [] → ∀ d ∈ ds.head?, inWord d = false)
    (hq : c = '"' → stringLength cs = none → stringLength (cs ++ ds) = none) :
    leading? c (cs ++ ds) = leading? c cs := by
  cases head_cases hc hs cs with
  | opening b hc | closing b hc => rcases hc with rfl | rfl | rfl <;> rfl
  | mark m hc => rcases hc with rfl | rfl <;> rfl
  | string hc =>
      subst hc
      show (stringLength _).map _ = (stringLength _).map _
      cases h : stringLength cs with
      | none => rw [hq rfl h]
      | some n => rw [stringLength_append h]
  | word hc h same => exact same _ (takeWhile_parted inWord cs ds (hw hc)).1

theorem leading?_le {c : Char} (hc : isSeparator c = false) (hs : c ≠ ';') {cs : List Char}
    {kind : Kind} {n : Nat} (h : leading? c cs = some (kind, n)) : n ≤ cs.length := by
  cases head_cases hc hs cs with
  | opening b _ hl | closing b _ hl | mark m _ hl =>
      cases hl.symm.trans h
      exact Nat.zero_le _
  | string _ hl =>
      obtain ⟨k, hk, he⟩ := Option.map_eq_some_iff.mp (hl.symm.trans h)
      cases he
      exact stringLength_le hk
  | word _ hl =>
      rw [(hl kind n h).2]
      exact (List.takeWhile_sublist _).length_le

end Token

namespace Boundary.Scan

def Passes (s : Scan) (cs : List Char) (t : Scan) : Prop := cs.foldlM step s = .ok t

@[simp] theorem passes_nil {s t : Scan} : s.Passes [] t ↔ s = t := by
  simp [Passes, pure, Except.pure]

theorem passes_cons {s t : Scan} {c : Char} {cs : List Char} :
    s.Passes (c :: cs) t ↔ ∃ m, s.step c = .ok m ∧ m.Passes cs t := by
  unfold Passes
  rw [List.foldlM_cons]
  cases s.step c <;> simp [bind, Except.bind]

theorem passes_append {s t : Scan} {cs ds : List Char} :
    s.Passes (cs ++ ds) t ↔ ∃ m, s.Passes cs m ∧ m.Passes ds t := by
  unfold Passes
  rw [List.foldlM_append]
  cases cs.foldlM step s <;> simp [bind, Except.bind]

def past (s : Scan) (mode : Mode) (n : Nat) : Scan := { s with mode := mode, seen := s.seen + n }

def rested (s : Scan) : Scan := { if s.mode = .word then s.mark else s with mode := .between }

theorem finish_eq (s : Scan) : s.finish = s.rested.last := by
  unfold finish rested
  split <;> rfl

theorem mark_eq (s : Scan) : s.mark.mode = s.mode ∧ s.mark.depth = s.depth ∧
    s.mark.seen = s.seen := by
  unfold mark
  split <;> simp

theorem rested_eq (s : Scan) : s.rested.mode = .between ∧ s.rested.depth = s.depth ∧
    s.rested.seen = s.seen := by
  have := mark_eq s
  unfold rested
  split <;> simp [this]

theorem rested_of_between {s : Scan} (h : s.mode = .between) : s.rested = s := by
  cases s
  cases h
  rfl

@[simp] theorem rested_past_between (s : Scan) (n : Nat) :
    (s.past .between n).rested = s.past .between n :=
  rested_of_between rfl

@[simp] theorem rested_past_word (s : Scan) (n : Nat) :
    (s.past .word n).rested = (s.past .between n).mark := by
  by_cases h : s.depth = 0 <;> simp [rested, past, mark, h]

@[simp] theorem rested_past_comment (s : Scan) (n : Nat) :
    (s.past .comment n).rested = s.past .between n :=
  rfl

theorem outside_congr {s t : Scan} (h : { s with mode := .between } = { t with mode := .between })
    (c : Char) : s.outside c = t.outside c := by
  rcases s with ⟨m, depth, seen, last⟩
  rcases t with ⟨m', depth', seen', last'⟩
  simp only [Scan.mk.injEq, true_and] at h
  obtain ⟨rfl, rfl, rfl⟩ := h
  rfl

def Still (s : Scan) (cs : List Char) : Prop :=
  match s.mode with
  | .between => True
  | .word => ∀ c ∈ cs.head?, isDelimiter c = true
  | .comment => ∀ c ∈ cs.head?, c = '\n'
  | .string | .escape => False

theorem step_still {s : Scan} {c : Char} {cs : List Char} (h : s.Still (c :: cs)) :
    s.step c = s.rested.outside c := by
  unfold Still at h
  cases hm : s.mode with
  | between => rw [rested_of_between hm]; simp [step, hm]
  | word =>
      have hd : isDelimiter c = true := by simpa [hm] using h
      simp only [step, hm, hd, if_true]
      exact outside_congr (by simp [rested, hm]) c
  | comment =>
      have hc : c = '\n' := by simpa [hm] using h
      simp only [step, hm, hc, if_true]
      exact outside_congr (by simp [rested, hm]) '\n'
  | string => simp [hm] at h
  | escape => simp [hm] at h

theorem outside_separator (s : Scan) {c : Char} (hc : isSeparator c = true) :
    s.outside c = .ok (s.past .between 1) := by
  have hb : ∀ d ∈ ['"', ';', '(', '[', '\x7b', ')', ']', '\x7d'], c ≠ d := by
    have hall : ∀ d ∈ ['"', ';', '(', '[', '\x7b', ')', ']', '\x7d'], isSeparator d = false := by
      simp [isSeparator, Blank.isBlank]
    rintro d hd rfl
    simp [hall c hd] at hc
  simp only [List.mem_cons, List.not_mem_nil, or_false, forall_eq_or_imp, forall_eq] at hb
  simp [outside, hb, hc, moveTo, past]

theorem outside_word (s : Scan) {c : Char} (hc : inWord c = true) :
    s.outside c = .ok (s.past .word 1) := by
  have hb : isDelimiter c = false := by simpa [inWord] using hc
  simp only [isDelimiter, Bool.or_eq_false_iff, List.contains_cons, List.contains_nil,
    beq_eq_false_iff_ne, Bool.or_false] at hb
  simp [outside, isSeparator, hb, moveTo, past]

theorem word_passes {s : Scan} (hs : s.mode = .word) (cs : List Char)
    (h : ∀ c ∈ cs, inWord c = true) : s.Passes cs (s.past .word cs.length) := by
  induction cs generalizing s with
  | nil => simp [past, ← hs]
  | cons c cs ih =>
      have hc : isDelimiter c = false := by simpa [inWord] using h c (by simp)
      have hstep : s.step c = .ok (s.past .word 1) := by simp [step, hs, hc, moveTo, past]
      refine passes_cons.mpr ⟨_, hstep, ?_⟩
      have := ih (s := s.past .word 1) rfl (fun d hd => h d (by simp [hd]))
      simpa [past, Nat.add_assoc, Nat.add_comm 1] using this

theorem comment_passes {s : Scan} (hs : s.mode = .comment) (cs : List Char)
    (h : ∀ c ∈ cs, c ≠ '\n') : s.Passes cs (s.past .comment cs.length) := by
  induction cs generalizing s with
  | nil => simp [past, ← hs]
  | cons c cs ih =>
      have hstep : s.step c = .ok (s.past .comment 1) := by
        simp [step, hs, h c (by simp), moveTo, past]
      refine passes_cons.mpr ⟨_, hstep, ?_⟩
      have := ih (s := s.past .comment 1) rfl (fun d hd => h d (by simp [hd]))
      simpa [past, Nat.add_assoc, Nat.add_comm 1] using this

theorem step_string {s : Scan} (hs : s.mode = .string) {c : Char} (hq : c ≠ '"') (hb : c ≠ '\\') :
    s.step c = .ok (s.past .string 1) := by
  simp [step, hs, hq, hb, moveTo, past]

theorem pass_escape {s t : Scan} (hs : s.mode = .string) (c : Char) (cs : List Char) :
    s.Passes ('\\' :: c :: cs) t ↔ (s.past .string 2).Passes cs t := by
  simp [passes_cons, step, hs, moveTo, past]

theorem string_passes {s : Scan} (hs : s.mode = .string) {cs : List Char} {n : Nat}
    (h : stringLength cs = some n) : s.Passes (cs.take n) (s.past .between n).mark := by
  fun_induction stringLength cs generalizing s n with
  | case1 | case3 | case5 => cases h
  | case2 =>
      cases h
      exact passes_cons.mpr ⟨_, by simp [step, hs]; rfl, by simp [moveTo, past]⟩
  | case4 c cs hc ih =>
      obtain ⟨k, hk, rfl⟩ := Option.map_eq_some_iff.mp h
      refine (pass_escape hs c (cs.take k)).mpr ?_
      have := ih (s := s.past .string 2) rfl hk
      simpa [past, Nat.add_assoc, Nat.add_comm 2] using this
  | case6 c cs hq he hb ih =>
      obtain ⟨k, hk, rfl⟩ := Option.map_eq_some_iff.mp h
      have hc : c ≠ '\\' := fun hc => by
        cases cs with
        | nil => exact hb hc rfl
        | cons d ds => exact he d ds hc rfl
      refine passes_cons.mpr ⟨_, step_string hs hq hc, ?_⟩
      have := ih (s := s.past .string 1) rfl hk
      simpa [past, Nat.add_assoc, Nat.add_comm 1] using this

/-- A text that is no string is none whatever follows, unless the scan is still inside it. -/
theorem string_open {s t : Scan} (hs : s.mode = .string) {cs : List Char}
    (h : stringLength cs = none) (hp : s.Passes cs t) {ds : List Char} (ht : t.Still ds) :
    stringLength (cs ++ ds) = none := by
  fun_induction stringLength cs generalizing s with
  | case1 =>
      cases passes_nil.mp hp
      simp [Still, hs] at ht
  | case2 => cases h
  | case3 => simp [stringLength]
  | case4 c cs hc ih =>
      have hp := (pass_escape hs c cs).mp hp
      have := ih (s := s.past .string 2) rfl (by simpa using h) hp
      simp [stringLength, hc, this]
  | case5 =>
      obtain ⟨m, hm, hp⟩ := passes_cons.mp hp
      cases passes_nil.mp hp
      simp only [step, hs] at hm
      cases hm
      simp [Still, moveTo] at ht
  | case6 c cs hq he hb ih =>
      have hc : c ≠ '\\' := fun hc => by
        cases cs with
        | nil => exact hb hc rfl
        | cons d ds => exact he d ds hc rfl
      obtain ⟨m, hm, hp⟩ := passes_cons.mp hp
      rw [step_string hs hq hc] at hm
      cases hm
      have := ih (s := s.past .string 1) rfl (by simpa using h) hp
      simp [stringLength_plain hq hc, this]

def behind (s : Scan) (kind : Kind) (n : Nat) : Option Scan :=
  match kind with
  | .opening _ => some ({ s with depth := s.depth + 1 }.past .between n)
  | .closing _ =>
      match s.depth with
      | 0 => none
      | depth + 1 => some ({ s with depth := depth }.past .between n).mark
  | .mark _ => some (s.past .between n)
  | _ => some (s.past .between n).mark

theorem mark_rested {s : Scan} (h : s.mode = .between) : s.mark.rested = s.mark :=
  rested_of_between ((mark_eq s).1.trans h)

theorem pass_blank {s t : Scan} {c : Char} {cs : List Char} (hs : s.Still (c :: cs))
    (hc : isSeparator c = true) (h : s.Passes (c :: cs) t) :
    (s.rested.past .between 1).Passes cs t := by
  obtain ⟨m, hm, ht⟩ := passes_cons.mp h
  rw [step_still hs, outside_separator _ hc] at hm
  cases hm
  exact ht

theorem pass_comment {s t : Scan} {cs : List Char} (hs : s.Still (';' :: cs))
    (h : s.Passes (';' :: cs) t) :
    (s.rested.past .comment (1 + (cs.takeWhile (· != '\n')).length)).Passes
      (cs.dropWhile (· != '\n')) t := by
  obtain ⟨m, hm, ht⟩ := passes_cons.mp h
  have hstep : s.step ';' = .ok (s.rested.past .comment 1) := by
    rw [step_still hs]
    simp [outside, moveTo, past]
  cases hstep.symm.trans hm
  rw [← List.takeWhile_append_dropWhile (p := (· != '\n')) (l := cs)] at ht
  obtain ⟨u, hu, ht⟩ := passes_append.mp ht
  have hp := comment_passes (s := s.rested.past .comment 1) rfl (cs.takeWhile (· != '\n'))
    (fun c hc => by simpa using List.mem_takeWhile_imp hc)
  cases Except.ok.inj (hp.symm.trans hu)
  simpa [past, Nat.add_assoc] using ht

theorem pass_word {s t : Scan} {c : Char} {cs : List Char} (hs : s.Still (c :: cs))
    (hc : inWord c = true) (h : s.Passes (c :: cs) t) :
    (s.rested.past .word (1 + (cs.takeWhile inWord).length)).Passes (cs.dropWhile inWord) t := by
  obtain ⟨m, hm, ht⟩ := passes_cons.mp h
  rw [step_still hs, outside_word _ hc] at hm
  cases hm
  rw [← List.takeWhile_append_dropWhile (p := inWord) (l := cs)] at ht
  obtain ⟨u, hu, ht⟩ := passes_append.mp ht
  have hp := word_passes (s := s.rested.past .word 1) rfl (cs.takeWhile inWord)
    (fun c hc => List.mem_takeWhile_imp hc)
  cases Except.ok.inj (hp.symm.trans hu)
  simpa [past, Nat.add_assoc] using ht

theorem pass_quote {s t : Scan} {cs : List Char} (hs : s.Still ('"' :: cs))
    (h : s.Passes ('"' :: cs) t) : (s.rested.past .string 1).Passes cs t := by
  obtain ⟨m, hm, ht⟩ := passes_cons.mp h
  have hstep : s.step '"' = .ok (s.rested.past .string 1) := by
    rw [step_still hs]
    simp [outside, moveTo, past]
  cases hstep.symm.trans hm
  exact ht

theorem still_dropWhile (s : Scan) (n : Nat) (cs : List Char) :
    (s.past .word n).Still (cs.dropWhile inWord) ∧
      (s.past .comment n).Still (cs.dropWhile (· != '\n')) := by
  constructor
  · intro c hc
    have := head?_dropWhile inWord cs c hc
    simpa [inWord] using this
  · intro c hc
    have := head?_dropWhile (· != '\n') cs c hc
    simpa using this

/-- The scan gets over every token. -/
theorem pass_token {s t : Scan} {c : Char} {cs : List Char} (hs : s.Still (c :: cs))
    (hc : isSeparator c = false) (hcs : c ≠ ';') (h : s.Passes (c :: cs) t) {kind : Kind} {n : Nat}
    (hl : leading? c cs = some (kind, n)) :
    ∃ m : Scan, m.Passes (cs.drop n) t ∧ m.Still (cs.drop n) ∧ s.rested.behind kind (n + 1) = some m.rested := by
  have hr := rested_eq s
  -- only brackets change the depth, a string is passed as a whole, and a word up to the first
  -- character that is not its own
  cases head_cases hc hcs cs with
  | opening b hc hl' =>
      cases hl'.symm.trans hl
      obtain ⟨m, hm, ht⟩ := passes_cons.mp h
      have hstep : s.step c =
          .ok ({ s.rested with depth := s.depth + 1 }.past .between 1) := by
        rw [step_still hs]
        rcases hc with rfl | rfl | rfl <;> simp [outside, moveTo, past, hr]
      cases hstep.symm.trans hm
      exact ⟨_, ht, trivial, by simp [behind, hr]⟩
  | closing b hc hl' =>
      cases hl'.symm.trans hl
      obtain ⟨m, hm, ht⟩ := passes_cons.mp h
      rw [step_still hs] at hm
      cases hd : s.depth with
      | zero =>
          rcases hc with rfl | rfl | rfl <;> simp [outside, hr, hd] at hm
      | succ d =>
          have hstep : s.rested.outside c = .ok ({ s.rested with depth := d }.past .between 1).mark := by
            rcases hc with rfl | rfl | rfl <;> simp [outside, moveTo, past, hr, hd]
          cases hstep.symm.trans hm
          refine ⟨_, ht, ?_, ?_⟩
          · simp [Still, (mark_eq _).1, past]
          · rw [mark_rested rfl]
            simp [behind, hr, hd]
  | mark m hc hl' =>
      cases hl'.symm.trans hl
      obtain ⟨m, hm, ht⟩ := passes_cons.mp h
      have hstep : s.step c = .ok (s.rested.past .between 1) := by
        rw [step_still hs]
        rcases hc with rfl | rfl <;> simp [outside, moveTo, past]
      cases hstep.symm.trans hm
      exact ⟨_, ht, trivial, by simp [behind]⟩
  | string hc hl' =>
      subst hc
      obtain ⟨k, hk, he⟩ := Option.map_eq_some_iff.mp (hl'.symm.trans hl)
      cases he
      have ht := pass_quote hs h
      rw [← List.take_append_drop n cs] at ht
      obtain ⟨m, hm, ht⟩ := passes_append.mp ht
      have hp := string_passes (s := s.rested.past .string 1) rfl hk
      cases Except.ok.inj (hp.symm.trans hm)
      refine ⟨_, ht, ?_, ?_⟩
      · simp [Still, (mark_eq _).1, past]
      · rw [mark_rested rfl]
        simp [behind, past, Nat.add_assoc, Nat.add_comm 1]
  | word hc hl' =>
      obtain ⟨hk, rfl⟩ := hl' kind n hl
      have ht := pass_word hs hc h
      have hd : cs.drop (cs.takeWhile inWord).length = cs.dropWhile inWord :=
        calc cs.drop (cs.takeWhile inWord).length
            = (cs.takeWhile inWord ++ cs.dropWhile inWord).drop (cs.takeWhile inWord).length := by
              rw [List.takeWhile_append_dropWhile]
          _ = cs.dropWhile inWord := List.drop_left
      refine ⟨_, hd ▸ ht, hd ▸ (still_dropWhile _ _ cs).1, ?_⟩
      rcases hk with rfl | rfl | rfl <;>
        simp [behind, Nat.add_comm 1]

end Boundary.Scan

namespace Tree

def Frame.isBracket : Frame → Bool
  | .bracket _ _ _ => true
  | .mark _ _ => false

def openBrackets (frames : List Frame) : Nat := frames.countP Frame.isBracket

@[simp] theorem openBrackets_bracket (b : Bracket) (line : Nat) (ts : List Tree)
    (frames : List Frame) : openBrackets (.bracket b line ts :: frames) = openBrackets frames + 1 :=
  List.countP_cons_of_pos rfl

@[simp] theorem openBrackets_mark (m : Mark) (line : Nat) (frames : List Frame) :
    openBrackets (.mark m line :: frames) = openBrackets frames :=
  List.countP_cons_of_neg (by simp [Frame.isBracket])

def Ready (frames : List Frame) : Prop := ∀ f ∈ frames.head?, f.isBracket = true

theorem Ready.eq_nil {frames : List Frame} (h : Ready frames) (hn : openBrackets frames = 0) :
    frames = [] := by
  cases frames with
  | nil => rfl
  | cons f frames =>
      have hf : f.isBracket = true := h f rfl
      simp [openBrackets, List.countP_cons_of_pos hf] at hn

theorem put_frames (t : Tree) (top : List Tree) (frames : List Frame) :
    openBrackets (Nest.put t top frames).frames = openBrackets frames ∧
      Ready (Nest.put t top frames).frames := by
  induction frames generalizing t with
  | nil => exact ⟨rfl, by simp [Nest.put, Ready]⟩
  | cons f frames ih =>
      cases f with
      | bracket => exact ⟨rfl, by simp [Nest.put, Ready, Frame.isBracket]⟩
      | mark m line => exact ih _

/-- What the scan knows of the nesting: the depth of brackets, and, if the last form ended just
now, that nothing waits for another one. -/
structure Tracks (s : Scan) (n : Nest) : Prop where
  depth : openBrackets n.frames = s.depth
  bounded : s.last ≤ s.seen
  ready : s.last = s.seen → Ready n.frames

theorem tracks_mark {s : Scan} {n : Nest} (hd : openBrackets n.frames = s.depth)
    (hb : s.last < s.seen) (hs : 0 < s.seen) (hr : Ready n.frames) :
    Tracks s.mark n ∧ s.last ≤ s.mark.last ∧ (n.frames = [] → 0 < s.mark.last) := by
  have h := Scan.mark_eq s
  refine ⟨⟨hd.trans h.2.1.symm, (Scan.mark_sound hb.le).1, fun _ => hr⟩, ?_⟩
  unfold Scan.mark
  split
  · exact ⟨hb.le, fun _ => hs⟩
  · refine ⟨Nat.le_refl _, fun hf => ?_⟩
    rw [hf] at hd
    exact absurd hd.symm ‹_›

/-- A token that has a place is one that the scan gets over. -/
theorem step_tracks {s m : Scan} {n n' : Nest} {t : Token} {k : Nat} (hk : 0 < k)
    (hn : Tracks s n) (h : n.step t = .ok n') (hm : s.behind t.kind k = some m) :
    Tracks m n' ∧ s.last ≤ m.last ∧ (n'.frames = [] → 0 < m.last) := by
  have hbk : s.last < s.seen + k := Nat.lt_of_le_of_lt hn.bounded (Nat.lt_add_of_pos_right hk)
  -- an opening bracket and a mark wait for more, so no form ends; any other token may end one
  cases hkind : t.kind with
  | opening b =>
      simp only [Nest.step, hkind, Except.ok.injEq] at h
      simp only [Scan.behind, hkind, Option.some.injEq] at hm
      subst h hm
      refine ⟨⟨?_, ?_, ?_⟩, Nat.le_refl _, fun h => by simp at h⟩
      · simp [Scan.past, hn.depth]
      · exact hbk.le
      · intro he
        exact absurd he hbk.ne
  | mark b =>
      simp only [Nest.step, hkind, Except.ok.injEq] at h
      simp only [Scan.behind, hkind, Option.some.injEq] at hm
      subst h hm
      refine ⟨⟨?_, ?_, ?_⟩, Nat.le_refl _, fun h => by simp at h⟩
      · simpa [Scan.past] using hn.depth
      · exact hbk.le
      · intro he
        exact absurd he hbk.ne
  | string | number | keyword | symbol =>
      simp only [Nest.step, hkind, Except.ok.injEq] at h
      simp only [Scan.behind, hkind, Option.some.injEq] at hm
      subst h hm
      have hp := put_frames (.leaf t) n.top n.frames
      have hd := hp.1.trans hn.depth
      exact tracks_mark (s := s.past .between k) hd hbk (Nat.zero_lt_of_lt hbk) hp.2
  | closing b =>
      simp only [Nest.step, hkind] at h
      rcases hf : n.frames with _ | ⟨⟨b', line, children⟩ | ⟨m', line⟩, frames⟩
      · simp [hf] at h
      · have hdepth : s.depth = openBrackets frames + 1 := by
          rw [← hn.depth, hf, openBrackets_bracket]
        simp only [Scan.behind, hkind, hdepth, Option.some.injEq] at hm
        subst hm
        by_cases hbb : b = b'
        · simp only [hf, hbb, if_true, Except.ok.injEq] at h
          subst h
          have hp := put_frames (.node b' line children.reverse) n.top frames
          exact tracks_mark (s := { s with depth := openBrackets frames }.past .between k) hp.1 hbk
            (Nat.zero_lt_of_lt hbk) hp.2
        · simp [hf, hbb] at h
      · simp [hf] at h

theorem Tracks.past {s : Scan} {n : Nest} (h : Tracks s n) (mode : Mode) {k : Nat} (hk : 0 < k) :
    Tracks (s.past mode k) n := by
  have hb : s.last < s.seen + k := Nat.lt_of_le_of_lt h.bounded (Nat.lt_add_of_pos_right hk)
  exact ⟨h.depth, hb.le, fun he => absurd he hb.ne⟩

/-- The scan tracks the nesting of a whole text, and knows an end of a form where nothing is
open. -/
theorem build_tracks {s t : Scan} {cs : List Char} (hs : s.Still cs) (hp : s.Passes cs t)
    (place : Place) {n n' : Nest} (hn : Tracks s.rested n)
    (hb : n.build (items place cs) = some n') :
    Tracks t.rested n' ∧ t.Still [] ∧ s.rested.last ≤ t.rested.last ∧
      (items place cs ≠ [] → n'.frames = [] → 0 < t.rested.last) := by
  fun_induction items place cs generalizing s n with
  | case1 =>
      cases Scan.passes_nil.mp hp
      cases hb
      exact ⟨hn, hs, Nat.le_refl _, fun h => absurd rfl h⟩
  | case2 place c rest hc ih =>
      have hm := Scan.pass_blank hs hc hp
      exact ih (s := s.rested.past .between 1) trivial hm (by simpa using hn.past .between Nat.one_pos)
        hb
  | case3 place rest hc ih =>
      have hm := Scan.pass_comment hs hp
      exact ih (s := s.rested.past .comment _) (Scan.still_dropWhile _ _ rest).2 hm
        (by simpa using hn.past .between (Nat.add_pos_left Nat.one_pos _)) hb
  | case4 => cases hb
  | case5 place c rest hc hcs kind k hl text =>
      rename_i ih
      obtain ⟨m, hm, hstill, hover⟩ := Scan.pass_token hs (by simpa using hc) hcs hp hl
      rw [Nest.build] at hb
      obtain ⟨u, hu, hb⟩ := Option.bind_eq_some_iff.mp hb
      have hstep : n.step ⟨kind, text, place⟩ = .ok u := by
        cases h : n.step ⟨kind, text, place⟩ <;> simp_all [Except.toOption]
      obtain ⟨htr, hle, hpos⟩ := step_tracks (Nat.succ_pos k) hn hstep hover
      obtain ⟨htr', hend, hle', hpos'⟩ := ih hstill hm htr hb
      refine ⟨htr', hend, hle.trans hle', fun _ hf => ?_⟩
      -- The last token is the one behind which nothing is open.
      by_cases hi : items (place.advance text) (rest.drop k) = []
      · rw [hi] at hb
        cases hb
        exact Nat.lt_of_lt_of_le (hpos hf) hle'
      · exact hpos' hi hf

theorem advance_append (place : Place) (cs ds : List Char) :
    place.advance (cs ++ ds) = (place.advance cs).advance ds :=
  List.foldl_append

theorem leading?_still {s t : Scan} {c : Char} {cs ds : List Char} (hs : s.Still (c :: cs))
    (hp : s.Passes (c :: cs) t) (ht : t.Still ds) (hc : isSeparator c = false) (hcs : c ≠ ';') :
    leading? c (cs ++ ds) = leading? c cs := by
  refine leading?_append hc hcs (fun hw he d hd => ?_) (fun hq hn => ?_)
  · have hm := Scan.pass_word hs hw hp
    rw [he] at hm
    cases Scan.passes_nil.mp hm
    simpa [inWord] using ht d hd
  · subst hq
    exact Scan.string_open rfl hn (Scan.pass_quote hs hp) ht

theorem build_parted {s t : Scan} {cs ds : List Char} (hs : s.Still cs) (hp : s.Passes cs t)
    (ht : t.Still ds) (place : Place) (n : Nest) :
    n.build (items place (cs ++ ds)) =
      (n.build (items place cs)).bind (·.build (items (place.advance cs) ds)) := by
  -- the induction is on the items of the first text, into none of which the second one reaches
  fun_induction items place cs generalizing s n with
  | case1 => rfl
  | case2 place c rest hc ih =>
      have hm := Scan.pass_blank hs hc hp
      rw [List.cons_append, items.eq_2, if_pos hc]
      exact ih (s := s.rested.past .between 1) trivial hm n
  | case3 place rest hc ih =>
      have hm := Scan.pass_comment hs hp
      have hparted := takeWhile_parted (· != '\n') rest ds fun he d hd => by
        rw [he] at hm
        cases Scan.passes_nil.mp hm
        simpa using ht d hd
      rw [List.cons_append, items.eq_2, if_neg hc, if_pos rfl, hparted.1, hparted.2,
        ih (Scan.still_dropWhile _ _ rest).2 hm n]
      rw [← advance_append, List.cons_append, List.takeWhile_append_dropWhile]
  | case4 place c rest hc hcs hl =>
      have hsame := leading?_still hs hp ht (by simpa using hc) hcs
      rw [List.cons_append, items.eq_2, if_neg hc, if_neg hcs, hsame, hl]
      rfl
  | case5 place c rest hc hcs kind k hl text =>
      rename_i ih
      obtain ⟨m, hm, hstill, hover⟩ := Scan.pass_token hs (by simpa using hc) hcs hp hl
      have hle := leading?_le (by simpa using hc) hcs hl
      have hsame := leading?_still hs hp ht (by simpa using hc) hcs
      rw [List.cons_append, items.eq_2, if_neg hc, if_neg hcs, hsame, hl]
      simp only [List.take_append_of_le_length hle, List.drop_append_of_le_length hle, Nest.build]
      cases n.step ⟨kind, text, place⟩ with
      | error e => rfl
      | ok u =>
          simp only [Except.toOption, Option.bind_some]
          rw [ih hstill hm u, ← advance_append, List.cons_append, List.take_append_drop]

end Tree

end Sumi.Form
