import Mathlib.Computability.Language
import Sumi.Proofs.Form.Scanning

namespace Sumi.Form

open Text Token
open scoped Computability

def Bracket.left : Bracket → Char
  | .round => '('
  | .square => '['
  | .curly => '\x7b'

def Bracket.right : Bracket → Char
  | .round => ')'
  | .square => ']'
  | .curly => '\x7d'

def Mark.char : Mark → Char
  | .quote => '\''
  | .deref => '@'

/-- What the grammar has terminals for: tokens, and what stands between them. -/
inductive Terminal
  | token (k : Token.Kind)
  | blank
  | comment
  deriving DecidableEq

namespace Terminal

def one (f : Char → Bool) : Language Char := {w | ∃ c, f c = true ∧ w = [c]}

def digits : Language Char := one Digit.isDecimal * (one Digit.isDecimal)∗

def sign : Language Char := one fun c => c == '+' || c == '-'

def fraction : Language Char := one (· == '.') * digits

def exponent : Language Char := one (fun c => c == 'e' || c == 'E') * ((1 + sign) * digits)

def piece : Language Char :=
  one (fun c => c != '"' && c != '\\') + one (· == '\\') * one (· != '\n')

def language : Terminal → Language Char
  | token (.opening b) => one (· == b.left)
  | token (.closing b) => one (· == b.right)
  | token (.mark m) => one (· == m.char)
  | token .string => one (· == '"') * (piece∗ * one (· == '"'))
  | token .number => (1 + sign) * (digits * ((1 + fraction) * (1 + exponent)))
  | token .keyword => one (· == ':') * (one (fun c => inWord c && c != ':') * (one inWord)∗)
  | token .symbol => one beginsSymbol * (one inWord)∗
  | blank => one isSeparator * (one isSeparator)∗
  | comment => one (· == ';') * (one (· != '\n'))∗

structure Fits (t : Terminal) (w rest : List Char) : Prop where
  writes : w ∈ t.language
  ahead : t = token .number → ∀ c ∈ rest.head?, inWord c = false

/-- `w` is the longest that the terminal may write at the head of `w ++ rest`. -/
structure Takes (t : Terminal) (w rest : List Char) : Prop where
  fits : t.Fits w rest
  longest : ∀ v rest', v ++ rest' = w ++ rest → t.Fits v rest' → v.length ≤ w.length

structure Chosen (t : Terminal) (w rest : List Char) : Prop where
  takes : t.Takes w rest
  first : t ≠ token .number → ∀ v rest', v ++ rest' = w ++ rest → ¬ (token .number).Takes v rest'

variable {f : Char → Bool} {l : Language Char} {c : Char} {w v rest : List Char}

theorem mem_one_mul : w ∈ one f * l ↔ ∃ c v, w = c :: v ∧ f c = true ∧ v ∈ l := by
  rw [Language.mem_mul]
  constructor
  · rintro ⟨_, ⟨c, hc, rfl⟩, v, hv, rfl⟩
    exact ⟨c, v, rfl, hc, hv⟩
  · rintro ⟨c, v, rfl, hc, hv⟩
    exact ⟨[c], ⟨c, hc, rfl⟩, v, hv, rfl⟩

theorem cons_mem_one_mul : c :: v ∈ one f * l ↔ f c = true ∧ v ∈ l := by
  rw [mem_one_mul]
  constructor
  · rintro ⟨_, _, he, hc, hv⟩
    cases he
    exact ⟨hc, hv⟩
  · rintro ⟨hc, hv⟩
    exact ⟨c, v, rfl, hc, hv⟩

theorem mem_star_one : w ∈ (one f)∗ ↔ ∀ c ∈ w, f c = true := by
  rw [Language.mem_kstar]
  constructor
  · rintro ⟨ws, rfl, h⟩ c hc
    obtain ⟨v, hv, hc⟩ := List.mem_flatten.mp hc
    obtain ⟨d, hd, rfl⟩ := h v hv
    rwa [List.mem_singleton.mp hc]
  · intro h
    refine ⟨w.map ([·]), by rw [← List.flatMap_def, List.flatMap_singleton'], ?_⟩
    intro v hv
    obtain ⟨c, hc, rfl⟩ := List.mem_map.mp hv
    exact ⟨c, h c hc, rfl⟩

theorem mem_one_char : w ∈ one (· == c) ↔ w = [c] := by
  constructor
  · rintro ⟨d, hd, rfl⟩
    rw [eq_of_beq hd]
  · rintro rfl
    exact ⟨c, beq_self_eq_true c, rfl⟩

theorem mem_one_add : w ∈ 1 + l ↔ w = [] ∨ w ∈ l := by
  rw [Language.mem_add, Language.mem_one]

theorem stringLength_of_mem {ws : List (List Char)} (h : ∀ v ∈ ws, v ∈ piece) (rest : List Char) :
    stringLength (ws.flatten ++ '"' :: rest) = some (ws.flatten.length + 1) := by
  induction ws with
  | nil => rfl
  | cons v ws ih =>
      rw [List.forall_mem_cons] at h
      have ih := ih h.2
      rcases (Language.mem_add _ _ _).mp h.1 with ⟨c, hc, rfl⟩ | hv
      · have hc : c ≠ '"' ∧ c ≠ '\\' := by simpa using hc
        simp [stringLength_plain hc.1 hc.2, ih]
      · obtain ⟨_, _, rfl, hc, d, hd, rfl⟩ := mem_one_mul.mp hv
        obtain rfl := eq_of_beq hc
        have hd : d ≠ '\n' := by simpa using hd
        simp [stringLength, hd, ih]

theorem mem_string : '"' :: v ∈ language (token .string) ↔ stringLength v = some v.length := by
  rw [language, cons_mem_one_mul, Language.mem_mul]
  constructor
  · rintro ⟨-, _, hb, _, ⟨c, hc, rfl⟩, rfl⟩
    obtain ⟨ws, rfl, hws⟩ := Language.mem_kstar.mp hb
    obtain rfl := eq_of_beq hc
    rw [stringLength_of_mem hws, List.length_append, List.length_singleton]
  · intro h
    refine ⟨rfl, ?_⟩
    -- the reader goes on by one character, or by two behind a backslash, as the pieces do
    fun_induction stringLength v with
    | case1 | case3 | case5 => cases h
    | case2 v =>
        simp only [List.length_cons, Option.some.injEq, Nat.right_eq_add, List.length_eq_zero_iff] at h
        subst h
        exact ⟨[], Language.nil_mem_kstar _, ['"'], ⟨'"', rfl, rfl⟩, rfl⟩
    | case4 c v hc ih =>
        obtain ⟨_, hb, q, hq, rfl⟩ := ih (by simpa using h)
        obtain ⟨ws, rfl, hws⟩ := Language.mem_kstar.mp hb
        refine ⟨'\\' :: c :: ws.flatten, Language.mem_kstar.mpr ⟨['\\', c] :: ws, rfl, ?_⟩, q, hq, rfl⟩
        refine List.forall_mem_cons.mpr ⟨(Language.mem_add _ _ _).mpr (.inr ?_), hws⟩
        exact cons_mem_one_mul.mpr ⟨rfl, c, by simpa using hc, rfl⟩
    | case6 c v hq he hb ih =>
        obtain ⟨_, hb', q, hq', rfl⟩ := ih (by simpa using h)
        obtain ⟨ws, rfl, hws⟩ := Language.mem_kstar.mp hb'
        have hc : c ≠ '\\' := by
          rintro rfl
          cases hw : ws.flatten ++ q with
          | nil => exact hb rfl hw
          | cons d ds => exact he d ds rfl hw
        refine ⟨c :: ws.flatten, Language.mem_kstar.mpr ⟨[c] :: ws, rfl, ?_⟩, q, hq', rfl⟩
        refine List.forall_mem_cons.mpr ⟨(Language.mem_add _ _ _).mpr (.inl ?_), hws⟩
        exact ⟨c, by simpa using ⟨hq, hc⟩, rfl⟩

theorem stringLength_take {cs : List Char} {n : Nat} (h : stringLength cs = some n) :
    stringLength (cs.take n) = some n := by
  fun_induction stringLength cs generalizing n with
  | case1 | case3 | case5 => cases h
  | case2 =>
      cases h
      rfl
  | case4 c cs hc ih =>
      obtain ⟨k, hk, rfl⟩ := Option.map_eq_some_iff.mp h
      simp [stringLength, hc, ih hk]
  | case6 c cs hq he hb ih =>
      obtain ⟨k, hk, rfl⟩ := Option.map_eq_some_iff.mp h
      have hc : c ≠ '\\' := fun hc => by
        cases cs with
        | nil => exact hb hc rfl
        | cons d ds => exact he d ds hc rfl
      simp [stringLength_plain hq hc, ih hk]

open Numeral

def Undigital (cs : List Char) : Prop := ∀ c ∈ cs.head?, Digit.isDecimal c = false

theorem mem_digits : w ∈ digits ↔ w ≠ [] ∧ ∀ c ∈ w, Digit.isDecimal c = true := by
  rw [digits, mem_one_mul]
  constructor
  · rintro ⟨c, v, rfl, hc, hv⟩
    exact ⟨List.cons_ne_nil c v, List.forall_mem_cons.mpr ⟨hc, mem_star_one.mp hv⟩⟩
  · rintro ⟨hne, h⟩
    obtain ⟨c, v, rfl⟩ := List.exists_cons_of_ne_nil hne
    obtain ⟨hc, hv⟩ := List.forall_mem_cons.mp h
    exact ⟨c, v, rfl, hc, mem_star_one.mpr hv⟩

theorem filterMap_value?_ne_nil (h : w ∈ digits) : w.filterMap Digit.value? ≠ [] := by
  obtain ⟨c, v, rfl, hc, -⟩ := mem_one_mul.mp h
  obtain ⟨n, hn⟩ := Option.isSome_iff_exists.mp hc
  simp [hn]

theorem digits?_append (h : w ∈ digits) (hr : Undigital rest) :
    digits? (w ++ rest) = some (w.filterMap Digit.value?, rest) := by
  have hall := (mem_digits.mp h).2
  obtain ⟨ht, hd⟩ := takeWhile_parted Digit.isDecimal w rest fun _ => hr
  rw [List.takeWhile_eq_self_iff.mpr hall] at ht
  rw [List.dropWhile_eq_nil_iff.mpr hall, List.nil_append] at hd
  unfold digits?
  rw [ht, hd]
  cases hv : w.filterMap Digit.value? with
  | nil => exact absurd hv (filterMap_value?_ne_nil h)
  | cons n ns => rfl

theorem digits?_some {cs : List Char} {ds : List Nat} (h : digits? cs = some (ds, rest)) :
    ∃ w ∈ digits, cs = w ++ rest := by
  unfold digits? at h
  split at h
  · cases h
  · next hne =>
    cases h
    refine ⟨cs.takeWhile Digit.isDecimal, mem_digits.mpr ⟨?_, fun c hc => List.mem_takeWhile_imp hc⟩,
      List.takeWhile_append_dropWhile.symm⟩
    intro hnil
    rw [hnil] at hne
    exact hne rfl

theorem sign?_decimal {c : Char} (hc : Digit.isDecimal c = true) (cs : List Char) :
    sign? (c :: cs) = (false, c :: cs) := by
  have hminus : c ≠ '-' := by
    rintro rfl
    cases hc
  have hplus : c ≠ '+' := by
    rintro rfl
    cases hc
  simp [sign?, hminus, hplus]

theorem sign?_append (h : w ∈ 1 + sign) {c : Char} (hc : Digit.isDecimal c = true)
    (cs : List Char) : (sign? (w ++ c :: cs)).2 = c :: cs := by
  rcases mem_one_add.mp h with rfl | ⟨d, hd, rfl⟩
  · rw [List.nil_append, sign?_decimal hc]
  · have hd : d = '+' ∨ d = '-' := by simpa using hd
    rcases hd with rfl | rfl <;> rfl

theorem sign?_writes (cs : List Char) : ∃ w ∈ 1 + sign, cs = w ++ (sign? cs).2 := by
  unfold sign?
  split
  · exact ⟨['-'], mem_one_add.mpr (.inr ⟨'-', rfl, rfl⟩), rfl⟩
  · exact ⟨['+'], mem_one_add.mpr (.inr ⟨'+', rfl, rfl⟩), rfl⟩
  · exact ⟨[], mem_one_add.mpr (.inl rfl), rfl⟩

theorem fraction?_append (h : w ∈ 1 + fraction) (hp : '.' ∉ rest.head?) (hr : Undigital rest) :
    ∃ f, fraction? (w ++ rest) = some (f, rest) := by
  rcases mem_one_add.mp h with rfl | hw
  · refine ⟨none, ?_⟩
    unfold fraction?
    split
    · next he =>
      have he : rest = _ := he
      exact absurd (by rw [he]; rfl) hp
    · rfl
  · obtain ⟨c, v, rfl, hc, hv⟩ := mem_one_mul.mp hw
    obtain rfl := eq_of_beq hc
    exact ⟨some (v.filterMap Digit.value?), by simp [fraction?, digits?_append hv hr]⟩

theorem fraction?_some {cs : List Char} {f : Option (List Nat)}
    (h : fraction? cs = some (f, rest)) : ∃ w ∈ 1 + fraction, cs = w ++ rest := by
  unfold fraction? at h
  split at h
  · next cs =>
    obtain ⟨⟨ds, rest'⟩, hd, he⟩ := Option.map_eq_some_iff.mp h
    cases he
    obtain ⟨w, hw, rfl⟩ := digits?_some hd
    exact ⟨'.' :: w, mem_one_add.mpr (.inr (cons_mem_one_mul.mpr ⟨rfl, hw⟩)), rfl⟩
  · cases h
    exact ⟨[], mem_one_add.mpr (.inl rfl), rfl⟩

theorem exponent?_writes (h : w ∈ 1 + exponent) : ∃ e, exponent? w = some (e, []) := by
  rcases mem_one_add.mp h with rfl | hw
  · exact ⟨none, rfl⟩
  · obtain ⟨c, _, rfl, hc, hv⟩ := mem_one_mul.mp hw
    obtain ⟨s, hs, ds, hds, rfl⟩ := Language.mem_mul.mp hv
    have hc : c = 'e' ∨ c = 'E' := by simpa using hc
    obtain ⟨d, ds', rfl, hd, -⟩ := mem_one_mul.mp hds
    have hsign := sign?_append hs hd ds'
    have hdigits := digits?_append hds (nofun : Undigital [])
    rw [List.append_nil] at hdigits
    refine ⟨some ((sign? (s ++ d :: ds')).1, (d :: ds').filterMap Digit.value?), ?_⟩
    simp [exponent?, hc, hsign, hdigits]

theorem exponent?_some {cs : List Char} {e : Option (Bool × List Nat)}
    (h : exponent? cs = some (e, rest)) : ∃ w ∈ 1 + exponent, cs = w ++ rest := by
  unfold exponent? at h
  split at h
  · next c cs =>
    split at h
    · next hc =>
      obtain ⟨⟨ds, rest'⟩, hd, he⟩ := Option.map_eq_some_iff.mp h
      cases he
      obtain ⟨s, hs, hcs⟩ := sign?_writes cs
      obtain ⟨w, hw, hrest⟩ := digits?_some hd
      have hrest : (sign? cs).2 = w ++ rest := hrest
      have hexp : c :: (s ++ w) ∈ exponent :=
        cons_mem_one_mul.mpr ⟨by simpa using hc, Language.append_mem_mul hs hw⟩
      refine ⟨c :: (s ++ w), mem_one_add.mpr (.inr hexp), ?_⟩
      rw [hcs, hrest, List.cons_append, List.append_assoc]
    · cases h
      exact ⟨[], mem_one_add.mpr (.inl rfl), rfl⟩
  · cases h
    exact ⟨[], mem_one_add.mpr (.inl rfl), rfl⟩

/-- A text writes a number exactly if it can be read as one. -/
theorem mem_number : w ∈ language (token .number) ↔ (read? w).isSome = true := by
  rw [language]
  constructor
  · intro h
    obtain ⟨s, hs, _, hu, rfl⟩ := Language.mem_mul.mp h
    obtain ⟨ds, hds, _, hv, rfl⟩ := Language.mem_mul.mp hu
    obtain ⟨f, hf, e, he, rfl⟩ := Language.mem_mul.mp hv
    obtain ⟨x, hx⟩ := exponent?_writes he
    -- no part is followed by what could go on with it, so the reader cuts where the grammar does
    have hexponent : '.' ∉ e.head? ∧ Undigital e := by
      rcases mem_one_add.mp he with rfl | he
      · exact ⟨nofun, nofun⟩
      · obtain ⟨c, v, rfl, hc, -⟩ := mem_one_mul.mp he
        have hc : c = 'e' ∨ c = 'E' := by simpa using hc
        rcases hc with rfl | rfl
        · exact ⟨by simp, by simp [Undigital]; decide⟩
        · exact ⟨by simp, by simp [Undigital]; decide⟩
    have hfraction : Undigital (f ++ e) := by
      rcases mem_one_add.mp hf with rfl | hf
      · exact hexponent.2
      · obtain ⟨c, v, rfl, hc, -⟩ := mem_one_mul.mp hf
        obtain rfl := eq_of_beq hc
        simp [Undigital]
        decide
    obtain ⟨y, hy⟩ := fraction?_append hf hexponent.1 hexponent.2
    obtain ⟨d, ds', rfl, hd, -⟩ := mem_one_mul.mp hds
    have hsign := sign?_append hs hd (ds' ++ (f ++ e))
    have hdigits := digits?_append hds hfraction
    rw [List.cons_append] at hdigits
    simp [read?, hsign, hdigits, hy, hx]
  · intro h
    obtain ⟨n, hn⟩ := Option.isSome_iff_exists.mp h
    obtain ⟨s, hs, hw⟩ := sign?_writes w
    simp only [read?, Option.bind_eq_bind, Option.bind_eq_some_iff] at hn
    obtain ⟨⟨ds, cs₁⟩, hds, ⟨f, cs₂⟩, hf, ⟨e, cs₃⟩, he, hend⟩ := hn
    obtain ⟨u₁, hu₁, h₁⟩ := digits?_some hds
    obtain ⟨u₂, hu₂, h₂⟩ := fraction?_some hf
    obtain ⟨u₃, hu₃, h₃⟩ := exponent?_some he
    dsimp only at h₂ h₃
    have hnil : cs₃ = [] := by
      cases cs₃ with
      | nil => rfl
      | cons => simp at hend
    rw [hnil, List.append_nil] at h₃
    rw [hw, h₁, h₂, h₃]
    exact Language.append_mem_mul hs
      (Language.append_mem_mul hu₁ (Language.append_mem_mul hu₂ hu₃))

theorem beyondAscii_of_isBlank (h : Blank.isBlank c = true) (hc : 128 ≤ c.toNat) :
    c.toNat ∈ 0x85 :: 0xA0 :: 0x1680 :: 0x2028 :: 0x2029 :: 0x202F :: 0x205F :: 0x3000 ::
      List.range' 0x2000 11 := by
  unfold Blank.isBlank at h
  dsimp only at h
  rw [if_neg (by omega)] at h
  simp only [Bool.or_eq_true, Bool.and_eq_true, beq_iff_eq, decide_eq_true_eq] at h
  simp only [List.mem_cons, List.mem_range'_1]
  omega

theorem isBlank_of_isDecimal (h : Digit.isDecimal c = true) : Blank.isBlank c = false := by
  refine Bool.eq_false_iff.mpr fun hb => ?_
  by_cases hc : c.toNat < 128
  · have hd : '0' ≤ c ∧ c ≤ '9' := by
      by_contra hd
      simp [Digit.isDecimal, Digit.value?, hc, hd] at h
    have hlow : 48 ≤ c.toNat := hd.1
    have hhigh : c.toNat ≤ 57 := hd.2
    simp only [Blank.isBlank, hc, if_true, Bool.or_eq_true, Bool.and_eq_true,
      decide_eq_true_eq] at hb
    omega
  · have hall : ∀ n ∈ 0x85 :: 0xA0 :: 0x1680 :: 0x2028 :: 0x2029 :: 0x202F :: 0x205F :: 0x3000 ::
        List.range' 0x2000 11, Digit.isDecimal (Char.ofNat n) = false := by
      decide +kernel
    have hn := hall _ (beyondAscii_of_isBlank hb (by omega))
    rw [Char.ofNat_toNat, h] at hn
    cases hn

theorem inWord_of_isDecimal (h : Digit.isDecimal c = true) : inWord c = true := by
  refine Bool.not_eq_true' _ |>.mpr ((Bool.or_eq_false_iff).mpr ⟨isBlank_of_isDecimal h, ?_⟩)
  refine Bool.eq_false_iff.mpr fun hm => ?_
  have hnone : ['(', ')', '[', ']', '\x7b', '\x7d', '"', ';', '\'', ',', '@'].any
      Digit.isDecimal = false := by
    decide
  exact List.any_eq_false.mp hnone c (List.contains_iff_mem.mp hm) h

def Worded (l : Language Char) : Prop := ∀ w ∈ l, ∀ c ∈ w, inWord c = true

theorem worded_one (h : ∀ c, f c = true → inWord c = true) : Worded (one f) := by
  rintro _ ⟨c, hc, rfl⟩ d hd
  rw [List.mem_singleton.mp hd]
  exact h c hc

theorem Worded.mul {m : Language Char} (hl : Worded l) (hm : Worded m) : Worded (l * m) := by
  intro w hw c hc
  obtain ⟨u, hu, v, hv, rfl⟩ := Language.mem_mul.mp hw
  rcases List.mem_append.mp hc with hc | hc
  · exact hl u hu c hc
  · exact hm v hv c hc

theorem Worded.one_add (hl : Worded l) : Worded (1 + l) := by
  intro w hw
  rcases mem_one_add.mp hw with rfl | hw
  · exact nofun
  · exact hl w hw

theorem worded_star (h : ∀ c, f c = true → inWord c = true) : Worded (one f)∗ :=
  fun _ hw c hc => h c (mem_star_one.mp hw c hc)

theorem worded_digits : Worded digits :=
  (worded_one fun _ => inWord_of_isDecimal).mul (worded_star fun _ => inWord_of_isDecimal)

theorem worded_number : Worded (language (token .number)) := by
  have hsign : Worded sign := worded_one (by simp; decide)
  have hpoint : Worded (one (· == '.')) := worded_one (by simp; decide)
  have he : Worded (one fun c => c == 'e' || c == 'E') := worded_one (by simp; decide)
  have hexponent : Worded exponent := he.mul (hsign.one_add.mul worded_digits)
  exact hsign.one_add.mul (worded_digits.mul
    ((hpoint.mul worded_digits).one_add.mul hexponent.one_add))

def goesOn : Terminal → Char → Bool
  | token .number | token .keyword | token .symbol => inWord
  | blank => isSeparator
  | comment => (· != '\n')
  | _ => fun _ => false

theorem inWord_of_beginsSymbol (h : beginsSymbol c = true) : inWord c = true := by
  simp only [beginsSymbol, Bool.and_eq_true] at h
  exact h.1.1

theorem mem_symbol : w ∈ language (token .symbol) ↔
    ∃ c v, w = c :: v ∧ beginsSymbol c = true ∧ ∀ d ∈ v, inWord d = true := by
  simp only [language, mem_one_mul, mem_star_one]

theorem mem_keyword : w ∈ language (token .keyword) ↔
    ∃ c v, w = ':' :: c :: v ∧ c ≠ ':' ∧ inWord c = true ∧ ∀ d ∈ v, inWord d = true := by
  rw [language, mem_one_mul]
  constructor
  · rintro ⟨_, _, rfl, hc, hv⟩
    obtain ⟨c, v, rfl, hd, hv⟩ := mem_one_mul.mp hv
    obtain rfl := eq_of_beq hc
    rw [Bool.and_eq_true, bne_iff_ne] at hd
    exact ⟨c, v, rfl, hd.2, hd.1, mem_star_one.mp hv⟩
  · rintro ⟨c, v, rfl, hne, hc, hv⟩
    refine ⟨':', c :: v, rfl, rfl, cons_mem_one_mul.mpr ⟨?_, mem_star_one.mpr hv⟩⟩
    rw [Bool.and_eq_true, bne_iff_ne]
    exact ⟨hc, hne⟩

theorem symbol_worded (hw : w ∈ language (token .symbol)) :
    w ≠ [] ∧ ∀ c ∈ w, inWord c = true := by
  obtain ⟨c, v, rfl, hc, hv⟩ := mem_symbol.mp hw
  exact ⟨List.cons_ne_nil c v, List.forall_mem_cons.mpr ⟨inWord_of_beginsSymbol hc, hv⟩⟩

theorem keyword_worded (hw : w ∈ language (token .keyword)) : ∀ c ∈ w.tail, inWord c = true := by
  obtain ⟨c, v, rfl, -, hc, hv⟩ := mem_keyword.mp hw
  exact List.forall_mem_cons.mpr ⟨hc, hv⟩

theorem mem_blank : w ∈ language blank ↔
    ∃ c v, w = c :: v ∧ isSeparator c = true ∧ ∀ d ∈ v, isSeparator d = true := by
  simp only [language, mem_one_mul, mem_star_one]

theorem mem_comment : w ∈ language comment ↔ ∃ v, w = ';' :: v ∧ ∀ d ∈ v, (d != '\n') = true := by
  simp [language, mem_one_mul, mem_star_one]

theorem mem_opening {b : Bracket} : w ∈ language (token (.opening b)) ↔ w = [b.left] :=
  mem_one_char

theorem mem_closing {b : Bracket} : w ∈ language (token (.closing b)) ↔ w = [b.right] :=
  mem_one_char

theorem mem_mark {m : Mark} : w ∈ language (token (.mark m)) ↔ w = [m.char] :=
  mem_one_char

variable {t : Terminal}

theorem append_mem (ht : t ≠ token .number) (hw : w ∈ t.language) (hc : t.goesOn c = true) :
    w ++ [c] ∈ t.language := by
  have extended {g : Char → Bool} {v : List Char} (hv : ∀ d ∈ v, g d = true) (hc : g c = true) :
      ∀ d ∈ v ++ [c], g d = true :=
    List.forall_mem_append.mpr ⟨hv, List.forall_mem_singleton.mpr hc⟩
  cases t with
  | blank =>
      obtain ⟨d, v, rfl, hd, hv⟩ := mem_blank.mp hw
      exact mem_blank.mpr ⟨d, v ++ [c], rfl, hd, extended hv hc⟩
  | comment =>
      obtain ⟨v, rfl, hv⟩ := mem_comment.mp hw
      exact mem_comment.mpr ⟨v ++ [c], rfl, extended hv hc⟩
  | token k =>
      cases k with
      | opening | closing | mark | string => cases hc
      | number => exact absurd rfl ht
      | keyword =>
          obtain ⟨d, v, rfl, hne, hd, hv⟩ := mem_keyword.mp hw
          exact mem_keyword.mpr ⟨d, v ++ [c], rfl, hne, hd, extended hv hc⟩
      | symbol =>
          obtain ⟨d, v, rfl, hd, hv⟩ := mem_symbol.mp hw
          exact mem_symbol.mpr ⟨d, v ++ [c], rfl, hd, extended hv hc⟩

theorem goesOn_of_mem (hw : w ∈ t.language) (hv : w ++ c :: v ∈ t.language) :
    t.goesOn c = true := by
  have hmem (u : List Char) : c ∈ u ++ c :: v :=
    List.mem_append_right _ List.mem_cons_self
  -- a bracket, a mark or a string is never the beginning of another one; of anything else, what
  -- goes on is of the class that the longer text is made of
  cases t with
  | blank =>
      obtain ⟨_, u, rfl, -⟩ := mem_blank.mp hw
      obtain ⟨_, _, he, -, hall⟩ := mem_blank.mp hv
      cases he
      exact hall c (hmem u)
  | comment =>
      obtain ⟨u, rfl, -⟩ := mem_comment.mp hw
      obtain ⟨_, he, hall⟩ := mem_comment.mp hv
      cases he
      exact hall c (hmem u)
  | token k =>
      cases k with
      | opening b =>
          rw [mem_opening.mp hw] at hv
          cases mem_opening.mp hv
      | closing b =>
          rw [mem_closing.mp hw] at hv
          cases mem_closing.mp hv
      | mark m =>
          rw [mem_mark.mp hw] at hv
          cases mem_mark.mp hv
      | string =>
          obtain ⟨d, u, rfl, hd, -⟩ := mem_one_mul.mp hw
          obtain rfl := eq_of_beq hd
          have hu := stringLength_append (mem_string.mp hw) (c :: v)
          have he := hu.symm.trans (mem_string.mp hv)
          simp at he
      | number => exact worded_number _ hv c (hmem w)
      | keyword =>
          obtain ⟨_, u, rfl, -⟩ := mem_keyword.mp hw
          obtain ⟨_, _, he, -, -, hall⟩ := mem_keyword.mp hv
          cases he
          exact hall c (hmem u)
      | symbol =>
          obtain ⟨_, u, rfl, -⟩ := mem_symbol.mp hw
          obtain ⟨_, _, he, -, hall⟩ := mem_symbol.mp hv
          cases he
          exact hall c (hmem u)

theorem takes_iff : t.Takes w rest ↔ w ∈ t.language ∧ ∀ c ∈ rest.head?, t.goesOn c = false := by
  constructor
  · rintro ⟨⟨hw, hahead⟩, hlongest⟩
    refine ⟨hw, ?_⟩
    by_cases ht : t = token .number
    · subst ht
      exact hahead rfl
    · intro c hc
      obtain ⟨rest', rfl⟩ := List.head?_eq_some_iff.mp hc
      refine Bool.eq_false_iff.mpr fun hgoes => ?_
      have hfits : t.Fits (w ++ [c]) rest' := ⟨append_mem ht hw hgoes, fun h => absurd h ht⟩
      have hle := hlongest _ _ (List.append_assoc ..) hfits
      rw [List.length_append] at hle
      exact absurd hle (Nat.not_succ_le_self _)
  · rintro ⟨hw, hstop⟩
    refine ⟨⟨hw, fun ht => by subst ht; exact hstop⟩, fun v rest' he hv => ?_⟩
    rcases List.append_eq_append_iff.mp he with ⟨u, rfl, -⟩ | ⟨u, rfl, rfl⟩
    · simp
    · cases u with
      | nil => simp
      | cons c u => exact absurd (goesOn_of_mem hw hv.writes) (Bool.eq_false_iff.mp (hstop c rfl))

def Numbered (cs : List Char) : Prop := ∃ v rest, v ++ rest = cs ∧ (token .number).Takes v rest

theorem chosen_iff : t.Chosen w rest ↔
    t.Takes w rest ∧ (t ≠ token .number → ¬ Numbered (w ++ rest)) := by
  constructor
  · rintro ⟨htakes, hfirst⟩
    exact ⟨htakes, fun ht ⟨v, rest', he, hv⟩ => hfirst ht v rest' he hv⟩
  · rintro ⟨htakes, hfirst⟩
    exact ⟨htakes, fun ht v rest' he hv => hfirst ht ⟨v, rest', he, hv⟩⟩

theorem numbered_iff (c : Char) (cs : List Char) : Numbered (c :: cs) ↔
    inWord c = true ∧ (read? (c :: cs.takeWhile inWord)).isSome = true := by
  constructor
  · rintro ⟨v, rest, he, hv⟩
    obtain ⟨hmem, hstop⟩ := takes_iff.mp hv
    have hall := worded_number v hmem
    cases v with
    | nil => cases mem_number.mp hmem
    | cons d v =>
        obtain ⟨rfl, rfl⟩ : d = c ∧ v ++ rest = cs := List.cons.inj he
        have hrun := takeWhile_run (List.forall_mem_cons.mp hall).2 hstop
        rw [hrun]
        exact ⟨hall d List.mem_cons_self, mem_number.mp hmem⟩
  · rintro ⟨hc, hread⟩
    refine ⟨c :: cs.takeWhile inWord, cs.dropWhile inWord, ?_, ?_⟩
    · rw [List.cons_append, List.takeWhile_append_dropWhile]
    · exact takes_iff.mpr ⟨mem_number.mpr hread, head?_dropWhile inWord cs⟩

theorem not_numbered (hc : inWord c = false) (cs : List Char) : ¬ Numbered (c :: cs) := by
  intro hn
  rw [((numbered_iff c cs).mp hn).1] at hc
  cases hc

theorem leading?_of_chosen {k : Kind} (h : (token k).Chosen (c :: w) rest) :
    leading? c (w ++ rest) = some (k, w.length) := by
  obtain ⟨htakes, hfirst⟩ := chosen_iff.mp h
  obtain ⟨hmem, hstop⟩ := takes_iff.mp htakes
  cases k with
  | opening b =>
      cases mem_opening.mp hmem
      cases b <;> rfl
  | closing b =>
      cases mem_closing.mp hmem
      cases b <;> rfl
  | mark m =>
      cases mem_mark.mp hmem
      cases m <;> rfl
  | string =>
      obtain ⟨_, _, he, hc, -⟩ := mem_one_mul.mp hmem
      cases he
      obtain rfl := eq_of_beq hc
      show (stringLength _).map _ = _
      rw [stringLength_append (mem_string.mp hmem)]
      rfl
  | number =>
      have hall := List.forall_mem_cons.mp (worded_number _ hmem)
      have hread := mem_number.mp hmem
      have hk : c ≠ ':' := by
        rintro rfl
        cases hread
      rw [leading?_word hall.1 hk, takeWhile_run hall.2 hstop, if_pos hread]
  | keyword =>
      obtain ⟨d, v, he, hne, hd, hv⟩ := mem_keyword.mp hmem
      cases he
      have hrun := takeWhile_run (f := inWord) (List.forall_mem_cons.mpr ⟨hd, hv⟩) hstop
      simp only [leading?, hrun, if_neg hne, List.length_cons]
  | symbol =>
      obtain ⟨_, _, he, hc, hv⟩ := mem_symbol.mp hmem
      cases he
      have hrun := takeWhile_run hv hstop
      have hword := inWord_of_beginsSymbol hc
      have hk : c ≠ ':' := by
        rintro rfl
        cases hc
      -- a symbol that reads as a number would have been chosen as one
      have hread : ¬ (read? (c :: w)).isSome = true := by
        intro hread
        refine hfirst (by decide) ((numbered_iff c (w ++ rest)).mpr ⟨hword, ?_⟩)
        rwa [hrun]
      rw [leading?_word hword hk, hrun, if_neg hread, if_pos hc]

theorem chosen_of_leading? {k : Kind} (hc : isSeparator c = false) (hs : c ≠ ';')
    (h : leading? c (w ++ rest) = some (k, w.length)) : (token k).Chosen (c :: w) rest := by
  -- brackets and marks are tokens of one character that stands in no word
  have single (hd : inWord c = false) {kind : Kind} (hl : leading? c (w ++ rest) = some (kind, 0))
      (hmem : [c] ∈ language (token kind)) (hstop : (token kind).goesOn = fun _ => false) :
      (token k).Chosen (c :: w) rest := by
    obtain ⟨rfl, hw⟩ := Prod.mk.inj (Option.some.inj (h.symm.trans hl))
    obtain rfl := List.eq_nil_of_length_eq_zero hw
    exact chosen_iff.mpr ⟨takes_iff.mpr ⟨hmem, by simp [hstop]⟩, fun _ => not_numbered hd _⟩
  cases head_cases hc hs (w ++ rest) with
  | opening b hb hl =>
      rcases hb with rfl | rfl | rfl <;> cases hl <;>
        exact single (by decide) rfl (mem_opening.mpr rfl) rfl
  | closing b hb hl =>
      rcases hb with rfl | rfl | rfl <;> cases hl <;>
        exact single (by decide) rfl (mem_closing.mpr rfl) rfl
  | mark m hm hl =>
      rcases hm with rfl | rfl <;> cases hl <;>
        exact single (by decide) rfl (mem_mark.mpr rfl) rfl
  | string hq hl =>
      subst hq
      obtain ⟨n, hn, he⟩ := Option.map_eq_some_iff.mp (hl.symm.trans h)
      obtain ⟨rfl, rfl⟩ := Prod.mk.inj he
      refine chosen_iff.mpr ⟨takes_iff.mpr ⟨mem_string.mpr ?_, by simp [goesOn]⟩,
        fun _ => not_numbered (by decide) _⟩
      have hw := stringLength_take hn
      rwa [List.take_left] at hw
  | word hw hl =>
      obtain ⟨-, hn⟩ := hl k w.length h
      obtain ⟨hall, hstop⟩ := run_of_length hn.symm
      have hrun := takeWhile_run hall hstop
      rw [chosen_iff, takes_iff, List.cons_append, numbered_iff, hrun, ← mem_number]
      by_cases hcolon : c = ':'
      · subst hcolon
        simp only [leading?, hrun] at h
        split at h
        · cases h
        · next d ds hrun =>
          simp only [Option.ite_none_left_eq_some, Option.some.injEq, Prod.mk.injEq] at h
          obtain ⟨hne, rfl, -⟩ := h
          obtain ⟨hd, hds⟩ := List.forall_mem_cons.mp hall
          refine ⟨⟨mem_keyword.mpr ⟨d, ds, rfl, hne, hd, hds⟩, hstop⟩, fun _ hn => ?_⟩
          cases mem_number.mp hn.2
      · rw [leading?_word hw hcolon, hrun] at h
        split at h
        · next hread =>
          obtain ⟨rfl, -⟩ := Prod.mk.inj (Option.some.inj h)
          exact ⟨⟨mem_number.mpr hread, hstop⟩, fun ht => absurd rfl ht⟩
        · next hread =>
          split at h
          · next hb =>
            obtain ⟨rfl, -⟩ := Prod.mk.inj (Option.some.inj h)
            exact ⟨⟨mem_symbol.mpr ⟨c, w, rfl, hb, hall⟩, hstop⟩, fun _ hn => hread (mem_number.mp hn.2)⟩
          · cases h

end Terminal

end Sumi.Form
