import Mathlib.Algebra.Group.Nat.Defs
import Sumi.Text.Literal

namespace Sumi.Text

theorem value?_digit {k : Nat} (hk : k < 16) : Hex.value? (Hex.digit false k) = some k := by
  have hall : ∀ k < 16, Hex.value? (Hex.digit false k) = some k := by decide
  exact hall k hk

theorem length_fixed (upper : Bool) (width n : Nat) : (Hex.fixed upper width n).length = width := by
  induction width generalizing n with
  | zero => rfl
  | succ width ih => simp [Hex.fixed, ih]

theorem digit_of_mem_fixed {upper : Bool} {width n : Nat} {c : Char}
    (hc : c ∈ Hex.fixed upper width n) : ∃ k < 16, c = Hex.digit upper k := by
  induction width generalizing n with
  | zero => cases hc
  | succ width ih =>
      rw [Hex.fixed] at hc
      rcases List.mem_append.mp hc with hc | hc
      · exact ih hc
      · exact ⟨n % 16, Nat.mod_lt n (by decide), List.mem_singleton.mp hc⟩

theorem number?_fixed {width n : Nat} (h : n < 16 ^ width) :
    Hex.number? (Hex.fixed false width n) = some n := by
  induction width generalizing n with
  | zero =>
      obtain rfl : n = 0 := by simpa using h
      rfl
  | succ width ih =>
      have hhigh : n / 16 < 16 ^ width := by
        rw [Nat.pow_succ] at h
        exact Nat.div_lt_of_lt_mul (by omega)
      have hlast : Hex.value? (Hex.digit false (n % 16)) = some (n % 16) :=
        value?_digit (Nat.mod_lt n (by decide))
      have hrest := ih hhigh
      rw [Hex.number?] at hrest ⊢
      rw [Hex.fixed, List.foldlM_append, hrest]
      simp only [Option.bind_eq_bind, Option.bind_some, List.foldlM_cons, List.foldlM_nil, hlast,
        Option.map_some, Option.pure_def, Option.some.injEq]
      omega

namespace CodePoint

theorem isSurrogate_iff {n : Nat} : isSurrogate n = true ↔ 0xD800 ≤ n ∧ n < 0xE000 := by
  simp only [isSurrogate, isHighSurrogate, isLowSurrogate, Bool.or_eq_true, Bool.and_eq_true,
    decide_eq_true_eq]
  omega

theorem isHalf_iff {c : Char} : isHalf c = true ↔ 0xFD800 ≤ c.toNat ∧ c.toNat < 0xFE000 := by
  simp only [isHalf, Bool.and_eq_true, decide_eq_true_eq]

theorem ofChar_lt (c : Char) : ofChar c < 16 ^ 8 := by
  have hc : c.toNat < 16 ^ 8 := c.val.toNat_lt
  unfold ofChar
  split
  · exact Nat.lt_of_le_of_lt (Nat.mod_le _ _) hc
  · exact hc

theorem toChar_ofChar (c : Char) : toChar (ofChar c) = c := by
  unfold ofChar toChar
  split
  · next hc =>
    obtain ⟨hlow, hhigh⟩ := isHalf_iff.mp hc
    have hback : 0xF0000 + c.toNat % 0x10000 = c.toNat := by omega
    have hhalf : isSurrogate (c.toNat % 0x10000) = true := isSurrogate_iff.mpr (by omega)
    rw [if_pos hhalf, hback, Char.ofNat_toNat]
  · have hwhole : ¬ isSurrogate c.toNat = true := by
      have hvalid : c.toNat < 0xD800 ∨ 0xDFFF < c.toNat := c.valid.imp id And.left
      rw [isSurrogate_iff]
      omega
    rw [if_neg hwhole, Char.ofNat_toNat]

end CodePoint

namespace Literal

/-- How a character is escaped: behind a backslash as itself or as a letter, or not at all, or by its
code point in as many digits as the letter before them says. -/
inductive Spelling (quote c : Char) : List Char → Prop
  | shielded (h : c = quote ∨ c = '\\') : Spelling quote c ['\\', c]
  | lettered {mark : Char} (h : (mark, c) ∈ [('n', '\n'), ('r', '\r'), ('t', '\t')]) :
      Spelling quote c ['\\', mark]
  | shown (hq : c ≠ quote) (hb : c ≠ '\\') (h : Printable.isPrintable c = true) :
      Spelling quote c [c]
  | coded {mark : Char} {width : Nat} (h : (mark, width) ∈ [('x', 2), ('u', 4), ('U', 8)])
      (hc : CodePoint.ofChar c < 16 ^ width) :
      Spelling quote c ('\\' :: mark :: Hex.fixed false width (CodePoint.ofChar c))

theorem escape_spelling (quote c : Char) : Spelling quote c (escape quote c) := by
  unfold escape
  split
  · next h => exact .shielded (by simpa using h)
  · next hplain =>
      obtain ⟨hq, hb⟩ : c ≠ quote ∧ c ≠ '\\' := by simpa using hplain
      split
      · next h => exact .lettered (by simp [eq_of_beq h])
      · split
        · next h => exact .lettered (by simp [eq_of_beq h])
        · split
          · next h => exact .lettered (by simp [eq_of_beq h])
          · split
            · next h => exact .shown hq hb h
            · unfold coded
              split
              · next h => exact .coded (by simp) h
              · split
                · next h => exact .coded (by simp) h
                · exact .coded (by simp) (CodePoint.ofChar_lt c)

def coded? (width : Nat) (cs : List Char) : Option (Char × List Char) :=
  (Hex.number? (cs.take width)).map fun n => (CodePoint.toChar n, cs.drop width)

def next? (quote : Char) : List Char → Option (Char × List Char)
  | '\\' :: c :: cs =>
      match c with
      | 'n' => some ('\n', cs)
      | 'r' => some ('\r', cs)
      | 't' => some ('\t', cs)
      | 'x' => coded? 2 cs
      | 'u' => coded? 4 cs
      | 'U' => coded? 8 cs
      | c => some (c, cs)
  | c :: cs => if c = quote then none else some (c, cs)
  | [] => none

theorem coded?_fixed {width : Nat} {c : Char} (h : CodePoint.ofChar c < 16 ^ width)
    (rest : List Char) :
    coded? width (Hex.fixed false width (CodePoint.ofChar c) ++ rest) = some (c, rest) := by
  have hlength := length_fixed false width (CodePoint.ofChar c)
  rw [coded?, List.take_left' hlength, List.drop_left' hlength, number?_fixed h, Option.map_some,
    CodePoint.toChar_ofChar]

def IsQuote (quote : Char) : Prop := quote = '\'' ∨ quote = '"'

theorem quoteFor_isQuote (cs : List Char) : IsQuote (quoteFor cs) := by
  unfold quoteFor
  split
  · exact .inr rfl
  · exact .inl rfl

variable {quote : Char} {cs ds rest rest' : List Char}

theorem next?_escape (hq : IsQuote quote) (c : Char) (rest : List Char) :
    next? quote (escape quote c ++ rest) = some (c, rest) := by
  have h := escape_spelling quote c
  generalize escape quote c = text at h
  cases h with
  | shielded h =>
      rcases hq with rfl | rfl <;> rcases h with rfl | rfl <;> rfl
  | lettered h =>
      simp only [List.mem_cons, List.not_mem_nil, or_false, Prod.mk.injEq] at h
      rcases h with ⟨rfl, rfl⟩ | ⟨rfl, rfl⟩ | ⟨rfl, rfl⟩ <;> rfl
  | shown hquote hb h =>
      rw [List.singleton_append, next?]
      · rw [if_neg hquote]
      · exact fun _ _ h _ => hb h
  | coded h hc =>
      simp only [List.mem_cons, List.not_mem_nil, or_false, Prod.mk.injEq] at h
      rcases h with ⟨rfl, rfl⟩ | ⟨rfl, rfl⟩ | ⟨rfl, rfl⟩ <;> exact coded?_fixed hc rest

theorem next?_quote (hq : IsQuote quote) (rest : List Char) : next? quote (quote :: rest) = none := by
  rcases hq with rfl | rfl <;> rfl

theorem escaped_unique (hq : IsQuote quote)
    (h : cs.flatMap (escape quote) ++ quote :: rest = ds.flatMap (escape quote) ++ quote :: rest') :
    cs = ds ∧ rest = rest' := by
  induction cs generalizing ds with
  | nil =>
      cases ds with
      | nil => exact ⟨rfl, (List.cons.inj h).2⟩
      | cons d ds =>
          have hnext := congrArg (next? quote) h
          rw [List.flatMap_nil, List.nil_append, next?_quote hq, List.flatMap_cons,
            List.append_assoc, next?_escape hq] at hnext
          cases hnext
  | cons c cs ih =>
      have hnext := congrArg (next? quote) h
      rw [List.flatMap_cons, List.append_assoc, next?_escape hq] at hnext
      cases ds with
      | nil =>
          rw [List.flatMap_nil, List.nil_append, next?_quote hq] at hnext
          cases hnext
      | cons d ds =>
          rw [List.flatMap_cons, List.append_assoc, next?_escape hq] at hnext
          obtain ⟨rfl, hrest⟩ := Prod.mk.inj (Option.some.inj hnext)
          obtain ⟨rfl, hend⟩ := ih hrest
          exact ⟨rfl, hend⟩

theorem encode_unique (h : encode cs ++ rest = encode ds ++ rest') : cs = ds ∧ rest = rest' := by
  unfold encode at h
  simp only [List.cons_append, List.append_assoc, List.nil_append] at h
  obtain ⟨hquote, hbody⟩ := List.cons.inj h
  rw [← hquote] at hbody
  exact escaped_unique (quoteFor_isQuote cs) hbody

/-- Literals write different texts, and none of them is the beginning of another one. -/
theorem write_unique {s t : String} (h : (write s).toList ++ rest = (write t).toList ++ rest') :
    s = t ∧ rest = rest' := by
  rw [write, write, String.toList_ofList, String.toList_ofList] at h
  obtain ⟨hs, hrest⟩ := encode_unique h
  exact ⟨String.toList_inj.mp hs, hrest⟩

end Literal

def isFigure (c : Char) : Bool := c.isDigit || c == '-'

theorem toString_figures (n : Int) : ∀ c ∈ (toString n).toList, isFigure c = true := by
  have hdigits (k : Nat) : ∀ c ∈ Nat.toDigits 10 k, isFigure c = true := fun c hc => by
    rw [isFigure, Nat.isDigit_of_mem_toDigits (by decide) (by decide) hc, Bool.true_or]
  rw [Int.toString_eq_repr]
  cases n with
  | ofNat k =>
      rw [Int.repr, Nat.toList_repr]
      exact hdigits k
  | negSucc k =>
      rw [Int.repr, String.toList_append, Nat.toList_repr]
      exact List.forall_mem_cons.mpr ⟨rfl, hdigits (k + 1)⟩

end Sumi.Text
