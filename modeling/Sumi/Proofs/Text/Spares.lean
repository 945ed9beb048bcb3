import Mathlib.Data.Bool.AllAny
import Sumi.Code.Names
import Sumi.Code.Render
import Sumi.Proofs.Text.Literals

namespace Sumi.Text

def lineEnds : List Char :=
  ['\n', '\r', '\x0b', '\x0c', '\x1c', '\x1d', '\x1e', '\u0085', '\u2028', '\u2029']

def Spares (marks : List Char) (s : String) : Prop := ∀ c ∈ s.toList, c ∉ marks

instance (marks : List Char) (s : String) : Decidable (Spares marks s) :=
  List.decidableBAll (· ∉ marks) s.toList

variable {marks : List Char} {s t : String}

theorem spares_ofList {cs : List Char} : Spares marks (String.ofList cs) ↔ ∀ c ∈ cs, c ∉ marks := by
  rw [Spares, String.toList_ofList]

theorem Spares.append (hs : Spares marks s) (ht : Spares marks t) : Spares marks (s ++ t) := by
  intro c hc
  rw [String.toList_append] at hc
  exact (List.mem_append.mp hc).elim (hs c) (ht c)

theorem Spares.intercalate {parts : List String} (hs : Spares marks s)
    (h : ∀ part ∈ parts, Spares marks part) : Spares marks (s.intercalate parts) := by
  induction parts with
  | nil => exact fun c hc => by simp at hc
  | cons part parts ih =>
      obtain ⟨hpart, hparts⟩ := List.forall_mem_cons.mp h
      cases parts with
      | nil => simpa using hpart
      | cons next parts =>
          rw [String.intercalate_cons_cons]
          exact (hpart.append hs).append (ih hparts)

theorem Spares.mono {more : List Char} (h : Spares more s) (hm : marks ⊆ more) : Spares marks s :=
  fun c hc hmem => h c hc (hm hmem)

theorem spares_digits (h : ∀ k < 16, ∀ upper, Hex.digit upper k ∉ marks) (upper : Bool)
    (width n : Nat) : ∀ c ∈ Hex.fixed upper width n, c ∉ marks := by
  intro c hc
  obtain ⟨k, hk, rfl⟩ := digit_of_mem_fixed hc
  exact h k hk upper

theorem escape_spares {quote : Char} (hq : Literal.IsQuote quote) (c : Char) :
    ∀ d ∈ Literal.escape quote c, d ∉ lineEnds := by
  have hprintable : ∀ c ∈ lineEnds, Printable.isPrintable c = false :=
    List.all_iff_forall_prop.mp (by decide +kernel)
  have hletters : ∀ d ∈ ['\\', 'n', 'r', 't', 'x', 'u', 'U'], d ∉ lineEnds :=
    List.all_iff_forall_prop.mp (by decide)
  have h := Literal.escape_spelling quote c
  generalize Literal.escape quote c = text at h
  cases h with
  | shielded h =>
      rcases hq with rfl | rfl <;> rcases h with rfl | rfl <;>
        exact List.all_iff_forall_prop.mp (by decide)
  | lettered h =>
      simp only [List.mem_cons, List.not_mem_nil, or_false, Prod.mk.injEq] at h
      rcases h with ⟨rfl, rfl⟩ | ⟨rfl, rfl⟩ | ⟨rfl, rfl⟩ <;>
        exact List.all_iff_forall_prop.mp (by decide)
  | shown _ _ h =>
      intro d hd hmem
      rw [List.mem_singleton.mp hd] at hmem
      rw [hprintable c hmem] at h
      cases h
  | @coded mark width h _ =>
      have hmark : mark ∈ ['\\', 'n', 'r', 't', 'x', 'u', 'U'] := by
        simp only [List.mem_cons, List.not_mem_nil, or_false, Prod.mk.injEq] at h
        rcases h with ⟨rfl, rfl⟩ | ⟨rfl, rfl⟩ | ⟨rfl, rfl⟩ <;> decide
      rw [List.forall_mem_cons, List.forall_mem_cons]
      exact ⟨hletters _ (by decide), hletters _ hmark,
        spares_digits (by decide) false width (CodePoint.ofChar c)⟩

theorem write_spares (s : String) : Spares lineEnds (Literal.write s) := by
  have hq := Literal.quoteFor_isQuote s.toList
  have hquote : Literal.quoteFor s.toList ∉ lineEnds := by
    rcases hq with h | h <;> rw [h] <;> decide
  rw [Literal.write, spares_ofList, Literal.encode]
  intro c hc
  rcases List.mem_append.mp hc with hc | hc
  · rcases List.mem_cons.mp hc with rfl | hc
    · exact hquote
    · obtain ⟨d, -, hd⟩ := List.mem_flatMap.mp hc
      exact escape_spares hq d c hd
  · rw [List.mem_singleton.mp hc]
    exact hquote

def numerals : List Char := "0123456789.-+einfa".toList

theorem mem_numerals_of_isDigit {c : Char} (h : c.isDigit = true) : c ∈ numerals := by
  have hall : ∀ k < 10, Char.ofNat (48 + k) ∈ numerals := by decide
  obtain ⟨hlow, hhigh⟩ : 48 ≤ c.toNat ∧ c.toNat ≤ 57 := Char.isDigit_iff_toNat.mp h
  have hc := hall (c.toNat - 48) (by omega)
  rwa [Nat.add_sub_cancel' hlow, Char.ofNat_toNat] at hc

theorem toDigits_numerals (n : Nat) : ∀ c ∈ Nat.toDigits 10 n, c ∈ numerals := fun _ hc =>
  mem_numerals_of_isDigit (Nat.isDigit_of_mem_toDigits (by decide) (by decide) hc)

theorem toString_numerals (n : Int) : ∀ c ∈ (toString n).toList, c ∈ numerals := by
  intro c hc
  rcases Bool.or_eq_true_iff.mp (toString_figures n c hc) with h | h
  · exact mem_numerals_of_isDigit h
  · rw [eq_of_beq h]
    decide

theorem zeros_numerals (n : Nat) : ∀ c ∈ List.replicate n '0', c ∈ numerals := fun c hc => by
  rw [List.eq_of_mem_replicate hc]
  decide

section

open Decimal.Shortest

theorem arrange_numerals (l : Layout) {cs : List Char} (place : Int)
    (h : ∀ c ∈ cs, c ∈ numerals) : ∀ c ∈ arrange l cs place, c ∈ numerals := by
  have hpower : ∀ c ∈ 'e' :: (if place < 0 then '-' else '+') ::
      pad l.width (Nat.toDigits 10 place.natAbs), c ∈ numerals := by
    refine List.forall_mem_cons.mpr ⟨by decide, List.forall_mem_cons.mpr ⟨?_, ?_⟩⟩
    · split <;> decide
    · rw [pad, List.forall_mem_append]
      exact ⟨zeros_numerals _, toDigits_numerals _⟩
  unfold arrange
  split
  · split
    · refine List.forall_mem_cons.mpr ⟨by decide, List.forall_mem_cons.mpr ⟨by decide, ?_⟩⟩
      exact List.forall_mem_append.mpr ⟨zeros_numerals _, h⟩
    · refine List.forall_mem_append.mpr ⟨fun c hc => ?_, List.forall_mem_cons.mpr ⟨by decide, ?_⟩⟩
      · exact List.forall_mem_append.mpr ⟨h, zeros_numerals _⟩ c (List.mem_of_mem_take hc)
      · split
        · exact List.all_iff_forall_prop.mp (by decide)
        · exact fun c hc => h c (List.mem_of_mem_drop hc)
  · dsimp only
    split
    · exact List.forall_mem_cons.mpr ⟨h _ (by simp), hpower⟩
    · obtain ⟨hd, hrest⟩ := List.forall_mem_cons.mp h
      refine List.forall_mem_cons.mpr ⟨hd, List.forall_mem_cons.mpr ⟨by decide, ?_⟩⟩
      exact List.forall_mem_append.mpr ⟨hrest, hpower⟩
    · exact hpower

theorem write_numerals (x : Float) : ∀ c ∈ (write x).toList, c ∈ numerals := by
  have hdigits (d : Digits) (place : Int) :
      ∀ c ∈ arrange layout (stripZeros (Nat.toDigits 10 d.digits)) place, c ∈ numerals := by
    refine arrange_numerals layout place fun c hc => toDigits_numerals d.digits c ?_
    rw [stripZeros, List.mem_reverse] at hc
    exact List.mem_reverse.mp ((List.dropWhile_sublist _).subset hc)
  have hsigned (b : Bool) {text : List Char} (h : ∀ c ∈ text, c ∈ numerals) :
      ∀ c ∈ (if b then '-' :: text else text), c ∈ numerals := by
    split
    · exact List.forall_mem_cons.mpr ⟨by decide, h⟩
    · exact h
  unfold write
  split
  · exact List.all_iff_forall_prop.mp (by decide)
  · rw [String.toList_ofList]
    apply hsigned
    split
    · exact List.all_iff_forall_prop.mp (by decide)
    · split
      · exact List.all_iff_forall_prop.mp (by decide)
      · exact hdigits _ _

end

def gaps : List Char := ' ' :: lineEnds

theorem wordFor_spares {c : Char} {word : String} (h : Code.wordFor c = some word) :
    Spares gaps word := by
  unfold Code.wordFor at h
  split at h <;> cases h <;> decide

theorem mungeChar_spares (c : Char) : ∀ d ∈ Code.mungeChar c, d ∉ gaps := by
  have hletters : ∀ c ∈ gaps, Alphanumeric.isAlphanumeric c = false :=
    List.all_iff_forall_prop.mp (by decide +kernel)
  unfold Code.mungeChar
  split
  · next word h => exact wordFor_spares h
  · split
    · next h =>
        intro d hd hmem
        rw [List.mem_singleton.mp hd] at hmem
        rcases Bool.or_eq_true_iff.mp h with h | h
        · rw [hletters c hmem] at h
          cases h
        · rw [eq_of_beq h] at hmem
          revert hmem
          decide
    · intro d hd
      have hcode := spares_digits (by decide : ∀ k < 16, ∀ upper, Hex.digit upper k ∉ gaps) true
      rcases List.mem_append.mp hd with hd | hd
      · rcases List.mem_cons.mp hd with rfl | hd
        · decide
        · rcases List.mem_cons.mp hd with rfl | hd
          · decide
          · exact hcode _ _ d hd
      · rw [List.mem_singleton.mp hd]
        decide

theorem munge_spares (name : String) : Spares gaps (Code.munge name) := by
  have hplain : ∀ c ∈ name.toList.flatMap Code.mungeChar, c ∉ gaps := fun c hc => by
    obtain ⟨d, -, hd⟩ := List.mem_flatMap.mp hc
    exact mungeChar_spares d c hd
  have hshield : ∀ c ∈ Code.shield (name.toList.flatMap Code.mungeChar), c ∉ gaps := by
    unfold Code.shield
    split
    · exact List.forall_mem_nil _
    · next c cs hcs =>
        rw [hcs] at hplain
        split
        · exact List.forall_mem_cons.mpr ⟨by decide, hplain⟩
        · exact hplain
  unfold Code.munge Code.shielded
  dsimp only
  split
  · rw [String.push_eq_append]
    exact (spares_ofList.mpr hshield).append (by decide)
  · exact spares_ofList.mpr hshield

theorem mungeLocal_spares (name : String) : Spares gaps (Code.mungeLocal name) := by
  unfold Code.mungeLocal
  dsimp only
  split
  · rw [String.push_eq_append]
    exact (munge_spares name).append (by decide)
  · exact munge_spares name

end Sumi.Text
