import Mathlib.Data.Bool.AllAny
import Sumi.Code.Names
import Sumi.Proofs.Text.Literals

namespace Sumi.Code

open Text

variable {name s : String} {c d : Char}

def helpers : List String :=
  ["sumi_ns", "sumi_def", "sumi_set", "sumi_provide", "sumi_provided", "sumi_truthy", "sumi_throw",
   "sumi_named_fn", "sumi_keyword", "sumi_symbol", "sumi_list"]

theorem helpers_shape : ∀ helper ∈ helpers,
    "sumi_".toList.isPrefixOf helper.toList = true ∧ helper.toList.getLast? ≠ some '_' := by
  decide

def isKept (c : Char) : Bool := Alphanumeric.isAlphanumeric c || c == '_'

/-- What munging leaves as it is. -/
structure Munged (s : String) : Prop where
  kept : ∀ c ∈ s.toList, isKept c = true
  front : ∀ c ∈ s.toList.head?, Digit.isDigit c = false
  free : s ∉ reserved

theorem wordFor_of_isKept (h : isKept c = true) : wordFor c = none := by
  cases hw : wordFor c with
  | none => rfl
  | some word =>
      have hworded : isKept c = false := by
        unfold wordFor at hw
        split at hw <;> cases hw <;> decide
      rw [hworded] at h
      cases h

theorem mungeChar_of_isKept (h : isKept c = true) : mungeChar c = [c] := by
  rw [mungeChar, wordFor_of_isKept h]
  exact if_pos h

theorem wordFor_ascii {word : String} (h : wordFor c = some word) :
    word.toList ≠ [] ∧ ∀ d ∈ word.toList, isKept d = true ∧ d.toNat < 128 := by
  unfold wordFor at h
  split at h <;> cases h <;>
    exact ⟨by decide, List.all_iff_forall_prop.mp (by decide)⟩

theorem digit_ascii {k : Nat} (hk : k < 16) :
    isKept (Hex.digit true k) = true ∧ (Hex.digit true k).toNat < 128 := by
  have hall : ∀ k < 16, isKept (Hex.digit true k) = true ∧ (Hex.digit true k).toNat < 128 := by
    decide
  exact hall k hk

theorem mungeChar_coded (hw : wordFor c = none) (hc : ¬ isKept c = true) :
    mungeChar c = '_' :: 'U' :: Hex.padded true 4 (CodePoint.ofChar c) ++ ['_'] := by
  rw [mungeChar, hw]
  exact if_neg hc

theorem of_mem_mungeChar (h : d ∈ mungeChar c) : isKept d = true ∧ (d = c ∨ d.toNat < 128) := by
  by_cases hc : isKept c = true
  · rw [mungeChar_of_isKept hc, List.mem_singleton] at h
    subst h
    exact ⟨hc, .inl rfl⟩
  suffices h : isKept d = true ∧ d.toNat < 128 from ⟨h.1, .inr h.2⟩
  cases hw : wordFor c with
  | some word =>
      rw [mungeChar, hw] at h
      exact (wordFor_ascii hw).2 d h
  | none =>
      rw [mungeChar_coded hw hc] at h
      simp only [List.cons_append, List.mem_cons, List.mem_append, List.not_mem_nil, or_false] at h
      rcases h with rfl | rfl | h | rfl
      · decide
      · decide
      · obtain ⟨k, hk, rfl⟩ := digit_of_mem_fixed h
        exact digit_ascii hk
      · decide

theorem mungeChar_ne_nil (c : Char) : mungeChar c ≠ [] := by
  unfold mungeChar
  split
  · next h => exact (wordFor_ascii h).1
  · split <;> simp

theorem shield_eq (cs : List Char) : shield cs = cs ∨ shield cs = '_' :: cs := by
  cases cs with
  | nil => exact .inl rfl
  | cons c cs =>
      rw [shield]
      split
      · exact .inr rfl
      · exact .inl rfl

theorem shield_front (cs : List Char) : ∀ c ∈ (shield cs).head?, Digit.isDigit c = false := by
  cases cs with
  | nil => simp [shield]
  | cons c cs =>
      rw [shield]
      split
      · simp only [List.head?_cons, Option.mem_some_iff, forall_eq']
        decide
      · next h => simpa using h

theorem munge_toList (name : String) : ∃ front behind, front ⊆ ['_'] ∧ behind ⊆ ['_'] ∧
    (munge name).toList = front ++ name.toList.flatMap mungeChar ++ behind := by
  obtain ⟨front, hfront, hshield⟩ : ∃ front, front ⊆ ['_'] ∧
      shield (name.toList.flatMap mungeChar) = front ++ name.toList.flatMap mungeChar := by
    rcases shield_eq (name.toList.flatMap mungeChar) with h | h
    · exact ⟨[], by simp, h⟩
    · exact ⟨['_'], List.Subset.refl _, h⟩
  rw [munge, shielded]
  split
  · refine ⟨front, ['_'], hfront, List.Subset.refl _, ?_⟩
    rw [String.toList_push, String.toList_ofList, hshield]
  · refine ⟨front, [], hfront, List.nil_subset _, ?_⟩
    rw [String.toList_ofList, hshield, List.append_nil]

theorem mungeLocal_eq (name : String) :
    mungeLocal name = munge name ∨ mungeLocal name = (munge name).push '_' := by
  rw [mungeLocal]
  split
  · exact .inr rfl
  · exact .inl rfl

theorem of_mem_munge (h : d ∈ (munge name).toList) :
    isKept d = true ∧ (d ∈ name.toList ∨ d.toNat < 128) := by
  obtain ⟨front, behind, hfront, hbehind, hmunge⟩ := munge_toList name
  rw [hmunge, List.mem_append, List.mem_append] at h
  have hmark (h : d ∈ ['_']) : isKept d = true ∧ (d ∈ name.toList ∨ d.toNat < 128) := by
    rw [List.mem_singleton.mp h]
    exact ⟨by decide, .inr (by decide)⟩
  rcases h with (h | h) | h
  · exact hmark (hfront h)
  · obtain ⟨c, hc, hd⟩ := List.mem_flatMap.mp h
    obtain ⟨hkept, rfl | hascii⟩ := of_mem_mungeChar hd
    · exact ⟨hkept, .inl hc⟩
    · exact ⟨hkept, .inr hascii⟩
  · exact hmark (hbehind h)

theorem push_front (h : ∀ c ∈ s.toList.head?, Digit.isDigit c = false) :
    ∀ c ∈ (s.push '_').toList.head?, Digit.isDigit c = false := by
  rw [String.toList_push]
  cases hs : s.toList with
  | nil =>
      simp only [List.nil_append, List.head?_cons, Option.mem_some_iff, forall_eq']
      decide
  | cons c cs =>
      rw [hs] at h
      exact h

theorem push_free (s : String) : s.push '_' ∉ reserved := by
  have hends : ∀ word ∈ reserved, word.toList.getLast? ≠ some '_' := by decide
  exact fun h => hends _ h (by simp)

theorem munged_munge (name : String) : Munged (munge name) := by
  refine ⟨fun c hc => (of_mem_munge hc).1, ?_, ?_⟩
  · have hfront : ∀ c ∈ (String.ofList (shield (name.toList.flatMap mungeChar))).toList.head?,
        Digit.isDigit c = false := by
      rw [String.toList_ofList]
      exact shield_front _
    rw [munge, shielded]
    split
    · exact push_front hfront
    · exact hfront
  · rw [munge, shielded]
    split
    · exact push_free _
    · next h => simpa using h

theorem munged_mungeLocal (name : String) : Munged (mungeLocal name) := by
  have h := munged_munge name
  rcases mungeLocal_eq name with hl | hl <;> rw [hl]
  · exact h
  · refine ⟨?_, push_front h.front, push_free _⟩
    rw [String.toList_push, List.forall_mem_append]
    exact ⟨h.kept, List.forall_mem_singleton.mpr (by decide)⟩

theorem Munged.munge (h : Munged s) : munge s = s := by
  have hplain : s.toList.flatMap mungeChar = s.toList := by
    rw [List.flatMap_def, List.map_congr_left fun c hc => mungeChar_of_isKept (h.kept c hc),
      ← List.flatMap_def, List.flatMap_singleton']
  have hfront : shield s.toList = s.toList := by
    cases hs : s.toList with
    | nil => rfl
    | cons c cs =>
        have hc := h.front c (by simp [hs])
        simp [shield, hc]
  rw [Code.munge, hplain, shielded, hfront, String.ofList_toList]
  exact if_neg (by simpa using h.free)

/-- A local has no name that begins as those of the helpers do, unless an underscore is its end. -/
theorem mungeLocal_ne (name : String) {other : String}
    (hstart : "sumi_".toList.isPrefixOf other.toList = true)
    (hend : other.toList.getLast? ≠ some '_') : mungeLocal name ≠ other := by
  rintro rfl
  unfold mungeLocal at hstart hend
  dsimp only at hstart hend
  by_cases hs : "sumi_".toList.isPrefixOf (munge name).toList = true
  · rw [if_pos hs] at hend
    simp at hend
  · rw [if_neg hs] at hstart
    exact hs hstart

theorem munge_ne_empty (h : name ≠ "") : munge name ≠ "" := by
  obtain ⟨front, behind, -, -, hmunge⟩ := munge_toList name
  intro hempty
  rw [hempty, String.toList_empty, eq_comm, List.append_eq_nil_iff, List.append_eq_nil_iff,
    List.flatMap_eq_nil_iff] at hmunge
  apply h
  rw [← String.toList_eq_nil_iff, List.eq_nil_iff_forall_not_mem]
  exact fun c hc => mungeChar_ne_nil c (hmunge.1.2 c hc)

theorem Munged.isName (h : Munged s) (hne : s ≠ "") (hascii : ∀ c ∈ s.toList, c.toNat < 128) :
    isName s = true := by
  have hfirst : ∀ n < 128, Ranges.contains Alphanumeric.neverFirst n = false := by decide +kernel
  have hcontinues (c : Char) (hc : c ∈ s.toList) : Alphanumeric.continuesName c = true := by
    have hkept := h.kept c hc
    simp only [isKept, Bool.or_eq_true] at hkept
    simp only [Alphanumeric.continuesName, hascii c hc, decide_true, Bool.true_or, Bool.and_true,
      Bool.or_eq_true]
    exact hkept.symm
  rw [Code.isName]
  cases hs : s.toList with
  | nil => exact absurd (String.toList_eq_nil_iff.mp hs) hne
  | cons c cs =>
      rw [hs] at hcontinues hascii
      obtain ⟨hc, hcs⟩ := List.forall_mem_cons.mp hcontinues
      have hdigit := h.front c (by simp [hs])
      simpa [hc, hdigit, hfirst c.toNat (hascii c List.mem_cons_self)] using hcs

/-- Generated names are names that the language of the generated code admits and does not keep for
itself. No local takes the place of a helper. -/
theorem munge_usable (name : String) (hne : name ≠ "")
    (hascii : ∀ c ∈ name.toList, c.toNat < 128) :
    isName (munge name) = true ∧ munge name ∉ reserved ∧ munge (munge name) = munge name ∧
      isName (mungeLocal name) = true ∧ mungeLocal name ∉ reserved ∧
      ∀ helper ∈ helpers, mungeLocal name ≠ helper := by
  have hmunged := munged_munge name
  have hlocal := munged_mungeLocal name
  have hmem : ∀ c ∈ (munge name).toList, c.toNat < 128 := fun c hc =>
    (of_mem_munge hc).2.elim (hascii c) id
  have hne' := munge_ne_empty hne
  have hlocalName : isName (mungeLocal name) = true := by
    apply hlocal.isName
    · rcases mungeLocal_eq name with h | h <;> rw [h]
      · exact hne'
      · simp
    · rcases mungeLocal_eq name with h | h <;> rw [h]
      · exact hmem
      · rw [String.toList_push, List.forall_mem_append]
        exact ⟨hmem, List.forall_mem_singleton.mpr (by decide)⟩
  refine ⟨hmunged.isName hne' hmem, hmunged.free, hmunged.munge, hlocalName, hlocal.free, ?_⟩
  intro helper hhelper
  obtain ⟨hstart, hend⟩ := helpers_shape helper hhelper
  exact mungeLocal_ne name hstart hend

theorem digits_usable : isName (munge "1a-b?") = true ∧ munge "1a-b?" ∉ reserved ∧
    munge (munge "1a-b?") = munge "1a-b?" ∧ isName (mungeLocal "1a-b?") = true ∧
    mungeLocal "1a-b?" ∉ reserved ∧ ∀ helper ∈ helpers, mungeLocal "1a-b?" ≠ helper :=
  munge_usable "1a-b?" (by decide) (List.all_iff_forall_prop.mp (by decide))

example : mungeLocal "sumi-ns" = "sumi_ns_" := by decide

end Sumi.Code
