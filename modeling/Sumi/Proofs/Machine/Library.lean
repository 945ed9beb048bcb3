import Sumi.Machine.State

namespace Sumi

namespace Code

def mungedChar (c : Char) : List Char := if 'a' ≤ c ∧ c ≤ 'z' then [c] else mungeChar c

theorem mungedChar_eq (c : Char) : mungedChar c = mungeChar c := by
  rw [mungedChar]
  split
  · next hc =>
      have hword : wordFor c = none := by
        unfold wordFor
        split <;> first | rfl | exact absurd hc (by decide)
      have hlow : c.toNat < 128 := Nat.lt_of_le_of_lt hc.2 (by decide)
      rw [mungeChar, hword]
      simp [Text.Alphanumeric.isAlphanumeric, Text.Alphanumeric.isAsciiAlphanumeric, hlow, hc]
  · rfl

def spellsReserved (cs : List Char) : Bool :=
  reserved.any fun word => word.toList.length == cs.length && word.toList == cs

theorem contains_reserved (cs : List Char) :
    reserved.contains (String.ofList cs) = spellsReserved cs := by
  rw [Bool.eq_iff_iff, List.contains_iff_mem, spellsReserved, List.any_eq_true]
  constructor
  · intro h
    exact ⟨_, h, by simp⟩
  · rintro ⟨word, hword, h⟩
    obtain ⟨-, h⟩ := Bool.and_eq_true_iff.mp h
    rwa [← eq_of_beq h, String.ofList_toList]

def mungedChars (cs : List Char) : List Char :=
  let shielded := shield (cs.flatMap mungedChar)
  if spellsReserved shielded then shielded ++ ['_'] else shielded

theorem munge_eq (name : String) : munge name = String.ofList (mungedChars name.toList) := by
  rw [munge, shielded, mungedChars, contains_reserved, funext mungedChar_eq]
  split
  · rw [String.ofList_append, ← String.append_singleton]
    rfl
  · rfl

end Code

namespace Machine

def Builtin.attr : Builtin → String
  | .add => "_PLUS_"
  | .sub => "_"
  | .mul => "_STAR_"
  | .div => "_SLASH_"
  | .eq => "_EQ_"
  | .notEq => "not_EQ_"
  | .lt => "_LT_"
  | .gt => "_GT_"
  | .le => "_LT__EQ_"
  | .ge => "_GT__EQ_"
  | .negation => "not_"
  | .isNil => "nil_QMARK_"
  | .isSome => "some_QMARK_"
  | .isTrue => "true_QMARK_"
  | .isFalse => "false_QMARK_"
  | .isZero => "zero_QMARK_"
  | .isPos => "pos_QMARK_"
  | .isNeg => "neg_QMARK_"
  | .isEven => "even_QMARK_"
  | .isOdd => "odd_QMARK_"
  | .isNumber => "number_QMARK_"
  | .isInteger => "integer_QMARK_"
  | .isString => "string_QMARK_"
  | .isKeyword => "keyword_QMARK_"
  | .isSymbol => "symbol_QMARK_"
  | .isFn => "fn_QMARK_"
  | .isList => "list_QMARK_"
  | .isVector => "vector_QMARK_"
  | .isMap => "map_QMARK_"
  | .isColl => "coll_QMARK_"
  | .hashMap => "hash_map"
  | .isEmpty => "empty_QMARK_"
  | .getIn => "get_in"
  | .contains => "contains_QMARK_"
  | .sortBy => "sort_by"
  | .every => "every_QMARK_"
  | .prStr => "pr_str"
  | .reset => "reset_BANG_"
  | .swap => "swap_BANG_"
  | .exMessage => "ex_message"
  | op => op.spelling

theorem normalize_attr (op : Builtin) : Text.Compatibility.normalize op.attr = op.attr :=
  Text.Compatibility.normalize_ascii (by cases op <;> rfl)

theorem munge_spelling : ∀ op ∈ Builtin.all, Code.munge op.spelling = op.attr := by
  simp only [Code.munge_eq]
  decide +kernel

def spelled : Machine :=
  { initial with
    spaces := [(.named Namespace.core,
      Space.fresh (.named Namespace.core) (.str Namespace.core) ++
        Builtin.all.map (fun op => (op.attr, .builtin op)) ++
        ["_STAR_1", "_STAR_2", "_STAR_3"].map (fun attr => (attr, .nil)))] }

theorem initial_eq_spelled : initial = spelled := by
  have hops : Builtin.all.map (fun op => (Code.munge op.spelling, Value.builtin op)) =
      Builtin.all.map (fun op => (op.attr, .builtin op)) := by
    apply List.map_congr_left
    intro op hop
    rw [munge_spelling op hop]
  rw [spelled, initial, librarySpace, hops]
  rfl

end Machine

end Sumi
