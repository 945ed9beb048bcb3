import Mathlib.Data.List.Nodup
import Sumi.Table

namespace Sumi

section Distinct

variable {α : Type} [BEq α] [LawfulBEq α] {x : α} {seen xs : List α}

def collect (seen : List α) (x : α) : List α := if seen.contains x then seen else seen ++ [x]

theorem mem_collect {y : α} : x ∈ collect seen y ↔ x ∈ seen ∨ x = y := by
  rw [collect]
  split
  · next h =>
      have hy : y ∈ seen := by simpa using h
      exact ⟨.inl, fun hx => hx.elim id fun hx => hx ▸ hy⟩
  · rw [List.mem_append, List.mem_singleton]

theorem nodup_collect (h : seen.Nodup) (y : α) : (collect seen y).Nodup := by
  rw [collect]
  split
  · exact h
  · next hy =>
      have hy : y ∉ seen := by simpa using hy
      exact List.nodup_middle.mpr (by simpa using List.nodup_cons.mpr ⟨hy, h⟩)

theorem mem_foldl_collect : x ∈ xs.foldl collect seen ↔ x ∈ seen ∨ x ∈ xs := by
  induction xs generalizing seen with
  | nil => simp
  | cons y ys ih => rw [List.foldl_cons, ih, mem_collect, or_assoc, List.mem_cons]

theorem nodup_foldl_collect (h : seen.Nodup) (xs : List α) : (xs.foldl collect seen).Nodup := by
  induction xs generalizing seen with
  | nil => exact h
  | cons y ys ih => exact ih (nodup_collect h y)

theorem mem_distinct : x ∈ distinct xs ↔ x ∈ xs := by
  change x ∈ xs.foldl collect [] ↔ x ∈ xs
  rw [mem_foldl_collect]
  simp

theorem nodup_distinct (xs : List α) : (distinct xs).Nodup := nodup_foldl_collect List.nodup_nil xs

end Distinct

namespace Table

variable {κ ν : Type} [BEq κ] {key : κ} {value : ν} {t u : Table κ ν} {es us : List (κ × ν)}

theorem get?_append (t u : Table κ ν) :
    Table.get? key (t ++ u) = (t.get? key).orElse fun _ => u.get? key := by
  induction t with
  | nil => rfl
  | cons e t ih =>
      rw [List.cons_append, get?, get?]
      split
      · rfl
      · exact ih

variable [LawfulBEq κ]

theorem has_put (key other : κ) (value : ν) (t : Table κ ν) :
    (t.put key value).has other = (other == key || t.has other) := by
  unfold has
  by_cases h : other = key
  · subst h
    simp [get?_put_self]
  · rw [get?_put_of_ne h, beq_false_of_ne h, Bool.false_or]

theorem get?_erase_of_ne {key other : κ} (h : other ≠ key) (t : Table κ ν) :
    (t.erase key).get? other = t.get? other := by
  induction t with
  | nil => rfl
  | cons e t ih =>
      unfold erase at ih ⊢
      by_cases hk : e.1 = key
      · rw [List.filter_cons_of_neg (by simp [hk]), ih, get?, if_neg]
        rw [hk]
        simpa using h.symm
      · rw [List.filter_cons_of_pos (by simp [hk]), get?, get?, ih]

theorem get?_erase_self (key : κ) (t : Table κ ν) : (t.erase key).get? key = none := by
  induction t with
  | nil => rfl
  | cons e t ih =>
      unfold erase at ih ⊢
      by_cases hk : e.1 = key
      · rw [List.filter_cons_of_neg (by simp [hk]), ih]
      · rw [List.filter_cons_of_pos (by simp [hk]), get?, if_neg (by simpa using hk), ih]

theorem mem_keys (h : t.get? key = some value) : key ∈ t.keys := by
  induction t with
  | nil => cases h
  | cons e t ih =>
      rw [get?] at h
      split at h
      · next he =>
          rw [← eq_of_beq he]
          exact List.mem_cons_self
      · exact List.mem_cons_of_mem _ (ih h)

theorem get?_of_mem_keys (h : key ∈ t.keys) : t.get? key ≠ none := by
  induction t with
  | nil => cases h
  | cons e t ih =>
      rw [get?]
      split
      · exact Option.some_ne_none _
      · next he =>
          rcases List.mem_cons.mp h with hk | hk
          · exact absurd (beq_of_eq hk.symm) he
          · exact ih hk

theorem has_iff_mem_keys : t.has key = true ↔ key ∈ t.keys := by
  rw [has, Option.isSome_iff_exists]
  constructor
  · rintro ⟨value, h⟩
    exact mem_keys h
  · exact fun h => Option.ne_none_iff_exists'.mp (get?_of_mem_keys h)

def Keyed (t : Table κ ν) : Prop := t.keys.Nodup

theorem mem_keys_put {other : κ} : other ∈ (t.put key value).keys ↔ other = key ∨ other ∈ t.keys := by
  induction t with
  | nil => simp [put, keys]
  | cons e t ih =>
      rw [put]
      split
      · next h => simp [keys, eq_of_beq h]
      · simp only [keys, List.map_cons, List.mem_cons] at ih ⊢
        rw [ih, or_left_comm]

theorem Keyed.put (h : t.Keyed) (key : κ) (value : ν) : (t.put key value).Keyed := by
  induction t with
  | nil => simp [Keyed, Table.put, keys]
  | cons e t ih =>
      rw [Keyed, keys, List.map_cons, List.nodup_cons] at h
      rw [Table.put]
      split
      · exact List.nodup_cons.mpr h
      · next hne =>
          refine List.nodup_cons.mpr ⟨?_, ih h.2⟩
          change e.1 ∉ Table.keys (Table.put key value t)
          rw [mem_keys_put, not_or]
          exact ⟨by simpa using hne, h.1⟩

theorem Keyed.putAll (h : t.Keyed) (es : List (κ × ν)) : (t.putAll es).Keyed := by
  induction es generalizing t with
  | nil => exact h
  | cons e es ih => exact ih (h.put e.1 e.2)

theorem Keyed.get?_iff (h : t.Keyed) : t.get? key = some value ↔ (key, value) ∈ t := by
  induction t with
  | nil => simp [get?]
  | cons e t ih =>
      rw [Keyed, keys, List.map_cons, List.nodup_cons] at h
      rw [get?, List.mem_cons]
      split
      · next hk =>
          obtain rfl := eq_of_beq hk
          have hout : (e.1, value) ∉ t := fun hm => h.1 (List.mem_map.mpr ⟨_, hm, rfl⟩)
          simp [hout, Prod.ext_iff, eq_comm]
      · next hk =>
          have hne : (key, value) ≠ e := by
            rintro rfl
            simp at hk
          rw [ih h.2]
          simp [hne]

theorem Keyed.mem_values (h : t.Keyed) : value ∈ t.values ↔ ∃ key, t.get? key = some value := by
  simp only [h.get?_iff]
  simp [values]

theorem get?_putAll (t : Table κ ν) (es : List (κ × ν)) :
    (t.putAll es).get? key = Table.get? key (es.reverse ++ t) := by
  induction es generalizing t with
  | nil => rfl
  | cons e es ih =>
      have hput : (t.put e.1 e.2).get? key = Table.get? key ([e] ++ t) := by
        by_cases h : key = e.1
        · rw [h, get?_put_self, List.singleton_append, get?, if_pos (beq_self_eq_true e.1)]
        · rw [get?_put_of_ne h, List.singleton_append, get?, if_neg (by simpa using Ne.symm h)]
      rw [List.reverse_cons, List.append_assoc, get?_append, ← hput, ← get?_append]
      exact ih (t.put e.1 e.2)

/-- The table has what was put into it: for each key, the value of the last entry. -/
structure Shows (t : Table κ ν) (es : List (κ × ν)) : Prop where
  keyed : t.Keyed
  last : ∀ key, t.get? key = Table.get? key es.reverse

theorem shows_putAll (es : List (κ × ν)) : Shows (Table.putAll [] es) es where
  keyed := Keyed.putAll (t := []) List.nodup_nil es
  last key := by rw [get?_putAll, List.append_nil]

theorem Keyed.get?_reverse (h : t.Keyed) : Table.get? key t.reverse = t.get? key := by
  have hreverse : Keyed t.reverse := by
    rw [Keyed, keys, List.map_reverse]
    exact List.nodup_reverse.mpr h
  ext value
  rw [hreverse.get?_iff, h.get?_iff, List.mem_reverse]

theorem Shows.putAll (h : Shows t es) (h' : Shows u us) : Shows (t.putAll u) (es ++ us) where
  keyed := h.keyed.putAll u
  last key := by
    rw [get?_putAll, get?_append, h'.keyed.get?_reverse, h'.last, h.last, ← get?_append,
      List.reverse_append]

end Table

end Sumi
