import Sumi.Project.Dependencies

namespace Sumi.Project

namespace Path

theorem parts_append_slash (p q : String) : parts (p ++ "/" ++ q) = parts p ++ parts q := by
  have h : (p ++ "/" ++ q).toList = p.toList ++ '/' :: q.toList := by simp
  rw [parts, h, List.splitOn_append_cons_self, List.map_append]
  rfl

theorem splitOn_append {s : List Char} (hs : '/' ∉ s) (cs : List Char) :
    ∃ up name, (cs ++ s).splitOn '/' = up ++ [name ++ s] ∧ ∀ l ∈ up, l ⊆ cs := by
  induction cs with
  | nil => exact ⟨[], [], List.splitOn_eq_singleton hs, by simp⟩
  | cons c cs ih =>
      obtain ⟨up, name, h, hsub⟩ := ih
      have hmore : ∀ l ∈ up, l ⊆ c :: cs := fun l hl => List.subset_cons_of_subset c (hsub l hl)
      rw [List.cons_append, List.splitOn_cons_eq_if_modifyHead, h]
      split
      · refine ⟨[] :: up, name, rfl, ?_⟩
        simpa using hmore
      · cases up with
        | nil => exact ⟨[], c :: name, rfl, by simp⟩
        | cons first up =>
            refine ⟨(c :: first) :: up, name, rfl, ?_⟩
            intro l hl
            rcases List.mem_cons.mp hl with rfl | hl
            · exact List.cons_subset_cons c (hsub first List.mem_cons_self)
            · exact hmore l (List.mem_cons_of_mem _ hl)

theorem parts_append {s : String} (hs : '/' ∉ s.toList) (p : String) :
    ∃ up name, parts (p ++ s) = up ++ [name ++ s] ∧ ∀ part ∈ up, part.toList ⊆ p.toList := by
  obtain ⟨up, name, h, hsub⟩ := splitOn_append hs p.toList
  refine ⟨up.map String.ofList, String.ofList name, ?_, ?_⟩
  · rw [parts, String.toList_append, h, List.map_append]
    simp
  · intro part hp
    obtain ⟨l, hl, rfl⟩ := List.mem_map.mp hp
    simpa using hsub l hl

def separator (base : String) : String :=
  if base.toList.getLast? = some '/' then "" else "/"

theorem separator_append (a : String) {b : String} (hb : b ≠ "") :
    separator (a ++ b) = separator b := by
  have hne : b.toList ≠ [] := by simpa using hb
  rw [separator, separator, String.toList_append, List.getLast?_append,
    List.getLast?_eq_some_getLast hne]
  rfl

theorem join_of_absolute {base p : String} (h : isAbsolute p = true) : join base p = p := by
  simp [join, h]

theorem join_empty (p : String) : join "" p = p := by simp [join]

theorem join_of_relative {base p : String} (hp : isAbsolute p = false) (hb : base ≠ "") :
    join base p = base ++ separator base ++ p := by
  have he : base.isEmpty = false := String.isEmpty_eq_false_iff.mpr hb
  by_cases hs : base.toList.getLast? = some '/'
  · simp [join, separator, hp, he, hs]
  · simp [join, separator, hp, he, hs]

theorem isAbsolute_append {a : String} (ha : a ≠ "") (b : String) :
    isAbsolute (a ++ b) = isAbsolute a := by
  have hne : a.toList ≠ [] := by simpa using ha
  unfold isAbsolute
  rw [String.toList_append]
  obtain ⟨c, cs, hc⟩ := List.exists_cons_of_ne_nil hne
  rw [hc]
  rfl

theorem append_ne_empty {b : String} (hb : b ≠ "") (a : String) : a ++ b ≠ "" := by
  intro h
  have := congrArg String.toList h
  simp [hb] at this

theorem join_assoc (a b c : String) : join a (join b c) = join (join a b) c := by
  cases hc : isAbsolute c with
  | true => rw [join_of_absolute hc, join_of_absolute hc, join_of_absolute hc]
  | false =>
      by_cases ha : a = ""
      · rw [ha, join_empty, join_empty]
      by_cases hb : b = ""
      · have hsep : separator (a ++ separator a) = "" := by
          unfold separator
          split
          · next h => simp [h]
          · simp
        have hne : a ++ separator a ≠ "" := by
          intro h
          have := congrArg String.toList h
          simp [ha] at this
        rw [hb, join_empty, join_of_relative hc ha, join_of_relative (by decide) ha,
          String.append_empty, join_of_relative hc hne, hsep, String.append_empty]
      · have hjoin := join_of_relative hc hb
        have habs : isAbsolute (b ++ separator b ++ c) = isAbsolute b := by
          rw [String.append_assoc, isAbsolute_append hb]
        cases hab : isAbsolute b with
        | true =>
            rw [hjoin, join_of_absolute (habs.trans hab), join_of_absolute hab, hjoin]
        | false =>
            rw [hjoin, join_of_relative (habs.trans hab) ha, join_of_relative hab ha,
              join_of_relative hc (append_ne_empty hb _), separator_append _ hb]
            simp only [String.append_assoc]

/-- The parts of a joined path end with those of the inner one. In front of them stand the parts of
the outer one, without an empty last part that a slash at its end makes. -/
theorem parts_join (base p : String) :
    parts (join base p) = parts p ∧ (isAbsolute p = true ∨ base = "") ∨
      parts (join base p) = parts base ++ parts p ∨
      ∃ up, parts base = up ++ [""] ∧ parts (join base p) = up ++ parts p := by
  cases hp : isAbsolute p with
  | true => exact .inl ⟨by rw [join_of_absolute hp], .inl rfl⟩
  | false =>
      by_cases hb : base = ""
      · exact .inl ⟨by rw [hb, join_empty], .inr hb⟩
      · rw [join_of_relative hp hb]
        unfold separator
        split
        · next hl =>
            obtain ⟨init, hi⟩ := List.getLast?_eq_some_iff.mp hl
            have hbase : base = String.ofList init ++ "/" ++ "" := by
              rw [← String.toList_inj, hi]
              simp
            refine .inr (.inr ⟨parts (String.ofList init), ?_, ?_⟩)
            · rw [hbase, parts_append_slash]
              rfl
            · rw [hbase, String.append_empty, String.append_empty, parts_append_slash]
        · exact .inr (.inl (parts_append_slash base p))

structure Extension (ext : String) : Prop where
  plain : '/' ∉ ext.toList
  long : 2 < ext.length

theorem extension_source : Extension ".sumi" := ⟨by decide, by decide⟩

theorem extension_module : Extension ".py" := ⟨by decide, by decide⟩

theorem Extension.ne {ext : String} (h : Extension ext) (name : String) :
    name ++ ext ≠ "" ∧ name ++ ext ≠ "." ∧ name ++ ext ≠ ".." := by
  have hl : 2 < (name ++ ext).length := by
    rw [String.length_append]
    exact Nat.lt_add_left _ h.long
  refine ⟨?_, ?_, ?_⟩ <;> intro he <;> rw [he] at hl <;> exact absurd hl (by decide)

def Ends (ext p : String) : Prop := ∃ q, p = q ++ ext

theorem Ends.append {ext p : String} (h : Ends ext p) (q : String) : Ends ext (q ++ p) := by
  obtain ⟨r, rfl⟩ := h
  exact ⟨q ++ r, String.append_assoc.symm⟩

theorem Ends.join {ext p : String} (h : Ends ext p) (base : String) : Ends ext (join base p) := by
  unfold Path.join
  split
  · exact h
  · split
    · exact h.append base
    · exact h.append (base ++ "/")

theorem Ends.parts {ext p : String} (hx : Extension ext) (h : Ends ext p) :
    ∃ up name, parts p = up ++ [name ++ ext] := by
  obtain ⟨q, rfl⟩ := h
  obtain ⟨up, name, h, -⟩ := parts_append hx.plain q
  exact ⟨up, name, h⟩

theorem follow_append {absolute : Bool} {done up : List String} {name : String}
    (h : name ≠ "" ∧ name ≠ "." ∧ name ≠ "..") :
    follow absolute done (up ++ [name]) = name :: follow absolute done up := by
  induction up generalizing done with
  | nil => simp [follow, h]
  | cons part up ih =>
      rw [List.cons_append, follow.eq_def, follow.eq_def _ _ (part :: up)]
      dsimp only
      split
      · exact ih
      · split
        · cases done <;> exact ih
        · exact ih

theorem Ends.absolute {ext p : String} (hx : Extension ext) (h : Ends ext p) (cwd : String) :
    Ends ext (absolute cwd p) := by
  obtain ⟨up, name, hp⟩ := (h.join cwd).parts hx
  have hne := hx.ne name
  have hname : Ends ext (name ++ ext) := ⟨name, rfl⟩
  have hline (l : List String) : Ends ext ("/".intercalate (l ++ [name ++ ext])) := by
    by_cases hl : l = []
    · rw [hl, List.nil_append, String.intercalate_singleton]
      exact hname
    · rw [String.intercalate_append_of_ne_nil hl (by simp), String.intercalate_singleton]
      exact hname.append _
  have hshown {s : String} (hs : Ends ext s) : Ends ext (if s.isEmpty then "." else s) := by
    obtain ⟨q, rfl⟩ := hs
    rw [if_neg]
    · exact ⟨q, rfl⟩
    · intro he
      exact (hx.ne q).1 (String.isEmpty_iff.mp he)
  unfold Path.absolute normal
  dsimp only
  rw [hp, follow_append hne, List.reverse_cons]
  exact hshown ((hline _).append _)

/-- A piece has no separator, and is made of what was split. -/
theorem piece_of_mem_splitOn {c : Char} {cs l : List Char} (h : l ∈ cs.splitOn c) :
    c ∉ l ∧ l ⊆ cs := by
  induction cs generalizing l with
  | nil => simp_all
  | cons d cs ih =>
      rw [List.splitOn_cons_eq_if_modifyHead] at h
      split at h
      · rcases List.mem_cons.mp h with rfl | h
        · simp
        · exact (ih h).imp_right (List.subset_cons_of_subset d)
      · next hd =>
          cases hs : cs.splitOn c with
          | nil => exact absurd hs (List.splitOn_ne_nil c cs)
          | cons first rest =>
              rw [hs, List.modifyHead_cons] at h
              rcases List.mem_cons.mp h with rfl | h
              · obtain ⟨hf, hsub⟩ := ih (hs ▸ List.mem_cons_self)
                have hcd : c ≠ d := fun he => hd (beq_iff_eq.mpr he.symm)
                exact ⟨by simp [hf, hcd], List.cons_subset_cons d hsub⟩
              · exact (ih (hs ▸ List.mem_cons_of_mem _ h)).imp_right
                  (List.subset_cons_of_subset d)

theorem not_mem_join {c : Char} (hc : c ≠ '/') {base p : String} (hb : c ∉ base.toList)
    (hp : c ∉ p.toList) : c ∉ (join base p).toList := by
  unfold join
  split
  · exact hp
  · split <;> simp [hb, hp, hc]

theorem not_mem_joinAll {c : Char} (hc : c ≠ '/') {ps : List String}
    (h : ∀ p ∈ ps, c ∉ p.toList) : c ∉ (joinAll ps).toList := by
  have hfold (base : String) (hb : c ∉ base.toList) (qs : List String)
      (hq : ∀ q ∈ qs, c ∉ q.toList) : c ∉ (qs.foldl join base).toList := by
    induction qs generalizing base with
    | nil => exact hb
    | cons q qs ih =>
        exact ih (join base q) (not_mem_join hc hb (hq q List.mem_cons_self))
          fun r hr => hq r (List.mem_cons_of_mem _ hr)
  cases ps with
  | nil => simp [joinAll]
  | cons p ps =>
      exact hfold p (h p List.mem_cons_self) ps fun q hq => h q (List.mem_cons_of_mem _ hq)

end Path

open Sumi.Project.Path

theorem dot_not_mem_stem (ns : String) : '.' ∉ (stem ns).toList := by
  apply not_mem_joinAll (by decide)
  intro p hp
  obtain ⟨l, hl, rfl⟩ := List.mem_map.mp hp
  rw [String.toList_ofList]
  exact (piece_of_mem_splitOn hl).1

theorem sourceName_ends (ns : String) : Ends ".sumi" (sourceName ns) := ⟨stem ns, rfl⟩

theorem modulePath_ends (layout : Layout) (ns : String) : Ends ".py" (modulePath layout ns) :=
  Ends.join ⟨stem ns, rfl⟩ _

theorem up_not_mem_stem {ext : String} (hx : Extension ext) (ns : String) :
    ".." ∉ parts (stem ns ++ ext) := by
  obtain ⟨up, name, h, hsub⟩ := parts_append hx.plain (stem ns)
  intro hm
  rw [h] at hm
  rcases List.mem_append.mp hm with hm | hm
  · apply dot_not_mem_stem ns
    apply hsub ".." hm
    decide
  · exact (hx.ne name).2.2 (List.mem_singleton.mp hm).symm

theorem up_not_mem_sourceName (ns : String) : ".." ∉ parts (sourceName ns) :=
  up_not_mem_stem extension_source ns

end Sumi.Project
