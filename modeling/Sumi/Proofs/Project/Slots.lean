import Sumi.Proofs.Form.Named
import Sumi.Proofs.Project.Place
import Sumi.Proofs.Project.Tour

namespace Sumi

namespace Project

namespace Path

theorem intercalate_parts (p : String) : "/".intercalate (parts p) = p := by
  have hslash : "/".toList = ['/'] := rfl
  rw [← String.toList_inj, String.toList_intercalate, hslash]
  simp [parts, List.intercalate_splitOn]

theorem parts_injective : Function.Injective parts := fun p q h => by
  rw [← intercalate_parts p, h, intercalate_parts q]

theorem parts_ne_nil (p : String) : parts p ≠ [] := by
  simp [parts, List.splitOn_ne_nil]

theorem dropLast_parts_append {s : String} (hs : '/' ∉ s.toList) (p : String) :
    (parts (p ++ s)).dropLast = (parts p).dropLast := by
  obtain ⟨up, last, hp⟩ : ∃ up last, parts p = up ++ [last] :=
    ⟨_, _, (List.dropLast_concat_getLast (parts_ne_nil p)).symm⟩
  have hslash : ∀ part ∈ up ++ [last], '/' ∉ part.toList := by
    rw [← hp]
    exact fun part hm => slash_not_mem_part hm
  have hjoined : p ++ s = "/".intercalate (up ++ [last ++ s]) := by
    rw [← intercalate_parts p, hp]
    by_cases hup : up = []
    · simp [hup]
    · rw [String.intercalate_append_of_ne_nil hup (by simp),
        String.intercalate_append_of_ne_nil hup (by simp)]
      simp [String.append_assoc]
  rw [hjoined, parts_intercalate (by simp), hp, List.dropLast_concat, List.dropLast_concat]
  intro part hm
  rcases List.mem_append.mp hm with hm | hm
  · exact hslash part (List.mem_append_left _ hm)
  · rw [List.mem_singleton.mp hm, String.toList_append]
    have hlast := hslash last (by simp)
    simp [hlast, hs]

def Solid (p : String) : Prop := "" ∉ (parts p).dropLast

theorem solid_of_plain {p : String} (h : '/' ∉ p.toList) : Solid p := by
  rw [Solid, parts, List.splitOn_eq_singleton h]
  simp

theorem Solid.append {p s : String} (h : Solid p) (hs : '/' ∉ s.toList) : Solid (p ++ s) := by
  rwa [Solid, dropLast_parts_append hs]

theorem Solid.join {base p : String} (h : Solid base) (hp : '/' ∉ p.toList) :
    Solid (join base p) := by
  unfold Path.join
  split
  · exact solid_of_plain hp
  · next he =>
    split
    · exact h.append hp
    · next hl =>
      rw [Solid, dropLast_parts_append hp, ← String.append_empty (s := base ++ "/"),
        parts_append_slash]
      have hlast : parts "" = [""] := rfl
      rw [hlast, List.dropLast_concat]
      intro hm
      obtain ⟨up, last, hb⟩ : ∃ up last, parts base = up ++ [last] :=
        ⟨_, _, (List.dropLast_concat_getLast (parts_ne_nil base)).symm⟩
      rw [Solid, hb, List.dropLast_concat] at h
      rw [hb] at hm
      rcases List.mem_append.mp hm with hm | hm
      · exact h hm
      · -- Then the path is empty, or it ends with a slash.
        rw [← List.mem_singleton.mp hm] at hb
        have hbase := intercalate_parts base
        rw [hb] at hbase
        by_cases hup : up = []
        · rw [hup] at hbase
          apply he
          simp [← hbase]
        · rw [String.intercalate_append_of_ne_nil hup (by simp)] at hbase
          apply hl
          simp [← hbase]

theorem joinAll_solid {ps : List String} (h : ∀ p ∈ ps, '/' ∉ p.toList) : Solid (joinAll ps) := by
  have hfold (base : String) (hb : Solid base) (qs : List String)
      (hq : ∀ q ∈ qs, '/' ∉ q.toList) : Solid (qs.foldl Path.join base) := by
    induction qs generalizing base with
    | nil => exact hb
    | cons q qs ih =>
        exact ih (Path.join base q) (hb.join (hq q List.mem_cons_self))
          fun r hr => hq r (List.mem_cons_of_mem _ hr)
  cases ps with
  | nil => exact solid_of_plain (by simp [joinAll])
  | cons p ps =>
      exact hfold p (solid_of_plain (h p List.mem_cons_self)) ps
        fun q hq => h q (List.mem_cons_of_mem _ hq)

end Path

open Sumi.Project.Path Files Work

theorem parts_stem {ns : String} (h : '/' ∉ ns.toList) :
    ∀ part ∈ parts (stem ns ++ ".py"), IsName part := by
  have hsolid : Solid (stem ns) := by
    apply joinAll_solid
    intro p hp
    obtain ⟨l, hl, rfl⟩ := List.mem_map.mp hp
    rw [String.toList_ofList]
    intro hm
    obtain ⟨c, hc, he⟩ := List.mem_map.mp ((piece_of_mem_splitOn hl).2 hm)
    split at he
    · cases he
    · rw [he] at hc
      exact h hc
  obtain ⟨up, name, hparts, hsub⟩ := parts_append extension_module.plain (stem ns)
  have hup : "" ∉ up := by
    have hdrop := dropLast_parts_append extension_module.plain (stem ns)
    rw [hparts, List.dropLast_concat] at hdrop
    rw [hdrop]
    exact hsolid
  rw [hparts]
  intro part hm
  rcases List.mem_append.mp hm with hm | hm
  · refine ⟨fun he => hup (he ▸ hm), ?_, ?_⟩ <;> rintro rfl <;>
      exact dot_not_mem_stem ns (hsub _ hm (by decide))
  · rw [List.mem_singleton.mp hm]
    exact extension_module.ne name

def slot (cwd : String) (layout : Layout) (ns : String) : List String :=
  place cwd (modulePath layout ns)

theorem slot_below {cwd : String} (hcwd : isAbsolute cwd = true) (layout : Layout) {ns : String}
    (h : '/' ∉ ns.toList) :
    slot cwd layout ns = place cwd layout.output ++ parts (stem ns ++ ".py") := by
  have hnames := parts_stem h
  apply place_join hcwd _ hnames
  cases habs : isAbsolute (stem ns ++ ".py") with
  | false => rfl
  | true =>
      obtain ⟨cs, hp⟩ := List.isPrefixOf_iff_prefix.mp habs
      have hp : stem ns ++ ".py" = "/" ++ String.ofList cs := by
        rw [← String.toList_inj, ← hp]
        simp
      rw [hp, parts_slash] at hnames
      exact absurd rfl (hnames "" List.mem_cons_self).1

variable {layout : Layout} {w : Workspace} {ns other path path' : String}
  {forms forms' : List Form} {requires requires' : List String}

theorem Source.undivided (h : Source layout w ns path forms requires) :
    ns = "/" ∨ '/' ∉ ns.toList := by
  obtain ⟨text, -, hread⟩ := h.read
  obtain ⟨first, rest, rfl, hh⟩ := h.declared
  obtain ⟨more, line, -, -, -, rfl, -⟩ := Analysis.header?_some_iff.mp hh
  exact (Form.readAll_begins hread _ List.mem_cons_self).second _ _ _ _ rfl rfl

theorem Source.eq_of_sourceName (h : Source layout w ns path forms requires)
    (h' : Source layout w other path' forms' requires') (he : sourceName ns = sourceName other) :
    ns = other := by
  have hfound := h.found
  rw [he] at hfound
  cases hfound.symm.trans h'.found
  cases h.read.unique h'.read
  exact h.eq_of_forms h'

/-- There is no module yet: nothing is in the output directory, nor where the module of the one
namespace goes whose name is a path of its own. -/
structure Blank (layout : Layout) (w : Workspace) : Prop where
  output : ∀ e ∈ w.files.entries,
    place w.files.cwd layout.output <+: e.1 → e.1 = place w.files.cwd layout.output
  root : ∀ e ∈ w.files.entries, e.1 ≠ slot w.files.cwd layout "/"

theorem mem_entries {f : Files} {q : List String} {content : Content} {time : Int}
    (h : f.entry? q = some (.file content time)) : q ≠ [] ∧ ∃ e ∈ f.entries, e.1 = q := by
  unfold entry? at h
  split at h
  · cases h
  · next hne => exact ⟨by simpa using hne, List.mem_map.mp (Table.mem_keys h)⟩

theorem Blank.free (hb : Blank layout w) (hcwd : isAbsolute w.files.cwd = true)
    (h : Source layout w ns path forms requires) {content : Content} {time : Int} :
    w.files.entry? (slot w.files.cwd layout ns) ≠ some (.file content time) := by
  intro he
  obtain ⟨-, e, hm, hslot⟩ := mem_entries he
  rcases h.undivided with rfl | hns
  · exact hb.root e hm hslot
  · rw [slot_below hcwd layout hns] at hslot
    have hout := hb.output e hm (hslot ▸ List.prefix_append _ _)
    rw [hout] at hslot
    exact parts_ne_nil _ (List.self_eq_append_right.mp hslot)

/-- The module of the one namespace whose name is a path of its own goes to the root. -/
theorem slot_root (cwd : String) (layout : Layout) : slot cwd layout "/" = [".py"] := by
  have hpath : modulePath layout "/" = "/.py" := join_of_absolute rfl
  rw [slot, place, hpath, join_of_absolute rfl]
  rfl

/-- Nowhere do the modules of two namespaces go, unless it is to the root. -/
theorem slot_apart (hcwd : isAbsolute w.files.cwd = true) (hroot : place w.files.cwd layout.output ≠ [])
    (h : Source layout w ns path forms requires)
    (h' : Source layout w other path' forms' requires')
    (he : slot w.files.cwd layout ns = slot w.files.cwd layout other) : ns = other := by
  have hlow {name : String} (hname : '/' ∉ name.toList) :
      slot w.files.cwd layout name ≠ slot w.files.cwd layout "/" := by
    intro he
    rw [slot_below hcwd layout hname, slot_root] at he
    have hlen := congrArg List.length he
    have hpos := List.length_pos_of_ne_nil (parts_ne_nil (stem name ++ ".py"))
    rw [List.length_append, List.length_singleton] at hlen
    exact hroot (List.length_eq_zero_iff.mp (by omega))
  rcases h.undivided with rfl | hns <;> rcases h'.undivided with rfl | hns'
  · rfl
  · exact absurd he.symm (hlow hns')
  · exact absurd he (hlow hns)
  · rw [slot_below hcwd layout hns, slot_below hcwd layout hns'] at he
    have hstem := parts_injective (List.append_cancel_left he)
    apply h.eq_of_sourceName h'
    rw [sourceName, sourceName, (String.append_left_inj ".py").mp hstem]

theorem Blank.apart (hb : Blank layout w) (hcwd : isAbsolute w.files.cwd = true)
    (h : Source layout w ns path forms requires)
    (h' : Source layout w other path' forms' requires')
    (he : slot w.files.cwd layout ns = slot w.files.cwd layout other) : ns = other := by
  apply slot_apart hcwd _ h h' he
  -- The output directory is not the root, as there are files.
  intro hroot
  obtain ⟨content, time, hf⟩ := h.file
  obtain ⟨hne, e, hm, hq⟩ := mem_entries (find?_place hf)
  exact hne (hq ▸ (hb.output e hm (hroot ▸ List.nil_prefix)).trans hroot)

end Project

end Sumi
