import Sumi.Proofs.Analysis.Declares
import Sumi.Proofs.Machine.Provided
import Sumi.Proofs.Project.Slots

namespace Sumi.Project

open Sumi.Project.Path Files Work Relation

variable {layout : Layout} {w₀ w : Workspace} {ns path : String} {forms : List Form}
  {requires : List String}

def Compiled (layout : Layout) (w : Workspace) (ns : String) (m : Module) : Prop :=
  ∃ path forms requires a b, Source layout w ns path forms requires ∧ a.Consistent ∧
    (Analysis.compile (some path) Namespace.user forms).run.run a = (.ok m, b)

theorem Compiled.declares {m : Module} (h : Compiled layout w ns m) {program : List Code}
    (hp : m.program? = some program) : Machine.Declares program ns := by
  obtain ⟨path, forms, requires, a, b, hs, ha, hrun⟩ := h
  obtain ⟨first, rest, rfl, hh⟩ := hs.declared
  obtain ⟨_, c, hnodes, hm⟩ := Analysis.bind_ok_inv hrun
  cases hm
  obtain ⟨node, d, hnode, hnodes⟩ := Analysis.bind_ok_inv hnodes
  obtain ⟨_, _, -, he⟩ := Analysis.bind_ok_inv hnodes
  cases he
  obtain ⟨_, _, hok, hdeclares, -⟩ := Analysis.topLevel_header ha hh
  cases hnode.symm.trans hok
  obtain ⟨line, name, rs, us, rfl⟩ := Analysis.topLevel_ns (Analysis.isNs_of_header hh) hnode
  cases hdeclares
  unfold Module.program? at hp
  obtain ⟨stray, -, hp⟩ := Option.bind_eq_some_iff.mp hp
  split at hp
  · cases hp
    exact ⟨Node.demands rs us, List.mem_append_right _ List.mem_cons_self⟩
  · cases hp

/-- A project in which where sources are found does not depend on modules, and in which there is no
module yet. -/
structure Untouched (layout : Layout) (w : Workspace) : Prop where
  consistent : w.analyzer.Consistent
  settled : Settled layout w
  absolute : isAbsolute w.files.cwd = true
  blank : Blank layout w

structure Stocked (layout : Layout) (w₀ : Workspace) (f : Files) : Prop where
  grown : w₀.files.Extends f
  file : ∀ q content time, f.entry? q = some (.file content time) →
    w₀.files.entry? q = some (.file content time) ∨
      ∃ ns m, q = slot w₀.files.cwd layout ns ∧ content = .module m ∧ Compiled layout w₀ ns m

theorem Stocked.refl (layout : Layout) (w₀ : Workspace) : Stocked layout w₀ w₀.files :=
  ⟨Extends.refl _, fun _ _ _ h => .inl h⟩

variable {f g : Files}

theorem Stocked.housing (h : Stocked layout w₀ f) (hg : housing layout f ns = .ok g) :
    Stocked layout w₀ g := by
  refine ⟨h.grown.trans (makeDirectories_extends hg), fun q content time hq => ?_⟩
  rw [(housing_entry hg).2] at hq
  split at hq
  · cases hq
  · exact h.file q content time hq

theorem Stocked.write (h : Stocked layout w₀ f) {m : Module} (hm : Compiled layout w₀ ns m)
    (hg : f.write (modulePath layout ns) (.module m) = .ok g) : Stocked layout w₀ g := by
  refine ⟨h.grown.trans (write_extends (modulePath_ends layout ns) hg), fun q content time hq => ?_⟩
  obtain ⟨p, hl, -, he, rfl⟩ := write_ok_iff.mp hg
  rw [entry_put _ (ne_nil_of_not_directory he)] at hq
  split at hq
  · next heq =>
    cases hq
    refine .inr ⟨ns, m, ?_, rfl, hm⟩
    rw [heq, locate_place hl, h.grown.cwd]
    rfl
  · exact h.file q content time hq

theorem Stocked.written (h : Stocked layout w₀ f) {m : Module} (hm : Compiled layout w₀ ns m)
    {source : String} (hg : Written layout ns source m f g) : Stocked layout w₀ g := by
  by_cases hstale : isStale f source (modulePath layout ns) = true
  · obtain ⟨k, hk, hw⟩ := hg.stale hstale
    exact (h.housing hk).write hm hw
  · rwa [hg.fresh hstale]

theorem Stocked.unwritten (h : Stocked layout w₀ f) {m : Module} (hg : Unwritten layout ns m f g) :
    Stocked layout w₀ g := by
  rcases hg with ⟨rfl, -⟩ | ⟨hk, -⟩
  · exact h
  · exact h.housing hk

structure Standing (layout : Layout) (w₀ w : Workspace) : Prop where
  stocked : Stocked layout w₀ w.files
  library : w.library = w₀.library
  analyzer : w.analyzer.Consistent

theorem Standing.refl (h : w₀.analyzer.Consistent) : Standing layout w₀ w₀ :=
  ⟨Stocked.refl layout w₀, rfl, h⟩

theorem Standing.later (h : Standing layout w₀ w) : w₀.Later w :=
  ⟨h.stocked.grown, h.library, h.analyzer⟩

theorem Standing.same (h : Standing layout w₀ w) {w' : Workspace} (hw : w.Same w') :
    Standing layout w₀ w' :=
  ⟨hw.files ▸ h.stocked, hw.library.trans h.library, hw.analyzer⟩

theorem readText_back (h : f.Extends g) (hf : f.Rooted) {p text : String}
    (ha : isAbsolute p = true) (hu : ".." ∉ parts p) (hp : Ends ".sumi" p)
    (ht : g.readText p = .ok text) : f.readText p = .ok text := by
  have hroot : f.Steady "/" := by
    left
    rw [join_of_absolute rfl]
    decide
  have hjoin : join "/" p = p := join_of_absolute ha
  unfold Files.readText at ht ⊢
  cases hr : g.read p with
  | error e =>
      rw [hr] at ht
      cases ht
  | ok content =>
      obtain ⟨time, hg⟩ := read_ok_iff.mp hr
      rw [← hjoin] at hg
      have hfind := h.find?_back hf hroot hp hu hg
      rw [hjoin] at hfind
      rw [read_ok_iff.mpr ⟨time, hfind⟩]
      rwa [hr] at ht

theorem Source.before (h : Source layout w ns path forms requires) (hs : Settled layout w₀)
    (ha : isAbsolute w₀.files.cwd = true) (hw : w₀.Later w) :
    Source layout w₀ ns path forms requires := by
  obtain ⟨text, ht, hf⟩ := h.read
  have hfound := (search_later hs hw).symm.trans h.found
  obtain ⟨candidate, -, hpath⟩ := Option.map_eq_some_iff.mp hfound
  refine ⟨hfound, ⟨text, ?_, hf⟩, h.declared⟩
  refine readText_back hw.grown hs.rooted ?_ ?_ (search_ends h.found) ht
  · rw [← hpath]
    exact isAbsolute_absolute ha candidate
  · rw [← hpath]
    exact up_not_mem_absolute ha candidate

theorem Source.earlier (h : Source layout w ns path forms requires) (hu : Untouched layout w₀)
    (hw : w₀.Later w) : Source layout w₀ ns path forms requires :=
  h.before hu.settled hu.absolute hw

/-- Opening and building keep the stock, whether or not they fail. -/
theorem Untouched.guided (hu : Untouched layout w₀) :
    Guided layout (fun _ => True) w₀ 0 (Standing layout w₀) (fun _ => Standing layout w₀) where
  needs _ _ _ _ := trivial
  opens ns w _ hw := by
    apply (openSource_leads hw.analyzer).mono
    · rintro s w' ⟨hs, hsame⟩
      exact ⟨hs.earlier hu hw.later, hw.same hsame⟩
    · rintro e w' ⟨-, hsame⟩
      exact hw.same hsame
  builds ns s w _ hs hw := by
    apply (build_leads hw.analyzer).mono
    · rintro c w' ⟨m, a, hm, hwritten, rfl, hl, ha⟩
      have hstock := hw.stocked.written ⟨_, _, _, _, _, hs, hw.analyzer, hm⟩ hwritten
      refine ⟨⟨s.path, s.forms, s.requires, hs, ?_⟩, hstock, hl.trans hw.library, ha⟩
      rw [hstock.grown.cwd]
    · rintro e w' ⟨hl, ha, ⟨-, hf⟩ | ⟨m, a, -, hun⟩⟩
      · exact ⟨hf ▸ hw.stocked, hl.trans hw.library, ha⟩
      · exact ⟨hw.stocked.unwritten hun, hl.trans hw.library, ha⟩
  cycle _ _ _ _ _ hw := hw
  deep _ _ _ _ _ hw := hw

/-- What is found of the needs of a namespace comes in order, each behind what it needs itself. -/
theorem Untouched.closure_leads (hu : Untouched layout w₀) (hw : Standing layout w₀ w) (ns : String) :
    Leads (closure layout [.seed [ns]]) w
      (fun result w' => Standing layout w₀ w' ∧ ∃ t names, Toured layout w₀ t names ∧
        result = t.ordered ++ [.seed [ns]])
      (fun _ => Standing layout w₀) := by
  have hvisits : Visits layout (fun _ => True) w₀ _ _ [] [ns]
      ([ns].forM (visit layout (w.files.entries.length + 1) [])) :=
    visits_forM fun first _ =>
      visit_visits hu.guided _ trivial (by simp) List.nodup_nil (Nat.zero_le _)
  apply leads_bind.mpr
  apply leads_get.mpr
  apply (hvisits w {} [] hw toured_start).bind
  · rintro ⟨_, t⟩ w' ⟨hw', names, ht, -⟩
    exact leads_pure.mpr ⟨hw', t, names, ht, rfl⟩
  · exact fun _ _ he => he

/-- What is fetched as the module of a namespace was compiled from its source. -/
theorem Untouched.fetch_compiled (hu : Untouched layout w₀) (hw : Standing layout w₀ w)
    (hs : Source layout w₀ ns path forms requires) {content : Content}
    (hf : Host.fetch w.files (Url.ofPath (Path.absolute w₀.files.cwd (modulePath layout ns))) =
      .ok content) : ∃ m, content = .received m ∧ Compiled layout w₀ ns m := by
  obtain ⟨raw, time, hraw, rfl⟩ := fetch_place hu.absolute hf
  rcases hw.stocked.file _ _ _ hraw with h₀ | ⟨other, m, hslot, rfl, hm⟩
  · exact absurd h₀ (hu.blank.free hu.absolute hs)
  · obtain ⟨_, _, _, _, _, hs', -, -⟩ := id hm
    obtain rfl := hu.blank.apart hu.absolute hs hs' hslot
    exact ⟨m, rfl, hm⟩

end Sumi.Project
