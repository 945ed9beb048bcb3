import Sumi.Proofs.Project.Growth

namespace Sumi.Project

open Sumi.Project.Path Files

def housing (layout : Layout) (f : Files) (ns : String) : Except FileFault Files :=
  f.makeDirectories (parent (modulePath layout ns))

def Room (layout : Layout) (f : Files) (ns other : String) : Prop :=
  ∃ g k, housing layout f ns = .ok g ∧ housing layout g other = .ok k ∧
    ∀ m, ∃ h, k.write (modulePath layout ns) (.module m) = .ok h

def hasRoom (layout : Layout) (f : Files) (ns other : String) : Bool :=
  match housing layout f ns with
  | .error _ => false
  | .ok g =>
      match housing layout g other with
      | .error _ => false
      | .ok k =>
          match k.locate (modulePath layout ns) with
          | .error _ => false
          | .ok place =>
              let up := k.entry? place.dropLast
              let old := k.entry? place
              decide (up = some .directory ∧ old ≠ some .directory)

theorem hasRoom_iff {layout : Layout} {f : Files} {ns other : String} :
    hasRoom layout f ns other = true ↔ Room layout f ns other := by
  constructor
  · intro h
    unfold hasRoom at h
    split at h
    · cases h
    · next g hg =>
        split at h
        · cases h
        · next k hk =>
            split at h
            · cases h
            · next place hl =>
                obtain ⟨hup, he⟩ := of_decide_eq_true h
                exact ⟨g, k, hg, hk, fun m => ⟨_, write_ok_iff.mpr ⟨place, hl, hup, he, rfl⟩⟩⟩
  · rintro ⟨g, k, hg, hk, hw⟩
    obtain ⟨_, hw⟩ := hw ⟨none, []⟩
    obtain ⟨place, hl, hup, he, -⟩ := write_ok_iff.mp hw
    unfold hasRoom
    rw [hg]
    dsimp only
    rw [hk]
    dsimp only
    rw [hl]
    dsimp only
    exact decide_eq_true (And.intro hup he)

instance (layout : Layout) (f : Files) (ns other : String) : Decidable (Room layout f ns other) :=
  decidable_of_iff _ hasRoom_iff

def wayTo (cwd : String) (layout : Layout) (ns : String) : List (List String) :=
  ways [] (parts (join cwd (parent (modulePath layout ns))))

variable {layout : Layout} {f g : Files} {ns other : String}

theorem housing_entry (h : housing layout f ns = .ok g) :
    (∀ v ∈ wayTo f.cwd layout ns, f.entry? v = none ∨ f.entry? v = some .directory) ∧
      ∀ v, g.entry? v = if v ∈ wayTo f.cwd layout ns then some .directory else f.entry? v :=
  makeParts_entry (makeDirectories_ok_iff.mp h).2

theorem housing_directory (h : housing layout f ns = .ok g) {v : List String} :
    g.entry? v = some .directory ↔
      v ∈ wayTo f.cwd layout ns ∨ f.entry? v = some .directory := by
  rw [(housing_entry h).2]
  split
  · next hv => simp [hv]
  · next hv => simp [hv]

def Target (layout : Layout) (f : Files) (ns : String) (place : List String) : Prop :=
  ∃ g, housing layout f ns = .ok g ∧ g.locate (modulePath layout ns) = .ok place ∧
    g.entry? place.dropLast = some .directory ∧ g.entry? place ≠ some .directory

theorem Room.target (h : Room layout f ns ns) : ∃ place, Target layout f ns place := by
  obtain ⟨g, k, hg, hk, hw⟩ := h
  obtain ⟨_, hw⟩ := hw ⟨none, []⟩
  obtain ⟨place, hl, hup, he, -⟩ := write_ok_iff.mp hw
  have hcwd : k.cwd = g.cwd := (makeDirectories_extends hk).cwd
  have hback : ∀ v, k.entry? v = some .directory → g.entry? v = some .directory := by
    intro v hv
    rcases (housing_directory hk).mp hv with hv | hv
    · rw [(makeDirectories_extends hg).cwd] at hv
      exact (housing_directory hg).mpr (.inl hv)
    · exact hv
  obtain ⟨hc, hwalk⟩ := locate_ok_iff.mp hl
  rw [hcwd] at hwalk
  refine ⟨place, g, hg, locate_ok_iff.mpr ⟨hc, walk_mono hback hwalk⟩, hback _ hup, ?_⟩
  exact fun hd => he ((makeDirectories_extends hk).directories _ hd)

theorem Room.apart (h : Room layout f ns other) {place : List String}
    (ht : Target layout f ns place) : place ∉ wayTo f.cwd layout other := by
  obtain ⟨g, k, hg, hk, hw⟩ := h
  obtain ⟨_, hw⟩ := hw ⟨none, []⟩
  obtain ⟨place', hl', -, he, -⟩ := write_ok_iff.mp hw
  obtain ⟨g', hg', hl, -, -⟩ := ht
  cases hg.symm.trans hg'
  cases ((makeDirectories_extends hk).locate hl).symm.trans hl'
  intro hv
  apply he
  rw [← (makeDirectories_extends hg).cwd] at hv
  exact (housing_directory hk).mpr (.inl hv)

/-- A tree that has grown from `f₀` by modules of namespaces in `N` and the directories they need. -/
structure Housed (layout : Layout) (N : String → Prop) (f₀ f : Files) : Prop where
  grown : f₀.Extends f
  directory : ∀ v, f.entry? v = some .directory →
    f₀.entry? v = some .directory ∨ ∃ ns, N ns ∧ v ∈ wayTo f₀.cwd layout ns
  file : ∀ v content time, f.entry? v = some (.file content time) →
    (∃ content time, f₀.entry? v = some (.file content time)) ∨
      ∃ ns, N ns ∧ Target layout f₀ ns v

theorem Housed.refl (layout : Layout) (N : String → Prop) (f : Files) : Housed layout N f f :=
  ⟨Extends.refl f, fun _ h => .inl h, fun _ content time h => .inl ⟨content, time, h⟩⟩

variable {N : String → Prop} {f₀ : Files}

theorem Housed.housing (h : Housed layout N f₀ f) (hr : ∀ a b, N a → N b → Room layout f₀ a b)
    (hn : N ns) {g₀ : Files} (h₀ : housing layout f₀ ns = .ok g₀) :
    ∃ g, housing layout f ns = .ok g ∧ Housed layout N f₀ g := by
  obtain ⟨hfree, -⟩ := housing_entry h₀
  obtain ⟨hc, h₀⟩ := makeDirectories_ok_iff.mp h₀
  have hfree' : ∀ v ∈ wayTo f₀.cwd layout ns, f.entry? v = none ∨ f.entry? v = some .directory := by
    intro v hv
    rcases he : f.entry? v with _ | (_ | ⟨content, time⟩)
    · exact .inl rfl
    · exact .inr rfl
    · rcases h.file v content time he with ⟨c, t, hf⟩ | ⟨other, ho, ht⟩
      · rcases hfree v hv with hv | hv <;> rw [hv] at hf <;> cases hf
      · exact absurd hv ((hr other ns ho hn).apart ht)
  obtain ⟨g, hg⟩ := makeParts_again h₀ hfree'
  rw [← h.grown.cwd] at hg
  have hg : Project.housing layout f ns = .ok g := makeDirectories_ok_iff.mpr ⟨hc, hg⟩
  refine ⟨g, hg, h.grown.trans (makeDirectories_extends hg), fun v hv => ?_, fun v c t hv => ?_⟩
  · rcases (housing_directory hg).mp hv with hv | hv
    · rw [h.grown.cwd] at hv
      exact .inr ⟨ns, hn, hv⟩
    · exact h.directory v hv
  · rw [(housing_entry hg).2] at hv
    split at hv
    · cases hv
    · exact h.file v c t hv

/-- A module finds its room, whatever modules were written before it. -/
theorem Housed.write (h : Housed layout N f₀ f) (hr : ∀ a b, N a → N b → Room layout f₀ a b)
    (hn : N ns) {place : List String} (ht : Target layout f₀ ns place) (m : Module) :
    ∃ g k, Project.housing layout f ns = .ok g ∧
      g.write (modulePath layout ns) (.module m) = .ok k ∧ Housed layout N f₀ k := by
  obtain ⟨g₀, h₀, hl, hup, he⟩ := id ht
  obtain ⟨g, hg, hh⟩ := h.housing hr hn h₀
  have hdirs : ∀ v, g₀.entry? v = some .directory → g.entry? v = some .directory := by
    intro v hv
    rcases (housing_directory h₀).mp hv with hv | hv
    · rw [← h.grown.cwd] at hv
      exact (housing_directory hg).mpr (.inl hv)
    · exact hh.grown.directories v hv
  have hcwd : g.cwd = g₀.cwd := hh.grown.cwd.trans (makeDirectories_extends h₀).cwd.symm
  have hlg : g.locate (modulePath layout ns) = .ok place := by
    obtain ⟨hc, hw⟩ := locate_ok_iff.mp hl
    rw [locate_ok_iff, hcwd]
    exact ⟨hc, walk_mono hdirs hw⟩
  -- no module needs a directory where this one goes
  have heg : g.entry? place ≠ some .directory := by
    intro hd
    rcases hh.directory place hd with hd | ⟨other, ho, hv⟩
    · exact he ((housing_directory h₀).mpr (.inr hd))
    · exact (hr ns other hn ho).apart ht hv
  have hw : g.write (modulePath layout ns) (.module m) =
      .ok (g.put place (.file (.module m) g.now)) :=
    write_ok_iff.mpr ⟨place, hlg, hdirs _ hup, heg, rfl⟩
  refine ⟨g, _, hg, hw, hh.grown.trans (write_extends (modulePath_ends layout ns) hw), ?_, ?_⟩
  · intro v hv
    rw [entry_put _ (ne_nil_of_not_directory heg)] at hv
    split at hv
    · cases hv
    · exact hh.directory v hv
  · intro v c t hv
    rw [entry_put _ (ne_nil_of_not_directory heg)] at hv
    split at hv
    · next heq =>
        rw [heq]
        exact .inr ⟨ns, hn, ht⟩
    · exact hh.file v c t hv

end Sumi.Project
