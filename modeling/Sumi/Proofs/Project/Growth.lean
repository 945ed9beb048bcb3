import Sumi.Project.Bundled
import Sumi.Proofs.Project.Tree

namespace Sumi.Project.Files

open Sumi.Project.Path

variable {f g : Files}

def ways (place : List String) : List String → List (List String)
  | [] => []
  | part :: rest =>
      if part = "" ∨ part = "." then ways place rest
      else if part = ".." then ways place.dropLast rest
      else (place ++ [part]) :: ways (place ++ [part]) rest

theorem Rooted.put (h : f.Rooted) {place : List String} (hp : place ≠ []) {e : Entry}
    (hup : f.entry? place.dropLast = some .directory)
    (he : e = .directory ∨ f.entry? place ≠ some .directory) : (f.put place e).Rooted := by
  intro up name hn
  rw [entry_put f hp] at hn ⊢
  have hdir : f.entry? up = some .directory := by
    split at hn
    · next heq =>
        rw [← heq, List.dropLast_concat] at hup
        exact hup
    · exact h up name hn
  split
  · next heq =>
      subst heq
      rcases he with rfl | he
      · rfl
      · exact absurd hdir he
  · exact hdir

theorem makeParts_cons {place ps : List String} {part : String} :
    f.makeParts place (part :: ps) = .ok g ↔
      (part = "" ∨ part = ".") ∧ f.makeParts place ps = .ok g ∨
      part = ".." ∧ f.makeParts place.dropLast ps = .ok g ∨
      (part ≠ "" ∧ part ≠ "." ∧ part ≠ "..") ∧ isLong part = false ∧
        (f.entry? (place ++ [part]) = some .directory ∧
            f.makeParts (place ++ [part]) ps = .ok g ∨
          f.entry? (place ++ [part]) = none ∧
            (f.put (place ++ [part]) .directory).makeParts (place ++ [part]) ps = .ok g) := by
  rw [makeParts]
  by_cases hs : part = "" ∨ part = "."
  · rw [if_pos hs]
    rcases hs with rfl | rfl <;> simp
  · by_cases hu : part = ".."
    · subst hu
      simp
    · obtain ⟨h1, h2⟩ := not_or.mp hs
      cases hl : isLong part with
      | true => simp [h1, h2, hu]
      | false =>
          rcases he : f.entry? (place ++ [part]) with _ | (_ | _) <;> simp [h1, h2, hu, he]

theorem ways_cons {place ps : List String} {part : String}
    (h : part ≠ "" ∧ part ≠ "." ∧ part ≠ "..") :
    ways place (part :: ps) = (place ++ [part]) :: ways (place ++ [part]) ps := by
  simp [ways, h]

/-- What is made is what is missing on the way. -/
theorem makeParts_entry {place ps : List String} (h : f.makeParts place ps = .ok g) :
    (∀ v ∈ ways place ps, f.entry? v = none ∨ f.entry? v = some .directory) ∧
      ∀ v, g.entry? v = if v ∈ ways place ps then some .directory else f.entry? v := by
  induction ps generalizing f place with
  | nil =>
      cases h
      simp [ways]
  | cons part ps ih =>
      rw [makeParts_cons] at h
      -- an empty part, a part that leads up, and a name that is there or is made
      rcases h with ⟨hs, h⟩ | ⟨rfl, h⟩ | ⟨hp, -, ⟨he, h⟩ | ⟨he, h⟩⟩
      · rw [ways, if_pos hs]
        exact ih h
      · exact ih h
      · obtain ⟨hfree, hg⟩ := ih h
        rw [ways_cons hp]
        refine ⟨List.forall_mem_cons.mpr ⟨.inr he, hfree⟩, fun v => ?_⟩
        rw [hg v]
        by_cases hv : v = place ++ [part]
        · subst hv
          simp [he]
        · simp [hv]
      · obtain ⟨hfree, hg⟩ := ih h
        have hne : place ++ [part] ≠ [] := by simp
        have hput := entry_put f hne .directory
        rw [ways_cons hp]
        refine ⟨List.forall_mem_cons.mpr ⟨.inl he, fun v hv => ?_⟩, fun v => ?_⟩
        · have := hfree v hv
          rw [hput] at this
          split at this
          · next heq =>
              rw [heq]
              exact .inl he
          · exact this
        · rw [hg v, hput]
          by_cases hv : v = place ++ [part] <;> simp [hv]

theorem makeParts_same {place ps : List String} (h : f.makeParts place ps = .ok g) :
    g.cwd = f.cwd ∧ g.now = f.now := by
  induction ps generalizing f place with
  | nil =>
      cases h
      exact ⟨rfl, rfl⟩
  | cons part ps ih =>
      rw [makeParts_cons] at h
      rcases h with ⟨-, h⟩ | ⟨-, h⟩ | ⟨-, -, ⟨-, h⟩ | ⟨-, h⟩⟩
      · exact ih h
      · exact ih h
      · exact ih h
      · obtain ⟨hc, hn⟩ := ih h
        exact ⟨hc, hn⟩

/-- Directories can be made wherever they could be made before, as long as nothing but directories
has come in their way. -/
theorem makeParts_again {place ps : List String} (h : f.makeParts place ps = .ok g) {f' : Files}
    (hfree : ∀ v ∈ ways place ps, f'.entry? v = none ∨ f'.entry? v = some .directory) :
    ∃ g', f'.makeParts place ps = .ok g' := by
  induction ps generalizing f f' place with
  | nil => exact ⟨f', rfl⟩
  | cons part ps ih =>
      simp only [makeParts_cons]
      rw [makeParts_cons] at h
      rcases h with ⟨hs, h⟩ | ⟨rfl, h⟩ | ⟨hp, hl, h⟩
      · rw [ways, if_pos hs] at hfree
        obtain ⟨g', hg⟩ := ih h hfree
        exact ⟨g', .inl ⟨hs, hg⟩⟩
      · obtain ⟨g', hg⟩ := ih h hfree
        exact ⟨g', .inr (.inl ⟨rfl, hg⟩)⟩
      · rw [ways_cons hp] at hfree
        obtain ⟨he, hfree⟩ := List.forall_mem_cons.mp hfree
        -- it does not matter whether the directory was there the first time
        obtain ⟨f₁, h⟩ : ∃ f₁, makeParts f₁ (place ++ [part]) ps = .ok g := by
          rcases h with ⟨-, h⟩ | ⟨-, h⟩
          · exact ⟨_, h⟩
          · exact ⟨_, h⟩
        rcases he with he | he
        · have hput : ∀ v ∈ ways (place ++ [part]) ps,
              entry? (f'.put (place ++ [part]) .directory) v = none ∨
                entry? (f'.put (place ++ [part]) .directory) v = some .directory := by
            intro v hv
            have hne : place ++ [part] ≠ [] := by simp
            rw [entry_put _ hne]
            split
            · exact .inr rfl
            · exact hfree v hv
          obtain ⟨g', hg⟩ := ih h hput
          exact ⟨g', .inr (.inr ⟨hp, hl, .inr ⟨he, hg⟩⟩)⟩
        · obtain ⟨g', hg⟩ := ih h hfree
          exact ⟨g', .inr (.inr ⟨hp, hl, .inl ⟨he, hg⟩⟩)⟩

theorem makeParts_rooted (hf : f.Rooted) {place ps : List String}
    (hp : f.entry? place = some .directory) (h : f.makeParts place ps = .ok g) : g.Rooted := by
  induction ps generalizing f place with
  | nil =>
      cases h
      exact hf
  | cons part ps ih =>
      rw [makeParts_cons] at h
      rcases h with ⟨-, h⟩ | ⟨-, h⟩ | ⟨-, -, ⟨he, h⟩ | ⟨-, h⟩⟩
      · exact ih hf hp h
      · apply ih hf _ h
        induction place using List.reverseRecOn with
        | nil => exact hp
        | append_singleton up name _ =>
            rw [List.dropLast_concat]
            exact hf.above [name] hp
      · exact ih hf he h
      · have hne : place ++ [part] ≠ [] := by simp
        refine ih (hf.put hne ?_ (.inl rfl)) (by simp [entry_put _ hne]) h
        rwa [List.dropLast_concat]

theorem makeDirectories_ok_iff {p : String} :
    f.makeDirectories p = .ok g ↔
      checkPath p = .ok () ∧ f.makeParts [] (parts (join f.cwd p)) = .ok g := by
  unfold makeDirectories
  cases h : checkPath p with
  | error e => simp [bind, Except.bind]
  | ok u => simp [bind, Except.bind]

theorem write_ok_iff {p : String} {content : Content} :
    f.write p content = .ok g ↔ ∃ place, f.locate p = .ok place ∧
      f.entry? place.dropLast = some .directory ∧ f.entry? place ≠ some .directory ∧
      g = f.put place (.file content f.now) := by
  unfold write
  cases hl : f.locate p with
  | error e => simp [bind, Except.bind]
  | ok place =>
      rcases hu : f.entry? place.dropLast with _ | (_ | _) <;>
        rcases he : f.entry? place with _ | (_ | _) <;>
          simp [bind, Except.bind, hu, he, eq_comm]

theorem ne_nil_of_not_directory {place : List String} (h : f.entry? place ≠ some .directory) :
    place ≠ [] := by
  rintro rfl
  exact h rfl

theorem makeDirectories_rooted (hf : f.Rooted) {p : String} (h : f.makeDirectories p = .ok g) :
    g.Rooted :=
  makeParts_rooted hf (entry_nil f) (makeDirectories_ok_iff.mp h).2

theorem write_rooted (hf : f.Rooted) {p : String} {content : Content}
    (h : f.write p content = .ok g) : g.Rooted := by
  obtain ⟨place, -, hup, he, rfl⟩ := write_ok_iff.mp h
  exact hf.put (ne_nil_of_not_directory he) hup (.inr he)

theorem makeDirectories_extends {p : String} (h : f.makeDirectories p = .ok g) :
    f.Extends g := by
  obtain ⟨-, h⟩ := makeDirectories_ok_iff.mp h
  obtain ⟨hfree, hg⟩ := makeParts_entry h
  refine ⟨(makeParts_same h).1, fun place hp => ?_, fun place content time _ => ?_⟩
  · rw [hg, hp, ite_self]
  · rw [hg]
    split
    · next hv => rcases hfree place hv with he | he <;> simp [he]
    · rfl

theorem write_extends {p : String} (hp : Ends ".py" p) {content : Content}
    (h : f.write p content = .ok g) : f.Extends g := by
  obtain ⟨place, hl, -, he, rfl⟩ := write_ok_iff.mp h
  obtain ⟨up, name, rfl⟩ := locate_ends extension_module hp hl
  refine ⟨rfl, fun v hv => ?_, fun v content time hv => ?_⟩
  · rw [entry_put _ (ne_nil_of_not_directory he), if_neg]
    · exact hv
    · rintro rfl
      exact he hv
  · rw [entry_put _ (ne_nil_of_not_directory he), if_neg]
    rintro rfl
    exact hv ⟨up, name, rfl⟩

end Sumi.Project.Files
