import Sumi.Proofs.Project.Slots
import Sumi.Proofs.Project.Stock

namespace Sumi

theorem Table.length_le_put {κ ν : Type} [BEq κ] (key : κ) (value : ν) (t : Table κ ν) :
    t.length ≤ (t.put key value).length := by
  induction t with
  | nil => exact Nat.zero_le _
  | cons e t ih =>
      rw [put]
      split
      · exact le_rfl
      · exact Nat.succ_le_succ ih

namespace Project

open Sumi.Project.Path

namespace Files

variable {f g h : Files}

/-- `g` has come of `f` by making directories and writing modules. -/
structure Onward (f g : Files) : Prop where
  grown : f.Extends g
  firm : ∀ q content time, f.entry? q = some (.file content time) →
    ∃ content time, g.entry? q = some (.file content time)
  rooted : f.Rooted → g.Rooted
  now : g.now = f.now
  entries : f.entries.length ≤ g.entries.length

theorem Onward.refl (f : Files) : f.Onward f :=
  ⟨.refl f, fun _ content time h => ⟨content, time, h⟩, id, rfl, le_rfl⟩

theorem Onward.trans (hfg : f.Onward g) (hgh : g.Onward h) : f.Onward h where
  grown := hfg.grown.trans hgh.grown
  firm q content time hq := by
    obtain ⟨content', time', hq'⟩ := hfg.firm q content time hq
    exact hgh.firm q content' time' hq'
  rooted := hgh.rooted ∘ hfg.rooted
  now := hgh.now.trans hfg.now
  entries := hfg.entries.trans hgh.entries

theorem Onward.steady (h : f.Onward g) {p : String} (hf : f.Steady p) : g.Steady p := by
  unfold Steady
  rw [h.grown.cwd]
  refine hf.imp_right ?_
  rintro ⟨q, hq, hd⟩
  exact ⟨q, walk_mono h.grown.directories hq, h.grown.directories q hd⟩

theorem Onward.isFile (h : f.Onward g) {p : String} (hf : f.isFile p = true) : g.isFile p = true := by
  obtain ⟨content, time, hf⟩ := isFile_iff.mp hf
  obtain ⟨q, hl, he⟩ := find?_eq_some.mp hf
  obtain ⟨content', time', he'⟩ := h.firm q content time he
  exact isFile_iff.mpr ⟨content', time', find?_eq_some.mpr ⟨q, h.grown.locate hl, he'⟩⟩

theorem makeParts_length {place ps : List String} (hg : f.makeParts place ps = .ok g) :
    f.entries.length ≤ g.entries.length := by
  induction ps generalizing f place with
  | nil =>
      cases hg
      exact le_rfl
  | cons part ps ih =>
      rcases makeParts_cons.mp hg with ⟨-, hg⟩ | ⟨-, hg⟩ | ⟨-, -, ⟨-, hg⟩ | ⟨-, hg⟩⟩
      · exact ih hg
      · exact ih hg
      · exact ih hg
      · exact (Table.length_le_put _ _ _).trans (ih hg)

theorem makeDirectories_onward {p : String} (hg : f.makeDirectories p = .ok g) : f.Onward g where
  grown := makeDirectories_extends hg
  firm q content time hq := by
    obtain ⟨hfree, hentry⟩ := makeParts_entry (makeDirectories_ok_iff.mp hg).2
    refine ⟨content, time, ?_⟩
    rw [hentry, if_neg, hq]
    intro hv
    rcases hfree q hv with he | he <;> rw [hq] at he <;> cases he
  rooted hf := makeDirectories_rooted hf hg
  now := (makeParts_same (makeDirectories_ok_iff.mp hg).2).2
  entries := makeParts_length (makeDirectories_ok_iff.mp hg).2

theorem write_onward {p : String} (hp : Ends ".py" p) {content : Content}
    (hg : f.write p content = .ok g) : f.Onward g := by
  obtain ⟨place, -, -, he, rfl⟩ := write_ok_iff.mp hg
  refine ⟨write_extends hp hg, fun q c t hq => ?_, fun hf => write_rooted hf hg, rfl,
    Table.length_le_put _ _ _⟩
  rw [entry_put _ (ne_nil_of_not_directory he)]
  split
  · exact ⟨_, _, rfl⟩
  · exact ⟨c, t, hq⟩

theorem makeParts_stay {place ps : List String} (hg : f.makeParts place ps = .ok g)
    (hv : ∀ v ∈ ways place ps, h.entry? v = some .directory) : h.makeParts place ps = .ok h := by
  induction ps generalizing f place with
  | nil => rfl
  | cons part ps ih =>
      rw [makeParts_cons]
      rcases makeParts_cons.mp hg with ⟨hs, hg⟩ | ⟨rfl, hg⟩ | ⟨hp, hl, hg⟩
      · rw [ways, if_pos hs] at hv
        exact .inl ⟨hs, ih hg hv⟩
      · exact .inr (.inl ⟨rfl, ih hg hv⟩)
      · rw [ways_cons hp, List.forall_mem_cons] at hv
        refine .inr (.inr ⟨hp, hl, .inl ⟨hv.1, ?_⟩⟩)
        rcases hg with ⟨-, hg⟩ | ⟨-, hg⟩
        · exact ih hg hv.2
        · exact ih hg hv.2

end Files

open Files Work

variable {layout : Layout} {f g k : Files} {ns other source : String} {m : Module}

structure Replaceable (layout : Layout) (ns : String) (f : Files) : Prop where
  housed : housing layout f ns = .ok f
  file : ∃ content time, f.find? (modulePath layout ns) = some (.file content time)

theorem Replaceable.stays (h : Replaceable layout ns f) (hcwd : g.cwd = f.cwd)
    (hdirs : ∀ q, f.entry? q = some .directory → g.entry? q = some .directory)
    (hfiles : ∀ q content time, f.entry? q = some (.file content time) →
      ∃ content time, g.entry? q = some (.file content time)) : Replaceable layout ns g where
  housed := by
    have hways : ∀ v ∈ wayTo f.cwd layout ns, f.entry? v = some .directory := by
      intro v hv
      rw [(housing_entry h.housed).2, if_pos hv]
    obtain ⟨hc, hmade⟩ := makeDirectories_ok_iff.mp h.housed
    apply makeDirectories_ok_iff.mpr
    rw [hcwd]
    exact ⟨hc, makeParts_stay hmade fun v hv => hdirs v (hways v hv)⟩
  file := by
    obtain ⟨content, time, hf⟩ := h.file
    obtain ⟨q, hl, he⟩ := find?_eq_some.mp hf
    obtain ⟨content', time', he'⟩ := hfiles q content time he
    obtain ⟨hc, hw⟩ := locate_ok_iff.mp hl
    refine ⟨content', time', find?_eq_some.mpr ⟨q, locate_ok_iff.mpr ⟨hc, ?_⟩, he'⟩⟩
    rw [hcwd]
    exact walk_mono hdirs hw

theorem Replaceable.onward (h : Replaceable layout ns f) (hg : f.Onward g) : Replaceable layout ns g :=
  h.stays hg.grown.cwd hg.grown.directories hg.firm

theorem find?_written (hw : f.write (modulePath layout ns) (.module m) = .ok g) :
    g.find? (modulePath layout ns) = some (.file (.module m) f.now) := by
  have hgrown := write_extends (modulePath_ends layout ns) hw
  obtain ⟨place, hl, -, he, rfl⟩ := write_ok_iff.mp hw
  refine find?_eq_some.mpr ⟨place, hgrown.locate hl, ?_⟩
  rw [entry_put _ (ne_nil_of_not_directory he), if_pos rfl]

theorem replaceable_written (hk : housing layout f ns = .ok k)
    (hw : k.write (modulePath layout ns) (.module m) = .ok g) : Replaceable layout ns g where
  housed := by
    obtain ⟨hc, hmade⟩ := makeDirectories_ok_iff.mp hk
    have hways : ∀ v ∈ wayTo f.cwd layout ns, g.entry? v = some .directory := by
      intro v hv
      apply (write_extends (modulePath_ends layout ns) hw).directories
      rw [(housing_entry hk).2, if_pos hv]
    have hcwd : g.cwd = f.cwd :=
      (write_extends (modulePath_ends layout ns) hw).cwd.trans (makeDirectories_extends hk).cwd
    apply makeDirectories_ok_iff.mpr
    rw [hcwd]
    exact ⟨hc, makeParts_stay hmade hways⟩
  file := ⟨_, _, find?_written hw⟩

theorem Replaceable.writes (h : Replaceable layout ns f) (m : Module) :
    ∃ g, f.write (modulePath layout ns) (.module m) = .ok g := by
  obtain ⟨content, time, hf⟩ := h.file
  obtain ⟨q, hl, he⟩ := find?_eq_some.mp hf
  obtain ⟨ps, name, hp⟩ := ((modulePath_ends layout ns).join f.cwd).parts extension_module
  obtain ⟨-, up, -, hup, -, rfl⟩ := (locate_named hp (extension_module.ne name)).mp hl
  refine ⟨_, write_ok_iff.mpr ⟨_, hl, by rwa [List.dropLast_concat], ?_, rfl⟩⟩
  rw [he]
  exact fun h => by cases h

theorem Written.onward (h : Written layout ns source m f g) : f.Onward g := by
  by_cases hstale : isStale f source (modulePath layout ns) = true
  · obtain ⟨k, hk, hw⟩ := h.stale hstale
    exact (makeDirectories_onward hk).trans (write_onward (modulePath_ends layout ns) hw)
  · rw [h.fresh hstale]
    exact .refl f

theorem Written.entry (h : Written layout ns source m f g) {q : List String}
    (hq : q ≠ slot f.cwd layout ns) {content : Content} {time : Int} :
    g.entry? q = some (.file content time) ↔ f.entry? q = some (.file content time) := by
  by_cases hstale : isStale f source (modulePath layout ns) = true
  · obtain ⟨k, hk, hw⟩ := h.stale hstale
    obtain ⟨place, hl, -, he, rfl⟩ := write_ok_iff.mp hw
    have hne : q ≠ place := by
      rw [locate_place hl, (makeDirectories_extends hk).cwd]
      exact hq
    obtain ⟨hfree, hentry⟩ := housing_entry hk
    rw [entry_put _ (ne_nil_of_not_directory he), if_neg hne, hentry]
    split
    · next hv => rcases hfree q hv with hf | hf <;> simp [hf]
    · rfl
  · rw [h.fresh hstale]

def Renewable (layout : Layout) (ns source : String) (f : Files) : Prop :=
  isStale f source (modulePath layout ns) = false ∨ Replaceable layout ns f

theorem Written.renewable (h : Written layout ns source m f g) : Renewable layout ns source g := by
  by_cases hstale : isStale f source (modulePath layout ns) = true
  · obtain ⟨k, hk, hw⟩ := h.stale hstale
    exact .inr (replaceable_written hk hw)
  · rw [h.fresh hstale]
    exact .inl (by simpa using hstale)

theorem Written.find? (h : Written layout other source m f g)
    (hne : slot f.cwd layout ns ≠ slot f.cwd layout other) {e : Entry}
    (hf : f.find? (modulePath layout ns) = some e) : g.find? (modulePath layout ns) = some e := by
  obtain ⟨q, hl, he⟩ := find?_eq_some.mp hf
  refine find?_eq_some.mpr ⟨q, h.onward.grown.locate hl, ?_⟩
  cases e with
  | directory => exact h.onward.grown.directories q he
  | file content time =>
      apply (h.entry _).mpr he
      rw [locate_place hl]
      exact hne

theorem time?_of_find? {p : String} (hnow : g.now = f.now) (h : g.find? p = f.find? p) :
    g.time? p = f.time? p := by
  rw [time?, time?, h]
  cases f.find? p with
  | none => rfl
  | some e => cases e <;> simp [hnow]

/-- Nothing grows old while other modules are written. -/
theorem Renewable.written {other' : String} (h : Renewable layout ns source f)
    (hw : Written layout other other' m f g)
    (hne : slot f.cwd layout ns ≠ slot f.cwd layout other) (hends : Ends ".sumi" source)
    (hfile : ∃ content time, f.find? source = some (.file content time)) :
    Renewable layout ns source g := by
  refine h.imp (fun h => ?_) fun h => h.onward hw.onward
  obtain ⟨content, time, hf⟩ := hfile
  have hsource : g.time? source = f.time? source := by
    apply time?_of_find? hw.onward.now
    rw [hf, hw.onward.grown.find? hends hf]
  have htarget : g.time? (modulePath layout ns) = f.time? (modulePath layout ns) := by
    apply time?_of_find? hw.onward.now
    cases hm : f.find? (modulePath layout ns) with
    | some e => exact hw.find? hne hm
    | none =>
        rw [isStale, time?, hm] at h
        cases h
  rw [← h, isStale, isStale, hsource, htarget]

end Project

end Sumi
