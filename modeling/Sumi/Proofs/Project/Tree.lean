import Mathlib.Data.List.Induction
import Sumi.Proofs.Project.Path
import Sumi.Proofs.Tables

namespace Sumi

namespace Project.Files

open Sumi.Project.Path

variable {f g : Files}

def Rooted (f : Files) : Prop :=
  ∀ up name, f.entry? (up ++ [name]) ≠ none → f.entry? up = some .directory

instance (entry : Option Entry) : Decidable (entry = some .directory) :=
  match entry with
  | some .directory => isTrue rfl
  | some (.file _ _) => isFalse nofun
  | none => isFalse nofun

theorem rooted_iff {f : Files} :
    f.Rooted ↔ ∀ e ∈ f.entries, e.1 ≠ [] → f.entry? e.1.dropLast = some .directory := by
  constructor
  · intro h e he hne
    apply h _ (e.1.getLast hne)
    rw [List.dropLast_concat_getLast, entry?, if_neg (by simpa using hne)]
    exact Table.get?_of_mem_keys (List.mem_map_of_mem he)
  · intro h up name he
    obtain ⟨entry, he⟩ := Option.ne_none_iff_exists'.mp he
    unfold entry? at he
    rw [if_neg (by simp)] at he
    obtain ⟨e, hm, hk⟩ := List.mem_map.mp (Table.mem_keys he)
    have hup := h e hm (by simp [hk])
    rwa [hk, List.dropLast_concat] at hup

instance (f : Files) : Decidable f.Rooted := decidable_of_iff _ rooted_iff.symm

theorem entry_nil (f : Files) : f.entry? [] = some .directory := rfl

theorem entry_put (f : Files) {place : List String} (hp : place ≠ []) (e : Entry)
    (v : List String) : entry? (f.put place e) v = if v = place then some e else f.entry? v := by
  unfold entry? put
  by_cases hv : v = place
  · subst hv
    simp [hp, Table.get?_put_self]
  · simp [hv, Table.get?_put_of_ne hv]

theorem Rooted.above (h : f.Rooted) {up : List String} (more : List String)
    (he : f.entry? (up ++ more) = some .directory) : f.entry? up = some .directory := by
  induction more using List.reverseRecOn with
  | nil => rwa [List.append_nil] at he
  | append_singleton more name ih =>
      apply ih
      apply h _ name
      rw [List.append_assoc, he]
      exact Option.some_ne_none _

theorem walk_append (f : Files) (place : List String) (ps qs : List String) :
    f.walk place (ps ++ qs) = (f.walk place ps).bind (f.walk · qs) := by
  induction ps generalizing place with
  | nil => rfl
  | cons part ps ih =>
      rw [List.cons_append, walk, walk]
      split
      · rfl
      · rfl
      · split
        · exact ih _
        · split
          · exact ih _
          · split
            · rfl
            · exact ih _

theorem walk_name {place : List String} {name : String}
    (hn : name ≠ "" ∧ name ≠ "." ∧ name ≠ "..") {q : List String} :
    f.walk place [name] = .ok q ↔
      f.entry? place = some .directory ∧ isLong name = false ∧ q = place ++ [name] := by
  rw [walk]
  cases he : f.entry? place with
  | none => simp
  | some e =>
      cases e with
      | file => simp
      | directory => cases hl : isLong name <;> simp [hn, walk, eq_comm]

theorem walk_mono (hd : ∀ place, f.entry? place = some .directory → g.entry? place = some .directory)
    {place q : List String} {ps : List String} (h : f.walk place ps = .ok q) :
    g.walk place ps = .ok q := by
  induction ps generalizing place with
  | nil => exact h
  | cons part ps ih =>
      rw [walk] at h ⊢
      split at h
      · cases h
      · cases h
      · next he =>
          rw [hd place he]
          dsimp only
          split at h
          · next hp =>
              rw [if_pos hp]
              exact ih h
          · next hp =>
              rw [if_neg hp]
              split at h
              · next hu =>
                  rw [if_pos hu]
                  exact ih h
              · next hu =>
                  rw [if_neg hu]
                  split at h
                  · cases h
                  · next hl =>
                      rw [if_neg hl]
                      exact ih h

theorem walk_down {place q : List String} {ps : List String} (hu : ".." ∉ ps)
    (h : g.walk place ps = .ok q) : ∃ more, q = place ++ more := by
  induction ps generalizing place with
  | nil =>
      cases h
      exact ⟨[], (List.append_nil _).symm⟩
  | cons part ps ih =>
      obtain ⟨hp, hu⟩ := not_or.mp (mt List.mem_cons.mpr hu)
      rw [walk] at h
      split at h
      · cases h
      · cases h
      · split at h
        · exact ih hu h
        · rw [if_neg (Ne.symm hp)] at h
          split at h
          · cases h
          · obtain ⟨more, rfl⟩ := ih hu h
            exact ⟨part :: more, by simp⟩

/-- A walk that never goes up needs only the directories that its end stands in. -/
theorem walk_back (hf : f.Rooted) {place q : List String} {ps : List String} (hu : ".." ∉ ps)
    (h : g.walk place ps = .ok q) (hq : f.entry? q = some .directory) :
    f.walk place ps = .ok q := by
  induction ps generalizing place with
  | nil => exact h
  | cons part ps ih =>
      obtain ⟨more, rfl⟩ := walk_down hu h
      have he := hf.above more hq
      obtain ⟨hp, hu⟩ := not_or.mp (mt List.mem_cons.mpr hu)
      rw [walk] at h ⊢
      rw [he]
      dsimp only
      split at h
      · cases h
      · cases h
      · split at h
        · next hs =>
            rw [if_pos hs]
            exact ih hu h
        · next hs =>
            rw [if_neg hs]
            rw [if_neg (Ne.symm hp)] at h ⊢
            split at h
            · cases h
            · next hl =>
                rw [if_neg hl]
                exact ih hu h

theorem walk_append_ok {place q : List String} {ps qs : List String} :
    f.walk place (ps ++ qs) = .ok q ↔ ∃ m, f.walk place ps = .ok m ∧ f.walk m qs = .ok q := by
  rw [walk_append]
  cases h : f.walk place ps with
  | error e => simp [Except.bind]
  | ok m => simp [Except.bind]

theorem locate_ok_iff {p : String} {q : List String} :
    f.locate p = .ok q ↔ checkPath p = .ok () ∧ f.walk [] (parts (join f.cwd p)) = .ok q := by
  unfold locate
  cases h : checkPath p with
  | error e => simp [bind, Except.bind]
  | ok u => simp [bind, Except.bind]

theorem locate_named {p name : String} {ps : List String}
    (hp : parts (join f.cwd p) = ps ++ [name]) (hn : name ≠ "" ∧ name ≠ "." ∧ name ≠ "..")
    {q : List String} :
    f.locate p = .ok q ↔ checkPath p = .ok () ∧ ∃ up, f.walk [] ps = .ok up ∧
      f.entry? up = some .directory ∧ isLong name = false ∧ q = up ++ [name] := by
  rw [locate_ok_iff, hp, walk_append_ok]
  simp only [walk_name hn]

theorem locate_ends {ext p : String} (hx : Extension ext) (h : Ends ext p) {q : List String}
    (hq : f.locate p = .ok q) : ∃ up name, q = up ++ [name ++ ext] := by
  obtain ⟨ps, name, hp⟩ := (h.join f.cwd).parts hx
  obtain ⟨-, up, -, -, -, rfl⟩ := (locate_named hp (hx.ne name)).mp hq
  exact ⟨up, name, rfl⟩

def IsModule (place : List String) : Prop := ∃ up name, place = up ++ [name ++ ".py"]

structure Extends (f g : Files) : Prop where
  cwd : g.cwd = f.cwd
  directories : ∀ place, f.entry? place = some .directory → g.entry? place = some .directory
  files : ∀ place content time, ¬ IsModule place →
    (g.entry? place = some (.file content time) ↔ f.entry? place = some (.file content time))

theorem Extends.refl (f : Files) : f.Extends f := ⟨rfl, fun _ h => h, fun _ _ _ _ => Iff.rfl⟩

theorem Extends.trans {h : Files} (hfg : f.Extends g) (hgh : g.Extends h) : f.Extends h :=
  ⟨hgh.cwd.trans hfg.cwd, fun place hp => hgh.directories place (hfg.directories place hp),
    fun place content time hm =>
      (hgh.files place content time hm).trans (hfg.files place content time hm)⟩

theorem Extends.locate (h : f.Extends g) {p : String} {q : List String}
    (hq : f.locate p = .ok q) : g.locate p = .ok q := by
  rw [locate_ok_iff, h.cwd]
  obtain ⟨hc, hw⟩ := locate_ok_iff.mp hq
  exact ⟨hc, walk_mono h.directories hw⟩

theorem not_isModule (up : List String) (name : String) : ¬ IsModule (up ++ [name ++ ".sumi"]) := by
  rintro ⟨up', name', h⟩
  obtain ⟨-, h⟩ := List.append_inj' h rfl
  have h := congrArg (List.getLast? ∘ String.toList) (List.singleton_inj.mp h)
  simp at h

theorem find?_eq_some {p : String} {e : Entry} :
    f.find? p = some e ↔ ∃ q, f.locate p = .ok q ∧ f.entry? q = some e := by
  unfold find?
  cases h : f.locate p with
  | error e => simp
  | ok q => simp

theorem Extends.find? (h : f.Extends g) {p : String} (hp : Ends ".sumi" p) {content : Content}
    {time : Int} (hf : f.find? p = some (.file content time)) :
    g.find? p = some (.file content time) := by
  obtain ⟨q, hq, he⟩ := find?_eq_some.mp hf
  obtain ⟨up, name, rfl⟩ := locate_ends extension_source hp hq
  exact find?_eq_some.mpr ⟨_, h.locate hq, (h.files _ _ _ (not_isModule up name)).mpr he⟩

/-- A path that leads to the same place in all trees with more directories: it never goes up, or it
leads to a directory. -/
def Steady (f : Files) (p : String) : Prop :=
  ".." ∉ parts (join f.cwd p) ∨
    ∃ q, f.walk [] (parts (join f.cwd p)) = .ok q ∧ f.entry? q = some .directory

theorem Steady.parts {base name ext : String} (h : f.Steady base) (hx : Extension ext)
    (hn : Ends ext name) (hu : ".." ∉ parts name) :
    ∃ as bs x b, parts (join f.cwd (join base name)) = as ++ (bs ++ [x ++ ext]) ∧ ".." ∉ bs ∧
      f.walk [] as = .ok b := by
  obtain ⟨ns, x, hns⟩ := hn.parts hx
  have hns' : ".." ∉ ns := fun hm => hu (by rw [hns]; exact List.mem_append_left _ hm)
  rw [join_assoc]
  rcases parts_join (join f.cwd base) name with ⟨hp, -⟩ | hp | ⟨up, hb, hp⟩
  · exact ⟨[], ns, x, [], by rw [hp, hns]; rfl, hns', rfl⟩
  · rcases h with hb | ⟨b, hw, -⟩
    · refine ⟨[], Path.parts (join f.cwd base) ++ ns, x, [], by simp [hp, hns], ?_, rfl⟩
      exact fun hm => (List.mem_append.mp hm).elim hb hns'
    · exact ⟨_, ns, x, b, by rw [hp, hns], hns', hw⟩
  · rcases h with hb' | ⟨b, hw, -⟩
    · refine ⟨[], up ++ ns, x, [], by simp [hp, hns], ?_, rfl⟩
      refine fun hm => (List.mem_append.mp hm).elim (fun hm => hb' ?_) hns'
      rw [hb]
      exact List.mem_append_left _ hm
    · rw [hb] at hw
      obtain ⟨m, hm, he⟩ := walk_append_ok.mp hw
      exact ⟨up, ns, x, m, by rw [hp, hns], hns', hm⟩

/-- What is found below a steady path was found before, if it was there. -/
theorem Extends.find?_below (h : f.Extends g) (hf : f.Rooted) {base name ext : String}
    (hx : Extension ext) (hb : f.Steady base) (hn : Ends ext name) (hu : ".." ∉ parts name) {e : Entry}
    (hg : g.find? (join base name) = some e)
    (he : ∀ q, g.locate (join base name) = .ok q → f.entry? q = some e) :
    f.find? (join base name) = some e := by
  obtain ⟨as, bs, x, b, hparts, hup, has⟩ := hb.parts hx hn hu
  obtain ⟨q, hq, -⟩ := find?_eq_some.mp hg
  have he := he q hq
  rw [← List.append_assoc, ← h.cwd] at hparts
  obtain ⟨hc, m, hm, -, hl, rfl⟩ := (locate_named hparts (hx.ne x)).mp hq
  have hd : f.entry? m = some .directory := hf m _ (by rw [he]; exact Option.some_ne_none _)
  obtain ⟨b', hb', hbm⟩ := walk_append_ok.mp hm
  cases (walk_mono h.directories has).symm.trans hb'
  rw [h.cwd] at hparts
  refine find?_eq_some.mpr ⟨_, (locate_named hparts (hx.ne x)).mpr ?_, he⟩
  exact ⟨hc, m, walk_append_ok.mpr ⟨b, has, walk_back hf hup hbm hd⟩, hd, hl, rfl⟩

theorem Extends.find?_back (h : f.Extends g) (hf : f.Rooted) {base name : String}
    (hb : f.Steady base) (hn : Ends ".sumi" name) (hu : ".." ∉ parts name) {content : Content}
    {time : Int} (hg : g.find? (join base name) = some (.file content time)) :
    f.find? (join base name) = some (.file content time) := by
  refine h.find?_below hf extension_source hb hn hu hg fun q hq => ?_
  obtain ⟨q', hq', he⟩ := find?_eq_some.mp hg
  cases hq.symm.trans hq'
  obtain ⟨up, x, rfl⟩ := locate_ends extension_source (hn.join base) hq
  exact (h.files _ _ _ (not_isModule up x)).mp he

theorem isFile_iff {p : String} :
    f.isFile p = true ↔ ∃ content time, f.find? p = some (.file content time) := by
  unfold isFile
  rcases f.find? p with _ | (_ | ⟨content, time⟩) <;> simp

theorem read_ok_iff {p : String} {content : Content} :
    f.read p = .ok content ↔ ∃ time, f.find? p = some (.file content time) := by
  unfold read find?
  cases f.locate p with
  | error e => simp [bind, Except.bind]
  | ok q => rcases he : f.entry? q with _ | (_ | ⟨c, time⟩) <;> simp [bind, Except.bind, he]

/-- The search for a source is the same in a tree that has grown. -/
theorem Extends.isFile (h : f.Extends g) (hf : f.Rooted) {base name : String} (hb : f.Steady base)
    (hn : Ends ".sumi" name) (hu : ".." ∉ parts name) :
    g.isFile (join base name) = f.isFile (join base name) := by
  rw [Bool.eq_iff_iff, isFile_iff, isFile_iff]
  constructor
  · rintro ⟨content, time, hg⟩
    exact ⟨content, time, h.find?_back hf hb hn hu hg⟩
  · rintro ⟨content, time, hg⟩
    exact ⟨content, time, h.find? (hn.join base) hg⟩

theorem Extends.readText (h : f.Extends g) {p text : String} (hp : Ends ".sumi" p)
    (ht : f.readText p = .ok text) : g.readText p = .ok text := by
  unfold Files.readText at ht ⊢
  cases hr : f.read p with
  | error e =>
      rw [hr] at ht
      cases ht
  | ok content =>
      obtain ⟨time, hf⟩ := read_ok_iff.mp hr
      rw [read_ok_iff.mpr ⟨time, h.find? hp hf⟩]
      rwa [hr] at ht

end Project.Files

end Sumi
