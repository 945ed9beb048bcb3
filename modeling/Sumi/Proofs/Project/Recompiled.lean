import Sumi.Proofs.Form.Named
import Sumi.Proofs.Project.LoadOrder
import Sumi.Proofs.Project.Retrace

namespace Sumi

namespace Project

open Sumi.Project.Path

namespace Files

def touch (f : Files) (p : String) (time now : Int) : Except FileFault Files := do
  let content ← f.read p
  let place ← f.locate p
  return { f.put place (.file content time) with now := now }

/-- `g` is `f` but for the times of files. -/
structure Retimed (f g : Files) : Prop where
  cwd : g.cwd = f.cwd
  directory : ∀ q, g.entry? q = some .directory ↔ f.entry? q = some .directory
  file : ∀ q content, (∃ time, g.entry? q = some (.file content time)) ↔
    ∃ time, f.entry? q = some (.file content time)

variable {f g : Files} {p : String} {time now : Int}

theorem Retimed.symm (h : f.Retimed g) : g.Retimed f :=
  ⟨h.cwd.symm, fun q => (h.directory q).symm, fun q content => (h.file q content).symm⟩

theorem Retimed.locate (h : f.Retimed g) {q : List String} :
    g.locate p = .ok q ↔ f.locate p = .ok q := by
  rw [locate_ok_iff, locate_ok_iff, h.cwd]
  apply and_congr_right
  intro _
  exact ⟨walk_mono fun v => (h.directory v).mp, walk_mono fun v => (h.directory v).mpr⟩

theorem Retimed.find? (h : f.Retimed g) {content : Content} :
    (∃ time, g.find? p = some (.file content time)) ↔
      ∃ time, f.find? p = some (.file content time) := by
  simp only [find?_eq_some, h.locate]
  constructor
  · rintro ⟨time, q, hl, he⟩
    obtain ⟨time', he'⟩ := (h.file q content).mp ⟨time, he⟩
    exact ⟨time', q, hl, he'⟩
  · rintro ⟨time, q, hl, he⟩
    obtain ⟨time', he'⟩ := (h.file q content).mpr ⟨time, he⟩
    exact ⟨time', q, hl, he'⟩

theorem Retimed.isFile (h : f.Retimed g) (p : String) : g.isFile p = f.isFile p := by
  rw [Bool.eq_iff_iff, isFile_iff, isFile_iff]
  exact exists_congr fun content => h.find?

theorem Retimed.readText (h : f.Retimed g) {text : String} (ht : f.readText p = .ok text) :
    g.readText p = .ok text := by
  unfold Files.readText at ht ⊢
  cases hr : f.read p with
  | error e =>
      rw [hr] at ht
      cases ht
  | ok content =>
      rw [read_ok_iff.mpr (h.find?.mpr (read_ok_iff.mp hr))]
      rwa [hr] at ht

theorem Retimed.rooted (h : f.Retimed g) (hf : f.Rooted) : g.Rooted := by
  intro up name hn
  apply (h.directory up).mpr
  apply hf up name
  intro hnone
  apply hn
  cases he : g.entry? (up ++ [name]) with
  | none => rfl
  | some e =>
      cases e with
      | directory =>
          have hd := (h.directory _).mp he
          rw [hnone] at hd
          cases hd
      | file content time =>
          obtain ⟨time', hd⟩ := (h.file _ content).mp ⟨time, he⟩
          rw [hnone] at hd
          cases hd

theorem Retimed.steady (h : f.Retimed g) (hf : f.Steady p) : g.Steady p := by
  unfold Steady
  rw [h.cwd]
  refine hf.imp_right ?_
  rintro ⟨q, hq, hd⟩
  exact ⟨q, walk_mono (fun v => (h.directory v).mpr) hq, (h.directory q).mpr hd⟩

structure Touches (p : String) (time now : Int) (f g : Files) : Prop where
  cwd : g.cwd = f.cwd
  now : g.now = now
  entries : f.entries.length ≤ g.entries.length
  entry : ∃ content old, f.entry? (place f.cwd p) = some (.file content old) ∧
    ∀ q, g.entry? q = if q = place f.cwd p then some (.file content time) else f.entry? q

theorem touches (h : f.touch p time now = .ok g) : Touches p time now f g := by
  unfold touch at h
  cases hr : f.read p with
  | error e =>
      rw [hr] at h
      cases h
  | ok content =>
      obtain ⟨old, hf⟩ := read_ok_iff.mp hr
      obtain ⟨q, hl, he⟩ := find?_eq_some.mp hf
      rw [hr, hl] at h
      cases h
      obtain rfl := locate_place hl
      have hne : place f.cwd p ≠ [] := by
        intro hnil
        rw [hnil] at he
        cases he
      exact ⟨rfl, rfl, Table.length_le_put _ _ _, content, old, he, entry_put f hne _⟩

theorem Touches.retimed (h : Touches p time now f g) : f.Retimed g := by
  obtain ⟨content, old, he, hentry⟩ := h.entry
  refine ⟨h.cwd, fun q => ?_, fun q c => ?_⟩
  · by_cases hq : q = place f.cwd p
    · rw [hentry, if_pos hq, hq, he]
      constructor <;> exact fun h => by cases h
    · rw [hentry, if_neg hq]
  · by_cases hq : q = place f.cwd p
    · rw [hentry, if_pos hq, hq, he]
      constructor
      · rintro ⟨_, h⟩
        cases h
        exact ⟨old, rfl⟩
      · rintro ⟨_, h⟩
        cases h
        exact ⟨time, rfl⟩
    · rw [hentry, if_neg hq]

theorem Touches.find? (h : Touches p time now f g) {p' : String} {e : Entry}
    (hne : place f.cwd p' ≠ place f.cwd p) (hf : f.find? p' = some e) : g.find? p' = some e := by
  obtain ⟨content, old, -, hentry⟩ := h.entry
  obtain ⟨q, hl, he⟩ := find?_eq_some.mp hf
  refine find?_eq_some.mpr ⟨q, h.retimed.locate.mpr hl, ?_⟩
  rw [hentry, if_neg]
  · exact he
  · rw [locate_place hl]
    exact hne

end Files

open Files Work Analysis

variable {layout : Layout} {w w' : Workspace} {f : Files} {ns path : String} {forms : List Form}
  {requires : List String}

theorem search_retimed (h : w.files.Retimed f) (name : String) :
    search { w with files := f } layout name = search w layout name := by
  unfold search
  have hsame : f.isFile = w.files.isFile := funext h.isFile
  rw [hsame, h.cwd]

theorem Source.retimed (hs : Source layout w ns path forms requires) (h : w.files.Retimed f) :
    Source layout { w with files := f } ns path forms requires := by
  obtain ⟨text, ht, hf⟩ := hs.read
  exact ⟨(search_retimed h _).trans hs.found, ⟨text, h.readText ht, hf⟩, hs.declared⟩

theorem Placed.retimed (hp : Placed layout w) (h : w.files.Retimed f) :
    Placed layout { w with files := f } where
  settled := ⟨h.rooted hp.settled.rooted, fun base hb => h.steady (hp.settled.steady base hb)⟩
  absolute := by
    change isAbsolute f.cwd = true
    rw [h.cwd]
    exact hp.absolute
  apart := by
    change place f.cwd layout.output ≠ []
    rw [h.cwd]
    exact hp.apart

theorem Replaceable.retimed (hr : Replaceable layout ns w.files) (h : w.files.Retimed f) :
    Replaceable layout ns f :=
  hr.stays h.cwd (fun q => (h.directory q).mpr) fun q content time he =>
    ⟨content, (h.file q content).mpr ⟨time, he⟩⟩

variable {u u' v v' x : Workspace} {stops : List Stop}

/-- The file where a module goes is changed by its own namespace alone. -/
theorem runs_entry (hp : Placed layout u) (hc : u.analyzer.Consistent)
    (h : Runs layout stops u u') (hs : Sourced layout u stops)
    (hsource : Source layout u ns path forms requires) (hns : ns ∉ builds stops) {content : Content}
    {time : Int} : u'.files.entry? (slot u.files.cwd layout ns) = some (.file content time) ↔
      u.files.entry? (slot u.files.cwd layout ns) = some (.file content time) := by
  induction stops generalizing u with
  | nil =>
      cases h
      rfl
  | cons stop stops ih =>
      obtain ⟨v, hv, hrest⟩ := h
      have hw := takes_onward hc hv
      have htail := ih (hp.onward hw) hw.analyzer hrest (hp.tail hw hs) ((hp.source_iff hw).mpr hsource)
      rw [hw.files.grown.cwd] at htail
      cases stop with
      | opened other s =>
          rw [htail hns, (opened_source hc hv).2.files]
      | built other s c =>
          obtain ⟨hother, hns⟩ := not_or.mp (mt List.mem_cons.mpr hns)
          obtain ⟨m, a, -, -, hwritten, -, -⟩ := built_module hc hv
          rw [htail hns]
          refine hwritten.entry fun he => hother ?_
          exact slot_apart hp.absolute hp.apart hsource (hs other s c List.mem_cons_self) he

theorem runs_module (hp : Placed layout u) (hc : u.analyzer.Consistent)
    (h : Runs layout stops u u') (hs : Sourced layout u stops)
    (hsource : Source layout u ns path forms requires) (hns : ns ∉ builds stops) {content : Content}
    {time : Int} (hf : u.files.find? (modulePath layout ns) = some (.file content time)) :
    u'.files.find? (modulePath layout ns) = some (.file content time) := by
  obtain ⟨q, hl, he⟩ := find?_eq_some.mp hf
  refine find?_eq_some.mpr ⟨q, (runs_onward hc h).files.grown.locate hl, ?_⟩
  rw [locate_place hl] at he ⊢
  exact (runs_entry hp hc h hs hsource hns).mpr he

theorem source_time (hu : u.Onward u')
    (hsource : Source layout u ns path forms requires) : u'.files.time? path = u.files.time? path := by
  obtain ⟨content, time, hf⟩ := hsource.file
  apply time?_of_find? hu.files.now
  rw [hf, hu.files.grown.find? (search_ends hsource.found) hf]

/-- A module that is to be written stays so until its namespace is built, unless there is no room for
it. -/
theorem runs_stale (hp : Placed layout u) (hc : u.analyzer.Consistent)
    (h : Runs layout stops u u') (hs : Sourced layout u stops)
    (hsource : Source layout u ns path forms requires) (hns : ns ∉ builds stops)
    (hout : u.files.Steady layout.output)
    (hstale : isStale u.files path (modulePath layout ns) = true)
    (hfile : u'.files.find? (modulePath layout ns) ≠ some .directory) :
    isStale u'.files path (modulePath layout ns) = true := by
  have hu := runs_onward hc h
  cases he : u'.files.find? (modulePath layout ns) with
  | none => rw [isStale, time?, he, Option.map_none]
  | some e =>
      cases e with
      | directory => exact absurd he hfile
      | file content time =>
          have hback : u.files.find? (modulePath layout ns) = some (.file content time) := by
            apply hu.files.grown.find?_below hp.settled.rooted extension_module hout
              ⟨stem ns, rfl⟩ (up_not_mem_stem extension_module ns) he
            intro q hq
            obtain ⟨q', hq', he'⟩ := find?_eq_some.mp he
            cases hq.symm.trans hq'
            rw [locate_place hq, hu.files.grown.cwd] at he' ⊢
            exact (runs_entry hp hc h hs hsource hns).mp he'
          rw [← hstale, isStale, isStale, source_time hu hsource,
            time?_of_find? hu.files.now (he.trans hback.symm)]

def Workspace.compiling (w : Workspace) (paths : List String) : Workspace :=
  paths.foldl (fun w path => ((compileFile path).run.run w).2) w

theorem compileFile_knows (hc : x.analyzer.Consistent) (hr : ReadsAs x.files path forms) {m : Module}
    {a : Analyzer}
    (hm : (compile (some path) Namespace.user forms).run.run x.analyzer = (.ok m, a)) :
    x.Same ((compileFile path).run.run x).2 ∧
      ((compileFile path).run.run x).2.analyzer.namespaces = a.namespaces := by
  have hleads : Leads (compileFile path) x
      (fun _ x' => x.Same x' ∧ x'.analyzer.namespaces = a.namespaces)
      (fun _ x' => x.Same x' ∧ x'.analyzer.namespaces = a.namespaces) := by
    apply leads_formsOf.bind
    · rintro forms' _ ⟨hr', rfl⟩
      cases hr.unique hr'
      apply (leads_analyze_same ⟨_, compile_alike _ _ forms⟩ hc).mono
      · rintro m' x' ⟨⟨a', hm', ha'⟩, hsame⟩
        cases hm.symm.trans hm'
        exact ⟨hsame, ha'⟩
      · rintro e x' ⟨⟨a', e', hm', -⟩, -⟩
        cases hm.symm.trans hm'
    · rintro e _ ⟨hno, rfl⟩
      exact absurd hr (hno forms)
  rw [leads_iff] at hleads
  rcases hrun : (compileFile path).run.run x with ⟨e | m', x'⟩ <;> rw [hrun] at hleads <;> exact hleads

theorem runs_defines (hc : u.analyzer.Consistent) (h : Runs layout stops u u')
    (hread : ∀ ns s c, .built ns s c ∈ stops → ReadsAs x.files s.path s.forms)
    (hcx : x.analyzer.Consistent) (hd : x.analyzer.ledger.defines = u.analyzer.ledger.defines) :
    (x.compiling ((components stops).filterMap (·.source))).analyzer.Consistent ∧
      (x.compiling ((components stops).filterMap (·.source))).analyzer.ledger.defines =
        u'.analyzer.ledger.defines := by
  induction stops generalizing u x with
  | nil =>
      cases h
      exact ⟨hcx, hd⟩
  | cons stop stops ih =>
      obtain ⟨v, hv, hrest⟩ := h
      have hcv := (takes_onward hc hv).analyzer
      have htail : ∀ ns s c, .built ns s c ∈ stops → ReadsAs x.files s.path s.forms :=
        fun ns s c hm => hread ns s c (List.mem_cons_of_mem _ hm)
      cases stop with
      | opened ns s =>
          obtain ⟨first, rest, node, b, hforms, hrun, hb⟩ := opened_header hc hv
          obtain ⟨first', rest', hforms', hh⟩ := (opened_source hc hv).1.declared
          cases hforms.symm.trans hforms'
          apply ih hcv hrest htail hcx
          rw [Analyzer.ledger_of_namespaces hb, defines_declaration hc (isNs_of_header hh) hrun, hd]
      | built ns s c =>
          obtain ⟨m, a, hm, ha, -, rfl, -⟩ := built_module hc hv
          obtain ⟨m', a', hm', habreast, -⟩ := compile_repeats (t := u.analyzer) _ hc hcx hm
          obtain ⟨hsame, hx⟩ := compileFile_knows hcx (hread ns s _ List.mem_cons_self) hm'
          have hdefines := (habreast.namespaces ha hx).defines hd
          rw [← hsame.files] at htail
          exact ih hcv hrest htail hsame.analyzer hdefines

theorem runs_within (hc : u.analyzer.Consistent) (h : Runs layout stops u u') :
    u.analyzer.ledger.Within u'.analyzer.ledger := by
  induction stops generalizing u with
  | nil =>
      cases h
      exact fun _ _ h => h
  | cons stop stops ih =>
      obtain ⟨v, hv, hrest⟩ := h
      refine Ledger.Within.trans ?_ (ih (takes_onward hc hv).analyzer hrest)
      cases stop with
      | opened ns s =>
          obtain ⟨first, rest, node, b, -, hrun, hb⟩ := opened_header hc hv
          obtain ⟨_, b', hrun', habreast, -⟩ := topLevel_repeats hc hc hrun
          exact (habreast.namespaces hb rfl).within
      | built ns s c =>
          obtain ⟨m, a, hm, ha, -, -, -⟩ := built_module hc hv
          obtain ⟨_, b', hrun', habreast, -⟩ := compile_repeats (t := u.analyzer) _ hc hc hm
          exact (habreast.namespaces ha rfl).within

variable {s : Opened} {c : Component} {before after : List Stop} {u₁ v₁ w₁ w₁' : Workspace} {m : Module}

structure Passes (layout : Layout) (before : List Stop) (ns : String) (s : Opened) (c : Component)
    (after : List Stop) (w u u₁ w₁ : Workspace) : Prop where
  consistent : w.analyzer.Consistent
  placed : Placed layout w
  sourced : Sourced layout w (before ++ .built ns s c :: after)
  nodup : (builds (before ++ .built ns s c :: after)).Nodup
  reaches : Runs layout before w u
  builds : (Stop.built ns s c).Takes layout u u₁
  leaves : Runs layout after u₁ w₁

namespace Passes

theorem runs (h : Passes layout before ns s c after w u u₁ w₁) :
    Runs layout (before ++ .built ns s c :: after) w w₁ :=
  runs_append.mpr ⟨u, h.reaches, u₁, h.builds, h.leaves⟩

theorem source (h : Passes layout before ns s c after w u u₁ w₁) :
    Source layout w ns s.path s.forms s.requires :=
  h.sourced ns s c (List.mem_append_right _ List.mem_cons_self)

theorem onward (h : Passes layout before ns s c after w u u₁ w₁) :
    w.Onward u ∧ u.Onward u₁ ∧ u₁.Onward w₁ := by
  have hu := runs_onward h.consistent h.reaches
  have hu₁ := takes_onward hu.analyzer h.builds
  exact ⟨hu, hu₁, runs_onward hu₁.analyzer h.leaves⟩

/-- A module that is to be written is written when its namespace is built, and then it stays. -/
theorem writes (h : Passes layout before ns s c after w u u₁ w₁)
    (hout : w.files.Steady layout.output)
    (hstale : isStale w.files s.path (modulePath layout ns) = true)
    (hfile : w₁.files.isFile (modulePath layout ns) = true) :
    ∃ m a, (compile (some s.path) Namespace.user s.forms).run.run u.analyzer = (.ok m, a) ∧
      u₁.analyzer.namespaces = a.namespaces ∧
      w₁.files.find? (modulePath layout ns) = some (.file (.module m) w.files.now) ∧
      Replaceable layout ns w₁.files := by
  obtain ⟨hu, hu₁, hw₁⟩ := h.onward
  have hpu := h.placed.onward hu
  have hsu := (h.placed.source_iff hu).mpr h.source
  obtain ⟨m, a, hm, ha, hwritten, -, -⟩ := built_module hu.analyzer h.builds
  have hnodup := h.nodup
  rw [builds_append, builds_built, List.nodup_append, List.nodup_cons] at hnodup
  obtain ⟨-, ⟨hafter, -⟩, hbefore⟩ := hnodup
  -- a directory in the place of the module would still be there in the end
  have hroom : u.files.find? (modulePath layout ns) ≠ some .directory := by
    intro hd
    obtain ⟨q, hl, he⟩ := find?_eq_some.mp hd
    have hgrown := (hu₁.trans hw₁).files.grown
    have hd' := find?_eq_some.mpr ⟨q, hgrown.locate hl, hgrown.directories q he⟩
    rw [Files.isFile, hd'] at hfile
    cases hfile
  have hdue := runs_stale h.placed h.consistent h.reaches
    (fun x s c hm => h.sourced x s c (List.mem_append_left _ hm)) h.source
    (fun hm => hbefore ns hm ns List.mem_cons_self rfl) hout hstale hroom
  obtain ⟨k, hk, hw⟩ := hwritten.stale hdue
  refine ⟨m, a, hm, ha, ?_, (replaceable_written hk hw).onward hw₁.files⟩
  have hsourced : Sourced layout u₁ after := fun x s c hm =>
    (h.placed.source_iff (hu.trans hu₁)).mpr (h.sourced x s c (by simp [hm]))
  rw [← hu.files.now, ← (makeDirectories_onward hk).now]
  exact runs_module (hpu.onward hu₁) hu₁.analyzer h.leaves hsourced ((hpu.source_iff hu₁).mpr hsu)
    hafter (find?_written hw)

/-- What counts is what was defined in the sources of those namespaces that come before. -/
theorem lasting (h : Passes layout before ns s c after w u u₁ w₁) {known a : Analyzer}
    (hm : (compile (some s.path) Namespace.user s.forms).run.run u.analyzer = (.ok m, a)) :
    Lasting known Namespace.user s.forms u.analyzer ↔ Lasting known Namespace.user s.forms
      (w.compiling ((components before).filterMap (·.source))).analyzer := by
  obtain ⟨xs, b, hxs, -⟩ := bind_ok_inv hm
  obtain ⟨first, rest, hforms, hh⟩ := h.source.declared
  obtain ⟨hc, hd⟩ := runs_defines (x := w) h.consistent h.reaches
    (fun ns s c hmem => (h.sourced ns s c (List.mem_append_left _ hmem)).read) h.consistent rfl
  exact lasting_congr h.onward.1.analyzer hc hxs (.inr ⟨first, rest, hforms, isNs_of_header hh⟩) hd

/-- Where all modules can be written, another tour makes the same stops. -/
theorem again (h : Passes layout before ns s c after w u u₁ w₁) (hb : Beside layout w w' w w')
    (hr : ∀ x s' c', .built x s' c' ∈ before ++ .built ns s c :: after →
      Renewable layout x s'.path w'.files) :
    ∃ v v₁ w₁', Passes layout before ns s c after w' v v₁ w₁' ∧ Beside layout w w' u v := by
  obtain ⟨v, hv, hbv⟩ := hb.runs h.reaches
    (fun x s' c' hm => h.sourced x s' c' (List.mem_append_left _ hm))
    fun x s' c' hm => hr x s' c' (List.mem_append_left _ hm)
  have hsourced : Sourced layout w' (before ++ .built ns s c :: after) :=
    fun x s' c' hm => hb.sources _ _ _ _ (h.sourced x s' c' hm)
  have hrv : ∀ x s' c', .built x s' c' ∈ Stop.built ns s c :: after →
      Renewable layout x s'.path v.files := fun x s' c' hm =>
    runs_renewable hb.right hb.abreast.right hv
      (fun x s' c' hm => hsourced x s' c' (List.mem_append_left _ hm))
      (hsourced x s' c' (List.mem_append_right _ hm)) (hr x s' c' (List.mem_append_right _ hm))
  have hsu : Sourced layout u (.built ns s c :: after) := fun x s' c' hm =>
    (h.placed.source_iff h.onward.1).mpr (h.sourced x s' c' (List.mem_append_right _ hm))
  have hrest : Runs layout (.built ns s c :: after) u w₁ := ⟨u₁, h.builds, h.leaves⟩
  obtain ⟨w₁', ⟨v₁, hv₁, hleaves⟩, -⟩ := hbv.runs hrest hsu hrv
  exact ⟨v, v₁, w₁', ⟨hb.abreast.right, hb.right, hsourced, h.nodup, hv, hv₁, hleaves⟩, hbv⟩

end Passes

/-- When one source is touched, all modules can still be written that could be before. -/
theorem Files.Touches.renewable {time now : Int} (ht : Touches path time now w.files f)
    (hnow : w.files.now ≤ now) (hsource : Source layout w ns path forms requires)
    (hmodule : Replaceable layout ns w.files) {other path' : String} {forms' : List Form}
    {requires' : List String} (hother : Source layout w other path' forms' requires')
    (hr : Renewable layout other path' w.files) : Renewable layout other path' f := by
  rcases hr with hfresh | hr
  · by_cases hns : other = ns
    · subst hns
      exact .inr (hmodule.retimed ht.retimed)
    · left
      obtain ⟨content, old, hf⟩ := hsource.file
      obtain ⟨content', old', hf'⟩ := hother.file
      obtain ⟨q, hl, -⟩ := find?_eq_some.mp hf
      obtain ⟨q', hl', -⟩ := find?_eq_some.mp hf'
      -- no two namespaces have their sources at one place
      have hapart : place w.files.cwd path' ≠ place w.files.cwd path := by
        rw [← locate_place hl, ← locate_place hl']
        rintro rfl
        exact hns (Owns.unique ⟨_, _, _, hother, hl'⟩ ⟨_, _, _, hsource, hl⟩)
      have hchanged : f.find? path' = some (.file content' old') := ht.find? hapart hf'
      rw [isStale, time?, time?, hf'] at hfresh
      rw [isStale, time?, time?, hchanged]
      cases hm : w.files.find? (modulePath layout other) with
      | none =>
          rw [hm] at hfresh
          cases hfresh
      | some e =>
          -- the place of a module has another extension than that of a source
          have hmodule : place w.files.cwd (modulePath layout other) ≠ place w.files.cwd path := by
            obtain ⟨r, hr, -⟩ := find?_eq_some.mp hm
            obtain ⟨up, name, rfl⟩ := locate_ends extension_module (modulePath_ends layout other) hr
            obtain ⟨up', name', rfl⟩ := locate_ends extension_source (search_ends hsource.found) hl
            rw [← locate_place hr, ← locate_place hl]
            intro he
            exact not_isModule up' name' ⟨up, name, he.symm⟩
          rw [hm] at hfresh
          rw [ht.find? hmodule hm]
          cases e with
          | file c t => exact hfresh
          | directory =>
              simp only [Option.map_some, decide_eq_false_iff_not] at hfresh ⊢
              rw [ht.now]
              omega
  · exact .inr (hr.retimed ht.retimed)

/-- The second time, the table knows no more than it does in the end of the first. -/
theorem Beside.recompiles {known a : Analyzer} (h : Beside layout w w' u v)
    (hw' : w'.analyzer.ledger = known.ledger)
    (hsource : Source layout u ns s.path s.forms s.requires)
    (hm : (compile (some s.path) Namespace.user s.forms).run.run u.analyzer = (.ok m, a))
    (ha : a.ledger.Within known.ledger) (hlasting : Lasting known Namespace.user s.forms u.analyzer) :
    ∃ b, (compile (some s.path) Namespace.user s.forms).run.run v.analyzer = (.ok m, b) := by
  obtain ⟨m', b, hm', habreast, hsame⟩ :=
    compile_repeats (t := known) (some s.path) h.abreast.left h.abreast.right hm
  have hdefines : v.analyzer.ledger.defines = known.ledger.defines := by
    obtain ⟨cs, hcs, hcs'⟩ := h.abreast.changes
    rw [hcs', hw']
    exact Ledger.defines_again rfl (hcs ▸ habreast.within.trans ha)
  obtain ⟨text, -, hread⟩ := hsource.read
  obtain ⟨first, rest, hforms, hh⟩ := hsource.declared
  obtain rfl := hsame (Form.readAll_named hread) (.inr ⟨first, rest, hforms, isNs_of_header hh⟩)
    hdefines ha hlasting
  exact ⟨b, hm'⟩

/-- What is asked for a second time, with the source of one namespace touched in between and nothing
else changed, is found again, and the module that was written for the namespace is written once more, if
every symbol of the source meant at its place the first time what it means with all that was defined by
then. -/
theorem closure_rewrites {seeds front back : List Component} {time now : Int}
    (hc : w.analyzer.Consistent) (hp : Placed layout w) (hout : w.files.Steady layout.output)
    (hsource : Source layout w ns path forms requires)
    (hstale : isStale w.files path (modulePath layout ns) = true)
    (hrun : (closure layout seeds).run.run w = (.ok (.core :: (front ++ c :: back) ++ seeds), w₁))
    (hprovides : c.provides = [ns])
    (hmodule : w₁.files.read (modulePath layout ns) = .ok (.module m))
    (hlasting : Lasting w₁.analyzer Namespace.user forms
      (w.compiling (front.filterMap (·.source))).analyzer)
    (htouch : w₁.files.touch path time now = .ok f) (hnow : w₁.files.now ≤ now)
    (hstale' : isStale f path (modulePath layout ns) = true) :
    ∃ w₂, (closure layout seeds).run.run { w₁ with files := f } =
        (.ok (.core :: (front ++ c :: back) ++ seeds), w₂) ∧
      w₂.files.find? (modulePath layout ns) = some (.file (.module m) now) := by
  obtain ⟨stops, t₁, hruns, hleg, hcomps, hagain⟩ := closure_routes hrun
  rw [List.append_cancel_right_eq, List.cons_inj_right] at hcomps
  obtain ⟨before, ns', s, after, rfl, rfl⟩ := components_split hcomps.symm
  obtain ⟨u, hreaches, u₁, hbuilds, hleaves⟩ := runs_append.mp hruns
  have hpasses : Passes layout before ns' s c after w u u₁ w₁ :=
    ⟨hc, hp, hp.sourced hc hruns hleg, hleg.nodup, hreaches, hbuilds, hleaves⟩
  obtain ⟨hu, hu₁, hafter⟩ := hpasses.onward
  have hw₁ := hu.trans (hu₁.trans hafter)
  obtain rfl : ns' = ns := by
    obtain ⟨-, -, -, -, -, hc', -⟩ := built_module hu.analyzer hbuilds
    rw [hc'] at hprovides
    exact List.singleton_inj.mp hprovides
  obtain ⟨rfl, rfl, rfl⟩ := hpasses.source.unique hsource
  -- The first time.
  obtain ⟨time₁, hfound⟩ := read_ok_iff.mp hmodule
  have hfile : w₁.files.isFile (modulePath layout ns') = true := isFile_iff.mpr ⟨_, _, hfound⟩
  obtain ⟨m', a, hm, ha, hwritten, hreplaceable⟩ := hpasses.writes hout hstale hfile
  cases hfound.symm.trans hwritten
  have hknown : a.ledger.Within w₁.analyzer.ledger := by
    rw [← Analyzer.ledger_of_namespaces ha]
    exact runs_within hu₁.analyzer hleaves
  -- The second time.
  have ht := touches htouch
  have hsources {x p : String} {fs : List Form} {rs : List String} (hs : Source layout w x p fs rs) :
      Source layout w₁ x p fs rs := (hp.source_iff hw₁).mpr hs
  have hbeside : Beside layout w { w₁ with files := f } w { w₁ with files := f } :=
    ⟨hp, (hp.onward hw₁).retimed ht.retimed, ht.cwd.trans hw₁.files.grown.cwd,
      fun _ _ _ _ hs => (hsources hs).retimed ht.retimed, .refl hc hw₁.analyzer⟩
  obtain ⟨v, v₁, w₂, hpasses', hbv⟩ := hpasses.again hbeside fun x s' c' hm =>
    ht.renewable hnow (hsources hsource) hreplaceable (hsources (hpasses.sourced x s' c' hm))
      (built_renewable hp hc hruns hpasses.sourced hm)
  obtain ⟨b, hm'⟩ := hbv.recompiles rfl ((hp.source_iff hu).mpr hsource) hm hknown
    ((hpasses.lasting hm).mpr hlasting)
  obtain ⟨hv, hv₁, hafter'⟩ := hpasses'.onward
  rw [← ht.retimed.isFile] at hfile
  obtain ⟨_, _, hm'', -, hwritten', -⟩ := hpasses'.writes (ht.retimed.steady (hw₁.files.steady hout))
    hstale' ((hv.trans (hv₁.trans hafter')).files.isFile hfile)
  cases hm'.symm.trans hm''
  refine ⟨w₂, hagain _ w₂ (hw₁.files.entries.trans ht.entries) hpasses'.runs, ?_⟩
  rw [hwritten', ht.now]

def Workspace.asking (w : Workspace) (layout : Layout) (names : List String) :
    Except Fault (List Component) × Workspace :=
  (closure layout [.seed names]).run.run w

def Workspace.asked (w : Workspace) : Workspace := (w.asking plain ["a"]).2

def Workspace.touching (w : Workspace) (source : String) (time now : Int) : Workspace :=
  { w with files := (w.files.touch source time now).toOption.getD w.files }

def Workspace.touched (w : Workspace) : Workspace := w.asked.touching "/w/src/a.sumi" 3 4

abbrev Due (w : Workspace) : Prop :=
  w.files.Rooted ∧ (∀ base ∈ ["src", w.library, "out"], ".." ∉ parts (join w.files.cwd base)) ∧
  isAbsolute w.files.cwd = true ∧ place w.files.cwd "out" ≠ [] ∧
  (∃ found ∈ source? plain w "a", found.1 = "/w/src/a.sumi") ∧
  isStale w.files "/w/src/a.sumi" "out/a.py" = true ∧
  (w.asked.files.touch "/w/src/a.sumi" 3 4).toOption.isSome = true ∧
  isStale w.touched.files "/w/src/a.sumi" "out/a.py" = true

theorem Due.placed (h : Due w) : Placed plain w ∧ w.files.Steady plain.output := by
  obtain ⟨hrooted, hlevel, habsolute, hroot, -⟩ := h
  refine ⟨⟨⟨hrooted, fun base hb => .inl (hlevel base ?_)⟩, habsolute, hroot⟩,
    .inl (hlevel "out" (by simp))⟩
  have hb : base = "src" ∨ base = w.library := by simpa [plain] using hb
  rcases hb with rfl | rfl <;> simp

theorem Due.touch (h : Due w) : w.asked.files.touch "/w/src/a.sumi" 3 4 = .ok w.touched.files := by
  obtain ⟨-, -, -, -, -, -, htouch, -⟩ := h
  unfold Workspace.touched Workspace.touching
  cases hf : w.asked.files.touch "/w/src/a.sumi" 3 4 with
  | ok f => rfl
  | error e =>
      rw [hf] at htouch
      cases htouch

def calm : Workspace :=
  .ofSources [[], ["src"]]
    [(["src", "a.sumi"], "(ns a (:require b))\n(def x (inc b/y))\n(def z (inc x))"),
      (["src", "b.sumi"], "(ns b)\n(def y 1)")]

def hasty : Workspace :=
  .ofSources [[], ["src"]] [(["src", "a.sumi"], "(ns a)\n(inc 1)\n(def inc 5)")]

def described (ns : String) (requires : List String) : Component where
  kind := .source
  provides := [ns]
  requires := requires
  url := some ("file:///w/out/" ++ ns ++ ".py")
  source := some ("/w/src/" ++ ns ++ ".sumi")

def isModule : Content → Bool
  | .text _ _ | .received _ => false
  | .module _ => true

theorem calm_checked : Due calm ∧
    ((closure plain [.seed ["a"]]).run.run calm).1.toOption =
      some [.core, described "b" [], described "a" ["b"], .seed ["a"]] ∧
    (∃ content ∈ (calm.asked.files.read "out/a.py").toOption, isModule content = true) ∧
    ∀ found ∈ source? plain calm "a", Lasting calm.asked.analyzer Namespace.user found.2.1
      (calm.compiling ["/w/src/b.sumi"]).analyzer := by
  decide +kernel

theorem calm_rewritten : ∃ m w', calm.asked.files.read "out/a.py" = .ok (.module m) ∧
    (closure plain [.seed ["a"]]).run.run { calm.asked with files := calm.touched.files } =
      (.ok [.core, described "b" [], described "a" ["b"], .seed ["a"]], w') ∧
    w'.files.find? "out/a.py" = some (.file (.module m) 4) := by
  obtain ⟨hdue, hcomps, ⟨content, hcontent, hm⟩, hlasting⟩ := calm_checked
  obtain ⟨hplaced, hout⟩ := hdue.placed
  have htouch := hdue.touch
  obtain ⟨-, -, -, -, ⟨⟨_, forms, requires⟩, hfound, rfl⟩, hstale, -, hstale'⟩ := hdue
  have hread : calm.asked.files.read "out/a.py" = .ok content := toOption_eq_some.mp hcontent
  cases content with
  | text _ | received _ => cases hm
  | module m =>
      have hrun : (closure plain [.seed ["a"]]).run.run calm =
          (.ok (.core :: ([described "b" []] ++ described "a" ["b"] :: []) ++ [.seed ["a"]]),
            calm.asked) :=
        Prod.ext (toOption_eq_some.mp hcomps) rfl
      have hlater := closure_rewrites (Analyzer.ofLibrary_consistent _ _) hplaced hout
        (source?_eq_some.mp hfound) hstale hrun rfl hread (hlasting _ hfound) htouch (by decide +kernel)
        hstale'
      obtain ⟨w', hagain, hwritten⟩ := hlater
      exact ⟨m, w', hread, hagain, hwritten⟩

/-- A source is to be compiled in `w`, and once more in `w'`, but the calls from there do not write the
module of its namespace twice with one text. -/
abbrev Wavers (layout : Layout) (names : List String) (ns source : String) (w w' : Workspace) : Prop :=
  isStale w.files source (modulePath layout ns) = true ∧ (w.asking layout names).1.isOk = true ∧
  isStale w'.files source (modulePath layout ns) = true ∧
  ¬ ((w'.asking layout names).1.isOk = true ∧
    (w'.asking layout names).2.files.time? (modulePath layout ns) = some w'.files.now ∧
    ((w'.asking layout names).2.files.readText (modulePath layout ns)).toOption =
      ((w.asking layout names).2.files.readText (modulePath layout ns)).toOption)

def hastyText (ns : String) : String :=
  "# Compiled by sumi from /w/src/a.sumi\nsumi_provide('a', [])\n(sumi_ns('" ++ ns ++
    "').inc)(1)\nsumi_def('a', 'inc', 5)\n"

def backward : Workspace :=
  .ofSources [[], ["src"], ["out"]] [(["src", "a.sumi"], "(ns a)"), (["src", "b.sumi"], "(ns b)"),
    (["out", "a.py"], "# An old module of a")]

def roundabout : Layout := ⟨["src"], "x/../out"⟩

/-- By the second time, a name means a definition that had not been reached the first time. -/
theorem hasty_wavers :
    Placed plain hasty ∧ (∃ forms requires, Source plain hasty "a" "/w/src/a.sumi" forms requires) ∧
    Wavers plain ["a"] "a" "/w/src/a.sumi" hasty hasty.touched ∧
    hasty.asked.files.readText "out/a.py" = .ok (hastyText "sumi.core") ∧
    hasty.touched.asked.files.readText "out/a.py" = .ok (hastyText "a") := by
  have hchecked : Due hasty ∧ Wavers plain ["a"] "a" "/w/src/a.sumi" hasty hasty.touched ∧
      (hasty.asked.files.readText "out/a.py").toOption = some (hastyText "sumi.core") ∧
      (hasty.touched.asked.files.readText "out/a.py").toOption = some (hastyText "a") := by
    decide +kernel
  obtain ⟨hdue, hwavers, hfirst, hsecond⟩ := hchecked
  have hplaced := hdue.placed.1
  obtain ⟨-, -, -, -, ⟨⟨_, forms, requires⟩, hfound, rfl⟩, -⟩ := hdue
  exact ⟨hplaced, ⟨forms, requires, source?_eq_some.mp hfound⟩, hwavers, toOption_eq_some.mp hfirst,
    toOption_eq_some.mp hsecond⟩

/-- A name may mean a definition by the second time that had not been reached the first time. Where paths
go up, another source may be found by then, or a module that was not found before. In the root, a module
may be older than its source as the module of another namespace took its place. -/
theorem hasty_not_rewritten :
    hasty.analyzer.Consistent ∧ Placed plain hasty ∧
    (∃ forms requires, Source plain hasty "a" "/w/src/a.sumi" forms requires) ∧
    Wavers plain ["a"] "a" "/w/src/a.sumi" hasty hasty.touched ∧
    hasty.asked.files.readText "out/a.py" = .ok (hastyText "sumi.core") ∧
    hasty.touched.asked.files.readText "out/a.py" = .ok (hastyText "a") ∧
    Wavers upward ["c"] "c" "/w/src/c.sumi" lured
      ((lured.asking upward ["c"]).2.touching "/w/src/c.sumi" 3 4) ∧
    Wavers roundabout ["b", "a"] "a" "/w/src/a.sumi" backward
      ((backward.asking roundabout ["b", "a"]).2.touching "/w/src/a.sumi" 3 4) ∧
    Wavers rootward [".", "/"] "/" "/.sumi" crowded
      ((crowded.asking rootward [".", "/"]).2.touching "/.sumi" 6 7) := by
  have hothers : Wavers upward ["c"] "c" "/w/src/c.sumi" lured
        ((lured.asking upward ["c"]).2.touching "/w/src/c.sumi" 3 4) ∧
      Wavers roundabout ["b", "a"] "a" "/w/src/a.sumi" backward
        ((backward.asking roundabout ["b", "a"]).2.touching "/w/src/a.sumi" 3 4) ∧
      Wavers rootward [".", "/"] "/" "/.sumi" crowded
        ((crowded.asking rootward [".", "/"]).2.touching "/.sumi" 6 7) := by
    decide +kernel
  obtain ⟨hplaced, hsource, hwavers, hfirst, hsecond⟩ := hasty_wavers
  exact ⟨Analyzer.ofLibrary_consistent _ _, hplaced, hsource, hwavers, hfirst, hsecond, hothers⟩

end Project

end Sumi
