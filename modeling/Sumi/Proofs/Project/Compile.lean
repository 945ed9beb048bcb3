import Mathlib.Data.List.Find
import Sumi.Proofs.Analysis.Header
import Sumi.Proofs.Project.Room
import Sumi.Proofs.Project.Work

namespace Sumi.Project

namespace Work

variable {α : Type} {w : Workspace}

def ReadsAs (f : Files) (path : String) (forms : List Form) : Prop :=
  ∃ text, f.readText path = .ok text ∧ Form.readAll text = .ok forms

theorem ReadsAs.unique {f : Files} {path : String} {forms forms' : List Form}
    (h : ReadsAs f path forms) (h' : ReadsAs f path forms') : forms = forms' := by
  obtain ⟨text, ht, hf⟩ := h
  obtain ⟨text', ht', hf'⟩ := h'
  cases ht.symm.trans ht'
  exact Except.ok.inj (hf.symm.trans hf')

theorem leads_formsOf {path : String} :
    Leads (formsOf path) w (fun forms w' => ReadsAs w.files path forms ∧ w = w')
      (fun _ w' => (∀ forms, ¬ ReadsAs w.files path forms) ∧ w = w') := by
  unfold formsOf
  apply leads_ofFiles.bind
  · rintro text _ ⟨ht, rfl⟩
    apply leads_readForms.mono
    · rintro forms _ ⟨hf, rfl⟩
      exact ⟨⟨text, ht, hf⟩, rfl⟩
    · rintro e _ ⟨hf, rfl⟩
      refine ⟨?_, rfl⟩
      rintro forms ⟨text', ht', hf'⟩
      cases ht.symm.trans ht'
      exact hf forms hf'
  · rintro e _ ⟨ht, rfl⟩
    refine ⟨?_, rfl⟩
    rintro forms ⟨text, ht', -⟩
    exact ht text ht'

end Work

open Work

structure Workspace.Same (w w' : Workspace) : Prop where
  files : w'.files = w.files
  library : w'.library = w.library
  analyzer : w'.analyzer.Consistent

theorem Workspace.Same.trans {w w' w'' : Workspace} (h : w.Same w') (h' : w'.Same w'') : w.Same w'' :=
  ⟨h'.files.trans h.files, h'.library.trans h.library, h'.analyzer⟩

theorem leads_analyze_same {α : Type} {m : Analysis α} (hm : ∃ R, Analysis.Alike R m m)
    {w : Workspace} (hw : w.analyzer.Consistent) :
    Leads (Work.analyze m) w
      (fun a w' => (∃ b, m.run.run w.analyzer = (.ok a, b) ∧
        w'.analyzer.namespaces = b.namespaces) ∧ w.Same w')
      (fun e w' => (∃ b c, m.run.run w.analyzer = (.error c, b) ∧ e = .analysis c) ∧ w.Same w') := by
  obtain ⟨R, hm⟩ := hm
  have hc := hm.consistent hw
  apply leads_analyze.mpr
  apply leads_self.mono
  · intro a b hrun
    rw [hrun] at hc
    exact ⟨⟨b, hrun, rfl⟩, rfl, rfl, hc⟩
  · intro c b hrun
    rw [hrun] at hc
    exact ⟨⟨b, c, hrun, rfl⟩, rfl, rfl, hc⟩

/-- The source of a namespace: a file on the source paths that reads as forms, of which the first
one declares the namespace. -/
structure Source (layout : Layout) (w : Workspace) (ns path : String) (forms : List Form)
    (requires : List String) : Prop where
  found : search w layout (sourceName ns) = some path
  read : ReadsAs w.files path forms
  declared : ∃ first rest, forms = first :: rest ∧ Analysis.header? first = some (ns, requires)

variable {layout : Layout} {w w₀ : Workspace} {ns path : String} {forms : List Form}
  {requires : List String}

theorem Source.unique (h : Source layout w ns path forms requires) {path' : String}
    {forms' : List Form} {requires' : List String}
    (h' : Source layout w ns path' forms' requires') :
    path' = path ∧ forms' = forms ∧ requires' = requires := by
  cases h.found.symm.trans h'.found
  obtain ⟨first, rest, rfl, hh⟩ := h.declared
  obtain ⟨first', rest', rfl, hh'⟩ := h'.declared
  cases h.read.unique h'.read
  cases hh.symm.trans hh'
  exact ⟨rfl, rfl, rfl⟩

/-- The forms of a source tell what it is the source of. -/
theorem Source.eq_of_forms (h : Source layout w ns path forms requires) {other path' : String}
    {requires' : List String} (h' : Source layout w other path' forms requires') : ns = other := by
  obtain ⟨first, rest, rfl, hh⟩ := h.declared
  obtain ⟨first', rest', he, hh'⟩ := h'.declared
  cases he
  cases hh.symm.trans hh'
  rfl

theorem toOption_eq_some {ε α : Type} {x : Except ε α} {a : α} : x.toOption = some a ↔ x = .ok a := by
  cases x with
  | error e => simp [Except.toOption]
  | ok b => simp [Except.toOption]

def source? (layout : Layout) (w : Workspace) (ns : String) :
    Option (String × List Form × List String) := do
  let path ← search w layout (sourceName ns)
  let text ← (w.files.readText path).toOption
  let forms ← (Form.readAll text).toOption
  let (name, requires) ← Analysis.header? (← forms.head?)
  if name = ns then some (path, forms, requires) else none

theorem source?_eq_some :
    source? layout w ns = some (path, forms, requires) ↔ Source layout w ns path forms requires := by
  simp only [source?, Option.bind_eq_bind, Option.bind_eq_some_iff, toOption_eq_some]
  constructor
  · rintro ⟨path', hp, text, ht, forms', hf, first, hh, ⟨name, requires'⟩, hd, he⟩
    split at he
    · next hname =>
        cases he
        obtain ⟨rest, rfl⟩ := List.head?_eq_some_iff.mp hh
        exact ⟨hp, ⟨text, ht, hf⟩, first, rest, rfl, hname ▸ hd⟩
    · cases he
  · rintro ⟨hp, ⟨text, ht, hf⟩, first, rest, rfl, hd⟩
    exact ⟨path, hp, text, ht, _, hf, first, rfl, _, hd, if_pos rfl⟩

theorem leads_sourceOf :
    Leads (sourceOf layout ns) w
      (fun path w' => search w layout (sourceName ns) = some path ∧ w = w')
      (fun _ w' => search w layout (sourceName ns) = none ∧ w = w') := by
  apply leads_bind.mpr
  apply leads_get.mpr
  cases search w layout (sourceName ns) with
  | none => exact leads_throw.mpr ⟨rfl, rfl⟩
  | some path => exact leads_pure.mpr ⟨rfl, rfl⟩

def openForms (ns path : String) : List Form → Work Opened
  | [] => throw (.project (.noHeader path ns))
  | first :: rest => do
      if !first.isNs then throw (.project (.noHeader path ns))
      let header ← Work.analyze (Analysis.topLevel Namespace.user first)
      let found := header.declares?.getD ""
      if found != ns then throw (.project (.otherHeader found path ns header.line?))
      return ⟨path, first :: rest, ((← get).analyzer.namespaceOf ns).dependencies⟩

theorem openSource_eq (layout : Layout) (ns : String) :
    openSource layout ns = (do
      let path ← sourceOf layout ns
      let forms ← formsOf path
      openForms ns path forms) := by
  unfold openSource
  congr! 4 with path forms
  cases forms <;> rfl

/-- The forms make a source of the namespace if their first one declares it. -/
theorem openForms_leads (hw : w.analyzer.Consistent) :
    Leads (openForms ns path forms) w
      (fun s w' => (∃ first rest, forms = first :: rest ∧
        Analysis.header? first = some (ns, s.requires)) ∧ s.path = path ∧ s.forms = forms ∧ w.Same w')
      (fun _ w' => (∀ first rest requires, forms = first :: rest →
        Analysis.header? first ≠ some (ns, requires)) ∧ w.Same w') := by
  have hself : w.Same w := ⟨rfl, rfl, hw⟩
  cases forms with
  | nil => exact leads_throw.mpr ⟨nofun, hself⟩
  | cons first rest =>
      unfold openForms
      dsimp only
      cases hns : first.isNs with
      | false =>
          rw [if_pos (by decide)]
          apply leads_bind.mpr
          refine leads_throw.mpr ⟨?_, hself⟩
          rintro _ _ requires ⟨⟩ hh
          rw [Analysis.isNs_of_header hh] at hns
          cases hns
      | true =>
          rw [if_neg (by decide)]
          apply (leads_analyze_same ⟨_, Analysis.topLevel_alike _ first⟩ hw).bind
          · rintro node w' ⟨⟨b, hrun, hb⟩, hsame⟩
            obtain ⟨name, hd, hh⟩ := Analysis.header_of_topLevel hw hns hrun
            rw [hd, Option.getD_some]
            by_cases hname : name = ns
            · subst hname
              have hdeps : (w'.analyzer.namespaceOf name).dependencies =
                  (b.namespaceOf name).dependencies := by
                rw [Analyzer.namespaceOf, hb]
                rfl
              rw [if_neg (by simp)]
              apply leads_bind.mpr
              apply leads_get.mpr
              exact leads_pure.mpr ⟨⟨first, rest, rfl, by rw [hdeps]; exact hh⟩, rfl, rfl, hsame⟩
            · rw [if_pos (by simpa using hname)]
              apply leads_bind.mpr
              refine leads_throw.mpr ⟨?_, hsame⟩
              rintro _ _ requires ⟨⟩ hh'
              cases hh.symm.trans hh'
              exact hname rfl
          · rintro e w' ⟨⟨b, c, hrun, -⟩, hsame⟩
            refine ⟨?_, hsame⟩
            rintro _ _ requires ⟨⟩ hh
            obtain ⟨node, b', hok, -⟩ := Analysis.topLevel_header hw hh
            cases hrun.symm.trans hok

/-- Opening a namespace gives its source, and fails only where it has none. -/
theorem openSource_leads (hw : w.analyzer.Consistent) :
    Leads (openSource layout ns) w
      (fun s w' => Source layout w ns s.path s.forms s.requires ∧ w.Same w')
      (fun _ w' => (∀ path forms requires, ¬ Source layout w ns path forms requires) ∧
        w.Same w') := by
  have hself : w.Same w := ⟨rfl, rfl, hw⟩
  rw [openSource_eq]
  apply leads_sourceOf.bind
  · rintro path _ ⟨hs, rfl⟩
    apply leads_formsOf.bind
    · rintro forms _ ⟨hf, rfl⟩
      apply (openForms_leads hw).mono
      · rintro s w' ⟨hh, rfl, rfl, hsame⟩
        exact ⟨⟨hs, hf, hh⟩, hsame⟩
      · rintro e w' ⟨hno, hsame⟩
        refine ⟨fun path' forms' requires h => ?_, hsame⟩
        cases hs.symm.trans h.found
        cases hf.unique h.read
        obtain ⟨first, rest, rfl, hh⟩ := h.declared
        exact hno first rest requires rfl hh
    · rintro e _ ⟨hf, rfl⟩
      refine ⟨fun path' forms requires h => ?_, hself⟩
      cases hs.symm.trans h.found
      exact hf forms h.read
  · rintro e _ ⟨hs, rfl⟩
    refine ⟨fun path forms requires h => ?_, hself⟩
    cases hs.symm.trans h.found

theorem openSource_ran {s : Opened} {w' : Workspace}
    (h : (openSource layout ns).run.run w = (.ok s, w')) :
    ∃ first rest node, s.forms = first :: rest ∧
      (Work.analyze (Analysis.topLevel Namespace.user first)).run.run w = (.ok node, w') := by
  rw [openSource_eq] at h
  obtain ⟨path, _, hp, h⟩ := run_bind_ok_iff.mp h
  obtain ⟨-, rfl⟩ := (leads_of_ok hp).mp leads_sourceOf
  obtain ⟨forms, _, hf, h⟩ := run_bind_ok_iff.mp h
  obtain ⟨-, rfl⟩ := (leads_of_ok hf).mp leads_formsOf
  cases forms with
  | nil => cases h
  | cons first rest =>
      unfold openForms at h
      dsimp only at h
      split at h
      · cases h
      · obtain ⟨node, w₁, hrun, h⟩ := run_bind_ok_iff.mp h
        split at h
        · cases h
        · cases h
          exact ⟨first, rest, node, rfl, hrun⟩

structure Workspace.Later (w₀ w : Workspace) : Prop where
  grown : w₀.files.Extends w.files
  library : w.library = w₀.library
  analyzer : w.analyzer.Consistent

structure Settled (layout : Layout) (w : Workspace) : Prop where
  rooted : w.files.Rooted
  steady : ∀ base ∈ layout.sources ++ [w.library], w.files.Steady base

theorem search_later (hs : Settled layout w₀) (h : w₀.Later w) :
    search w layout (sourceName ns) = search w₀ layout (sourceName ns) := by
  unfold search
  have hsame (base : String) (hb : base ∈ layout.sources ++ [w₀.library]) :=
    h.grown.isFile hs.rooted (hs.steady base hb) (sourceName_ends ns) (up_not_mem_sourceName ns)
  have hfind : ((layout.sources ++ [w₀.library]).find? fun base =>
      w.files.isFile (Path.join base (sourceName ns))) =
        (layout.sources ++ [w₀.library]).find? fun base =>
          w₀.files.isFile (Path.join base (sourceName ns)) :=
    List.find?_congr hsame
  rw [h.library, h.grown.cwd, List.find?_map, List.find?_map]
  unfold Function.comp
  rw [hfind]

theorem search_ends (h : search w layout (sourceName ns) = some path) :
    Path.Ends ".sumi" path := by
  obtain ⟨candidate, hc, rfl⟩ := Option.map_eq_some_iff.mp h
  obtain ⟨base, -, rfl⟩ := List.mem_map.mp (List.mem_of_find?_eq_some hc)
  exact ((sourceName_ends ns).join base).absolute Path.extension_source _

theorem Source.later (h : Source layout w₀ ns path forms requires) (hs : Settled layout w₀)
    (hw : w₀.Later w) : Source layout w ns path forms requires := by
  obtain ⟨text, ht, hf⟩ := h.read
  refine ⟨(search_later hs hw).trans h.found, ⟨text, ?_, hf⟩, h.declared⟩
  exact hw.grown.readText (search_ends h.found) ht

/-- The tree in which a module has been written, unless it was there and not older than its
source. -/
structure Written (layout : Layout) (ns source : String) (m : Module) (f g : Files) : Prop where
  stale : isStale f source (modulePath layout ns) = true →
    ∃ k, housing layout f ns = .ok k ∧ k.write (modulePath layout ns) (.module m) = .ok g
  fresh : ¬ isStale f source (modulePath layout ns) = true → g = f

def Unwritten (layout : Layout) (ns : String) (m : Module) (f g : Files) : Prop :=
  g = f ∧ (∀ k, housing layout f ns ≠ .ok k) ∨
    housing layout f ns = .ok g ∧ ∀ k, g.write (modulePath layout ns) (.module m) ≠ .ok k

theorem writeModule_leads {source : String} {m : Module} :
    Leads (writeModule ns source (modulePath layout ns) m) w
      (fun _ w' => Written layout ns source m w.files w'.files ∧ w'.library = w.library ∧
        w'.analyzer = w.analyzer)
      (fun _ w' => Unwritten layout ns m w.files w'.files ∧ w'.library = w.library ∧
        w'.analyzer = w.analyzer) := by
  unfold writeModule
  apply leads_bind.mpr
  apply leads_get.mpr
  split
  · next hstale =>
    apply leads_bind.mpr
    apply leads_modify.mpr
    apply leads_changeFiles.bind
    · rintro _ _ ⟨k, hk, rfl⟩
      apply leads_changeFiles.mono
      · rintro _ _ ⟨g, hg, rfl⟩
        exact ⟨⟨fun _ => ⟨k, hk, hg⟩, fun hfresh => absurd hstale hfresh⟩, rfl, rfl⟩
      · rintro e _ ⟨hg, rfl⟩
        exact ⟨.inr ⟨hk, hg⟩, rfl, rfl⟩
    · rintro e _ ⟨hk, rfl⟩
      exact ⟨.inl ⟨rfl, hk⟩, rfl, rfl⟩
  · next hfresh =>
    exact leads_pure.mpr ⟨⟨fun hstale => absurd hstale hfresh, fun _ => rfl⟩, rfl, rfl⟩

theorem build_ran {s : Opened} {c : Component} {w' : Workspace}
    (h : (build layout ns s).run.run w = (.ok c, w')) : ∃ m w₁,
      (Work.analyze (Analysis.compile (some s.path) Namespace.user s.forms)).run.run w = (.ok m, w₁) ∧
      (writeModule ns s.path (modulePath layout ns) m).run.run w₁ = (.ok (), w') := by
  obtain ⟨m, w₁, hm, h⟩ := run_bind_ok_iff.mp h
  obtain ⟨_, w₂, hwrite, h⟩ := run_bind_ok_iff.mp h
  cases h
  exact ⟨m, w₁, hm, hwrite⟩

/-- Building an opened source compiles and writes it. -/
theorem build_leads (hw : w.analyzer.Consistent) {s : Opened} :
    Leads (build layout ns s) w
      (fun c w' => ∃ m a,
        (Analysis.compile (some s.path) Namespace.user s.forms).run.run w.analyzer = (.ok m, a) ∧
        Written layout ns s.path m w.files w'.files ∧
        c = { kind := .source, provides := [ns], requires := s.requires,
              url := some (Url.ofPath (Path.absolute w'.files.cwd (modulePath layout ns))),
              source := some s.path } ∧
        w'.library = w.library ∧ w'.analyzer.Consistent)
      (fun _ w' => w'.library = w.library ∧ w'.analyzer.Consistent ∧
        ((∃ e a, (Analysis.compile (some s.path) Namespace.user s.forms).run.run w.analyzer =
            (.error e, a)) ∧ w'.files = w.files ∨
          ∃ m a, (Analysis.compile (some s.path) Namespace.user s.forms).run.run w.analyzer =
            (.ok m, a) ∧ Unwritten layout ns m w.files w'.files)) := by
  apply (leads_analyze_same ⟨_, Analysis.compile_alike _ _ s.forms⟩ hw).bind
  · rintro m w₁ ⟨⟨a, hm, -⟩, hsame⟩
    apply writeModule_leads.bind
    · rintro _ w₂ ⟨hwritten, hl, ha⟩
      apply leads_bind.mpr
      apply leads_get.mpr
      apply leads_pure.mpr
      rw [hsame.files] at hwritten
      exact ⟨m, a, hm, hwritten, rfl, hl.trans hsame.library, ha ▸ hsame.analyzer⟩
    · rintro e w₂ ⟨hun, hl, ha⟩
      rw [hsame.files] at hun
      exact ⟨hl.trans hsame.library, ha ▸ hsame.analyzer, .inr ⟨m, a, hm, hun⟩⟩
  · rintro e w₁ ⟨⟨a, c, hm, -⟩, hsame⟩
    exact ⟨hsame.library, hsame.analyzer, .inl ⟨⟨c, a, hm⟩, hsame.files⟩⟩

end Sumi.Project
