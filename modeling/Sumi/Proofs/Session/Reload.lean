import Sumi.Proofs.Project.Retrace
import Sumi.Proofs.Session.Closed

namespace Sumi

inductive Console.Quiet (c : Console) : Console → Prop
  | same : Quiet c c
  | warn {d : Console} (w : Warning) : Quiet c d → Quiet c (d.warn w)
  | debug {d : Console} (text : String) : Quiet c d → Quiet c (d.debug text)

theorem Console.Quiet.trans {c d e : Console} (h : c.Quiet d) (h' : d.Quiet e) : c.Quiet e := by
  induction h' with
  | same => exact h
  | warn w _ ih => exact ih.warn w
  | debug text _ ih => exact ih.debug text

theorem Console.Quiet.warnings {c d : Console} (h : c.Quiet d) (ws : List Warning) :
    c.Quiet (ws.foldl Console.warn d) := by
  induction ws generalizing d with
  | nil => exact h
  | cons w ws ih => exact ih (h.warn w)

namespace Project

open Work

variable {layout : Layout} {w w' : Workspace} {stop : Stop} {stops : List Stop}

theorem analyze_quiet {α : Type} (m : Analysis α) (w : Workspace) :
    Leads (Work.analyze m) w (fun _ w' => w.console.Quiet w'.console) (fun _ _ => True) := by
  apply leads_analyze.mpr
  apply leads_any.mono
  · exact fun _ a _ => Console.Quiet.same.warnings a.warnings.reverse
  · exact fun _ _ _ => trivial

theorem writeModule_quiet (ns source target : String) (m : Module) (w : Workspace) :
    Leads (writeModule ns source target m) w (fun _ w' => w.console.Quiet w'.console)
      (fun _ _ => True) := by
  unfold writeModule
  apply leads_bind.mpr
  apply leads_get.mpr
  split
  · apply leads_bind.mpr
    apply leads_modify.mpr
    apply leads_changeFiles.bind
    · rintro _ _ ⟨k, -, rfl⟩
      apply leads_changeFiles.mono
      · rintro _ _ ⟨g, -, rfl⟩
        exact Console.Quiet.same.debug _
      · exact fun _ _ _ => trivial
    · exact fun _ _ _ => trivial
  · exact leads_pure.mpr .same

theorem takes_quiet (h : stop.Takes layout w w') : w.console.Quiet w'.console := by
  cases stop with
  | opened ns s =>
      obtain ⟨_, _, _, -, hrun⟩ := openSource_ran h
      exact (leads_of_ok hrun).mp (analyze_quiet _ w)
  | built ns s c =>
      obtain ⟨m, w₁, hrun, hwrite⟩ := build_ran h
      have hw₁ := (leads_of_ok hrun).mp (analyze_quiet _ w)
      exact hw₁.trans ((leads_of_ok hwrite).mp (writeModule_quiet ns s.path _ m w₁))

theorem runs_quiet (h : Runs layout stops w w') : w.console.Quiet w'.console := by
  induction stops generalizing w with
  | nil =>
      cases h
      exact .same
  | cons stop stops ih =>
      obtain ⟨v, hv, hrest⟩ := h
      exact (takes_quiet hv).trans (ih hrest)

def Component.Loaded (names : List String) (c : Component) : Prop :=
  c.kind = .source → c.provides ≠ [Namespace.core] → ∀ ns ∈ c.provides, ns ∈ names

theorem Component.Loaded.mono {names more : List String} {c : Component} (h : c.Loaded names)
    (hm : names ⊆ more) : c.Loaded more :=
  fun hk hp ns hns => hm (h hk hp ns hns)

end Project

namespace Session

open Project

variable {s t t' q : Session (Option Engine × List Deed)} {c : Component} {comps : List Component}
  {ns : String} {names : List String} {w e : Workspace}

def loaded (s : Session (Option Engine × List Deed)) : List String :=
  (s.host.1.map Engine.loaded).getD []

theorem loaded_of_engine {engine : Engine} (h : s.host.1 = some engine) : s.loaded = engine.loaded := by
  rw [loaded, h]
  rfl

/-- `t` is `s` but for the console, and for the host, which has unloaded nothing. -/
structure Served (s t : Session (Option Engine × List Deed)) : Prop where
  same : t = { s with host := t.host, workspace := t.workspace }
  workspace : ∃ c, t.workspace = { s.workspace with console := c }
  loaded : s.loaded ⊆ t.loaded

theorem Served.refl (s : Session (Option Engine × List Deed)) : Served s s :=
  ⟨rfl, ⟨_, rfl⟩, List.Subset.refl _⟩

theorem Served.trans (h : Served s t) (h' : Served t t') : Served s t' where
  same := by
    rw [h'.same, h.same]
  workspace := by
    obtain ⟨c, hc⟩ := h.workspace
    obtain ⟨d, hd⟩ := h'.workspace
    exact ⟨d, by rw [hd, hc]⟩
  loaded := List.Subset.trans h.loaded h'.loaded

theorem loadComponent_ok (h : (loadComponent Host.watched c).run.run t = (.ok (), t')) :
    Served t t' ∧ c.Loaded t'.loaded := by
  unfold loadComponent at h
  split at h
  · next hload =>
    obtain ⟨_, _, hget, h⟩ := run_bind_ok_iff.mp h
    cases hget
    rw [ask_run, Prod.mk.injEq] at h
    obtain ⟨hok, rfl⟩ := h
    rcases hhost : t.host with ⟨_ | engine, deeds⟩
    · rw [hhost] at hok
      cases hok
    · rw [hhost] at hok
      have hloaded : t.loaded = engine.loaded := loaded_of_engine (by rw [hhost])
      rcases Host.watched_load t.workspace.files c.provides (c.url.getD "") engine deeds with
        ⟨hall, hl⟩ | ⟨f, hl⟩ | ⟨content, hno, -, hstate, hcompletes⟩
      · rw [hl]
        refine ⟨⟨rfl, ⟨_, rfl⟩, ?_⟩, fun _ _ => hall⟩
        rw [hloaded]
        exact List.Subset.refl _
      · rw [hl] at hok
        cases hok
      · have hdue : (Deed.load engine c.provides (c.url.getD "") content).Due := hno
        refine ⟨⟨rfl, ⟨_, rfl⟩, fun x hx => ?_⟩, fun _ _ x hx => ?_⟩
        · rw [hloaded] at hx
          rw [loaded, tell, hstate]
          exact (Deed.loaded_iff hdue).mpr (.inl hx)
        · rw [loaded, tell, hstate]
          exact (Deed.loaded_iff hdue).mpr (.inr (hcompletes _ hok x hx))
  · next hno =>
    cases h
    refine ⟨.refl t, fun hk hp => ?_⟩
    simp [hk, hp] at hno

theorem components_ok (h : (comps.forM (loadComponent Host.watched)).run.run t = (.ok (), t')) :
    Served t t' ∧ ∀ c ∈ comps, c.Loaded t'.loaded := by
  induction comps generalizing t with
  | nil =>
      cases h
      exact ⟨.refl _, by simp⟩
  | cons c comps ih =>
      obtain ⟨_, t₁, hfirst, hrest⟩ := run_bind_ok_iff.mp h
      obtain ⟨hserved, hc⟩ := loadComponent_ok hfirst
      obtain ⟨hserved', hcomps⟩ := ih hrest
      exact ⟨hserved.trans hserved', List.forall_mem_cons.mpr ⟨hc.mono hserved'.loaded, hcomps⟩⟩

theorem loadNamespace_ok_iff : (loadNamespace Host.watched ns).run.run t = (.ok (), t') ↔
    ∃ comps w, (closure t.layout [.seed [ns]]).run.run t.workspace = (.ok comps, w) ∧
      (comps.forM (loadComponent Host.watched)).run.run { t with workspace := w } = (.ok (), t') := by
  rw [loadNamespace_eq, run_bind_ok_iff]
  constructor
  · rintro ⟨_, _, hget, h⟩
    cases hget
    obtain ⟨comps, t₁, hwork, h⟩ := run_bind_ok_iff.mp h
    rw [work_run, Prod.mk.injEq] at hwork
    obtain ⟨hok, rfl⟩ := hwork
    exact ⟨comps, _, Prod.ext hok rfl, h⟩
  · rintro ⟨comps, w, hclosure, h⟩
    refine ⟨t, t, rfl, run_bind_ok_iff.mpr ⟨comps, _, ?_, h⟩⟩
    rw [work_run, hclosure]

structure Advances (s t : Session (Option Engine × List Deed)) : Prop where
  same : t = { s with host := t.host, workspace := t.workspace }
  workspace : s.workspace.Onward t.workspace
  loaded : s.loaded ⊆ t.loaded
  renewable : ∀ ns path forms requires, Project.Source s.layout s.workspace ns path forms requires →
    Renewable s.layout ns path s.workspace.files → Renewable s.layout ns path t.workspace.files

theorem Advances.layout (h : Advances s t) : t.layout = s.layout := by
  rw [h.same]

theorem Advances.trans (hp : Placed s.layout s.workspace) (h : Advances s t) (h' : Advances t t') :
    Advances s t' where
  same := by rw [h'.same, h.same]
  workspace := h.workspace.trans h'.workspace
  loaded := List.Subset.trans h.loaded h'.loaded
  renewable ns path forms requires hs hr := by
    have hlater := h'.renewable ns path forms requires
    rw [h.layout] at hlater
    exact hlater ((hp.source_iff h.workspace).mpr hs) (h.renewable ns path forms requires hs hr)

theorem Served.advances (h : Served s t) (hc : s.workspace.analyzer.Consistent) : Advances s t where
  same := h.same
  workspace := by
    obtain ⟨c, hw⟩ := h.workspace
    rw [hw]
    exact ⟨.refl _, rfl, hc⟩
  loaded := h.loaded
  renewable ns path forms requires _ hr := by
    obtain ⟨c, hw⟩ := h.workspace
    rw [hw]
    exact hr

theorem Advances.placed (h : Advances s t) (hp : Placed s.layout s.workspace) :
    Placed t.layout t.workspace := by
  rw [h.layout]
  exact hp.onward h.workspace

/-- What is loaded with a namespace was found by a tour, and can be found by it again. -/
structure Tracked (ns : String) (t : Session (Option Engine × List Deed)) (stops : List Stop)
    (comps : List Component) (w : Workspace) : Prop where
  runs : Runs t.layout stops t.workspace w
  sourced : Sourced t.layout t.workspace stops
  again : ∀ v v', t.workspace.files.entries.length ≤ v.files.entries.length →
    Runs t.layout stops v v' → (closure t.layout [.seed [ns]]).run.run v = (.ok comps, v')

theorem loadNamespace_tracked (hp : Placed t.layout t.workspace)
    (hc : t.workspace.analyzer.Consistent)
    (h : (loadNamespace Host.watched ns).run.run t = (.ok (), t')) :
    ∃ stops comps w, Tracked ns t stops comps w ∧ Served { t with workspace := w } t' ∧
      ∀ c ∈ comps, c.Loaded t'.loaded := by
  obtain ⟨comps, w, hclosure, hcomps⟩ := loadNamespace_ok_iff.mp h
  obtain ⟨stops, t₁, hruns, hleg, -, hagain⟩ := closure_routes hclosure
  obtain ⟨hserved, hloaded⟩ := components_ok hcomps
  exact ⟨stops, comps, w, ⟨hruns, hp.sourced hc hruns hleg, hagain⟩, hserved, hloaded⟩

theorem Tracked.advances {stops : List Stop} (h : Tracked ns t stops comps w)
    (hp : Placed t.layout t.workspace) (hc : t.workspace.analyzer.Consistent) :
    Advances t { t with workspace := w } where
  same := rfl
  workspace := runs_onward hc h.runs
  loaded := List.Subset.refl _
  renewable _ _ _ _ hs hr := runs_renewable hp hc h.runs h.sourced hs hr

theorem loadNamespaces_advances (hp : Placed t.layout t.workspace)
    (hc : t.workspace.analyzer.Consistent)
    (h : (names.forM (loadNamespace Host.watched)).run.run t = (.ok (), t')) : Advances t t' := by
  induction names generalizing t with
  | nil =>
      cases h
      exact (Served.refl _).advances hc
  | cons ns names ih =>
      obtain ⟨_, t₁, hfirst, hrest⟩ := run_bind_ok_iff.mp h
      obtain ⟨stops, comps, w, htracked, hserved, -⟩ := loadNamespace_tracked hp hc hfirst
      have ht := htracked.advances hp hc
      have ht₁ := ht.trans hp (hserved.advances ht.workspace.analyzer)
      exact ht₁.trans hp (ih (ht₁.placed hp) ht₁.workspace.analyzer hrest)

/-- What is loaded is not loaded again. -/
theorem components_again {engine : Engine} (he : q.host.1 = some engine)
    (hl : ∀ c ∈ comps, c.Loaded q.loaded) :
    (comps.forM (loadComponent Host.watched)).run.run q = (.ok (), q) := by
  induction comps with
  | nil => rfl
  | cons c comps ih =>
      obtain ⟨hc, hcomps⟩ := List.forall_mem_cons.mp hl
      refine run_bind_ok_iff.mpr ⟨(), q, ?_, ih hcomps⟩
      unfold loadComponent
      split
      · next hload =>
        obtain ⟨hk, hp⟩ := Bool.and_eq_true_iff.mp hload
        have hall := hc (of_decide_eq_true hk) (bne_iff_ne.mp hp)
        rw [loaded_of_engine he] at hall
        have hhost : q.host = (some engine, q.host.2) := Prod.ext he rfl
        refine run_bind_ok_iff.mpr ⟨q, q, rfl, ?_⟩
        rw [ask_run, hhost, Host.watched_loaded hall, ← hhost, tell, print_nothing]
      · rfl

/-- Namespaces that were loaded one after another are loaded once more, where everything is loaded and
each module that was built can still be written if need be. -/
theorem loadNamespaces_again {engine : Engine} (hp : Placed t.layout t.workspace)
    (h : (names.forM (loadNamespace Host.watched)).run.run t = (.ok (), t'))
    (hb : Beside t.layout w e t.workspace q.workspace) (hlayout : q.layout = t.layout)
    (he : q.host.1 = some engine) (hloaded : t'.loaded ⊆ q.loaded)
    (hlength : t'.workspace.files.entries.length ≤ q.workspace.files.entries.length)
    (hr : ∀ ns path forms requires, Project.Source t.layout t.workspace ns path forms requires →
      Renewable t.layout ns path t'.workspace.files → Renewable t.layout ns path q.workspace.files) :
    ∃ v, (names.forM (loadNamespace Host.watched)).run.run q = (.ok (), { q with workspace := v }) ∧
      q.workspace.console.Quiet v.console ∧ Beside t.layout w e t'.workspace v := by
  induction names generalizing t q with
  | nil =>
      cases h
      exact ⟨q.workspace, rfl, .same, hb⟩
  | cons ns names ih =>
      obtain ⟨_, t₁, hfirst, hrest⟩ := run_bind_ok_iff.mp h
      obtain ⟨stops, comps, w₁, htracked, hserved, hcomps⟩ :=
        loadNamespace_tracked hp hb.abreast.left hfirst
      have ht := htracked.advances hp hb.abreast.left
      have ht₁ := ht.trans hp (hserved.advances ht.workspace.analyzer)
      have hlater := loadNamespaces_advances (ht₁.placed hp) ht₁.workspace.analyzer hrest
      -- Every module that was built at a stop can be written in the end, and so it can be now.
      have hbuilt : ∀ x s c, .built x s c ∈ stops → Renewable t.layout x s.path q.workspace.files := by
        intro x s c hm
        have hs := htracked.sourced x s c hm
        apply hr x s.path s.forms s.requires hs
        have hw₁ := built_renewable hp hb.abreast.left htracked.runs htracked.sourced hm
        have hserve := (hserved.advances ht.workspace.analyzer).trans (ht.placed hp) hlater
        exact hserve.renewable x s.path s.forms s.requires
          ((hp.source_iff ht.workspace).mpr hs) hw₁
      obtain ⟨v, hruns, hbv⟩ := hb.runs htracked.runs htracked.sourced hbuilt
      have hagain : (loadNamespace Host.watched ns).run.run q = (.ok (), { q with workspace := v }) := by
        refine loadNamespace_ok_iff.mpr ⟨comps, v, ?_, components_again he fun c hc => ?_⟩
        · rw [hlayout]
          exact htracked.again _ v ((ht₁.trans hp hlater).workspace.files.entries.trans hlength) hruns
        · exact (hcomps c hc).mono (List.Subset.trans hlater.loaded hloaded)
      have hv := runs_onward hb.abreast.right hruns
      have hbeside : Beside t.layout w e t₁.workspace v := by
        obtain ⟨console, hw₁⟩ := hserved.workspace
        rw [hw₁]
        exact hbv.onward ⟨.refl _, rfl, hbv.abreast.left⟩ (.refl hbv.abreast.right)
          (.refl hbv.abreast.left hbv.abreast.right)
      have hready : ∀ x path forms requires, Project.Source t.layout t₁.workspace x path forms requires →
          Renewable t.layout x path t'.workspace.files → Renewable t.layout x path v.files := by
        intro x path forms requires hs hx
        have hs₀ := (hp.source_iff ht₁.workspace).mp hs
        exact runs_renewable hb.right hb.abreast.right hruns
          (fun y s c hm => hb.sources _ _ _ _ (htracked.sourced y s c hm))
          (hb.sources _ _ _ _ hs₀) (hr x path forms requires hs₀ hx)
      rw [← ht₁.layout] at hbeside hready hlayout ⊢
      obtain ⟨v', hrest', hquiet, hdone⟩ := ih (q := { q with workspace := v }) (ht₁.placed hp) hrest
        hbeside hlayout he hloaded (hlength.trans hv.files.entries) hready
      exact ⟨v', run_bind_ok_iff.mpr ⟨(), _, hagain, hrest'⟩, (runs_quiet hruns).trans hquiet, hdone⟩

end Session

end Sumi
