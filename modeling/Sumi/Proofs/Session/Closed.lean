import Sumi.Proofs.Project.Stock
import Sumi.Proofs.Session.Registry

namespace Sumi

open Project Machine

variable {layout : Layout} {w₀ : Workspace} {deeds : List Deed} {ns : String}

def Engine.reached (deeds : List Deed) : Engine := (deeds.getLast?.map Deed.after).getD .fresh

theorem Engine.reached_concat (deeds : List Deed) (deed : Deed) :
    Engine.reached (deeds ++ [deed]) = deed.after := by
  rw [Engine.reached, List.getLast?_concat]
  rfl

def Deed.RunsOwn (layout : Layout) (w : Workspace) (deed : Deed) (ns : String) : Prop :=
  ∃ e url m, deed = .load e [ns] url (.received m) ∧ Compiled layout w ns m

/-- A namespace is loaded as it should be: one deed alone ran its own module to the end, all that it
needs was loaded before and still is, and it is declared. -/
structure Grounded (layout : Layout) (w : Workspace) (deeds : List Deed) (ns : String) : Prop where
  completed : ∃ pre deed post, deeds = pre ++ deed :: post ∧ deed.RunsOwn layout w ns ∧
    deed.Completes ns ∧ (∀ d ∈ pre ++ post, ¬ d.Completes ns) ∧
    ∀ other, Needs layout w ns other →
      other = Namespace.core ∨ ∃ d ∈ pre, d.Completes other
  needed : ∀ other, Needs layout w ns other → other ∈ (Engine.reached deeds).loaded
  provided : ns ∈ (Engine.reached deeds).machine.provided

structure Orderly (layout : Layout) (w : Workspace) (deeds : List Deed) : Prop where
  chained : ∀ pre deed post, deeds = pre ++ deed :: post → deed.before = Engine.reached pre
  grounded : ∀ done, done <+: deeds → ∀ ns ∈ (Engine.reached done).loaded,
    ns ≠ Namespace.core → Grounded layout w done ns
  kept : ∀ deed ∈ deeds, ∀ ns, deed.Completes ns → ns ∈ (Engine.reached deeds).loaded
  core : Namespace.core ∈ (Engine.reached deeds).loaded

theorem orderly_nil : Orderly layout w₀ [] where
  chained pre deed post h := by simp at h
  grounded done h ns hns hcore := by
    rw [List.prefix_nil.mp h] at hns
    exact absurd (List.mem_singleton.mp hns) hcore
  kept := by simp
  core := List.mem_singleton.mpr rfl

/-- What is loaded stays so when another module is run. -/
theorem Grounded.push (h : Grounded layout w₀ deeds ns) {deed : Deed} (hdue : deed.Due)
    (hbefore : deed.before = Engine.reached deeds) (hno : ¬ deed.Completes ns) :
    Grounded layout w₀ (deeds ++ [deed]) ns where
  completed := by
    obtain ⟨pre, d, post, rfl, hown, hc, hothers, hneeds⟩ := h.completed
    refine ⟨pre, d, post ++ [deed], by simp, hown, hc, fun x hx => ?_, hneeds⟩
    rw [← List.append_assoc] at hx
    rcases List.mem_append.mp hx with hx | hx
    · exact hothers x hx
    · rwa [List.mem_singleton.mp hx]
  needed other ho := by
    rw [Engine.reached_concat, Deed.loaded_iff hdue, hbefore]
    exact .inl (h.needed other ho)
  provided := by
    rw [Engine.reached_concat]
    apply (Deed.grows hdue).provided
    rw [hbefore]
    exact h.provided

/-- The module of a namespace may be run when all that the namespace needs is loaded. -/
theorem Orderly.step (h : Orderly layout w₀ deeds) {deed : Deed} (hdue : deed.Due)
    (hbefore : deed.before = Engine.reached deeds) (hown : deed.RunsOwn layout w₀ ns)
    (hneeds : ∀ other, Needs layout w₀ ns other → other ∈ (Engine.reached deeds).loaded) :
    Orderly layout w₀ (deeds ++ [deed]) := by
  obtain ⟨e, url, m, rfl, hm⟩ := id hown
  have honly {x : String} (hc : (Deed.load e [ns] url (.received m)).Completes x) : x = ns :=
    List.mem_singleton.mp hc.1
  -- nothing is run for what is loaded already
  have hnew : ns ∉ (Engine.reached deeds).loaded := by
    intro hl
    have hhas : e.has [ns] = false := hdue
    rw [show e = Engine.reached deeds from hbefore] at hhas
    simp [Engine.has, hl] at hhas
  have hloaded {x : String} (hx : x ∈ (Engine.reached deeds).loaded) :
      x ∈ (Engine.reached (deeds ++ [.load e [ns] url (.received m)])).loaded := by
    rw [Engine.reached_concat, Deed.loaded_iff hdue, hbefore]
    exact .inl hx
  refine ⟨fun pre d post he => ?_, fun done hp x hx hcore => ?_, fun d hd x hc => ?_, hloaded h.core⟩
  · rcases split_concat he with ⟨rfl, rfl, -⟩ | ⟨post', -, he'⟩
    · exact hbefore
    · exact h.chained pre d post' he'
  · rcases List.prefix_concat_iff.mp hp with rfl | hp
    · rw [Engine.reached_concat, Deed.loaded_iff hdue, hbefore] at hx
      rcases hx with hx | hc
      · apply (h.grounded deeds List.prefix_rfl x hx hcore).push hdue hbefore
        exact fun hc => hnew (honly hc ▸ hx)
      · obtain rfl := honly hc
        refine ⟨⟨deeds, _, [], rfl, hown, hc, fun d hd hc' => ?_, fun other ho => ?_⟩,
          fun other ho => hloaded (hneeds other ho), ?_⟩
        · rw [List.append_nil] at hd
          exact hnew (h.kept d hd x hc')
        · by_cases hother : other = Namespace.core
          · exact .inl hother
          · obtain ⟨pre, d, post, rfl, -, hd, -⟩ :=
              (h.grounded deeds List.prefix_rfl other (hneeds other ho) hother).completed
            exact .inr ⟨d, by simp, hd⟩
        · rw [Engine.reached_concat]
          apply Deed.declared_of_completes hdue _ hc
          intro y hy _ program hp
          rw [List.mem_singleton.mp hy]
          exact hm.declares hp
    · exact h.grounded done hp x hx hcore
  · rcases List.mem_append.mp hd with hd | hd
    · exact hloaded (h.kept d hd x hc)
    · rw [List.mem_singleton.mp hd] at hc
      rw [Engine.reached_concat, Deed.loaded_iff hdue]
      exact .inr hc

theorem Project.Toured.described {t : Tour} {names : List String}
    (h : Toured layout w₀ t names) :
    ∃ comps, t.ordered = .core :: comps ∧ List.Forall₂ (Describes layout w₀) names comps := by
  obtain ⟨comps, ho, hd, hp⟩ := h.ordered
  refine ⟨comps, ho, ?_⟩
  clear ho h
  induction comps generalizing names with
  | nil =>
      rw [List.map_eq_nil_iff.mp hp.symm]
      exact .nil
  | cons c comps ih =>
      obtain ⟨⟨ns, hc⟩, hcs⟩ := List.forall_mem_cons.mp hd
      cases names with
      | nil => cases hp
      | cons name names =>
          obtain ⟨hname, hnames⟩ := List.cons_eq_cons.mp hp
          have hprovides : c.provides = [ns] := by
            obtain ⟨path, forms, requires, -, rfl⟩ := hc
            rfl
          obtain rfl := List.singleton_inj.mp (hprovides.symm.trans hname)
          exact .cons hc (ih hcs hnames)

namespace Session

def loadComponent {σ : Type} (h : Host σ) (c : Component) : Action σ Unit := do
  if c.kind = .source && c.provides != [Namespace.core] then
    let files := (← get).workspace.files
    Action.ask (h.load files c.provides (c.url.getD ""))

theorem loadNamespace_eq {σ : Type} (h : Host σ) (ns : String) :
    loadNamespace h ns = (do
      let components ← Action.work (closure (← get).layout [.seed [ns]])
      components.forM (loadComponent h)) := rfl

def loads {σ : Type} (h : Host σ) (calls : List String) (s : Session σ) : Session σ :=
  calls.foldl (fun s ns => ((loadNamespace h ns).run.run s).2) s

/-- A session that has loaded in order whatever it has loaded. -/
structure Sound (layout : Layout) (w₀ : Workspace) (s : Session (Option Engine × List Deed)) :
    Prop where
  standing : Standing layout w₀ s.workspace
  orderly : Orderly layout w₀ s.host.2
  engine : s.host.1 = some (Engine.reached s.host.2)
  sources : s.layout = layout

variable {s : Session (Option Engine × List Deed)}

theorem Sound.asked (hs : Sound layout w₀ s) (ho : Orderly layout w₀ deeds)
    (f : Console → Console) :
    Sound layout w₀ (tell { s with host := (some (Engine.reached deeds), deeds) } f) :=
  ⟨⟨hs.standing.stocked, hs.standing.library, hs.standing.analyzer⟩, ho, rfl, hs.sources⟩

theorem loadComponent_sound (hu : Untouched layout w₀) (hs : Sound layout w₀ s) {c : Component}
    (hc : Describes layout w₀ ns c) (hcore : ns ≠ Namespace.core)
    (hneeds : ∀ other, Needs layout w₀ ns other → other ∈ (Engine.reached s.host.2).loaded) :
    Leads (loadComponent Host.watched c) s
      (fun _ s' => Sound layout w₀ s' ∧ ∀ x ∈ ns :: (Engine.reached s.host.2).loaded,
        x ∈ (Engine.reached s'.host.2).loaded)
      (fun _ => Sound layout w₀) := by
  obtain ⟨path, forms, requires, hsource, rfl⟩ := hc
  have hhost : s.host = (some (Engine.reached s.host.2), s.host.2) := Prod.ext hs.engine rfl
  unfold loadComponent
  rw [if_pos (by simpa using hcore)]
  apply leads_bind.mpr
  apply leads_get.mpr
  apply (leads_ask rfl).mpr
  rw [hhost]
  dsimp only [Option.getD_some]
  -- all is loaded, or the module cannot be fetched, or it is run
  rcases Host.watched_load s.workspace.files [ns]
    (Url.ofPath (Path.absolute w₀.files.cwd (modulePath layout ns))) (Engine.reached s.host.2)
    s.host.2 with ⟨hall, hload⟩ | ⟨f, hload⟩ | ⟨content, hhas, hfetch, hstate, hresult⟩
  · rw [hload]
    exact ⟨hs.asked hs.orderly _, List.forall_mem_cons.mpr ⟨hall ns (by simp), fun _ hx => hx⟩⟩
  · rw [hload]
    exact hs.asked hs.orderly _
  · obtain ⟨m, rfl, hm⟩ := hu.fetch_compiled hs.standing hsource hfetch
    have hdue : (Deed.load (Engine.reached s.host.2) [ns]
      (Url.ofPath (Path.absolute w₀.files.cwd (modulePath layout ns))) (.received m)).Due := hhas
    have horderly := hs.orderly.step hdue rfl ⟨_, _, m, rfl, hm⟩ hneeds
    have hsound := hs.asked horderly
    rw [Engine.reached_concat] at hsound
    rw [hstate]
    split
    · next u hok =>
      refine ⟨hsound _, List.forall_mem_cons.mpr ⟨?_, fun x hx => ?_⟩⟩
      · exact horderly.kept _ (by simp) ns (hresult u hok ns (by simp))
      · change x ∈ (Engine.reached (s.host.2 ++ [_])).loaded
        rw [Engine.reached_concat, Deed.loaded_iff hdue]
        exact .inl hx
    · exact hsound _

theorem components_sound (hu : Untouched layout w₀) (done : List String) {names : List String}
    {comps : List Component} (hc : List.Forall₂ (Describes layout w₀) names comps)
    (hcore : Namespace.core ∉ names)
    (hafter : ∀ pre ns post, done ++ names = pre ++ ns :: post →
      ∀ other, Needs layout w₀ ns other → other = Namespace.core ∨ other ∈ pre)
    (seeds : List String) (hs : Sound layout w₀ s)
    (hdone : ∀ ns ∈ done, ns ∈ (Engine.reached s.host.2).loaded) :
    Leads ((comps ++ [Component.seed seeds]).forM (loadComponent Host.watched)) s
      (fun _ => Sound layout w₀) (fun _ => Sound layout w₀) := by
  induction hc generalizing s done with
  | nil => exact leads_bind.mpr (leads_pure.mpr (leads_pure.mpr hs))
  | @cons ns c names comps hc _ ih =>
      have hneeds : ∀ other, Needs layout w₀ ns other →
          other ∈ (Engine.reached s.host.2).loaded := by
        intro other ho
        rcases hafter done ns names rfl other ho with rfl | hm
        · exact hs.orderly.core
        · exact hdone other hm
      obtain ⟨hns, hcore⟩ := not_or.mp (mt List.mem_cons.mpr hcore)
      change Leads (loadComponent Host.watched c >>= fun _ =>
        (comps ++ [Component.seed seeds]).forM (loadComponent Host.watched)) s _ _
      apply (loadComponent_sound hu hs hc (Ne.symm hns) hneeds).bind
      · rintro _ s' ⟨hs', hloaded⟩
        obtain ⟨hns', hold⟩ := List.forall_mem_cons.mp hloaded
        have hdone' : ∀ x ∈ done ++ [ns], x ∈ (Engine.reached s'.host.2).loaded := by
          intro x hx
          rcases List.mem_append.mp hx with hx | hx
          · exact hold x (hdone x hx)
          · rwa [List.mem_singleton.mp hx]
        exact ih (done ++ [ns]) hcore (by rwa [List.append_assoc]) hs' hdone'
      · exact fun _ _ h => h

/-- Whether or not it fails, loading a namespace loads nothing out of order. -/
theorem loadNamespace_sound (hu : Untouched layout w₀) (hs : Sound layout w₀ s) (ns : String) :
    Leads (loadNamespace Host.watched ns) s (fun _ => Sound layout w₀)
      (fun _ => Sound layout w₀) := by
  obtain rfl := hs.sources
  have hstep {w : Workspace} (hw : Standing s.layout w₀ w) :
      Sound s.layout w₀ { s with workspace := w } := ⟨hw, hs.orderly, hs.engine, rfl⟩
  rw [loadNamespace_eq]
  apply leads_bind.mpr
  apply leads_get.mpr
  apply leads_bind.mpr
  apply leads_work.mpr
  apply (hu.closure_leads hs.standing ns).mono
  · rintro _ w ⟨hw, t, names, ht, rfl⟩
    obtain ⟨comps, hordered, hcomps⟩ := ht.described
    rw [hordered]
    change Leads (loadComponent Host.watched .core >>= fun _ =>
      (comps ++ [Component.seed [ns]]).forM (loadComponent Host.watched)) _ _ _
    exact leads_bind.mpr (leads_pure.mpr
      (components_sound hu [] hcomps ht.proper ht.after [ns] (hstep hw) (by simp)))
  · exact fun f w hw => hstep hw

theorem loads_sound (hu : Untouched layout w₀) (calls : List String) (hs : Sound layout w₀ s) :
    Sound layout w₀ (loads Host.watched calls s) := by
  induction calls generalizing s with
  | nil => exact hs
  | cons ns calls ih =>
      have hl := loadNamespace_sound hu hs ns
      rw [leads_iff] at hl
      apply ih
      dsimp only
      rcases hrun : (loadNamespace Host.watched ns).run.run s with ⟨e | u, s'⟩ <;>
        rw [hrun] at hl <;> exact hl

theorem loads_abreast {σ τ : Type} {R : σ → τ → Prop} {h : Host σ} {h' : Host τ}
    (ht : h.Tandem R h') (calls : List String) {s : Session σ} {y : τ} (hy : R s.host y) :
    ∃ y', loads h' calls (s.on y) = (loads h calls s).on y' ∧ R (loads h calls s).host y' := by
  induction calls generalizing s y with
  | nil => exact ⟨y, rfl, hy⟩
  | cons ns calls ih =>
      obtain ⟨y', hrun, hy'⟩ := tandems_loadNamespace ht ns s y hy
      obtain ⟨y'', hrest, hy''⟩ := ih hy'
      refine ⟨y'', ?_, hy''⟩
      unfold loads at hrest ⊢
      rw [List.foldl_cons, hrun]
      exact hrest

theorem loads_watched (calls : List String) (s : Session (Option Engine × List Deed)) :
    loads Host.inProcess calls (s.on s.host.1) =
      (loads Host.watched calls s).on (loads Host.watched calls s).host.1 := by
  obtain ⟨_, hsame, rfl⟩ := loads_abreast Host.watched_inProcess calls (s := s) rfl
  exact hsame

theorem loads_host (calls : List String) (s : Session (Option Engine × List Deed)) :
    (loads Host.inProcess calls (s.on s.host.1)).host = (loads Host.watched calls s).host.1 :=
  congrArg Session.host (loads_watched calls s)

/-- Whatever namespaces are loaded one after another, and however many of the loadings fail: at every
point, every namespace but the library that is loaded was run to its end once, behind all that it
needs, which is loaded, too, and it is declared. The record of what is done with the engine, each
deed with the engine that those before it have led to, changes nothing about the session. -/
theorem loaded_closed {s : Session (Option Engine × List Deed)} (calls : List String)
    (hstart : s.host = (some .fresh, [])) (hu : Untouched s.layout s.workspace) :
    loads Host.inProcess calls (s.on s.host.1) =
        (loads Host.watched calls s).on (loads Host.watched calls s).host.1 ∧
      (loads Host.watched calls s).host.1 =
        some (Engine.reached (loads Host.watched calls s).host.2) ∧
      (∀ pre deed post, (loads Host.watched calls s).host.2 = pre ++ deed :: post →
        deed.before = Engine.reached pre) ∧
      ∀ done, done <+: (loads Host.watched calls s).host.2 →
        ∀ ns ∈ (Engine.reached done).loaded, ns ≠ Namespace.core →
          Grounded s.layout s.workspace done ns := by
  have hs : Sound s.layout s.workspace s := by
    refine ⟨.refl hu.consistent, ?_, ?_, rfl⟩
    · rw [hstart]
      exact orderly_nil
    · rw [hstart]
      rfl
  obtain ⟨-, horderly, hengine, -⟩ := loads_sound hu calls hs
  exact ⟨loads_watched calls s, hengine, horderly.chained, horderly.grounded⟩

abbrev Unbuilt (layout : Layout) (w : Workspace) : Prop :=
  w.files.Rooted ∧
  (∀ base ∈ layout.sources ++ [w.library], ".." ∉ Path.parts (Path.join w.files.cwd base)) ∧
  Path.isAbsolute w.files.cwd = true ∧
  (∀ e ∈ w.files.entries, Path.place w.files.cwd layout.output <+: e.1 →
    e.1 = Path.place w.files.cwd layout.output) ∧
  ∀ e ∈ w.files.entries, e.1 ≠ slot w.files.cwd layout "/"

theorem Unbuilt.untouched {w : Workspace} (h : Unbuilt layout w) (hc : w.analyzer.Consistent) :
    Untouched layout w := by
  obtain ⟨hrooted, hlevel, habsolute, houtput, hroot⟩ := h
  exact ⟨hc, ⟨hrooted, fun base hb => .inl (hlevel base hb)⟩, habsolute, houtput, hroot⟩

def trial : Session (Option Engine × List Deed) where
  workspace := .ofSources [[], ["src"]]
    [(["src", "a.sumi"], "(ns a (:require b))"), (["src", "b.sumi"], "(ns b)"),
      (["src", "c.sumi"], "(ns c (:require b))\n(throw \"no\")"),
      (["src", "d.sumi"], "(ns d (:use d))")]
  host := (some .fresh, [])
  layout := plain

theorem trial_checked : Unbuilt plain trial.workspace ∧
    ∀ e ∈ (loads Host.watched ["c", "a", "d", "e", "c"] trial).host.1,
      e.loaded = [Namespace.core, "b", "a"] := by
  decide +kernel

theorem trial_closed :
    ∃ e, (loads Host.watched ["c", "a", "d", "e", "c"] trial).host.1 = some e ∧
      e.loaded = [Namespace.core, "b", "a"] ∧
      ∀ ns ∈ e.loaded, ns ≠ Namespace.core →
        Grounded plain trial.workspace
          (loads Host.watched ["c", "a", "d", "e", "c"] trial).host.2 ns := by
  obtain ⟨hunbuilt, hloaded⟩ := trial_checked
  obtain ⟨-, hengine, -, hgrounded⟩ := loaded_closed (s := trial) ["c", "a", "d", "e", "c"] rfl
    (hunbuilt.untouched (Analyzer.ofLibrary_consistent _ _))
  exact ⟨_, hengine, hloaded _ hengine, hgrounded _ List.prefix_rfl⟩

/-- A session with two sources of `c`, of which the one in `lib` is found only once there is an output
directory. -/
def moved : Session (Option Engine × List Deed) where
  workspace := .ofSources [[], ["src"], ["lib"]]
    [(["src", "a.sumi"], "(ns a (:require c))"), (["src", "c.sumi"], "(ns c (:require d))"),
      (["src", "d.sumi"], "(ns d)\n(throw \"no\")"), (["lib", "c.sumi"], "(ns c)")]
  host := (some .fresh, [])
  layout := ⟨["out/../lib", "src"], "out"⟩

def hasRun (ns : String) (requires : List String) : Deed → Bool
  | .evaluation _ _ _ => false
  | .load e provides url content =>
      provides.contains ns &&
      (match (e.load provides url content.program?).result with
        | .ok outcome => outcome.status == .success
        | .error _ => false) &&
      content.program?.any fun program => program.any fun
        | .provide name others => name == ns && others == requires
        | _ => false

def Ran (deed : Deed) (ns : String) (requires : List String) : Prop :=
  deed.Completes ns ∧ ∃ e provides url content program, deed = .load e provides url content ∧
    content.program? = some program ∧ Code.provide ns requires ∈ program

theorem ran_of_hasRun {requires : List String} {deed : Deed}
    (h : hasRun ns requires deed = true) : Ran deed ns requires := by
  cases deed with
  | evaluation e site code => cases h
  | load e provides url content =>
      unfold hasRun at h
      simp only [Bool.and_eq_true] at h
      obtain ⟨⟨hns, hok⟩, hprogram⟩ := h
      obtain ⟨program, hp, hany⟩ := (Option.any_eq_true _ _).mp hprogram
      obtain ⟨c, hc, hprovide⟩ := List.any_eq_true.mp hany
      refine ⟨⟨List.contains_iff_mem.mp hns, ?_⟩, e, provides, url, content, program, rfl, hp, ?_⟩
      · split at hok
        · next outcome hr => exact ⟨outcome, hr, eq_of_beq hok⟩
        · cases hok
      · split at hprovide
        · obtain ⟨hname, hothers⟩ := Bool.and_eq_true_iff.mp hprovide
          rwa [eq_of_beq hname, eq_of_beq hothers] at hc
        · cases hprovide

theorem moved_checked :
    (∀ e ∈ moved.workspace.files.entries,
      ¬ Path.place moved.workspace.files.cwd moved.layout.output <+: e.1) ∧
    Needs moved.layout moved.workspace "c" "d" ∧
    (∃ deed ∈ (loads Host.watched ["a", "c"] moved).host.2, hasRun "c" ["d"] deed = true) ∧
    ∃ e ∈ (loads Host.watched ["a", "c"] moved).host.1, "c" ∈ e.loaded ∧ "d" ∉ e.loaded := by
  decide +kernel

/-- A source path that goes up from the output directory leads to another source of a namespace that
was compiled already: the module that is run then needs what is not loaded. -/
theorem moved_not_closed :
    (∀ e ∈ moved.workspace.files.entries,
      ¬ Path.place moved.workspace.files.cwd moved.layout.output <+: e.1) ∧
    Needs moved.layout moved.workspace "c" "d" ∧
    (∃ deed ∈ (loads Host.watched ["a", "c"] moved).host.2, Ran deed "c" ["d"]) ∧
    ∃ e, (loads Host.inProcess ["a", "c"] (moved.on moved.host.1)).host = some e ∧
      "c" ∈ e.loaded ∧ "d" ∉ e.loaded := by
  obtain ⟨hempty, hneeds, ⟨deed, hd, hran⟩, hloaded⟩ := moved_checked
  rw [loads_host]
  exact ⟨hempty, hneeds, ⟨deed, hd, ran_of_hasRun hran⟩, hloaded⟩

end Session

end Sumi
