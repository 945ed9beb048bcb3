import Sumi.Proofs.Analysis.Repeats
import Sumi.Proofs.Project.LoadOrder
import Sumi.Proofs.Project.Onward
import Sumi.Proofs.Project.Stops

namespace Sumi.Project

open Sumi.Project.Path Files Work Analysis

variable {layout : Layout} {w w' w'' e u u' v v' : Workspace} {ns path : String} {forms : List Form}
  {requires : List String} {s : Opened} {c : Component} {stop : Stop} {stops : List Stop}

structure Workspace.Onward (w w' : Workspace) : Prop where
  files : w.files.Onward w'.files
  library : w'.library = w.library
  analyzer : w'.analyzer.Consistent

namespace Workspace.Onward

theorem refl (hc : w.analyzer.Consistent) : w.Onward w := ⟨.refl _, rfl, hc⟩

theorem trans (h : w.Onward w') (h' : w'.Onward w'') : w.Onward w'' :=
  ⟨h.files.trans h'.files, h'.library.trans h.library, h'.analyzer⟩

theorem later (h : w.Onward w') : w.Later w' := ⟨h.files.grown, h.library, h.analyzer⟩

end Workspace.Onward

theorem Workspace.Same.onward (h : w.Same w') : w.Onward w' :=
  ⟨h.files.symm ▸ .refl _, h.library, h.analyzer⟩

/-- Where sources are found does not depend on modules, and each module has a place of its own. -/
structure Placed (layout : Layout) (w : Workspace) : Prop where
  settled : Settled layout w
  absolute : isAbsolute w.files.cwd = true
  apart : place w.files.cwd layout.output ≠ []

theorem Placed.onward (h : Placed layout w) (hw : w.Onward w') : Placed layout w' where
  settled := by
    refine ⟨hw.files.rooted h.settled.rooted, fun base hb => ?_⟩
    rw [hw.library] at hb
    exact hw.files.steady (h.settled.steady base hb)
  absolute := by rw [hw.files.grown.cwd]; exact h.absolute
  apart := by rw [hw.files.grown.cwd]; exact h.apart

theorem Placed.source_iff (h : Placed layout w) (hw : w.Onward w') :
    Source layout w' ns path forms requires ↔ Source layout w ns path forms requires :=
  ⟨fun hs => hs.before h.settled h.absolute hw.later, fun hs => hs.later h.settled hw.later⟩

theorem opened_source (hc : w.analyzer.Consistent) (h : (Stop.opened ns s).Takes layout w w') :
    Source layout w ns s.path s.forms s.requires ∧ w.Same w' :=
  (leads_of_ok h).mp (openSource_leads hc)

theorem opened_header (hc : w.analyzer.Consistent) (h : (Stop.opened ns s).Takes layout w w') :
    ∃ first rest node b, s.forms = first :: rest ∧
      (topLevel Namespace.user first).run.run w.analyzer = (.ok node, b) ∧
      w'.analyzer.namespaces = b.namespaces := by
  obtain ⟨first, rest, node, hforms, hrun⟩ := openSource_ran h
  obtain ⟨⟨b, hb, htables⟩, -⟩ :=
    (leads_of_ok hrun).mp (leads_analyze_same ⟨_, topLevel_alike _ first⟩ hc)
  exact ⟨first, rest, node, b, hforms, hb, htables⟩

theorem built_module (hc : w.analyzer.Consistent) (h : (Stop.built ns s c).Takes layout w w') :
    ∃ m a, (compile (some s.path) Namespace.user s.forms).run.run w.analyzer = (.ok m, a) ∧
      w'.analyzer.namespaces = a.namespaces ∧ Written layout ns s.path m w.files w'.files ∧
      c = { kind := .source, provides := [ns], requires := s.requires,
            url := some (Url.ofPath (absolute w'.files.cwd (modulePath layout ns))),
            source := some s.path } ∧
      w'.library = w.library := by
  obtain ⟨m, a, hm, hwritten, hcomp, hlibrary, -⟩ := (leads_of_ok h).mp (build_leads hc)
  obtain ⟨m', w₁, hrun, hwrite⟩ := build_ran h
  obtain ⟨⟨a', hm', htables⟩, -⟩ :=
    (leads_of_ok hrun).mp (leads_analyze_same ⟨_, compile_alike _ _ s.forms⟩ hc)
  obtain ⟨-, -, hw₁⟩ := (leads_of_ok hwrite).mp writeModule_leads
  cases hm.symm.trans hm'
  exact ⟨m, a, hm, hw₁ ▸ htables, hwritten, hcomp, hlibrary⟩

theorem takes_onward (hc : w.analyzer.Consistent) (h : stop.Takes layout w w') : w.Onward w' := by
  cases stop with
  | opened ns s => exact (opened_source hc h).2.onward
  | built ns s c =>
      obtain ⟨m, a, hm, htables, hwritten, -, hlibrary⟩ := built_module hc h
      refine ⟨hwritten.onward, hlibrary, ?_⟩
      have ha := (compile_alike (some s.path) Namespace.user s.forms).consistent hc
      rw [hm] at ha
      unfold Analyzer.Consistent
      rw [htables]
      exact ha

theorem runs_onward (hc : w.analyzer.Consistent) (h : Runs layout stops w w') : w.Onward w' := by
  induction stops generalizing w with
  | nil =>
      cases h
      exact .refl hc
  | cons stop stops ih =>
      obtain ⟨v, hv, hrest⟩ := h
      have hw := takes_onward hc hv
      exact hw.trans (ih hw.analyzer hrest)

def Sourced (layout : Layout) (w : Workspace) (stops : List Stop) : Prop :=
  ∀ ns s c, .built ns s c ∈ stops → Source layout w ns s.path s.forms s.requires

theorem Placed.opened (h : Placed layout w) (hc : w.analyzer.Consistent)
    (hruns : Runs layout stops w w') (hs : .opened ns s ∈ stops) :
    Source layout w ns s.path s.forms s.requires := by
  induction stops generalizing w with
  | nil => cases hs
  | cons stop stops ih =>
      obtain ⟨v, hv, hrest⟩ := hruns
      rcases List.mem_cons.mp hs with rfl | hs
      · exact (opened_source hc hv).1
      · have hw := takes_onward hc hv
        exact (h.source_iff hw).mp (ih (h.onward hw) hw.analyzer hrest hs)

theorem Placed.sourced (h : Placed layout w) (hc : w.analyzer.Consistent) {t t' : Tour}
    {above : List String} (hruns : Runs layout stops w w') (hleg : Leg above t t' stops) :
    Sourced layout w stops :=
  fun ns s c hm => h.opened hc hruns (hleg.opened ns s c hm)

theorem Placed.tail (h : Placed layout w) (hw : w.Onward w') (hs : Sourced layout w (stop :: stops)) :
    Sourced layout w' stops :=
  fun ns s c hm => (h.source_iff hw).mpr (hs ns s c (List.mem_cons_of_mem _ hm))

theorem takes_renewable (hp : Placed layout w) (hc : w.analyzer.Consistent)
    (h : stop.Takes layout w w') (hs : Sourced layout w (stop :: stops))
    (hsource : Source layout w ns path forms requires) (hr : Renewable layout ns path w.files) :
    Renewable layout ns path w'.files := by
  cases stop with
  | opened other s =>
      rw [(opened_source hc h).2.files]
      exact hr
  | built other s c =>
      obtain ⟨m, a, -, -, hwritten, -, -⟩ := built_module hc h
      have hother := hs other s c List.mem_cons_self
      by_cases hns : other = ns
      · subst hns
        rw [← (hsource.unique hother).1]
        exact hwritten.renewable
      · refine hr.written hwritten (fun he => hns ?_) (search_ends hsource.found) hsource.file
        exact (slot_apart hp.absolute hp.apart hsource hother he).symm

theorem runs_renewable (hp : Placed layout w) (hc : w.analyzer.Consistent)
    (h : Runs layout stops w w') (hs : Sourced layout w stops)
    (hsource : Source layout w ns path forms requires) (hr : Renewable layout ns path w.files) :
    Renewable layout ns path w'.files := by
  induction stops generalizing w with
  | nil =>
      cases h
      exact hr
  | cons stop stops ih =>
      obtain ⟨v, hv, hrest⟩ := h
      have hw := takes_onward hc hv
      exact ih (hp.onward hw) hw.analyzer hrest (hp.tail hw hs) ((hp.source_iff hw).mpr hsource)
        (takes_renewable hp hc hv hs hsource hr)

/-- Whatever was built on a tour can be built again at its end. -/
theorem built_renewable (hp : Placed layout w) (hc : w.analyzer.Consistent)
    (h : Runs layout stops w w') (hs : Sourced layout w stops) (hm : .built ns s c ∈ stops) :
    Renewable layout ns s.path w'.files := by
  induction stops generalizing w with
  | nil => cases hm
  | cons stop stops ih =>
      obtain ⟨v, hv, hrest⟩ := h
      have hw := takes_onward hc hv
      rcases List.mem_cons.mp hm with rfl | hm
      · obtain ⟨m, a, -, -, hwritten, -, -⟩ := built_module hc hv
        exact runs_renewable (hp.onward hw) hw.analyzer hrest (hp.tail hw hs)
          ((hp.source_iff hw).mpr (hs ns s c List.mem_cons_self)) hwritten.renewable
      · exact ih (hp.onward hw) hw.analyzer hrest (hp.tail hw hs) hm

theorem open_ends (hc : w.analyzer.Consistent)
    (hs : Source layout w ns s.path s.forms s.requires) : ∃ w', (Stop.opened ns s).Takes layout w w' := by
  have hends : Leads (openSource layout ns) w (fun s' _ => s' = s) (fun _ _ => False) := by
    apply (openSource_leads hc).mono
    · rintro s' w' ⟨hs', -⟩
      obtain ⟨hpath, hforms, hrequires⟩ := hs.unique hs'
      cases s
      cases s'
      cases hpath
      cases hforms
      cases hrequires
      rfl
    · rintro e w' ⟨hno, -⟩
      exact hno _ _ _ hs
  obtain ⟨_, w', hrun, rfl⟩ := hends.ends
  exact ⟨w', hrun⟩

theorem build_ends (hc : w.analyzer.Consistent) {m : Module} {a : Analyzer}
    (hm : (compile (some s.path) Namespace.user s.forms).run.run w.analyzer = (.ok m, a))
    (hr : Renewable layout ns s.path w.files) : ∃ c w', (Stop.built ns s c).Takes layout w w' := by
  have hends : Leads (build layout ns s) w (fun _ _ => True) (fun _ _ => False) := by
    apply (leads_analyze_same ⟨_, compile_alike _ _ s.forms⟩ hc).bind
    · rintro m' w₁ ⟨-, hsame⟩
      rw [← hsame.files] at hr
      apply Leads.bind (Q := fun _ _ => True) (E := fun _ _ => False)
      · unfold writeModule
        apply leads_bind.mpr
        apply leads_get.mpr
        rcases hr with hfresh | hr
        · rw [if_neg (by simp [hfresh])]
          exact leads_pure.mpr trivial
        · split
          · apply leads_bind.mpr
            apply leads_modify.mpr
            apply leads_changeFiles.bind
            · rintro _ _ ⟨k, hk, rfl⟩
              cases hr.housed.symm.trans hk
              apply leads_changeFiles.mono
              · exact fun _ _ _ => trivial
              · rintro e _ ⟨hno, -⟩
                obtain ⟨g, hg⟩ := hr.writes m'
                exact hno g hg
            · rintro e _ ⟨hno, -⟩
              exact hno _ hr.housed
          · exact leads_pure.mpr trivial
      · exact fun _ w₂ _ => leads_bind.mpr (leads_get.mpr (leads_pure.mpr trivial))
      · exact fun _ _ h => h
    · rintro e w₁ ⟨⟨b, f, hb, -⟩, -⟩
      cases hm.symm.trans hb
  obtain ⟨c, w', hrun, -⟩ := hends.ends
  exact ⟨c, w', hrun⟩

/-- `u` and `v` have come of `w` and `e` by the same changes, and `v` has the sources of `u`. -/
structure Beside (layout : Layout) (w e u v : Workspace) : Prop where
  left : Placed layout u
  right : Placed layout v
  cwd : v.files.cwd = u.files.cwd
  sources : ∀ ns path forms requires, Source layout u ns path forms requires →
    Source layout v ns path forms requires
  abreast : Abreast w.analyzer e.analyzer u.analyzer v.analyzer

theorem Beside.onward (h : Beside layout w e u v) (hu : u.Onward u') (hv : v.Onward v')
    (ha : Abreast u.analyzer v.analyzer u'.analyzer v'.analyzer) : Beside layout w e u' v' where
  left := h.left.onward hu
  right := h.right.onward hv
  cwd := by rw [hu.files.grown.cwd, hv.files.grown.cwd, h.cwd]
  sources ns path forms requires hs :=
    (h.right.source_iff hv).mpr (h.sources _ _ _ _ ((h.left.source_iff hu).mp hs))
  abreast := h.abreast.trans ha

theorem Beside.opened (h : Beside layout w e u v) (hu : (Stop.opened ns s).Takes layout u u') :
    ∃ v', (Stop.opened ns s).Takes layout v v' ∧ Beside layout w e u' v' := by
  have hcu := h.abreast.left
  have hcv := h.abreast.right
  obtain ⟨hsource, hsame⟩ := opened_source hcu hu
  have hsource' := h.sources _ _ _ _ hsource
  obtain ⟨v', hv⟩ := open_ends hcv hsource'
  refine ⟨v', hv, h.onward (takes_onward hcu hu) (takes_onward hcv hv) ?_⟩
  obtain ⟨first, rest, node, b, hforms, hrun, hb⟩ := opened_header hcu hu
  obtain ⟨first', rest', node', b', hforms', hrun', hb'⟩ := opened_header hcv hv
  cases hforms.symm.trans hforms'
  obtain ⟨node'', b'', hagain, habreast, -⟩ := topLevel_repeats hcu hcv hrun
  cases hagain.symm.trans hrun'
  exact habreast.namespaces hb hb'

theorem Beside.built (h : Beside layout w e u v) (hr : Renewable layout ns s.path v.files)
    (hu : (Stop.built ns s c).Takes layout u u') :
    ∃ v', (Stop.built ns s c).Takes layout v v' ∧ Beside layout w e u' v' := by
  have hcu := h.abreast.left
  have hcv := h.abreast.right
  obtain ⟨m, b, hm, hb, hwritten, rfl, -⟩ := built_module hcu hu
  obtain ⟨m', b', hm', habreast, -⟩ := compile_repeats (t := u.analyzer) _ hcu hcv hm
  obtain ⟨c', v', hv⟩ := build_ends hcv hm' hr
  have hbeside := h.onward (takes_onward hcu hu) (takes_onward hcv hv)
  obtain ⟨m'', b'', hm'', hb'', hwritten', rfl, -⟩ := built_module hcv hv
  cases hm'.symm.trans hm''
  have hdone := hbeside (habreast.namespaces hb hb'')
  rw [hdone.cwd] at hv
  exact ⟨v', hv, hdone⟩

/-- All stops of a tour go as they went before, where each of its modules can be written if need
be. -/
theorem Beside.runs (h : Beside layout w e u v) (hu : Runs layout stops u u')
    (hs : Sourced layout u stops)
    (hr : ∀ ns s c, .built ns s c ∈ stops → Renewable layout ns s.path v.files) :
    ∃ v', Runs layout stops v v' ∧ Beside layout w e u' v' := by
  induction stops generalizing u v with
  | nil =>
      cases hu
      exact ⟨v, rfl, h⟩
  | cons stop stops ih =>
      obtain ⟨u₁, hu₁, hrest⟩ := hu
      obtain ⟨v₁, hv₁, hbeside⟩ :
          ∃ v₁, stop.Takes layout v v₁ ∧ Beside layout w e u₁ v₁ := by
        cases stop with
        | opened ns s => exact h.opened hu₁
        | built ns s c => exact h.built (hr ns s c List.mem_cons_self) hu₁
      have hsv : Sourced layout v (stop :: stops) := fun ns s c hm => h.sources _ _ _ _ (hs ns s c hm)
      obtain ⟨v', hv', hdone⟩ := ih hbeside hrest (h.left.tail (takes_onward h.abreast.left hu₁) hs)
        fun ns s c hm => takes_renewable h.right h.abreast.right hv₁ hsv
          (hsv ns s c (List.mem_cons_of_mem _ hm)) (hr ns s c (List.mem_cons_of_mem _ hm))
      exact ⟨v', ⟨v₁, hv₁, hv'⟩, hdone⟩

/-- Two sources of `c`. The one in `lib` is found once there is an output directory, and declares another
namespace. -/
def lured : Workspace :=
  .ofSources [[], ["src"], ["lib"]] [(["src", "c.sumi"], "(ns c)"), (["lib", "c.sumi"], "(ns d)")]

def upward : Layout := ⟨["out/../lib", "src"], "out"⟩

def crowded : Workspace where
  files :=
    { entries := [(["src"], .directory), (["src", ".sumi"], .file (.text "(ns .)") 3),
        ([".sumi"], .file (.text "(ns /)") 5), ([".py"], .file (.module ⟨none, [.provide "." []]⟩) 4)]
      cwd := "/"
      now := 2 }
  analyzer := .ofLibrary Machine.libraryNames {}
  library := "/library"

def rootward : Layout := ⟨["src"], ""⟩

end Sumi.Project
