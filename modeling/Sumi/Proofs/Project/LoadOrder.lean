import Sumi.Machine.State
import Sumi.Proofs.Project.Tour

namespace Sumi.Project

open Sumi.Project.Path Files Work Relation

variable {layout : Layout} {w₀ w : Workspace}

theorem Toured.before {t : Tour} {names pre post : List String} {ns other : String}
    (h : Toured layout w₀ t names) (hn : TransGen (Needs layout w₀) ns other)
    (he : names = pre ++ ns :: post) : other = Namespace.core ∨ other ∈ pre := by
  induction hn with
  | single hn => exact h.after pre ns post he _ hn
  | @tail middle _ _ hn ih =>
      rcases ih with rfl | hm
      · exact absurd rfl hn.1
      · obtain ⟨front, back, rfl⟩ := List.append_of_mem hm
        have he' : names = front ++ middle :: (back ++ ns :: post) := by simpa using he
        exact (h.after _ _ _ he' _ hn).imp_right (List.mem_append_left _)

theorem Toured.acyclic {t : Tour} {names : List String} {ns : String}
    (h : Toured layout w₀ t names) (hm : ns ∈ names) : ¬ TransGen (Needs layout w₀) ns ns := by
  intro hn
  obtain ⟨pre, post, rfl⟩ := List.append_of_mem hm
  rcases h.before hn rfl with rfl | hp
  · exact h.proper hm
  · exact (List.nodup_append.mp h.nodup).2.2 ns hp ns List.mem_cons_self rfl

theorem Toured.all {t : Tour} {names : List String} {seeds : List Component} {ns : String}
    (h : Toured layout w₀ t names)
    (hs : ∀ first ∈ seeds.flatMap (·.requires), first = Namespace.core ∨ first ∈ names)
    (hn : Wanted layout w₀ seeds ns) : ns = Namespace.core ∨ ns ∈ names := by
  obtain ⟨first, hf, hr⟩ := hn
  induction hr with
  | refl => exact hs first hf
  | tail _ hn ih =>
      rcases ih with rfl | hm
      · exact absurd rfl hn.1
      · obtain ⟨pre, post, rfl⟩ := List.append_of_mem hm
        exact (h.after pre _ post rfl _ hn).imp_right (List.mem_append_left _)

/-- The order that a program can be loaded in, between the library and the seeds. -/
structure LoadOrder (layout : Layout) (w : Workspace) (seeds comps : List Component) : Prop where
  described : ∀ c ∈ comps, ∃ ns, Describes layout w ns c
  exact : ∀ ns, (∃ c ∈ comps, c.provides = [ns]) ↔ Wanted layout w seeds ns ∧ ns ≠ Namespace.core
  once : (comps.map (·.provides)).Nodup
  after : ∀ pre c post, comps = pre ++ c :: post → ∀ ns ∈ c.requires,
    ns = Namespace.core ∨ ∃ d ∈ pre, d.provides = [ns]

theorem Toured.loadOrder {t : Tour} {names : List String} {seeds : List Component}
    (h : Toured layout w₀ t names) (hn : ∀ ns ∈ names, Wanted layout w₀ seeds ns)
    (hs : ∀ first ∈ seeds.flatMap (·.requires), first = Namespace.core ∨ first ∈ names) :
    ∃ comps, t.ordered = .core :: comps ∧ LoadOrder layout w₀ seeds comps := by
  obtain ⟨comps, ho, hd, hp⟩ := h.ordered
  refine ⟨comps, ho, hd, fun ns => ?_, ?_, ?_⟩
  · have hmem : (∃ c ∈ comps, c.provides = [ns]) ↔ ns ∈ names := by
      rw [← List.mem_map (f := fun c : Component => c.provides), hp]
      simp
    rw [hmem]
    constructor
    · intro hm
      exact ⟨hn ns hm, fun he => h.proper (he ▸ hm)⟩
    · rintro ⟨hw, hne⟩
      exact (h.all hs hw).resolve_left hne
  · rw [hp]
    exact h.nodup.map fun a b he => List.singleton_inj.mp he
  · rintro pre c post rfl other ho
    obtain ⟨ns, path, forms, requires, hsource, rfl⟩ := hd c (by simp)
    rw [List.map_append, List.map_cons] at hp
    obtain ⟨front, back, rfl, hfront, hback⟩ := List.map_eq_append_iff.mp hp.symm
    obtain ⟨ns', back, rfl, he, -⟩ := List.map_eq_cons_iff.mp hback
    obtain rfl : ns' = ns := List.singleton_inj.mp he
    have hneeds : Needs layout w₀ ns' other :=
      ⟨fun he => h.proper (he ▸ by simp), path, forms, requires, hsource, ho⟩
    refine (h.after front ns' back rfl other hneeds).imp_right fun hm => ?_
    have hm : [other] ∈ pre.map (·.provides) := by
      rw [← hfront]
      exact List.mem_map_of_mem hm
    simpa using hm

structure Loadable (layout : Layout) (w : Workspace) (seeds : List Component) : Prop where
  consistent : w.analyzer.Consistent
  settled : Settled layout w
  compiles : ∀ ns, Wanted layout w seeds ns → ns ≠ Namespace.core → Compiles layout w ns
  room : ∀ ns other, Wanted layout w seeds ns ∧ ns ≠ Namespace.core →
    Wanted layout w seeds other ∧ other ≠ Namespace.core → Room layout w.files ns other

theorem Loadable.ready {seeds : List Component} (h : Loadable layout w₀ seeds) :
    Ready layout w₀ (Wanted layout w₀ seeds) :=
  ⟨h.consistent, h.settled, h.compiles, fun _ _ hw hn => hn.wanted hw, h.room⟩

def demands (layout : Layout) (w : Workspace) (ns : String) : List String :=
  ((source? layout w ns).map fun s => s.2.2).getD []

theorem needs_iff {ns other : String} :
    Needs layout w ns other ↔ ns ≠ Namespace.core ∧ other ∈ demands layout w ns := by
  constructor
  · rintro ⟨hne, path, forms, requires, hs, ho⟩
    rw [demands, source?_eq_some.mpr hs]
    exact ⟨hne, ho⟩
  · rintro ⟨hne, ho⟩
    unfold demands at ho
    cases hs : source? layout w ns with
    | none => simp [hs] at ho
    | some s =>
        rw [hs] at ho
        exact ⟨hne, s.1, s.2.1, s.2.2, source?_eq_some.mp hs, ho⟩

instance (ns other : String) : Decidable (Needs layout w ns other) :=
  decidable_of_iff _ needs_iff.symm

theorem Wanted.mem {seeds : List Component} {names : List String} {ns : String}
    (h : Wanted layout w seeds ns)
    (hseeds : ∀ first ∈ seeds.flatMap (·.requires), first ∈ names)
    (hnames : ∀ ns ∈ names, ∀ other ∈ demands layout w ns, other ∈ names) : ns ∈ names := by
  obtain ⟨first, hf, hr⟩ := h
  induction hr with
  | refl => exact hseeds first hf
  | tail _ hn ih => exact hnames _ ih _ (needs_iff.mp hn).2

theorem not_cyclic {seeds : List Component} (names : List String)
    (hseeds : ∀ first ∈ seeds.flatMap (·.requires), first ∈ names)
    (hnames : ∀ ns ∈ names, ∀ other ∈ demands layout w ns,
      other ∈ names ∧ names.idxOf other < names.idxOf ns) : ¬ Cyclic layout w seeds := by
  rintro ⟨ns, hw, hc⟩
  have hm := hw.mem hseeds fun ns hm other ho => (hnames ns hm other ho).1
  have hlow : ∀ other, TransGen (Needs layout w) ns other →
      other ∈ names ∧ names.idxOf other < names.idxOf ns := by
    intro other ht
    induction ht with
    | single hn => exact hnames ns hm _ (needs_iff.mp hn).2
    | tail _ hn ih =>
        obtain ⟨ho, hlt⟩ := hnames _ ih.1 _ (needs_iff.mp hn).2
        exact ⟨ho, hlt.trans ih.2⟩
  exact (hlow ns hc).2.false

def hasModule (layout : Layout) (w : Workspace) (ns : String) : Bool :=
  match source? layout w ns with
  | none => false
  | some (path, forms, _) =>
      ((Analysis.compile (some path) Namespace.user forms).run.run w.analyzer).1.isOk

theorem hasModule_iff {ns : String} :
    hasModule layout w ns = true ↔ Compiles layout w ns := by
  constructor
  · intro h
    unfold hasModule at h
    split at h
    · cases h
    · next path forms requires hs =>
        refine ⟨path, forms, requires, source?_eq_some.mp hs, ?_⟩
        rcases hrun : (Analysis.compile (some path) Namespace.user forms).run.run w.analyzer with
          ⟨e | m, a⟩
        · rw [hrun] at h
          cases h
        · exact ⟨m, a, rfl⟩
  · rintro ⟨path, forms, requires, hs, m, a, hrun⟩
    rw [hasModule, source?_eq_some.mpr hs]
    dsimp only
    rw [hrun]
    rfl

instance (ns : String) : Decidable (Compiles layout w ns) := decidable_of_iff _ hasModule_iff

abbrev Listed (layout : Layout) (w : Workspace) (seeds : List Component) (names : List String) :
    Prop :=
  w.files.Rooted ∧
  (∀ base ∈ layout.sources ++ [w.library], ".." ∉ parts (join w.files.cwd base)) ∧
  (∀ first ∈ seeds.flatMap (·.requires), first ∈ names) ∧
  (∀ ns ∈ names, ∀ other ∈ demands layout w ns, other ∈ names) ∧
  (∀ ns ∈ names, ns ≠ Namespace.core → Compiles layout w ns) ∧
  ∀ ns ∈ names, ∀ other ∈ names, Room layout w.files ns other

theorem Loadable.of_listed {seeds : List Component} {names : List String}
    (hc : w.analyzer.Consistent) (h : Listed layout w seeds names) : Loadable layout w seeds := by
  obtain ⟨hrooted, hlevel, hseeds, hnames, hcompiles, hroom⟩ := h
  exact ⟨hc, ⟨hrooted, fun base hb => .inl (hlevel base hb)⟩,
    fun ns hw => hcompiles ns (hw.mem hseeds hnames),
    fun ns other hn ho => hroom ns (hn.1.mem hseeds hnames) other (ho.1.mem hseeds hnames)⟩

theorem closure_leads {seeds : List Component} (h : Loadable layout w₀ seeds)
    (hp : ∀ s ∈ seeds, s.provides = []) :
    Leads (closure layout seeds) w₀
      (fun result _ => ¬ Cyclic layout w₀ seeds ∧
        ∃ comps, result = .core :: comps ++ seeds ∧ LoadOrder layout w₀ seeds comps)
      (fun e _ => ReportsCycle layout w₀ (Wanted layout w₀ seeds) e) := by
  have hgiven : seeds.flatMap (·.provides) = [] := by simpa [List.flatMap_eq_nil_iff] using hp
  have hstart : Reached layout (Wanted layout w₀ seeds) w₀ w₀ :=
    ⟨Housed.refl _ _ _, rfl, h.consistent⟩
  have hvisits : Visits layout (Wanted layout w₀ seeds) w₀ _ _ [] (seeds.flatMap (·.requires))
      ((seeds.flatMap (·.requires)).forM (visit layout (w₀.files.entries.length + 1) [])) :=
    visits_forM fun first hf =>
      visit_visits h.ready.guided _ ⟨first, hf, .refl⟩ (by simp) List.nodup_nil (by simp)
  apply leads_bind.mpr
  apply leads_get.mpr
  simp only [hgiven, List.contains_nil, Bool.not_false, List.filter_true]
  apply (hvisits w₀ {} [] hstart toured_start).bind
  · rintro ⟨_, t⟩ w ⟨-, names, ht, hnames, hgoals⟩
    rw [List.nil_append] at ht hgoals
    obtain ⟨comps, ho, hl⟩ := ht.loadOrder (fun ns hm => (hnames ns hm).1) hgoals
    refine leads_pure.mpr ⟨?_, comps, congrArg (· ++ seeds) ho, hl⟩
    rintro ⟨ns, hw, hc⟩
    rcases ht.all hgoals hw with rfl | hm
    · obtain ⟨other, hn, -⟩ := TransGen.head'_iff.mp hc
      exact hn.1 rfl
    · exact ht.acyclic hm hc
  · exact fun _ _ he => he

def Workspace.ofSources (directories : List (List String))
    (sources : List (List String × String)) : Workspace where
  files :=
    { entries := directories.map (fun place => ("w" :: place, .directory)) ++
        sources.map (fun s => ("w" :: s.1, .file (.text s.2) 1))
      cwd := "/w"
      now := 2 }
  analyzer := .ofLibrary Machine.libraryNames {}
  library := "/library"

def plain : Layout := ⟨["src"], "out"⟩

def diamond : Workspace :=
  .ofSources [[], ["src"]]
    [(["src", "a.sumi"], "(ns a (:require c b))"),
      (["src", "b.sumi"], "(ns b (:require c))\n(def y c/x)"),
      (["src", "c.sumi"], "(ns c)\n(def x 1)")]

theorem diamond_listed : Listed plain diamond [.seed ["a"]] ["c", "b", "a"] ∧
    ∀ ns ∈ ["c", "b", "a"], ∀ other ∈ demands plain diamond ns,
      other ∈ ["c", "b", "a"] ∧ ["c", "b", "a"].idxOf other < ["c", "b", "a"].idxOf ns := by
  decide +kernel

theorem diamond_loadable : Loadable plain diamond [.seed ["a"]] :=
  .of_listed (Analyzer.ofLibrary_consistent _ _) diamond_listed.1

theorem diamond_acyclic : ¬ Cyclic plain diamond [.seed ["a"]] :=
  not_cyclic ["c", "b", "a"] (by decide) diamond_listed.2

def ring : Workspace := .ofSources [[], ["src"]] [(["src", "a.sumi"], "(ns a (:require a))")]

theorem ring_listed :
    Listed plain ring [.seed ["a"]] ["a"] ∧ Needs plain ring "a" "a" := by
  decide +kernel

theorem ring_loadable : Loadable plain ring [.seed ["a"]] :=
  .of_listed (Analyzer.ofLibrary_consistent _ _) ring_listed.1

theorem ring_cyclic : Cyclic plain ring [.seed ["a"]] :=
  ⟨"a", ⟨"a", by decide, .refl⟩, .single ring_listed.2⟩

/-- Everything that the seeds need comes once, in an order in which it can be loaded; or else the
failure says that there is a cycle. -/
theorem closure_loadOrder (layout : Layout) (w : Workspace) (seeds : List Component)
    (h : Loadable layout w seeds) (hp : ∀ s ∈ seeds, s.provides = []) :
    (¬ Cyclic layout w seeds → ∃ comps w',
      (closure layout seeds).run.run w = (.ok (.core :: comps ++ seeds), w') ∧
        LoadOrder layout w seeds comps) ∧
    (Cyclic layout w seeds → ∃ path w',
      (closure layout seeds).run.run w = (.error (.project (.cycle path)), w')) := by
  have hl := closure_leads h hp
  rw [leads_iff] at hl
  rcases hrun : (closure layout seeds).run.run w with ⟨e | result, w'⟩ <;> rw [hrun] at hl
  · obtain ⟨⟨path, rfl⟩, hcycle⟩ := hl
    exact ⟨fun hno => absurd hcycle hno, fun _ => ⟨path, w', rfl⟩⟩
  · obtain ⟨hno, comps, rfl, horder⟩ := hl
    exact ⟨fun _ => ⟨comps, w', rfl, horder⟩, fun hcycle => absurd hcycle hno⟩

/-- Both ways to end do occur. -/
theorem diamond_ring_order :
    (∃ comps w', (closure plain [.seed ["a"]]).run.run diamond =
      (.ok (.core :: comps ++ [.seed ["a"]]), w') ∧ LoadOrder plain diamond [.seed ["a"]] comps) ∧
    ∃ path w', (closure plain [.seed ["a"]]).run.run ring = (.error (.project (.cycle path)), w') :=
  ⟨(closure_loadOrder plain diamond _ diamond_loadable (by decide)).1 diamond_acyclic,
    (closure_loadOrder plain ring _ ring_loadable (by decide)).2 ring_cyclic⟩

/-- Everything that the seeds need compiles, and there is no cycle; yet it comes to a failure. -/
def Stuck (layout : Layout) (w : Workspace) (seeds : List Component) (e : Fault) : Prop :=
  w.analyzer.Consistent ∧ (∀ s ∈ seeds, s.provides = []) ∧
    (∀ ns, Wanted layout w seeds ns → ns ≠ Namespace.core → Compiles layout w ns) ∧
    ¬ Cyclic layout w seeds ∧ ∃ w', (closure layout seeds).run.run w = (.error e, w')

def blocked : Workspace := .ofSources [[], ["src"]] [(["src", "a.sumi"], "(ns a)"), (["out"], "in the way")]

/-- There is another source of `c` below a path that leads nowhere until a module is written. -/
def shifted : Workspace :=
  .ofSources [[], ["src"], ["lib"]]
    [(["src", "a.sumi"], "(ns a (:require b c))"), (["src", "b.sumi"], "(ns b)"),
      (["src", "c.sumi"], "(ns c)"), (["lib", "c.sumi"], "(ns d)")]

abbrev Ordered (layout : Layout) (w : Workspace) (seeds : List Component) (names : List String) :
    Prop :=
  (∀ s ∈ seeds, s.provides = []) ∧ (∀ first ∈ seeds.flatMap (·.requires), first ∈ names) ∧
  (∀ ns ∈ names, ∀ other ∈ demands layout w ns,
    other ∈ names ∧ names.idxOf other < names.idxOf ns) ∧
  ∀ ns ∈ names, Compiles layout w ns

theorem Stuck.of_ordered {seeds : List Component} {names : List String} {e : Fault}
    (hc : w.analyzer.Consistent) (h : Ordered layout w seeds names)
    (hend : ((closure layout seeds).run.run w).1 = .error e) : Stuck layout w seeds e := by
  obtain ⟨hp, hseeds, hnames, hcompiles⟩ := h
  refine ⟨hc, hp, fun ns hw _ => ?_, not_cyclic names hseeds hnames, _, Prod.ext hend rfl⟩
  exact hcompiles ns (hw.mem hseeds fun ns hm other ho => (hnames ns hm other ho).1)

def failsWith {α : Type} : Except Fault α → Fault → Bool
  | .error (.file f p), .file f' p' => f == f' && p == p'
  | .error (.project f), .project f' => f == f'
  | _, _ => false

theorem error_of_failsWith {α : Type} {r : Except Fault α} {e : Fault}
    (h : failsWith r e = true) : r = .error e := by
  unfold failsWith at h
  split at h
  · simp_all
  · simp_all
  · cases h

theorem blocked_fails : Ordered plain blocked [.seed ["a"]] ["a"] ∧
    failsWith ((closure plain [.seed ["a"]]).run.run blocked).1 (.file .exists "out") = true := by
  decide +kernel

theorem shifted_fails :
    Ordered ⟨["out/../lib", "src"], "out"⟩ shifted [.seed ["a"]] ["b", "c", "a"] ∧
    failsWith ((closure ⟨["out/../lib", "src"], "out"⟩ [.seed ["a"]]).run.run shifted).1
      (.project (.otherHeader "d" "/w/lib/c.sumi" "c" (some 1))) = true := by
  decide +kernel

theorem sources_not_enough :
    Stuck plain blocked [.seed ["a"]] (.file .exists "out") ∧
    Stuck ⟨["out/../lib", "src"], "out"⟩ shifted [.seed ["a"]]
      (.project (.otherHeader "d" "/w/lib/c.sumi" "c" (some 1))) :=
  ⟨.of_ordered (Analyzer.ofLibrary_consistent _ _) blocked_fails.1
      (error_of_failsWith blocked_fails.2),
    .of_ordered (Analyzer.ofLibrary_consistent _ _) shifted_fails.1
      (error_of_failsWith shifted_fails.2)⟩

end Sumi.Project
