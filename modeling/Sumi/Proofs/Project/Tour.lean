import Mathlib.Data.List.Nodup
import Mathlib.Data.List.Perm.Subperm
import Mathlib.Logic.Relation
import Sumi.Proofs.Project.Compile
import Sumi.Proofs.Rows

namespace Sumi.Project

open Sumi.Project.Path Files Work Relation

def Needs (layout : Layout) (w : Workspace) (ns other : String) : Prop :=
  ns ≠ Namespace.core ∧ ∃ path forms requires,
    Source layout w ns path forms requires ∧ other ∈ requires

def Wanted (layout : Layout) (w : Workspace) (seeds : List Component) (ns : String) : Prop :=
  ∃ first ∈ seeds.flatMap (·.requires), ReflTransGen (Needs layout w) first ns

def Cyclic (layout : Layout) (w : Workspace) (seeds : List Component) : Prop :=
  ∃ ns, Wanted layout w seeds ns ∧ TransGen (Needs layout w) ns ns

def Compiles (layout : Layout) (w : Workspace) (ns : String) : Prop :=
  ∃ path forms requires, Source layout w ns path forms requires ∧
    ∃ m a, (Analysis.compile (some path) Namespace.user forms).run.run w.analyzer = (.ok m, a)

def Describes (layout : Layout) (w : Workspace) (ns : String) (c : Component) : Prop :=
  ∃ path forms requires, Source layout w ns path forms requires ∧
    c = { kind := .source, provides := [ns], requires := requires,
          url := some (Url.ofPath (absolute w.files.cwd (modulePath layout ns))),
          source := some path }

variable {layout : Layout} {w₀ w : Workspace} {N : String → Prop}

theorem Needs.wanted {seeds : List Component} {ns other : String}
    (h : Wanted layout w₀ seeds ns) (hn : Needs layout w₀ ns other) :
    Wanted layout w₀ seeds other := by
  obtain ⟨first, hf, hr⟩ := h
  exact ⟨first, hf, hr.tail hn⟩

/-- What a tour knows when it has described `names`, in this order. -/
structure Toured (layout : Layout) (w : Workspace) (t : Tour) (names : List String) : Prop where
  ordered : ∃ comps, t.ordered = .core :: comps ∧ (∀ c ∈ comps, ∃ ns, Describes layout w ns c) ∧
    comps.map (·.provides) = names.map ([·])
  done : ∀ ns, ns ∈ t.done ↔ ns = Namespace.core ∨ ns ∈ names
  nodup : names.Nodup
  proper : Namespace.core ∉ names
  after : ∀ pre ns post, names = pre ++ ns :: post →
    ∀ other, Needs layout w ns other → other = Namespace.core ∨ other ∈ pre

theorem toured_start : Toured layout w₀ {} [] where
  ordered := ⟨[], rfl, by simp, rfl⟩
  done ns := by simp
  nodup := List.nodup_nil
  proper := List.not_mem_nil
  after pre ns post h := by simp at h

theorem Toured.push {t : Tour} {names : List String} (h : Toured layout w₀ t names) {ns : String}
    {c : Component} (hc : Describes layout w₀ ns c) (hcore : ns ≠ Namespace.core)
    (hns : ns ∉ names)
    (hneeds : ∀ other, Needs layout w₀ ns other → other = Namespace.core ∨ other ∈ names) :
    Toured layout w₀ { t with ordered := t.ordered ++ [c], done := ns :: t.done }
      (names ++ [ns]) where
  ordered := by
    obtain ⟨comps, ho, hd, hp⟩ := h.ordered
    have hprovides : c.provides = [ns] := by
      obtain ⟨path, forms, requires, -, rfl⟩ := hc
      rfl
    refine ⟨comps ++ [c], by simp [ho], fun d hm => ?_, by simp [hp, hprovides]⟩
    rcases List.mem_append.mp hm with hm | hm
    · exact hd d hm
    · exact ⟨ns, by rwa [List.mem_singleton.mp hm]⟩
  done other := by
    rw [List.mem_cons, h.done, List.mem_append, List.mem_singleton]
    constructor
    · rintro (h | h | h)
      · exact .inr (.inr h)
      · exact .inl h
      · exact .inr (.inl h)
    · rintro (h | h | h)
      · exact .inr (.inl h)
      · exact .inr (.inr h)
      · exact .inl h
  nodup := by
    rw [List.nodup_append]
    refine ⟨h.nodup, by simp, ?_⟩
    rintro a ha b hb rfl
    rw [List.mem_singleton.mp hb] at ha
    exact hns ha
  proper := by
    intro hm
    rcases List.mem_append.mp hm with hm | hm
    · exact h.proper hm
    · exact hcore (List.mem_singleton.mp hm).symm
  after pre other post he := by
    rcases split_concat he with ⟨rfl, rfl, -⟩ | ⟨post', -, he'⟩
    · exact hneeds
    · exact h.after pre other post' he'

def Owns (layout : Layout) (w : Workspace) (ns : String) (place : List String) : Prop :=
  ∃ path forms requires, Source layout w ns path forms requires ∧ w.files.locate path = .ok place

theorem Source.file {ns path : String} {forms : List Form} {requires : List String}
    (h : Source layout w ns path forms requires) :
    ∃ content time, w.files.find? path = some (.file content time) := by
  obtain ⟨text, ht, -⟩ := h.read
  unfold Files.readText at ht
  cases hr : w.files.read path with
  | error e =>
      rw [hr] at ht
      cases ht
  | ok content =>
      obtain ⟨time, hf⟩ := read_ok_iff.mp hr
      exact ⟨content, time, hf⟩

theorem Source.owns {ns path : String} {forms : List Form} {requires : List String}
    (h : Source layout w ns path forms requires) :
    ∃ place, Owns layout w ns place ∧ place ∈ w.files.entries.keys := by
  obtain ⟨content, time, hf⟩ := h.file
  obtain ⟨place, hl, he⟩ := find?_eq_some.mp hf
  refine ⟨place, ⟨path, forms, requires, h, hl⟩, ?_⟩
  have hget : w.files.entries.get? place = some (.file content time) := by
    unfold entry? at he
    split at he
    · cases he
    · exact he
  exact Table.mem_keys hget

theorem Owns.unique {ns other : String} {place : List String} (h : Owns layout w ns place)
    (h' : Owns layout w other place) : ns = other := by
  obtain ⟨path, forms, requires, hs, hl⟩ := h
  obtain ⟨path', forms', requires', hs', hl'⟩ := h'
  obtain ⟨text, ht, hf⟩ := hs.read
  obtain ⟨text', ht', hf'⟩ := hs'.read
  have hsame : w.files.readText path = w.files.readText path' := by
    unfold Files.readText Files.read
    rw [hl, hl']
  cases (ht.symm.trans hsame).trans ht'
  cases hf.symm.trans hf'
  exact hs.eq_of_forms hs'

theorem length_le_entries {names : List String} (hn : names.Nodup)
    (h : ∀ ns ∈ names, Compiles layout w ns) : names.length ≤ w.files.entries.length := by
  have howns : ∀ ns ∈ names, ∃ place, Owns layout w ns place ∧ place ∈ w.files.entries.keys := by
    intro ns hm
    obtain ⟨path, forms, requires, hs, -⟩ := h ns hm
    exact hs.owns
  choose! place hplace using howns
  have hinj : (names.map place).Nodup := by
    apply List.Nodup.map_on _ hn
    intro a ha b hb he
    exact (hplace a ha).1.unique (he ▸ (hplace b hb).1)
  have hsub : names.map place ⊆ w.files.entries.keys := by
    intro q hq
    obtain ⟨ns, hm, rfl⟩ := List.mem_map.mp hq
    exact (hplace ns hm).2
  have hlen := (hinj.subperm hsub).length_le
  rwa [List.length_map, Table.keys, List.length_map] at hlen

theorem leads_lift {α : Type} {m : Work α} {t : Tour} {Q : α × Tour → Workspace → Prop}
    {E : Fault → Workspace → Prop} :
    Leads ((liftM m : StateT Tour Work α).run t) w Q E ↔ Leads m w (fun a w' => Q (a, t) w') E := by
  have hrun : (liftM m : StateT Tour Work α).run t = m >>= fun a => pure (a, t) := rfl
  rw [hrun, leads_bind]
  simp only [leads_pure]

/-- How a tour through `N` goes: what opens and builds one namespace keeps `I`, and all failures are
such as `E` says, also those over a path that comes back to a namespace or is as long as `limit`. -/
structure Guided (layout : Layout) (N : String → Prop) (w₀ : Workspace) (limit : Nat)
    (I : Workspace → Prop) (E : Fault → Workspace → Prop) : Prop where
  needs : ∀ ns other, N ns → Needs layout w₀ ns other → N other
  opens : ∀ ns w, N ns ∧ ns ≠ Namespace.core → I w → Leads (openSource layout ns) w
    (fun s w' => Source layout w₀ ns s.path s.forms s.requires ∧ I w') E
  builds : ∀ ns (s : Opened) w, N ns ∧ ns ≠ Namespace.core →
    Source layout w₀ ns s.path s.forms s.requires → I w →
    Leads (build layout ns s) w (fun c w' => Describes layout w₀ ns c ∧ I w') E
  cycle : ∀ ns trace w, N ns → TransGen (Needs layout w₀) ns ns → I w →
    E (.project (.cycle trace)) w
  deep : ∀ (path : List String) w, path.Nodup → (∀ ns ∈ path, N ns ∧ ns ≠ Namespace.core) →
    limit ≤ path.length → I w → E (.failure (.fault .tooDeep)) w

variable {limit : Nat} {I : Workspace → Prop} {E : Fault → Workspace → Prop}

/-- From every state of the tour, `m` goes on until all of `goals` are described. It describes
nothing on the path. -/
def Visits (layout : Layout) (N : String → Prop) (w₀ : Workspace) (I : Workspace → Prop)
    (E : Fault → Workspace → Prop) (path goals : List String) (m : StateT Tour Work Unit) : Prop :=
  ∀ w t names, I w → Toured layout w₀ t names →
    Leads (m.run t) w
      (fun r w' => I w' ∧ ∃ more, Toured layout w₀ r.2 (names ++ more) ∧
        (∀ ns ∈ more, N ns ∧ ns ∉ path) ∧
        ∀ goal ∈ goals, goal = Namespace.core ∨ goal ∈ names ++ more) E

theorem visits_forM {path goals : List String} {f : String → StateT Tour Work Unit}
    (h : ∀ goal ∈ goals, Visits layout N w₀ I E path [goal] (f goal)) :
    Visits layout N w₀ I E path goals (goals.forM f) := by
  induction goals with
  | nil =>
      intro w t names hw ht
      exact leads_pure.mpr ⟨hw, [], by rwa [List.append_nil], by simp, by simp⟩
  | cons goal goals ih =>
      intro w t names hw ht
      change Leads ((f goal >>= fun _ => goals.forM f).run t) w _ _
      rw [StateT.run_bind]
      apply (h goal List.mem_cons_self w t names hw ht).bind
      · rintro ⟨_, t'⟩ w' ⟨hw', more, ht', hmore, hgoal⟩
        apply (ih (fun g hg => h g (List.mem_cons_of_mem _ hg)) w' t' _ hw' ht').mono
        · rintro ⟨_, t''⟩ w'' ⟨hw'', more', ht'', hmore', hgoals⟩
          rw [List.append_assoc] at ht'' hgoals
          refine ⟨hw'', more ++ more', ht'', ?_, ?_⟩
          · intro ns hm
            exact (List.mem_append.mp hm).elim (hmore ns) (hmore' ns)
          · intro g hg
            rcases List.mem_cons.mp hg with rfl | hg
            · refine (hgoal g (by simp)).imp_right fun hm => ?_
              rw [← List.append_assoc]
              exact List.mem_append_left _ hm
            · exact hgoals g hg
        · exact fun _ _ he => he
      · exact fun _ _ he => he

/-- A namespace that is not described yet comes behind all that it requires. -/
theorem fresh_visits (hg : Guided layout N w₀ limit I E) {path names : List String} {ns : String}
    (hn : N ns ∧ ns ≠ Namespace.core) (hpath : ns ∉ path)
    {f : String → StateT Tour Work Unit}
    (hf : ∀ other, Needs layout w₀ ns other →
      Visits layout N w₀ I E (path ++ [ns]) [other] (f other))
    {t : Tour} (hw : I w) (ht : Toured layout w₀ t names) (hns : ns ∉ names) :
    Leads (StateT.run (do
        let s ← liftM (openSource layout ns)
        s.requires.forM f
        let c ← liftM (build layout ns s)
        modify fun t => { t with ordered := t.ordered ++ [c], done := ns :: t.done }) t) w
      (fun r w' => I w' ∧ ∃ more, Toured layout w₀ r.2 (names ++ more) ∧
        (∀ x ∈ more, N x ∧ x ∉ path) ∧ ns ∈ names ++ more) E := by
  -- the source is opened, all that it requires is visited, and then it is built: `names` grows in
  -- this order
  rw [StateT.run_bind]
  apply leads_bind.mpr
  apply leads_lift.mpr
  apply (hg.opens ns w hn hw).mono
  · rintro s w₁ ⟨hs, hw₁⟩
    have hneeds : ∀ other ∈ s.requires, Needs layout w₀ ns other :=
      fun other ho => ⟨hn.2, _, _, _, hs, ho⟩
    rw [StateT.run_bind]
    apply (visits_forM (fun other ho => hf other (hneeds other ho)) w₁ t names hw₁ ht).bind
    · rintro ⟨_, t'⟩ w₂ ⟨hw₂, more, ht', hmore, hgoals⟩
      rw [StateT.run_bind]
      apply leads_bind.mpr
      apply leads_lift.mpr
      apply (hg.builds ns s w₂ hn hs hw₂).mono
      · rintro c w₃ ⟨hc, hw₃⟩
        -- the namespace was on the path meanwhile, so nothing that it requires has described it
        have hfresh : ns ∉ names ++ more := by
          intro hm
          rcases List.mem_append.mp hm with hm | hm
          · exact hns hm
          · exact (hmore ns hm).2 (List.mem_append_right _ (List.mem_singleton_self ns))
        have hpush := ht'.push hc hn.2 hfresh (by
          rintro other ⟨-, path', forms', requires', hs', ho⟩
          obtain ⟨-, -, rfl⟩ := hs.unique hs'
          exact hgoals other ho)
        rw [List.append_assoc] at hpush
        refine leads_pure.mpr ⟨hw₃, more ++ [ns], hpush, ?_, by simp⟩
        intro x hx
        rcases List.mem_append.mp hx with hx | hx
        · exact ⟨(hmore x hx).1, fun hp => (hmore x hx).2 (List.mem_append_left _ hp)⟩
        · rw [List.mem_singleton.mp hx]
          exact ⟨hn.1, hpath⟩
      · exact fun _ _ h => h
    · exact fun _ _ h => h
  · exact fun _ _ h => h

theorem visit_visits (hg : Guided layout N w₀ limit I E) (fuel : Nat) {path : List String}
    {ns : String} (hn : N ns)
    (hp : ∀ x ∈ path, (N x ∧ x ≠ Namespace.core) ∧ TransGen (Needs layout w₀) x ns)
    (hnd : path.Nodup) (hfuel : limit ≤ path.length + fuel) :
    Visits layout N w₀ I E path [ns] (visit layout fuel path ns) := by
  -- the path grows with every call and holds no namespace twice, so the fuel is used up only on a
  -- path that is too long for the namespaces there are
  induction fuel generalizing path ns with
  | zero =>
      intro w t names hw ht
      exact leads_throw.mpr (hg.deep path w hnd (fun x hx => (hp x hx).1) hfuel hw)
  | succ fuel ih =>
      intro w t names hw ht
      unfold visit
      simp only [StateT.run_bind, StateT.run_get, pure_bind]
      split
      · next hdone =>
          have hdone := (ht.done ns).mp (List.contains_iff_mem.mp hdone)
          exact leads_pure.mpr ⟨hw, [], by rwa [List.append_nil], by simp, by simpa using hdone⟩
      · next hdone =>
          rw [List.contains_iff_mem, ht.done, not_or] at hdone
          split
          · next hcycle =>
              rw [StateT.run_bind]
              apply leads_bind.mpr
              apply leads_lift.mpr
              have hback := (hp ns (List.contains_iff_mem.mp hcycle)).2
              exact leads_throw.mpr (hg.cycle ns _ w hn hback hw)
          · next hcycle =>
              rw [List.contains_iff_mem] at hcycle
              have hrec : ∀ other, Needs layout w₀ ns other →
                  Visits layout N w₀ I E (path ++ [ns]) [other]
                    (visit layout fuel (path ++ [ns]) other) := by
                intro other ho
                apply ih (hg.needs ns other hn ho)
                · intro x hx
                  rcases List.mem_append.mp hx with hx | hx
                  · exact ⟨(hp x hx).1, (hp x hx).2.tail ho⟩
                  · rw [List.mem_singleton.mp hx]
                    exact ⟨⟨hn, hdone.1⟩, .single ho⟩
                · simpa [List.nodup_append] using ⟨hnd, fun x hx he => hcycle (he ▸ hx)⟩
                · rw [List.length_append, List.length_singleton]
                  omega
              apply (fresh_visits hg ⟨hn, hdone.1⟩ hcycle hrec hw ht hdone.2).mono
              · rintro r w' ⟨hw', more, ht', hmore, hm⟩
                exact ⟨hw', more, ht', hmore, by simpa using .inr (List.mem_append.mp hm)⟩
              · exact fun _ _ h => h

structure Ready (layout : Layout) (w : Workspace) (N : String → Prop) : Prop where
  consistent : w.analyzer.Consistent
  settled : Settled layout w
  compiles : ∀ ns, N ns → ns ≠ Namespace.core → Compiles layout w ns
  needs : ∀ ns other, N ns → Needs layout w ns other → N other
  room : ∀ ns other, N ns ∧ ns ≠ Namespace.core → N other ∧ other ≠ Namespace.core →
    Room layout w.files ns other

structure Reached (layout : Layout) (N : String → Prop) (w₀ w : Workspace) : Prop where
  housed : Housed layout (fun ns => N ns ∧ ns ≠ Namespace.core) w₀.files w.files
  library : w.library = w₀.library
  analyzer : w.analyzer.Consistent

theorem Reached.later (h : Reached layout N w₀ w) : w₀.Later w :=
  ⟨h.housed.grown, h.library, h.analyzer⟩

def ReportsCycle (layout : Layout) (w : Workspace) (N : String → Prop) (e : Fault) : Prop :=
  (∃ path, e = .project (.cycle path)) ∧ ∃ ns, N ns ∧ TransGen (Needs layout w) ns ns

theorem open_reached (hr : Ready layout w₀ N) {ns : String} (hn : N ns ∧ ns ≠ Namespace.core)
    (hw : Reached layout N w₀ w) :
    Leads (openSource layout ns) w
      (fun s w' => Source layout w₀ ns s.path s.forms s.requires ∧ Reached layout N w₀ w')
      (fun _ _ => False) := by
  obtain ⟨path, forms, requires, hs₀, -⟩ := hr.compiles ns hn.1 hn.2
  have hsource := hs₀.later hr.settled hw.later
  apply (openSource_leads hw.analyzer).mono
  · rintro s w₁ ⟨hs, hsame⟩
    obtain ⟨hpath, hforms, hreq⟩ := hsource.unique hs
    refine ⟨by rwa [hpath, hforms, hreq], hsame.files ▸ hw.housed, ?_, hsame.analyzer⟩
    exact hsame.library.trans hw.library
  · rintro e w₁ ⟨hno, -⟩
    exact hno _ _ _ hsource

theorem build_reached (hr : Ready layout w₀ N) {ns : String} (hn : N ns ∧ ns ≠ Namespace.core)
    {s : Opened} (hs : Source layout w₀ ns s.path s.forms s.requires)
    (hw : Reached layout N w₀ w) :
    Leads (build layout ns s) w
      (fun c w' => Describes layout w₀ ns c ∧ Reached layout N w₀ w') (fun _ _ => False) := by
  obtain ⟨place, ht⟩ := (hr.room ns ns hn hn).target
  obtain ⟨path, forms, requires, hs', m₀, a₀, hm₀⟩ := hr.compiles ns hn.1 hn.2
  obtain ⟨rfl, rfl, rfl⟩ := hs.unique hs'
  obtain ⟨m₁, a₁, hm₁, -, -⟩ :=
    (Analysis.compile_alike _ _ s.forms).ok hr.consistent hw.analyzer hm₀
  apply (build_leads hw.analyzer).mono
  · rintro c w' ⟨m, a, -, hwritten, rfl, hl, ha⟩
    obtain ⟨g, k, hg, hk, hh⟩ := hw.housed.write hr.room hn ht m
    have hh' : Housed layout (fun ns => N ns ∧ ns ≠ Namespace.core) w₀.files w'.files := by
      by_cases hstale : isStale w.files s.path (modulePath layout ns) = true
      · obtain ⟨g', hg', hk'⟩ := hwritten.stale hstale
        cases hg.symm.trans hg'
        cases hk.symm.trans hk'
        exact hh
      · rw [hwritten.fresh hstale]
        exact hw.housed
    refine ⟨⟨s.path, s.forms, s.requires, hs, ?_⟩, hh', hl.trans hw.library, ha⟩
    rw [hh'.grown.cwd]
  · rintro e w' ⟨-, -, ⟨⟨e', a, he⟩, -⟩ | ⟨m, a, -, hun⟩⟩
    · cases hm₁.symm.trans he
    · obtain ⟨g, k, hg, hk, -⟩ := hw.housed.write hr.room hn ht m
      rcases hun with ⟨-, hno⟩ | ⟨hg', hno⟩
      · exact hno g hg
      · cases hg.symm.trans hg'
        exact hno k hk

theorem Ready.guided (hr : Ready layout w₀ N) :
    Guided layout N w₀ (w₀.files.entries.length + 1) (Reached layout N w₀)
      (fun e _ => ReportsCycle layout w₀ N e) where
  needs := hr.needs
  opens _ _ hn hw := (open_reached hr hn hw).mono (fun _ _ h => h) fun _ _ h => h.elim
  builds _ _ _ hn hs hw := (build_reached hr hn hs hw).mono (fun _ _ h => h) fun _ _ h => h.elim
  cycle ns trace _ hn hback _ := ⟨⟨trace, rfl⟩, ns, hn, hback⟩
  deep path _ hnd hp hlimit _ := by
    have hlen := length_le_entries hnd fun x hx => hr.compiles x (hp x hx).1 (hp x hx).2
    omega

end Sumi.Project
