import Sumi.Proofs.Project.LoadOrder

namespace Sumi.Project

open Work

inductive Looks (layout : Layout) : Nat → List String → List String → Tour → Workspace →
    String → Except Fault Opened → Prop
  | first {fuel : Nat} {path goals : List String} {goal : String} {t : Tour} {w w' : Workspace}
      {r : Except Fault Opened} (hdone : goal ∉ t.done) (hpath : goal ∉ path)
      (hopen : (openSource layout goal).run.run w = (r, w')) :
      Looks layout (fuel + 1) path (goal :: goals) t w goal r
  | inside {fuel : Nat} {path goals : List String} {goal ns : String} {t : Tour}
      {w w' : Workspace} {s : Opened} {r : Except Fault Opened} (hdone : goal ∉ t.done)
      (hpath : goal ∉ path) (hopen : (openSource layout goal).run.run w = (.ok s, w'))
      (hlook : Looks layout fuel (path ++ [goal]) s.requires t w' ns r) :
      Looks layout (fuel + 1) path (goal :: goals) t w ns r
  | next {fuel : Nat} {path goals : List String} {goal ns : String} {t t' : Tour}
      {w w' : Workspace} {r : Except Fault Opened}
      (hvisit : ((visit layout fuel path goal).run t).run.run w = (.ok ((), t'), w'))
      (hlook : Looks layout fuel path goals t' w' ns r) :
      Looks layout fuel path (goal :: goals) t w ns r

def given (seeds : List Component) : List String := seeds.flatMap (·.provides)

def missing (seeds : List Component) : List String :=
  (seeds.flatMap (·.requires)).filter (!(given seeds).contains ·)

def Looked (layout : Layout) (w : Workspace) (seeds : List Component) (ns : String)
    (r : Except Fault Opened) : Prop :=
  Looks layout (w.files.entries.length + 1) [] (missing seeds) {} w ns r

variable {layout : Layout} {w w' : Workspace} {fuel : Nat} {path goals : List String} {t t' : Tour}
  {ns : String}

theorem not_mem_missing {seeds : List Component} (h : ns ∈ given seeds) : ns ∉ missing seeds := by
  intro hm
  have hno := (List.mem_filter.mp hm).2
  simp [h] at hno

/-- What is looked for is a goal, or what a source that was found requires. -/
theorem Looks.cause {r : Except Fault Opened} (h : Looks layout fuel path goals t w ns r) :
    ns ∈ goals ∨ ∃ other s, Looks layout fuel path goals t w other (.ok s) ∧ ns ∈ s.requires := by
  induction h with
  | first => exact .inl List.mem_cons_self
  | inside hdone hpath hopen _ ih =>
      right
      rcases ih with hm | ⟨other, s, hlook, hm⟩
      · exact ⟨_, _, .first hdone hpath hopen, hm⟩
      · exact ⟨other, s, .inside hdone hpath hopen hlook, hm⟩
  | next hvisit _ ih =>
      rcases ih with hm | ⟨other, s, hlook, hm⟩
      · exact .inl (List.mem_cons_of_mem _ hm)
      · exact .inr ⟨other, s, .next hvisit hlook, hm⟩

theorem Looks.widen {goal : String} {r : Except Fault Opened}
    (h : Looks layout fuel path [goal] t w ns r) : Looks layout fuel path (goal :: goals) t w ns r := by
  cases h with
  | first hdone hpath hopen => exact .first hdone hpath hopen
  | inside hdone hpath hopen hlook => exact .inside hdone hpath hopen hlook
  | next _ hlook => cases hlook

theorem Looks.split {goal : String} {r : Except Fault Opened}
    (h : Looks layout fuel path (goal :: goals) t w ns r)
    (hrun : ((visit layout fuel path goal).run t).run.run w = (.ok ((), t'), w')) :
    Looks layout fuel path [goal] t w ns r ∨ Looks layout fuel path goals t' w' ns r := by
  cases h with
  | first hdone hpath hopen => exact .inl (.first hdone hpath hopen)
  | inside hdone hpath hopen hlook => exact .inl (.inside hdone hpath hopen hlook)
  | next hvisit hlook =>
      cases hvisit.symm.trans hrun
      exact .inr hlook

structure Component.MadeOf (c : Component) (ns : String) (s : Opened) : Prop where
  kind : c.kind = .source
  provides : c.provides = [ns]
  requires : c.requires = s.requires
  source : c.source = some s.path

/-- A tour is done with what its components provide, all of which is provided once. -/
structure Tour.Tidy (t : Tour) : Prop where
  done : t.done = (t.ordered.flatMap (·.provides)).reverse
  nodup : t.done.Nodup

theorem tidy_start : Tour.Tidy {} where
  done := rfl
  nodup := List.nodup_singleton _

theorem Tour.Tidy.push (h : t.Tidy) {c : Component} (hc : c.provides = [ns]) (hns : ns ∉ t.done) :
    Tour.Tidy { t with ordered := t.ordered ++ [c], done := ns :: t.done } where
  done := by simp [h.done, hc]
  nodup := List.nodup_cons.mpr ⟨hns, h.nodup⟩

def Backed (layout : Layout) (fuel : Nat) (path goals : List String) (t : Tour) (w : Workspace)
    (done : List String) (c : Component) : Prop :=
  ∃ ns s, Looks layout fuel path goals t w ns (.ok s) ∧ ns ∉ path ∧ c.MadeOf ns s ∧
    ∀ other ∈ c.requires, other ∈ done

structure Walked (layout : Layout) (fuel : Nat) (path goals : List String) (t : Tour)
    (w : Workspace) (t' : Tour) : Prop where
  tidy : t'.Tidy
  further : ∀ ns ∈ t.done, ns ∈ t'.done
  ordered : ∃ more, t'.ordered = t.ordered ++ more ∧
    (∀ c ∈ more, Backed layout fuel path goals t w t'.done c) ∧
    ∀ ns r, Looks layout fuel path goals t w ns r → ∃ c ∈ more, ∃ s, r = .ok s ∧ c.MadeOf ns s
  goals : ∀ goal ∈ goals, goal ∈ t'.done

theorem walked_nil (ht : t.Tidy) : Walked layout fuel path [] t w t where
  tidy := ht
  further _ := id
  ordered := ⟨[], (List.append_nil _).symm, by simp, nofun⟩
  goals := by simp

theorem walked_done (ht : t.Tidy) (hns : ns ∈ t.done) :
    Walked layout fuel path [ns] t w t where
  tidy := ht
  further _ := id
  ordered := by
    refine ⟨[], (List.append_nil _).symm, by simp, fun other r hlook => ?_⟩
    cases hlook with
    | first hdone => exact absurd hns hdone
    | inside hdone => exact absurd hns hdone
    | next _ hlook => cases hlook
  goals := by simpa using hns

theorem Walked.cons {goal : String} (h : Walked layout fuel path [goal] t w t')
    (hrun : ((visit layout fuel path goal).run t).run.run w = (.ok ((), t'), w')) {t'' : Tour}
    (h' : Walked layout fuel path goals t' w' t'') :
    Walked layout fuel path (goal :: goals) t w t'' where
  tidy := h'.tidy
  further ns hns := h'.further ns (h.further ns hns)
  ordered := by
    obtain ⟨more, ho, hmore, hlooked⟩ := h.ordered
    obtain ⟨more', ho', hmore', hlooked'⟩ := h'.ordered
    refine ⟨more ++ more', by rw [ho', ho, List.append_assoc], ?_, ?_⟩
    · intro c hc
      rcases List.mem_append.mp hc with hc | hc
      · obtain ⟨ns, s, hlook, hpath, hmade, hmet⟩ := hmore c hc
        exact ⟨ns, s, hlook.widen, hpath, hmade, fun other ho => h'.further other (hmet other ho)⟩
      · obtain ⟨ns, s, hlook, hrest⟩ := hmore' c hc
        exact ⟨ns, s, .next hrun hlook, hrest⟩
    · intro ns r hlook
      rcases hlook.split hrun with hlook | hlook
      · obtain ⟨c, hc, hp⟩ := hlooked ns r hlook
        exact ⟨c, List.mem_append_left _ hc, hp⟩
      · obtain ⟨c, hc, hp⟩ := hlooked' ns r hlook
        exact ⟨c, List.mem_append_right _ hc, hp⟩
  goals := by
    intro g hg
    rcases List.mem_cons.mp hg with rfl | hg
    · exact h'.further g (h.goals g List.mem_cons_self)
    · exact h'.goals g hg

theorem Walked.push {s : Opened} (ht : t.Tidy) (hdone : ns ∉ t.done) (hpath : ns ∉ path)
    (hopen : (openSource layout ns).run.run w = (.ok s, w'))
    (h : Walked layout fuel (path ++ [ns]) s.requires t w' t') {c : Component}
    (hmade : c.MadeOf ns s) :
    Walked layout (fuel + 1) path [ns] t w
      { t' with ordered := t'.ordered ++ [c], done := ns :: t'.done } := by
  obtain ⟨more, ho, hmore, hlooked⟩ := h.ordered
  -- all that was added was looked up off the path, and `ns` is on it
  have hfresh : ns ∉ t'.done := by
    rw [h.tidy.done, ho, List.flatMap_append, List.reverse_append, ← ht.done, List.mem_append, not_or,
      List.mem_reverse, List.mem_flatMap]
    refine ⟨?_, hdone⟩
    rintro ⟨d, hd, hm⟩
    obtain ⟨other, _, -, hoff, hother, -⟩ := hmore d hd
    rw [hother.provides, List.mem_singleton] at hm
    exact hoff (List.mem_append_right _ (List.mem_singleton.mpr hm.symm))
  refine ⟨h.tidy.push hmade.provides hfresh, fun x hx => .tail _ (h.further x hx), ⟨more ++ [c], ?_, ?_, ?_⟩, ?_⟩
  · rw [ho, List.append_assoc]
  · intro d hd
    rcases List.mem_append.mp hd with hd | hd
    · obtain ⟨other, s', hlook, hoff, hmade', hmet⟩ := hmore d hd
      exact ⟨other, s', .inside hdone hpath hopen hlook,
        fun hm => hoff (List.mem_append_left _ hm), hmade', fun x hx => .tail _ (hmet x hx)⟩
    · rw [List.mem_singleton.mp hd]
      refine ⟨ns, s, .first hdone hpath hopen, hpath, hmade, fun x hx => .tail _ (h.goals x ?_)⟩
      rwa [← hmade.requires]
  · intro other r hlook
    cases hlook with
    | first _ _ hopen' =>
        cases hopen'.symm.trans hopen
        exact ⟨c, by simp, s, rfl, hmade⟩
    | inside _ _ hopen' hlook =>
        cases hopen'.symm.trans hopen
        obtain ⟨d, hd, hmade'⟩ := hlooked other r hlook
        exact ⟨d, List.mem_append_left _ hd, hmade'⟩
    | next _ hlook => cases hlook
  · simp

theorem leads_build {s : Opened} :
    Leads (build layout ns s) w (fun c _ => c.MadeOf ns s) (fun _ _ => True) := by
  unfold build
  apply leads_then
  intro m w₁
  apply leads_then
  intro _ w₂
  apply leads_bind.mpr
  exact leads_get.mpr (leads_pure.mpr ⟨rfl, rfl, rfl, rfl⟩)

theorem forM_walked {f : String → StateT Tour Work Unit}
    (hf : ∀ goal, f goal = visit layout fuel path goal)
    (h : ∀ goal t w, t.Tidy → Leads ((visit layout fuel path goal).run t) w
      (fun r _ => Walked layout fuel path [goal] t w r.2) (fun _ _ => True)) (ht : t.Tidy) :
    Leads ((goals.forM f).run t) w (fun r _ => Walked layout fuel path goals t w r.2)
      (fun _ _ => True) := by
  induction goals generalizing t w with
  | nil => exact leads_pure.mpr (walked_nil ht)
  | cons goal goals ih =>
      change Leads ((f goal >>= fun _ => goals.forM f).run t) w _ _
      rw [StateT.run_bind, hf]
      apply ((h goal t w ht).and leads_self).bind
      · rintro ⟨_, t'⟩ w' ⟨hwalked, hrun⟩
        apply (ih hwalked.tidy).mono
        · exact fun r _ hrest => hwalked.cons hrun hrest
        · exact fun _ _ he => he
      · exact fun _ _ _ => trivial

theorem visit_walked (fuel : Nat) {path : List String} {ns : String} (ht : t.Tidy) :
    Leads ((visit layout fuel path ns).run t) w
      (fun r _ => Walked layout fuel path [ns] t w r.2) (fun _ _ => True) := by
  induction fuel generalizing path ns t w with
  | zero => exact leads_throw.mpr trivial
  | succ fuel ih =>
      unfold visit
      simp only [StateT.run_bind, StateT.run_get, pure_bind]
      split
      · next hdone => exact leads_pure.mpr (walked_done ht (List.contains_iff_mem.mp hdone))
      · next hdone =>
          rw [List.contains_iff_mem] at hdone
          split
          · rw [StateT.run_bind]
            apply leads_bind.mpr
            apply leads_lift.mpr
            exact leads_throw.mpr trivial
          · next hpath =>
              rw [List.contains_iff_mem] at hpath
              rw [StateT.run_bind]
              apply leads_bind.mpr
              apply leads_lift.mpr
              apply leads_self.mono
              · intro s w₁ hopen
                rw [StateT.run_bind]
                apply (forM_walked (fun _ => rfl) (fun _ _ _ ht' => ih ht') ht).bind
                · rintro ⟨_, t'⟩ w₂ hwalked
                  rw [StateT.run_bind]
                  apply leads_bind.mpr
                  apply leads_lift.mpr
                  apply leads_build.mono
                  · intro c w₃ hmade
                    exact leads_pure.mpr (hwalked.push ht hdone hpath hopen hmade)
                  · exact fun _ _ _ => trivial
                · exact fun _ _ _ => trivial
              · exact fun _ _ _ => trivial

/-- The components of all that was looked up on behalf of seeds. -/
structure Found (layout : Layout) (w : Workspace) (seeds comps : List Component) : Prop where
  made : ∀ c ∈ comps, ∃ ns s, Looked layout w seeds ns (.ok s) ∧ c.MadeOf ns s
  looked : ∀ ns r, Looked layout w seeds ns r → ∃ c ∈ comps, ∃ s, r = .ok s ∧ c.MadeOf ns s
  distinct : (Namespace.core :: comps.flatMap (·.provides)).Nodup
  met : ∀ c ∈ comps, ∀ ns ∈ c.requires, ns = Namespace.core ∨ ∃ r, Looked layout w seeds ns r

theorem closure_found {seeds : List Component} :
    Leads (closure layout seeds) w
      (fun result _ => ∃ comps, result = .core :: comps ++ seeds ∧ Found layout w seeds comps)
      (fun _ _ => True) := by
  apply leads_bind.mpr
  apply leads_get.mpr
  apply (forM_walked (fun _ => rfl) (fun _ _ _ ht => visit_walked _ ht) tidy_start).bind
  · rintro ⟨_, t⟩ w' hwalked
    obtain ⟨comps, ho, hcomps, hlooked⟩ := hwalked.ordered
    have hmade : ∀ c ∈ comps, ∃ ns s, Looked layout w seeds ns (.ok s) ∧ c.MadeOf ns s := by
      intro c hc
      obtain ⟨ns, s, hlook, -, hm, -⟩ := hcomps c hc
      exact ⟨ns, s, hlook, hm⟩
    have hdone : t.done = (Namespace.core :: comps.flatMap (·.provides)).reverse := by
      rw [hwalked.tidy.done, ho]
      rfl
    refine leads_pure.mpr ⟨comps, by rw [ho]; rfl, hmade, hlooked, ?_, fun c hc ns hns => ?_⟩
    · rw [← List.nodup_reverse, ← hdone]
      exact hwalked.tidy.nodup
    · obtain ⟨-, -, -, -, -, hmet⟩ := hcomps c hc
      have hns := hmet ns hns
      rw [hdone, List.mem_reverse, List.mem_cons, List.mem_flatMap] at hns
      refine hns.imp_right ?_
      rintro ⟨d, hd, hm⟩
      obtain ⟨other, s, hlook, hmade⟩ := hmade d hd
      rw [hmade.provides, List.mem_singleton] at hm
      exact ⟨.ok s, hm ▸ hlook⟩
  · exact fun _ _ _ => trivial

variable {seeds comps : List Component}

theorem looked_cause (hg : ns ∈ given seeds) {r : Except Fault Opened}
    (h : Looked layout w seeds ns r) :
    ∃ other s, Looked layout w seeds other (.ok s) ∧ ns ∈ s.requires :=
  h.cause.resolve_left (not_mem_missing hg)

theorem Found.not_core (h : Found layout w seeds comps) (r : Except Fault Opened) :
    ¬ Looked layout w seeds Namespace.core r := by
  intro hlook
  obtain ⟨c, hc, s, -, hm⟩ := h.looked _ r hlook
  exact (List.nodup_cons.mp h.distinct).1 (List.mem_flatMap.mpr ⟨c, hc, by simp [hm.provides]⟩)

theorem Found.looked_iff (h : Found layout w seeds comps) (hg : ns ∈ given seeds) :
    (∃ r, Looked layout w seeds ns r) ↔ ns ≠ Namespace.core ∧ ∃ c ∈ comps, ns ∈ c.requires := by
  constructor
  · rintro ⟨r, hlook⟩
    obtain ⟨other, s, hother, hns⟩ := looked_cause hg hlook
    obtain ⟨c, hc, s', he, hm⟩ := h.looked other _ hother
    cases he
    exact ⟨fun he => h.not_core r (he ▸ hlook), c, hc, hm.requires ▸ hns⟩
  · rintro ⟨hne, c, hc, hns⟩
    exact (h.met c hc ns hns).resolve_left hne

theorem Found.nodup_iff (h : Found layout w seeds comps) :
    ((.core :: comps ++ seeds : List Component).flatMap (·.provides)).Nodup ↔ (given seeds).Nodup ∧
      Namespace.core ∉ given seeds ∧ ∀ c ∈ comps, ∀ ns ∈ c.requires, ns ∉ given seeds := by
  have hsplit : (.core :: comps ++ seeds : List Component).flatMap (·.provides) =
      (Namespace.core :: comps.flatMap (·.provides)) ++ given seeds := by
    rw [List.flatMap_append]
    rfl
  rw [hsplit, List.nodup_append', List.disjoint_cons_left]
  constructor
  · rintro ⟨-, hn, hcore, hdisj⟩
    refine ⟨hn, hcore, fun c hc ns hns hg => ?_⟩
    have hne : ns ≠ Namespace.core := fun he => hcore (he ▸ hg)
    obtain ⟨r, hlook⟩ := (h.looked_iff hg).mpr ⟨hne, c, hc, hns⟩
    obtain ⟨d, hd, s, -, hm⟩ := h.looked ns r hlook
    exact hdisj (List.mem_flatMap.mpr ⟨d, hd, by simp [hm.provides]⟩) hg
  · rintro ⟨hn, hcore, hno⟩
    refine ⟨h.distinct, hn, hcore, fun ns hm hg => ?_⟩
    obtain ⟨c, hc, hns⟩ := List.mem_flatMap.mp hm
    obtain ⟨other, s, hlook, hmade⟩ := h.made c hc
    rw [hmade.provides, List.mem_singleton] at hns
    obtain ⟨-, d, hd, hreq⟩ := (h.looked_iff hg).mp ⟨_, hns ▸ hlook⟩
    exact hno d hd ns hreq hg

/-- What seeds bring along is looked for only where a source requires it. In what they come to, they
stand behind the library and all that was looked up; what they bring along is there again exactly
if a source that was looked up requires it, or if it is the library. -/
theorem closure_given (layout : Layout) (w : Workspace) (seeds : List Component) :
    (∀ ns ∈ given seeds, ∀ r, Looked layout w seeds ns r →
      ∃ other s, Looked layout w seeds other (.ok s) ∧ ns ∈ s.requires) ∧
    ∀ result w', (closure layout seeds).run.run w = (.ok result, w') →
      ∃ comps, result = .core :: comps ++ seeds ∧
        (∀ c ∈ comps, ∃ ns s, Looked layout w seeds ns (.ok s) ∧ c.MadeOf ns s) ∧
        (∀ ns r, Looked layout w seeds ns r → ∃ c ∈ comps, ∃ s, r = .ok s ∧ c.MadeOf ns s) ∧
        (∀ ns ∈ given seeds, (∃ r, Looked layout w seeds ns r) ↔
          ns ≠ Namespace.core ∧ ∃ c ∈ comps, ns ∈ c.requires) ∧
        ((result.flatMap (·.provides)).Nodup ↔ (given seeds).Nodup ∧
          Namespace.core ∉ given seeds ∧ ∀ c ∈ comps, ∀ ns ∈ c.requires, ns ∉ given seeds) := by
  refine ⟨fun ns hg r hlook => looked_cause hg hlook, fun result w' hrun => ?_⟩
  obtain ⟨comps, rfl, hfound⟩ := (leads_of_ok hrun).mp closure_found
  exact ⟨comps, rfl, hfound.made, hfound.looked, fun ns hg => hfound.looked_iff hg, hfound.nodup_iff⟩

def pair : Workspace :=
  .ofSources [[], ["src"]] [(["src", "a.sumi"], "(ns a (:require b))"), (["src", "b.sumi"], "(ns b)")]

def bringer : Component where
  kind := .seed
  provides := ["b"]
  requires := ["a"]

theorem pair_provides :
    ((closure plain [bringer]).run.run pair).1.toOption.map (·.flatMap (·.provides)) =
      some [Namespace.core, "b", "a", "b"] := by
  decide +kernel

/-- What a seed brings along is looked up and provided again on behalf of a source. -/
theorem given_again : (given [bringer]).Nodup ∧ (∃ r, Looked plain pair [bringer] "b" r) ∧
    ∃ result w', (closure plain [bringer]).run.run pair = (.ok result, w') ∧
      ¬ (result.flatMap (·.provides)).Nodup := by
  have hend := pair_provides
  rcases hrun : (closure plain [bringer]).run.run pair with ⟨e | result, w'⟩ <;> rw [hrun] at hend
  · cases hend
  · obtain ⟨comps, rfl, hfound⟩ := (leads_of_ok hrun).mp closure_found
    have hprovides : comps.flatMap (·.provides) ++ ["b"] = ["b", "a"] ++ ["b"] := by
      simpa [Except.toOption, Component.core, bringer] using hend
    have hcomps := List.append_cancel_right hprovides
    refine ⟨by decide, ?_, _, w', rfl, ?_⟩
    · have hb : "b" ∈ comps.flatMap (·.provides) := by simp [hcomps]
      obtain ⟨c, hc, hb⟩ := List.mem_flatMap.mp hb
      obtain ⟨ns, s, hlook, hm⟩ := hfound.made c hc
      rw [hm.provides, List.mem_singleton] at hb
      exact ⟨.ok s, hb ▸ hlook⟩
    · simp [hcomps, Component.core, bringer]

end Sumi.Project
