import Sumi.Proofs.Project.Tour

namespace Sumi.Project

variable {layout : Layout} {w w₁ w₂ : Workspace} {path : List String} {t t₁ t₂ : Tour}

inductive Stop
  | opened (ns : String) (s : Opened)
  | built (ns : String) (s : Opened) (c : Component)

namespace Stop

def Takes (layout : Layout) : Stop → Workspace → Workspace → Prop
  | opened ns s, w, w' => (openSource layout ns).run.run w = (.ok s, w')
  | built ns s c, w, w' => (build layout ns s).run.run w = (.ok c, w')

def component? : Stop → Option Component
  | built _ _ c => some c
  | opened _ _ => none

def name? : Stop → Option String
  | built ns _ _ => some ns
  | opened _ _ => none

end Stop

def Runs (layout : Layout) : List Stop → Workspace → Workspace → Prop
  | [], w, w' => w = w'
  | stop :: stops, w, w' => ∃ v, stop.Takes layout w v ∧ Runs layout stops v w'

theorem runs_append {stops more : List Stop} : Runs layout (stops ++ more) w w₂ ↔
    ∃ w₁, Runs layout stops w w₁ ∧ Runs layout more w₁ w₂ := by
  induction stops generalizing w with
  | nil => simp [Runs]
  | cons stop stops ih =>
      simp only [List.cons_append, Runs, ih]
      constructor
      · rintro ⟨v, hv, w₁, h₁, h₂⟩
        exact ⟨w₁, ⟨v, hv, h₁⟩, h₂⟩
      · rintro ⟨w₁, ⟨v, hv, h₁⟩, h₂⟩
        exact ⟨v, hv, w₁, h₁, h₂⟩

def builds (stops : List Stop) : List String := stops.filterMap Stop.name?

def components (stops : List Stop) : List Component := stops.filterMap Stop.component?

section Reading

variable (ns : String) (s : Opened) (c : Component) (stops more : List Stop)

@[simp] theorem builds_nil : builds [] = [] := rfl

@[simp] theorem builds_opened : builds (.opened ns s :: stops) = builds stops := rfl

@[simp] theorem builds_built : builds (.built ns s c :: stops) = ns :: builds stops := rfl

@[simp] theorem builds_append : builds (stops ++ more) = builds stops ++ builds more :=
  List.filterMap_append

@[simp] theorem components_nil : components [] = [] := rfl

@[simp] theorem components_opened : components (.opened ns s :: stops) = components stops := rfl

@[simp] theorem components_built : components (.built ns s c :: stops) = c :: components stops := rfl

@[simp] theorem components_append :
    components (stops ++ more) = components stops ++ components more :=
  List.filterMap_append

end Reading

/-- What is described was built, behind what is described before it. -/
theorem components_split {stops : List Stop} {front back : List Component} {c : Component}
    (h : components stops = front ++ c :: back) :
    ∃ before ns s after, stops = before ++ .built ns s c :: after ∧ components before = front := by
  induction stops generalizing front with
  | nil => simp at h
  | cons stop stops ih =>
      cases stop with
      | opened ns s =>
          rw [components_opened] at h
          obtain ⟨before, ns', s', after, rfl, hfront⟩ := ih h
          exact ⟨.opened ns s :: before, ns', s', after, rfl, hfront⟩
      | built ns s d =>
          rw [components_built] at h
          cases front with
          | nil =>
              cases h
              exact ⟨[], ns, s, stops, rfl, rfl⟩
          | cons first front =>
              rw [List.cons_append, List.cons.injEq] at h
              obtain ⟨rfl, h⟩ := h
              obtain ⟨before, ns', s', after, rfl, rfl⟩ := ih h
              exact ⟨.built ns s d :: before, ns', s', after, rfl, rfl⟩

structure Leg (path : List String) (t t₁ : Tour) (stops : List Stop) : Prop where
  ordered : t₁.ordered = t.ordered ++ components stops
  done : ∀ ns, ns ∈ t₁.done ↔ ns ∈ t.done ∨ ns ∈ builds stops
  fresh : ∀ ns ∈ builds stops, ns ∉ t.done ∧ ns ∉ path
  nodup : (builds stops).Nodup
  opened : ∀ ns s c, .built ns s c ∈ stops → .opened ns s ∈ stops

theorem Leg.refl (path : List String) (t : Tour) : Leg path t t [] where
  ordered := (List.append_nil _).symm
  done ns := by simp
  fresh ns hns := by cases hns
  nodup := List.nodup_nil
  opened ns s c h := by cases h

theorem Leg.trans {stops more : List Stop} (h : Leg path t t₁ stops) (h' : Leg path t₁ t₂ more) :
    Leg path t t₂ (stops ++ more) where
  ordered := by rw [h'.ordered, h.ordered, components_append, List.append_assoc]
  done ns := by rw [h'.done, h.done, builds_append, List.mem_append, or_assoc]
  fresh ns hns := by
    rw [builds_append] at hns
    rcases List.mem_append.mp hns with hns | hns
    · exact h.fresh ns hns
    · obtain ⟨hdone, hpath⟩ := h'.fresh ns hns
      exact ⟨fun hd => hdone ((h.done ns).mpr (.inl hd)), hpath⟩
  nodup := by
    rw [builds_append]
    refine List.nodup_append.mpr ⟨h.nodup, h'.nodup, ?_⟩
    rintro ns hns _ hns' rfl
    exact (h'.fresh ns hns').1 ((h.done ns).mpr (.inr hns))
  opened ns s c hm := by
    rcases List.mem_append.mp hm with hm | hm
    · exact List.mem_append_left _ (h.opened ns s c hm)
    · exact List.mem_append_right _ (h'.opened ns s c hm)

/-- If `m` goes well, it does so by stops that lead through each `m' k` from wherever they can be
made. -/
def Routes (layout : Layout) (path : List String) (m : StateT Tour Work Unit)
    (m' : Nat → StateT Tour Work Unit) : Prop :=
  ∀ t t₁ w w₁, (m.run t).run.run w = (.ok ((), t₁), w₁) → ∃ stops, Runs layout stops w w₁ ∧
    Leg path t t₁ stops ∧
    ∀ k v v₁, Runs layout stops v v₁ → ((m' k).run t).run.run v = (.ok ((), t₁), v₁)

theorem routes_forM {names : List String} {f : String → StateT Tour Work Unit}
    {g : Nat → String → StateT Tour Work Unit}
    (h : ∀ ns ∈ names, Routes layout path (f ns) (g · ns)) :
    Routes layout path (names.forM f) (fun k => names.forM (g k)) := by
  induction names with
  | nil =>
      intro t t₁ w w₁ hrun
      cases hrun
      refine ⟨[], rfl, .refl path t, ?_⟩
      rintro k v _ rfl
      rfl
  | cons ns names ih =>
      intro t t₂ w w₂ hrun
      change ((f ns >>= fun _ => names.forM f).run t).run.run w = _ at hrun
      rw [StateT.run_bind, run_bind_ok_iff] at hrun
      obtain ⟨⟨_, t₁⟩, w₁, hfirst, hrest⟩ := hrun
      obtain ⟨stops, hstops, hleg, hagain⟩ := h ns List.mem_cons_self t t₁ w w₁ hfirst
      obtain ⟨more, hmore, hleg', hagain'⟩ :=
        ih (fun x hx => h x (List.mem_cons_of_mem _ hx)) t₁ t₂ w₁ w₂ hrest
      refine ⟨stops ++ more, runs_append.mpr ⟨w₁, hstops, hmore⟩, hleg.trans hleg', ?_⟩
      intro k v v₂ hv
      obtain ⟨v₁, hv₁, hv₂⟩ := runs_append.mp hv
      change ((g k ns >>= fun _ => names.forM (g k)).run t).run.run v = _
      rw [StateT.run_bind, run_bind_ok_iff]
      exact ⟨((), t₁), v₁, hagain k v v₁ hv₁, hagain' k v₁ v₂ hv₂⟩

theorem run_lift {α : Type} {m : Work α} {a : α} {t' : Tour} :
    ((liftM m : StateT Tour Work α).run t).run.run w = (.ok (a, t'), w₁) ↔
      m.run.run w = (.ok a, w₁) ∧ t = t' := by
  have hrun : (liftM m : StateT Tour Work α).run t = m >>= fun a => pure (a, t) := rfl
  rw [hrun, run_bind_ok_iff]
  constructor
  · rintro ⟨x, v, hx, hb⟩
    cases hb
    exact ⟨hx, rfl⟩
  · rintro ⟨ha, rfl⟩
    exact ⟨a, w₁, ha, rfl⟩

def visitWith (layout : Layout) (ns : String) (f : String → StateT Tour Work Unit) :
    StateT Tour Work Unit := do
  let s ← liftM (openSource layout ns)
  s.requires.forM f
  let c ← liftM (build layout ns s)
  modify fun t => { t with ordered := t.ordered ++ [c], done := ns :: t.done }

theorem visitWith_ok_iff {ns : String} {f : String → StateT Tour Work Unit} :
    ((visitWith layout ns f).run t).run.run w = (.ok ((), t₂), w₂) ↔
      ∃ s w₁ t₁ w' c, (openSource layout ns).run.run w = (.ok s, w₁) ∧
        ((s.requires.forM f).run t).run.run w₁ = (.ok ((), t₁), w') ∧
        (build layout ns s).run.run w' = (.ok c, w₂) ∧
        t₂ = { t₁ with ordered := t₁.ordered ++ [c], done := ns :: t₁.done } := by
  simp only [visitWith, StateT.run_bind, run_bind_ok_iff, Prod.exists, run_lift]
  constructor
  · rintro ⟨s, _, w₁, ⟨hopen, rfl⟩, _, t₁, w', hmore, c, _, _, ⟨hbuild, rfl⟩, hlast⟩
    cases hlast
    exact ⟨s, w₁, t₁, w', c, hopen, hmore, hbuild, rfl⟩
  · rintro ⟨s, w₁, t₁, w', c, hopen, hmore, hbuild, rfl⟩
    exact ⟨s, t, w₁, ⟨hopen, rfl⟩, (), t₁, w', hmore, c, t₁, w₂, ⟨hbuild, rfl⟩, rfl⟩

theorem Leg.around {ns : String} {s : Opened} {c : Component} {stops : List Stop}
    (h : Leg (path ++ [ns]) t t₁ stops) (hdone : ns ∉ t.done) (hpath : ns ∉ path) :
    Leg path t { t₁ with ordered := t₁.ordered ++ [c], done := ns :: t₁.done }
      (.opened ns s :: (stops ++ [.built ns s c])) := by
  have hbuilds : builds (.opened ns s :: (stops ++ [.built ns s c])) = builds stops ++ [ns] := by
    simp
  constructor
  · simp [h.ordered]
  · intro x
    rw [hbuilds, List.mem_cons, h.done, List.mem_append, List.mem_singleton, or_comm, or_assoc]
  · intro x hx
    rw [hbuilds] at hx
    rcases List.mem_append.mp hx with hx | hx
    · obtain ⟨hd, hp⟩ := h.fresh x hx
      exact ⟨hd, fun hm => hp (List.mem_append_left _ hm)⟩
    · rw [List.mem_singleton.mp hx]
      exact ⟨hdone, hpath⟩
  · rw [hbuilds, List.nodup_append]
    refine ⟨h.nodup, List.nodup_singleton ns, ?_⟩
    intro x hx y hy
    rw [List.mem_singleton.mp hy]
    rintro rfl
    exact (h.fresh x hx).2 (List.mem_append_right _ (List.mem_singleton_self x))
  · intro x s' c' hm
    rcases List.mem_cons.mp hm with hm | hm
    · cases hm
    · rcases List.mem_append.mp hm with hm | hm
      · exact List.mem_cons_of_mem _ (List.mem_append_left _ (h.opened x s' c' hm))
      · cases List.mem_singleton.mp hm
        exact List.mem_cons_self

theorem visitWith_routes {ns : String} {f : String → StateT Tour Work Unit}
    {g : Nat → String → StateT Tour Work Unit} (hpath : ns ∉ path) (hdone : ns ∉ t.done)
    (h : ∀ other, Routes layout (path ++ [ns]) (f other) (g · other))
    (hrun : ((visitWith layout ns f).run t).run.run w = (.ok ((), t₂), w₂)) :
    ∃ stops, Runs layout stops w w₂ ∧ Leg path t t₂ stops ∧
      ∀ k v v₂, Runs layout stops v v₂ →
        ((visitWith layout ns (g k)).run t).run.run v = (.ok ((), t₂), v₂) := by
  obtain ⟨s, w₁, t₁, w', c, hopen, hmore, hbuild, rfl⟩ := visitWith_ok_iff.mp hrun
  obtain ⟨stops, hstops, hleg, hagain⟩ := routes_forM (fun other _ => h other) _ _ _ _ hmore
  refine ⟨.opened ns s :: (stops ++ [.built ns s c]), ⟨w₁, hopen, ?_⟩, hleg.around hdone hpath, ?_⟩
  · exact runs_append.mpr ⟨w', hstops, w₂, hbuild, rfl⟩
  · rintro k v v₂ ⟨v₁, hv₁, hv⟩
    obtain ⟨v', hv', _, hv₂, rfl⟩ := runs_append.mp hv
    exact visitWith_ok_iff.mpr ⟨s, v₁, t₁, v', c, hv₁, hagain k v₁ v' hv', hv₂, rfl⟩

theorem visit_routes (layout : Layout) (fuel : Nat) (path : List String) (ns : String) :
    Routes layout path (visit layout fuel path ns) (fun k => visit layout (fuel + k) path ns) := by
  induction fuel generalizing path ns with
  | zero =>
      intro t t₁ w w₁ hrun
      cases hrun
  | succ fuel ih =>
      intro t t₁ w w₁ hrun
      simp only [Nat.succ_add]
      unfold visit at hrun ⊢
      simp only [StateT.run_bind, StateT.run_get, pure_bind] at hrun ⊢
      by_cases hdone : t.done.contains ns = true
      · simp only [if_pos hdone] at hrun ⊢
        cases hrun
        refine ⟨[], rfl, .refl path t, ?_⟩
        rintro k v _ rfl
        rfl
      · simp only [if_neg hdone] at hrun ⊢
        by_cases hcycle : path.contains ns = true
        · rw [if_pos hcycle] at hrun
          cases hrun
        · simp only [if_neg hcycle] at hrun ⊢
          rw [List.contains_iff_mem] at hdone hcycle
          exact visitWith_routes hcycle hdone (ih (path ++ [ns])) hrun

/-- A closure that was found is found again by the same stops, in a tree with no fewer entries. -/
theorem closure_routes {seeds comps : List Component}
    (hrun : (closure layout seeds).run.run w = (.ok comps, w₁)) :
    ∃ stops t₁, Runs layout stops w w₁ ∧ Leg [] {} t₁ stops ∧
      comps = .core :: components stops ++ seeds ∧
      ∀ v v₁, w.files.entries.length ≤ v.files.entries.length → Runs layout stops v v₁ →
        (closure layout seeds).run.run v = (.ok comps, v₁) := by
  obtain ⟨_, _, hget, hrun⟩ := run_bind_ok_iff.mp hrun
  cases hget
  obtain ⟨⟨_, t₁⟩, _, htour, hrun⟩ := run_bind_ok_iff.mp hrun
  cases hrun
  obtain ⟨stops, hstops, hleg, hagain⟩ :=
    routes_forM (fun ns _ => visit_routes layout _ [] ns) _ _ _ _ htour
  refine ⟨stops, t₁, hstops, hleg, by rw [hleg.ordered]; rfl, fun v v₁ hlength hv => ?_⟩
  have htour' := hagain (v.files.entries.length - w.files.entries.length) v v₁ hv
  simp only [Nat.add_right_comm, Nat.add_sub_cancel' hlength] at htour'
  exact run_bind_ok_iff.mpr ⟨v, v, rfl, run_bind_ok_iff.mpr ⟨((), t₁), v₁, htour', rfl⟩⟩

end Sumi.Project
