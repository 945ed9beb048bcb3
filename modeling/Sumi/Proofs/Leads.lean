import Mathlib.Order.Defs.Unbundled

namespace Sumi

variable {ε σ α β : Type} {s : σ} {Q Q' : α → σ → Prop} {E E' : ε → σ → Prop}

/-- The computation ends with a result and a state in `Q`, or with a failure and a state in `E`. -/
def Leads (m : ExceptT ε (StateM σ) α) (s : σ) (Q : α → σ → Prop) (E : ε → σ → Prop) : Prop :=
  match m.run.run s with
  | (.ok a, s') => Q a s'
  | (.error e, s') => E e s'

theorem leads_iff {m : ExceptT ε (StateM σ) α} : Leads m s Q E ↔
    match m.run.run s with
    | (.ok a, s') => Q a s'
    | (.error e, s') => E e s' := Iff.rfl

theorem leads_of_ok {m : ExceptT ε (StateM σ) α} {a : α} {s' : σ} (h : m.run.run s = (.ok a, s')) :
    Leads m s Q E ↔ Q a s' := by
  rw [leads_iff, h]

theorem leads_of_error {m : ExceptT ε (StateM σ) α} {e : ε} {s' : σ}
    (h : m.run.run s = (.error e, s')) : Leads m s Q E ↔ E e s' := by
  rw [leads_iff, h]

/-- A run on a state, as the code writes it. -/
theorem run_apply (m : ExceptT ε (StateM σ) α) (s : σ) : m.run s = m.run.run s := rfl

theorem run_of_leads {m : ExceptT ε (StateM σ) α} {r : Except ε α × σ}
    (h : Leads m s (fun a s' => (.ok a, s') = r) fun e s' => (.error e, s') = r) :
    m.run.run s = r := by
  rw [leads_iff] at h
  rcases hm : m.run.run s with ⟨_ | a, s'⟩ <;> rw [hm] at h <;> exact h

theorem leads_of_run {m : ExceptT ε (StateM σ) α} {r : Except ε α × σ} (h : m.run.run s = r) :
    Leads m s (fun a s' => (.ok a, s') = r) fun e s' => (.error e, s') = r := by
  subst h
  rw [leads_iff]
  rcases m.run.run s with ⟨_ | a, s'⟩ <;> rfl

theorem run_bind_ok_iff {m : ExceptT ε (StateM σ) α} {k : α → ExceptT ε (StateM σ) β} {b : β}
    {s' : σ} : (m >>= k).run.run s = (.ok b, s') ↔
      ∃ a t, m.run.run s = (.ok a, t) ∧ (k a).run.run t = (.ok b, s') := by
  simp only [ExceptT.run_bind, StateT.run_bind]
  rcases m.run.run s with ⟨e | a, t⟩
  · constructor
    · nofun
    · rintro ⟨_, _, h, -⟩
      cases h
  · constructor
    · exact fun h => ⟨a, t, rfl, h⟩
    · rintro ⟨_, _, h, hk⟩
      cases h
      exact hk

/-- What cannot fail ends with a result. -/
theorem Leads.ends {m : ExceptT ε (StateM σ) α} (h : Leads m s Q fun _ _ => False) :
    ∃ a s', m.run.run s = (.ok a, s') ∧ Q a s' := by
  rw [leads_iff] at h
  rcases hm : m.run.run s with ⟨_ | a, s'⟩ <;> rw [hm] at h
  · exact h.elim
  · exact ⟨a, s', rfl, h⟩

theorem ends_of_isOk {m : ExceptT ε (StateM σ) α} (h : (m.run.run s).1.isOk = true) :
    ∃ a s', m.run.run s = (.ok a, s') := by
  rcases hm : m.run.run s with ⟨e | a, s'⟩
  · rw [hm] at h
    cases h
  · exact ⟨a, s', rfl⟩

theorem leads_bind {m : ExceptT ε (StateM σ) α} {k : α → ExceptT ε (StateM σ) β}
    {Q : β → σ → Prop} : Leads (m >>= k) s Q E ↔ Leads m s (fun a s' => Leads (k a) s' Q E) E := by
  unfold Leads
  simp only [ExceptT.run_bind, StateT.run_bind]
  rcases m.run.run s with ⟨_ | a, s'⟩ <;> rfl

theorem leads_pure {a : α} : Leads (pure a) s Q E ↔ Q a s := Iff.rfl

theorem leads_throw {e : ε} : Leads (throw e : ExceptT ε (StateM σ) α) s Q E ↔ E e s := Iff.rfl

theorem leads_get {Q : σ → σ → Prop} : Leads get s Q E ↔ Q s s := Iff.rfl

theorem leads_modify {f : σ → σ} {Q : PUnit → σ → Prop} :
    Leads (modify f) s Q E ↔ Q ⟨⟩ (f s) := Iff.rfl

theorem leads_set {s' : σ} {Q : PUnit → σ → Prop} : Leads (set s') s Q E ↔ Q ⟨⟩ s' := Iff.rfl

theorem Leads.mono {m : ExceptT ε (StateM σ) α} (h : Leads m s Q E)
    (hq : ∀ a s', Q a s' → Q' a s') (he : ∀ e s', E e s' → E' e s') : Leads m s Q' E' := by
  unfold Leads at *
  rcases hm : m.run.run s with ⟨e | a, s'⟩ <;> rw [hm] at h
  · exact he e s' h
  · exact hq a s' h

theorem Leads.bind {m : ExceptT ε (StateM σ) α} {k : α → ExceptT ε (StateM σ) β}
    {R : β → σ → Prop} (h : Leads m s Q E) (hk : ∀ a s', Q a s' → Leads (k a) s' R E')
    (he : ∀ e s', E e s' → E' e s') : Leads (m >>= k) s R E' :=
  leads_bind.mpr (h.mono hk he)

/-- What every step keeps, the whole run keeps. -/
theorem leads_forM {I : σ → Prop} {f : α → ExceptT ε (StateM σ) PUnit} {xs : List α}
    (h : ∀ x ∈ xs, ∀ s, I s → Leads (f x) s (fun _ => I) (fun _ => I)) (hs : I s) :
    Leads (xs.forM f) s (fun _ => I) (fun _ => I) := by
  induction xs generalizing s with
  | nil => exact leads_pure.mpr hs
  | cons x xs ih =>
      change Leads (f x >>= fun _ => xs.forM f) s _ _
      apply (h x List.mem_cons_self s hs).bind
      · intro _ s' hs'
        exact ih (fun y hy => h y (List.mem_cons_of_mem _ hy)) hs'
      · exact fun _ _ he => he

theorem Leads.and {m : ExceptT ε (StateM σ) α} (h : Leads m s Q E) (h' : Leads m s Q' E') :
    Leads m s (fun a s' => Q a s' ∧ Q' a s') (fun e s' => E e s' ∧ E' e s') := by
  unfold Leads at *
  rcases hm : m.run.run s with ⟨e | a, s'⟩ <;> rw [hm] at h h'
  · exact ⟨h, h'⟩
  · exact ⟨h, h'⟩

theorem leads_any {m : ExceptT ε (StateM σ) α} :
    Leads m s (fun _ _ => True) (fun _ _ => True) := by
  unfold Leads
  rcases m.run.run s with ⟨_ | a, s'⟩ <;> trivial

theorem leads_then {m : ExceptT ε (StateM σ) α} {k : α → ExceptT ε (StateM σ) β}
    {Q : β → σ → Prop} (h : ∀ a s', Leads (k a) s' Q (fun _ _ => True)) :
    Leads (m >>= k) s Q (fun _ _ => True) :=
  leads_any.bind (fun a s' _ => h a s') fun _ _ _ => trivial

theorem leads_self {m : ExceptT ε (StateM σ) α} :
    Leads m s (fun a s' => m.run.run s = (.ok a, s')) (fun e s' => m.run.run s = (.error e, s')) := by
  unfold Leads
  rcases m.run.run s with ⟨_ | a, s'⟩ <;> rfl

attribute [irreducible] Leads

/-- The computation goes along `R`, whether it ends with a result or with a failure. -/
def Moves (R : σ → σ → Prop) (m : ExceptT ε (StateM σ) α) : Prop :=
  ∀ s, Leads m s (fun _ => R s) (fun _ => R s)

/-- What only looks at the state is passed over. -/
theorem leads_past {m : ExceptT ε (StateM σ) α} {k : α → ExceptT ε (StateM σ) β}
    {Q : β → σ → Prop} (h : Moves Eq m) (hk : ∀ a, Leads (k a) s Q E) (he : ∀ e, E e s) :
    Leads (m >>= k) s Q E := by
  apply (h s).bind
  · rintro a _ rfl
    exact hk a
  · rintro e _ rfl
    exact he e

variable {R : σ → σ → Prop} [IsPreorder σ R]

theorem moves_pure (a : α) : Moves R (pure a : ExceptT ε (StateM σ) α) :=
  fun s => leads_pure.mpr (refl_of R s)

theorem moves_throw (e : ε) : Moves R (throw e : ExceptT ε (StateM σ) α) :=
  fun s => leads_throw.mpr (refl_of R s)

theorem moves_get : Moves R (get : ExceptT ε (StateM σ) σ) :=
  fun s => leads_get.mpr (refl_of R s)

omit [IsPreorder σ R] in
theorem moves_modify {f : σ → σ} (h : ∀ s, R s (f s)) :
    Moves R (modify f : ExceptT ε (StateM σ) PUnit) :=
  fun s => leads_modify.mpr (h s)

theorem Moves.bind {m : ExceptT ε (StateM σ) α} {k : α → ExceptT ε (StateM σ) β} (h : Moves R m)
    (hk : ∀ a, Moves R (k a)) : Moves R (m >>= k) := by
  intro s
  apply (h s).bind
  · intro a s' hs
    apply (hk a s').mono
    · exact fun _ _ hs' => trans_of R hs hs'
    · exact fun _ _ hs' => trans_of R hs hs'
  · exact fun _ _ hs => hs

theorem moves_mapM {f : α → ExceptT ε (StateM σ) β} (h : ∀ a, Moves R (f a)) (xs : List α) :
    Moves R (xs.mapM f) := by
  induction xs with
  | nil => exact moves_pure _
  | cons x xs ih =>
      rw [List.mapM_cons]
      exact (h x).bind fun _ => ih.bind fun _ => moves_pure _

theorem moves_foldlM {f : β → α → ExceptT ε (StateM σ) β} (h : ∀ b a, Moves R (f b a)) (b : β)
    (xs : List α) : Moves R (xs.foldlM f b) := by
  induction xs generalizing b with
  | nil => exact moves_pure _
  | cons x xs ih =>
      rw [List.foldlM_cons]
      exact (h b x).bind ih

theorem moves_filterM {f : α → ExceptT ε (StateM σ) Bool} (h : ∀ a, Moves R (f a)) (xs : List α) :
    Moves R (xs.filterM f) := by
  have haux : ∀ acc, Moves R (xs.filterAuxM f acc) := by
    induction xs with
    | nil => exact fun _ => moves_pure _
    | cons x xs ih => exact fun _ => (h x).bind fun _ => ih _
  exact (haux []).bind fun _ => moves_pure _

end Sumi
