import Sumi.Proofs.Analysis.Course

namespace Sumi

namespace View

variable {v : View} {ms : List Mention} {name : String}

theorem own_after_of_not_mem (h : .defines name ∉ ms) : (v.after ms).own name = v.own name := by
  rw [Bool.eq_iff_iff, own_after_iff, or_iff_right h]

theorem library_after_of_not_mem (h : .defines name ∉ ms) :
    (v.after ms).library name = v.library name := by
  rw [Bool.eq_iff_iff, library_after_iff, or_iff_right fun hm => h hm.2]

theorem requires_after (h : ∀ m ∈ ms, m.declared? ≠ some v.ns) :
    (v.after ms).requires = v.requires := by
  induction ms generalizing v with
  | nil => rfl
  | cons m ms ih =>
      rw [List.forall_mem_cons] at h
      rw [after_cons, ih (by simpa using h.2)]
      cases m with
      | declares ns requires uses => rw [next, if_neg fun he => h.1 (congrArg some he)]
      | _ => rfl

theorem uses_after (h : ∀ m ∈ ms, m.declared? ≠ some v.ns) (name : String) :
    (v.after ms).uses.get? name = if .defines name ∈ ms then none else v.uses.get? name := by
  induction ms generalizing v with
  | nil => rfl
  | cons m ms ih =>
      rw [List.forall_mem_cons] at h
      rw [after_cons, ih (by simpa using h.2)]
      cases m with
      | defines other =>
          by_cases hne : name = other
          · subst hne
            simp [next, define, Table.get?_erase_self]
          · simp [next, define, hne, Table.get?_erase_of_ne hne]
      | declares ns requires uses => simp [next, if_neg fun he => h.1 (congrArg some he)]
      | _ => simp [next]

/-- A symbol that nothing mentioned defines goes on to mean what it did. -/
theorem meaning_after (h : ∀ m ∈ ms, m.declared? ≠ some v.ns) {sym : Name}
    (hs : sym.ns = none → .defines sym.name ∉ ms) : (v.after ms).meaning sym = v.meaning sym := by
  unfold meaning
  rw [requires_after h, after_ns]
  rcases hns : sym.ns with _ | short
  · have hname := hs hns
    rw [uses_after h, if_neg hname, own_after_of_not_mem hname, library_after_of_not_mem hname]
  · rfl

end View

namespace Analysis

variable {ns : String} {form : Form} {a b : Analyzer} {ms : List Mention}

theorem resolveVar_result (env : Env) (sym : Name) (hc : a.Consistent) :
    ((resolveVar env sym).run.run a).1 = .ok ((a.view env.ns).meaning sym) := by
  obtain ⟨r, b, hrun, hr⟩ := (leads_resolveVar env sym hc).ends
  rw [hrun, hr.1]

/-- What remains of a form that was given up in namespace `ns`, after `ms` were come upon. -/
structure Remains (ns : String) (a : Analyzer) (ms : List Mention) (b : Analyzer) : Prop where
  /-- Among what was come upon are all the changes that were made, in their order, and no other. -/
  events : b.events = (ms.filterMap (Mention.event? ns)).reverse ++ a.events
  still : (∀ m ∈ ms, m.event? ns = none) → b.namespaces = (a.enter ns).namespaces
  elsewhere : ∀ other, other ≠ ns → (∀ m ∈ ms, m.declared? ≠ some other) →
    b.namespaces.get? other = a.namespaces.get? other
  others : ∀ other, other ≠ ns → (b.namespaceOf other).defs = (a.namespaceOf other).defs
  /-- A definition that was not begun keeps its line and its arity. -/
  defs : ∀ name, .defines name ∉ ms →
    (b.namespaceOf ns).defs.get? name = (a.namespaceOf ns).defs.get? name
  begun : ∀ name, .defines name ∈ ms → (b.namespaceOf ns).defs.has name = true
  requires : (∀ m ∈ ms, m.declared? ≠ some ns) →
    (b.namespaceOf ns).requires = (a.namespaceOf ns).requires
  uses : (∀ m ∈ ms, m.declared? ≠ some ns) → ∀ name,
    (b.namespaceOf ns).uses.get? name =
      if .defines name ∈ ms then none else (a.namespaceOf ns).uses.get? name
  /-- What was not begun goes on to mean what it did. -/
  symbols : (∀ m ∈ ms, m.declared? ≠ some ns) → ∀ sym : Name,
    (sym.ns = none → .defines sym.name ∉ ms) →
      ((resolveVar (top ns) sym).run.run b).1 = ((resolveVar (top ns) sym).run.run a).1

theorem remains_of_behind (hc : a.Consistent) (h : Behind ns (a.enter ns) ms b) :
    Remains ns a ms b := by
  have hview : b.view ns = (a.view ns).after ms := by rw [h.view, Analyzer.view_enter]
  refine ⟨by rw [h.events, Analyzer.events_enter], h.still, fun other ho hd => ?_, fun other ho => ?_,
    fun name hn => ?_, fun name hn => ?_, fun hd => ?_, fun hd name => ?_, fun hd sym hs => ?_⟩
  · rw [h.elsewhere other ho hd]
    unfold Analyzer.enter
    split
    · rfl
    · exact Analyzer.get?_setNamespace_of_ne ho
  · rw [h.others other ho, Analyzer.namespaceOf_entered]
  · rw [h.defs name hn, Analyzer.namespaceOf_entered]
  · have hown := View.own_after_iff (v := a.view ns).mpr (.inl hn)
    rwa [← hview] at hown
  · have hr := View.requires_after (v := a.view ns) hd
    rwa [← hview] at hr
  · have hu := View.uses_after (v := a.view ns) hd name
    rwa [← hview] at hu
  · rw [resolveVar_result _ _ h.consistent, resolveVar_result _ _ hc]
    have hm := View.meaning_after (v := a.view ns) hd hs
    rw [← hview] at hm
    exact congrArg _ hm

/-- A rejected form leaves what it began to define and what it declared before its fault. -/
theorem topLevel_rejected {e : CompileError} (hc : a.Consistent) (hn : form.isNamed = true)
    (h : (topLevel ns form).run.run a = (.error e, b)) :
    ∃ ms, ms <+: form.mentions ∧ Remains ns a ms b := by
  obtain ⟨ms, hp, hb⟩ := (leads_of_error h).mp (topLevel_comes ns hc hn)
  exact ⟨ms, hp, remains_of_behind hc hb⟩

def faulty : Form := .list [.sym "def", .sym "inc", .list [.sym "if"] (some 1)] (some 1)

theorem faulty_rejected : ∃ e b,
    (topLevel Namespace.user faulty).run.run (.ofLibrary ["inc"] {}) = (.error e, b) ∧
      ∃ ms, ms <+: faulty.mentions ∧ Remains Namespace.user (.ofLibrary ["inc"] {}) ms b :=
  ⟨_, _, rfl, topLevel_rejected (Analyzer.ofLibrary_consistent _ _) (by decide) rfl⟩

/-- The table does not always stay what it was. -/
theorem rejected_changes_table :
    ¬∀ (a b : Analyzer) (ns : String) (form : Form) (e : CompileError), a.Consistent →
      (topLevel ns form).run.run a = (.error e, b) → b.namespaces = (a.enter ns).namespaces := by
  intro h
  have hfaulty := h _ _ Namespace.user faulty _ (Analyzer.ofLibrary_consistent ["inc"] {}) rfl
  revert hfaulty
  decide

end Analysis

end Sumi
