import Sumi.Proofs.Analysis.Mention
import Sumi.Proofs.Analysis.Verdict
import Sumi.Proofs.Leads
import Sumi.Proofs.Tables

namespace Sumi

namespace Analyzer

variable {a : Analyzer} {n : Namespace} {ns : String}

theorem namespaceOf_setNamespace (hn : n.name = ns) : (a.setNamespace n).namespaceOf ns = n := by
  subst hn
  rw [namespaceOf, setNamespace, Table.get?_put_self, Option.getD_some]

theorem get?_setNamespace_of_ne {other : String} (h : other ≠ n.name) :
    (a.setNamespace n).namespaces.get? other = a.namespaces.get? other :=
  Table.get?_put_of_ne h _ _

theorem namespaceOf_setNamespace_of_ne {other : String} (h : other ≠ n.name) :
    (a.setNamespace n).namespaceOf other = a.namespaceOf other := by
  rw [namespaceOf, get?_setNamespace_of_ne h]
  rfl

end Analyzer

def Mention.event? (ns : String) : Mention → Option Event
  | .defines name => some (.defined ns name)
  | .declares other _ _ => some (.declared other)
  | _ => none

def Mention.declared? : Mention → Option String
  | .declares ns _ _ => some ns
  | _ => none

theorem View.after_still {ns : String} {ms : List Mention} (h : ∀ m ∈ ms, m.event? ns = none)
    (v : View) : v.after ms = v := by
  induction ms generalizing v with
  | nil => rfl
  | cons m ms ih =>
      rw [List.forall_mem_cons] at h
      rw [View.after_cons, ih h.2]
      cases m with
      | defines => cases h.1
      | declares => cases h.1
      | _ => rfl

/-- What is known once `ms` were come upon in namespace `ns`, where `a` was known before. -/
structure Behind (ns : String) (a : Analyzer) (ms : List Mention) (b : Analyzer) : Prop where
  consistent : b.Consistent
  view : b.view ns = (a.view ns).after ms
  still : (∀ m ∈ ms, m.event? ns = none) → b.namespaces = a.namespaces
  elsewhere : ∀ other, other ≠ ns → (∀ m ∈ ms, m.declared? ≠ some other) →
    b.namespaces.get? other = a.namespaces.get? other
  others : ∀ other, other ≠ ns → (b.namespaceOf other).defs = (a.namespaceOf other).defs
  defs : ∀ name, .defines name ∉ ms →
    (b.namespaceOf ns).defs.get? name = (a.namespaceOf ns).defs.get? name
  events : b.events = (ms.filterMap (Mention.event? ns)).reverse ++ a.events

namespace Behind

open Analysis

variable {ns name : String} {a b c : Analyzer} {ms ms' : List Mention}

theorem view_of_namespaces (h : b.namespaces = a.namespaces) (ns : String) : b.view ns = a.view ns := by
  unfold Analyzer.view Analyzer.namespaceOf
  rw [h]

theorem nothing (hc : a.Consistent) (hn : b.namespaces = a.namespaces) (he : b.events = a.events) :
    Behind ns a [] b where
  consistent := by
    unfold Analyzer.Consistent
    rwa [hn]
  view := view_of_namespaces hn ns
  still _ := hn
  elsewhere other _ _ := by rw [hn]
  others other _ := by rw [Analyzer.namespaceOf, Analyzer.namespaceOf, hn]
  defs name _ := by rw [Analyzer.namespaceOf, Analyzer.namespaceOf, hn]
  events := he

theorem refl (hc : a.Consistent) : Behind ns a [] a := nothing hc rfl rfl

theorem trans (h : Behind ns a ms b) (h' : Behind ns b ms' c) : Behind ns a (ms ++ ms') c where
  consistent := h'.consistent
  view := by rw [h'.view, h.view, View.after_append]
  still hs := by
    simp only [List.forall_mem_append] at hs
    rw [h'.still hs.2, h.still hs.1]
  elsewhere other ho hs := by
    simp only [List.forall_mem_append] at hs
    rw [h'.elsewhere other ho hs.2, h.elsewhere other ho hs.1]
  others other ho := by rw [h'.others other ho, h.others other ho]
  defs name hm := by
    simp only [List.mem_append, not_or] at hm
    rw [h'.defs name hm.2, h.defs name hm.1]
  events := by
    rw [h'.events, h.events, List.filterMap_append, List.reverse_append, List.append_assoc]

theorem idle (h : Behind ns a [] b) (hs : ∀ m ∈ ms, m.event? ns = none) : Behind ns a ms b where
  consistent := h.consistent
  view := by rw [h.view, View.after_nil, View.after_still hs]
  still _ := h.still (by simp)
  elsewhere other ho _ := h.elsewhere other ho (by simp)
  others := h.others
  defs name _ := h.defs name (by simp)
  events := by rw [h.events, List.filterMap_eq_nil_iff.mpr hs, List.filterMap_nil]

theorem begin (hc : a.Consistent) (line : Option Nat) (name : String) :
    Behind ns a [.defines name]
      ((a.setNamespace (recordDefinition line name (a.namespaceOf ns))).note (.defined ns name)) := by
  have hname : (recordDefinition line name (a.namespaceOf ns)).name = ns := hc.namespaceOf_name ns
  have hown : (a.setNamespace (recordDefinition line name (a.namespaceOf ns))).namespaceOf ns =
      recordDefinition line name (a.namespaceOf ns) := Analyzer.namespaceOf_setNamespace hname
  have helse (other : String) (ho : other ≠ ns) := Analyzer.namespaceOf_setNamespace_of_ne (a := a)
    (n := recordDefinition line name (a.namespaceOf ns)) (hname.symm ▸ ho)
  refine ⟨hc.setNamespace _, ?_, fun hs => ?_, fun other ho _ => ?_, fun other ho => ?_,
    fun x hx => ?_, rfl⟩
  · change (a.setNamespace _).view ns = (a.view ns).define name
    have hhas : (recordDefinition line name (a.namespaceOf ns)).defs.has =
        fun x => x == name || (a.namespaceOf ns).defs.has x :=
      funext fun x => Table.has_put name x _ _
    unfold Analyzer.view View.define
    rw [hown, hhas]
    by_cases hcore : ns = Namespace.core
    · subst hcore
      rw [hown, hhas]
      simp [recordDefinition]
    · rw [helse _ (Ne.symm hcore)]
      simp [recordDefinition, beq_false_of_ne hcore]
  · cases hs _ List.mem_cons_self
  · exact Analyzer.get?_setNamespace_of_ne (hname.symm ▸ ho)
  · exact congrArg Namespace.defs (helse other ho)
  · have hne : x ≠ name := by
      rintro rfl
      exact hx List.mem_cons_self
    change ((a.setNamespace _).namespaceOf ns).defs.get? x = _
    rw [hown]
    exact Table.get?_put_of_ne hne _ _

/-- What a definition has for a value makes no other name known. -/
theorem finish (h : Behind ns a ms b) (hm : .defines name ∈ ms) (line : Option Nat)
    (arity : Option Arity) :
    Behind ns a ms (b.setNamespace { b.namespaceOf ns with
      defs := (b.namespaceOf ns).defs.update name ⟨.source line, none⟩
        (fun d => { d with arity := arity }) }) := by
  generalize hn : ({ b.namespaceOf ns with
      defs := (b.namespaceOf ns).defs.update name ⟨.source line, none⟩
        (fun d => { d with arity := arity }) } : Namespace) = n
  have hname : n.name = ns := by
    rw [← hn]
    exact h.consistent.namespaceOf_name ns
  have hown : (b.setNamespace n).namespaceOf ns = n := Analyzer.namespaceOf_setNamespace hname
  have helse (other : String) (ho : other ≠ ns) :=
    Analyzer.namespaceOf_setNamespace_of_ne (a := b) (n := n) (hname.symm ▸ ho)
  have hknown : (b.namespaceOf ns).defs.has name = true := by
    have ho := View.own_after_iff (v := a.view ns).mpr (.inl hm)
    rwa [← h.view] at ho
  -- the definition was begun, so its name is known already
  have hhas : n.defs.has = (b.namespaceOf ns).defs.has := by
    funext x
    rw [← hn]
    refine (Table.has_put name x _ _).trans ?_
    by_cases hx : x = name
    · rw [hx, hknown, Bool.or_true]
    · rw [beq_false_of_ne hx, Bool.false_or]
  refine ⟨h.consistent.setNamespace _, ?_, fun hs => ?_, fun other ho hd => ?_, fun other ho => ?_,
    fun x hx => ?_, h.events⟩
  · rw [← h.view]
    unfold Analyzer.view
    rw [hown, hhas]
    by_cases hcore : ns = Namespace.core
    · rw [← hcore, hown, hhas, ← hn]
    · rw [helse _ (Ne.symm hcore), ← hn]
  · cases hs _ hm
  · rw [← h.elsewhere other ho hd]
    exact Analyzer.get?_setNamespace_of_ne (hname.symm ▸ ho)
  · rw [← h.others other ho, helse other ho]
  · have hne : x ≠ name := by
      rintro rfl
      exact hx hm
    rw [← h.defs x hx, hown, ← hn]
    exact Table.get?_put_of_ne hne _ _

theorem declare (hc : a.Consistent) (name : String) (requires uses : Table String String) :
    Behind ns a [.declares name requires uses]
      ((a.setNamespace { a.namespaceOf name with requires, uses }).note (.declared name)) := by
  generalize hn : ({ a.namespaceOf name with requires, uses } : Namespace) = n
  have hname : n.name = name := by
    rw [← hn]
    exact hc.namespaceOf_name name
  have hown : (a.setNamespace n).namespaceOf name = n := Analyzer.namespaceOf_setNamespace hname
  have helse (other : String) (ho : other ≠ name) :=
    Analyzer.namespaceOf_setNamespace_of_ne (a := a) (n := n) (hname.symm ▸ ho)
  have hdefs (other : String) : ((a.setNamespace n).namespaceOf other).defs =
      (a.namespaceOf other).defs := by
    by_cases ho : other = name
    · rw [ho, hown, ← hn]
    · rw [helse other ho]
  refine ⟨hc.setNamespace _, ?_, fun hs => ?_, fun other ho hd => ?_, fun other _ => hdefs other,
    fun x _ => congrArg (fun t => Table.get? x t) (hdefs ns), rfl⟩
  · change (a.setNamespace n).view ns = (a.view ns).next (.declares name requires uses)
    unfold Analyzer.view
    rw [hdefs, hdefs, View.next]
    by_cases ho : name = ns
    · subst ho
      rw [hown, ← hn, if_pos rfl]
    · rw [helse ns (Ne.symm ho), if_neg ho]
  · cases hs _ List.mem_cons_self
  · have hne : other ≠ name := fun he => hd _ List.mem_cons_self (congrArg some he.symm)
    exact Analyzer.get?_setNamespace_of_ne (hname.symm ▸ hne)

end Behind

end Sumi
