import Sumi.Proofs.Analysis.Verdict

namespace Sumi.Analysis

variable {α β : Type}

def header? : Form → Option (String × List String)
  | .list (.symbol ⟨none, "ns"⟩ :: .symbol ⟨none, name⟩ :: forms) line =>
      match ((clauses (Env.within { ns := Namespace.user } line) [] [] forms).run.run
          { namespaces := [] }).1 with
      | .ok (requires, uses) => some (name, Node.demands requires uses)
      | .error _ => none
  | _ => none

theorem bind_ok {m : Analysis α} {k : α → Analysis β} {a b c : Analyzer} {x : α} {y : β}
    (hm : m.run.run a = (.ok x, b)) (hk : (k x).run.run b = (.ok y, c)) :
    (m >>= k).run.run a = (.ok y, c) := by
  simp only [ExceptT.run_bind, StateT.run_bind, hm]
  exact hk

theorem bind_ok_inv {m : Analysis α} {k : α → Analysis β} {a c : Analyzer} {y : β}
    (h : (m >>= k).run.run a = (.ok y, c)) :
    ∃ x b, m.run.run a = (.ok x, b) ∧ (k x).run.run b = (.ok y, c) := by
  simp only [ExceptT.run_bind, StateT.run_bind] at h
  rcases hm : m.run.run a with ⟨_ | x, b⟩ <;> rw [hm] at h
  · cases h
  · exact ⟨x, b, rfl, h⟩

/-- Analysis of one form at the top: the node is settled behind it. -/
theorem topLevel_ok_iff {ns : String} {form : Form} {a b : Analyzer} {y : Node} :
    (topLevel ns form).run.run a = (.ok y, b) ↔
      ∃ x, (analyze { ns := ns } form).run.run (a.enter ns) = (.ok x, b) ∧
        y = (x.settle (b.events.take (b.events.length - (a.enter ns).events.length)).reverse).1 := by
  constructor
  · intro h
    obtain ⟨_, _, hm, h⟩ := bind_ok_inv h
    cases hm
    obtain ⟨_, _, hg, h⟩ := bind_ok_inv h
    cases hg
    obtain ⟨x, c, hx, h⟩ := bind_ok_inv h
    obtain ⟨_, _, hg, h⟩ := bind_ok_inv h
    cases hg
    cases h
    exact ⟨x, hx, rfl⟩
  · rintro ⟨x, hx, rfl⟩
    apply bind_ok (x := ()) rfl
    apply bind_ok rfl
    apply bind_ok hx
    exact bind_ok rfl rfl

theorem analyze_header (name : Name) (forms : List Form) (line : Option Nat) :
    analyze { ns := Namespace.user } (.list (.symbol ⟨none, "ns"⟩ :: .symbol name :: forms) line) =
      declaration (Env.within { ns := Namespace.user } line) (.symbol name :: forms) := by
  rw [analyze, analyzeList]
  rfl

theorem clauses_ok_iff {env : Env} {forms : List Form} {a b : Analyzer} (ha : a.Consistent)
    (hb : b.Consistent) {rs us : Table String String} :
    (∃ a', (clauses env [] [] forms).run.run a = (.ok (rs, us), a')) ↔
      ∃ b', (clauses env [] [] forms).run.run b = (.ok (rs, us), b') := by
  have h := clauses_alike env [] [] forms
  constructor
  · rintro ⟨a', hm⟩
    obtain ⟨_, b', hy, rfl, -⟩ := h.ok ha hb hm
    exact ⟨b', hy⟩
  · rintro ⟨b', hm⟩
    obtain ⟨_, a', hy, rfl, -⟩ := h.ok hb ha hm
    exact ⟨a', hy⟩

theorem declaration_ok_iff (env : Env) (name : String) (forms : List Form) {a b : Analyzer}
    {node : Node} :
    (declaration env (.symbol ⟨none, name⟩ :: forms)).run.run a = (.ok node, b) ↔
      ∃ rs us c, (clauses env [] [] forms).run.run a = (.ok (rs, us), c) ∧
        b = (c.setNamespace { c.namespaceOf name with requires := rs, uses := us }).note
          (.declared name) ∧ node = .ns env.line name rs us := by
  constructor
  · intro h
    obtain ⟨⟨rs, us⟩, c, hc, h⟩ := bind_ok_inv h
    obtain ⟨_, _, hm, h⟩ := bind_ok_inv h
    cases hm
    cases h
    exact ⟨rs, us, c, hc, rfl, rfl⟩
  · rintro ⟨rs, us, c, hc, rfl, rfl⟩
    apply bind_ok hc
    exact bind_ok rfl rfl

theorem header?_some_iff {form : Form} {name : String} {requires : List String} :
    header? form = some (name, requires) ↔ ∃ forms line rs us b,
      form = .list (.symbol ⟨none, "ns"⟩ :: .symbol ⟨none, name⟩ :: forms) line ∧
      (clauses (Env.within { ns := Namespace.user } line) [] [] forms).run.run
        { namespaces := [] } = (.ok (rs, us), b) ∧
      requires = Node.demands rs us := by
  constructor
  · intro h
    unfold header? at h
    split at h
    · next other forms line =>
        rcases hc : (clauses (Env.within { ns := Namespace.user } line) [] [] forms).run.run
          { namespaces := [] } with ⟨_ | ⟨rs, us⟩, b⟩ <;> rw [hc] at h <;> cases h
        exact ⟨forms, line, rs, us, b, rfl, hc, rfl⟩
    · cases h
  · rintro ⟨forms, line, rs, us, b, rfl, hc, rfl⟩
    rw [header?, hc]

theorem dependencies_declared {c : Analyzer} (hc : c.Consistent) (name : String)
    (rs us : Table String String) :
    ((c.setNamespace { c.namespaceOf name with requires := rs, uses := us }).namespaceOf
      name).dependencies = Node.demands rs us := by
  have hn : ({ c.namespaceOf name with requires := rs, uses := us } : Namespace).name = name :=
    hc.namespaceOf_name name
  unfold Analyzer.setNamespace
  rw [hn, Analyzer.namespaceOf, Table.get?_put_self]
  rfl

theorem topLevel_header {a : Analyzer} (ha : a.Consistent) {form : Form} {name : String}
    {requires : List String} (h : header? form = some (name, requires)) :
    ∃ node b, (topLevel Namespace.user form).run.run a = (.ok node, b) ∧
      node.declares? = some name ∧ (b.namespaceOf name).dependencies = requires := by
  obtain ⟨forms, line, rs, us, b, rfl, hc, rfl⟩ := header?_some_iff.mp h
  have ha' := ha.enter Namespace.user
  obtain ⟨c, hrun⟩ := (clauses_ok_iff ha' Analyzer.empty_consistent).mpr ⟨b, hc⟩
  have hcons : c.Consistent := by
    have := (clauses_alike (Env.within { ns := Namespace.user } line) [] [] forms).consistent ha'
    rwa [hrun] at this
  have hnode := (declaration_ok_iff _ name forms).mpr ⟨rs, us, c, hrun, rfl, rfl⟩
  rw [← analyze_header] at hnode
  refine ⟨_, _, topLevel_ok_iff.mpr ⟨_, hnode, rfl⟩, ?_, dependencies_declared hcons name rs us⟩
  rw [declares?_settle]
  rfl

theorem isNs_of_header {form : Form} {name : String} {requires : List String}
    (h : header? form = some (name, requires)) : form.isNs = true := by
  obtain ⟨forms, line, rs, us, b, rfl, -⟩ := header?_some_iff.mp h
  rfl

theorem list_of_isNs {form : Form} (h : form.isNs = true) :
    ∃ args line, form = .list (.symbol ⟨none, "ns"⟩ :: args) line := by
  unfold Form.isNs Form.isSymbol at h
  split at h
  · split at h
    · exact ⟨_, _, by rw [eq_of_beq h]; rfl⟩
    · cases h
  · cases h

theorem header_of_topLevel {a b : Analyzer} (ha : a.Consistent) {form : Form} {node : Node}
    (hns : form.isNs = true) (h : (topLevel Namespace.user form).run.run a = (.ok node, b)) :
    ∃ name, node.declares? = some name ∧
      header? form = some (name, (b.namespaceOf name).dependencies) := by
  obtain ⟨args, line, rfl⟩ := list_of_isNs hns
  have ha' := ha.enter Namespace.user
  obtain ⟨x, hx, rfl⟩ := topLevel_ok_iff.mp h
  rw [declares?_settle]
  rw [analyze, analyzeList] at hx
  change (declaration _ args).run.run _ = _ at hx
  rcases args with _ | ⟨first, forms⟩
  · cases hx
  · cases first with
    | symbol n =>
        rcases n with ⟨_ | ns, other⟩
        · obtain ⟨rs, us, c, hc, rfl, rfl⟩ := (declaration_ok_iff _ other forms).mp hx
          have hcons : c.Consistent := by
            have := (clauses_alike (Env.within { ns := Namespace.user } line) [] []
              forms).consistent ha'
            rwa [hc] at this
          obtain ⟨d, hd⟩ := (clauses_ok_iff ha' Analyzer.empty_consistent).mp ⟨c, hc⟩
          refine ⟨other, rfl, header?_some_iff.mpr ?_⟩
          exact ⟨forms, line, rs, us, d, rfl, hd, dependencies_declared hcons other rs us⟩
        · cases hx
    | _ => cases hx

end Sumi.Analysis
