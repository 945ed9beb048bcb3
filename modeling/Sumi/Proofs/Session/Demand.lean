import Sumi.Proofs.Analysis.Clauses
import Sumi.Proofs.Session.Attempt

namespace Sumi

namespace Analysis

theorem since_note (a : Analyzer) (n : Namespace) (e : Event) :
    since a ((a.setNamespace n).note e) = [e] := by
  simp [since, Analyzer.note, Analyzer.setNamespace]

theorem settle_declared (line : Option Nat) (name : String) (requires uses : Table String String) :
    ((Node.ns line name requires uses).settle [.declared name]).1 = .ns line name requires uses := by
  simp [Node.settle, Node.afterDeclared, Node.takenOver]

theorem topLevel_reads {ns : String} {form : Form} {a b : Analyzer} {node : Node}
    (hform : form.isNs = true) (hrun : (topLevel ns form).run.run a = (.ok node, b)) :
    ∃ name forms line line' requires uses,
      form = .list (.symbol ⟨none, "ns"⟩ :: .symbol ⟨none, name⟩ :: forms) line ∧
      clauses? forms = some (requires, uses) ∧ node = .ns line' name requires uses ∧
      b = ((a.enter ns).setNamespace { (a.enter ns).namespaceOf name with requires, uses }).note
        (.declared name) := by
  obtain ⟨args, line, rfl⟩ := list_of_isNs hform
  apply (leads_of_ok (E := fun _ _ => True) hrun).mp
  apply leads_topLevel.mpr
  rw [analyze, analyzeList]
  apply (leads_declaration _ args _).mono
  · rintro _ _ ⟨name, forms, requires, uses, rfl, hclauses, rfl, rfl⟩
    refine ⟨name, forms, line, ((top ns).within line).line, requires, uses, rfl, hclauses, ?_, rfl⟩
    rw [since_note, settle_declared]
  · exact fun _ _ h => h

theorem topLevel_declared {ns : String} {form : Form} {a b : Analyzer} {node : Node}
    (hc : a.Consistent) (hform : form.isNs = true)
    (hrun : (topLevel ns form).run.run a = (.ok node, b)) :
    ∃ name forms line line' requires uses,
      form = .list (.symbol ⟨none, "ns"⟩ :: .symbol ⟨none, name⟩ :: forms) line ∧
      clauses? forms = some (requires, uses) ∧ node = .ns line' name requires uses ∧
      (b.namespaceOf name).dependencies = Node.demands requires uses := by
  obtain ⟨name, forms, line, line', requires, uses, hread, hclauses, hnode, rfl⟩ :=
    topLevel_reads hform hrun
  exact ⟨name, forms, line, line', requires, uses, hread, hclauses, hnode,
    dependencies_declared (hc.enter ns) name requires uses⟩

/-- The code for a declaration is the same with any table. -/
theorem topLevel_same_code {ns : String} {form : Form} {a b a' : Analyzer} {node : Node}
    (hc : a.Consistent) (hc' : a'.Consistent) (hform : form.isNs = true)
    (hrun : (topLevel ns form).run.run a = (.ok node, b)) :
    ∃ node' b', (topLevel ns form).run.run a' = (.ok node', b') ∧
      Code.ofNode node' = Code.ofNode node := by
  obtain ⟨node', b', hrun', -⟩ := (topLevel_alike ns form).ok hc hc' hrun
  refine ⟨node', b', hrun', ?_⟩
  obtain ⟨name, forms, line, _, requires, uses, rfl, hclauses, rfl, -⟩ :=
    topLevel_declared hc hform hrun
  obtain ⟨name', forms', line', _, requires', uses', heq, hclauses', rfl, -⟩ :=
    topLevel_declared hc' hform hrun'
  cases heq
  rw [hclauses] at hclauses'
  cases hclauses'
  rfl

end Analysis

namespace Session

open Project Analysis

variable {σ : Type} {form : Form} {node : Node} {b : Analyzer}

def analyzed (w : Workspace) (b c : Analyzer) : Workspace :=
  { Work.showWarnings { w with analyzer := b } with analyzer := { c with flags := b.flags } }

/-- Behind both analyses, what a declaration demands is loaded before anything else happens. -/
theorem attempt_analyzed (h : Host σ) (filename : String) {s : Session σ}
    (hc : s.workspace.analyzer.Consistent) (hform : form.isNs = true)
    (hrun : (topLevel s.ns form).run.run s.workspace.analyzer = (.ok node, b)) :
    ∃ outer c, (topLevel s.ns form).run.run { b with warnings := [], flags := .silent } =
        (.ok outer, c) ∧
      (attempt h filename form form).run.run s =
        (conclude h filename form node node).run.run
          { s with workspace := analyzed s.workspace b c } := by
  have hb : b.Consistent := by
    have hafter := (topLevel_alike s.ns form).consistent hc
    rwa [hrun] at hafter
  have hb' : Analyzer.Consistent { b with warnings := [], flags := .silent } := hb
  obtain ⟨outer, c, hsecond, hcode⟩ := topLevel_same_code hc hb' hform hrun
  refine ⟨outer, c, hsecond, run_of_leads ?_⟩
  rw [attempt, leads_bind, leads_get, leads_bind, leads_work, Work.leads_analyze, leads_of_ok hrun,
    leads_bind, leads_work, Work.leads_silently]
  apply (leads_of_ok hsecond).mpr
  rw [conclude, hcode]
  exact leads_of_run rfl

/-- A declaration demands one list of namespaces, each of them once: in the code for it, in the record
of its namespace right after the analysis, and when it is evaluated, where they are loaded in this
order before the host sees any code. On the list are those that hold a key in the end. -/
theorem declaration_demands {a : Analyzer} {ns : String} (hc : a.Consistent)
    (hform : form.isNs = true) (hrun : (topLevel ns form).run.run a = (.ok node, b)) :
    ∃ name forms line demands,
      form = .list (.symbol ⟨none, "ns"⟩ :: .symbol ⟨none, name⟩ :: forms) line ∧
      Code.ofNode node = .provide name demands ∧
      (b.namespaceOf name).dependencies = demands ∧
      (∀ (σ : Type) (h : Host σ) (filename : String) (s : Session σ), s.ns = ns →
        s.workspace.analyzer = a → ∃ w, (attempt h filename form form).run.run s =
          (do
            demands.forM (loadNamespace h)
            deliver h filename form (.provide name demands) (.provide name demands)).run.run
          { s with workspace := w, ns := name }) ∧
      demands.Nodup ∧
      ∀ lib, lib ∈ demands ↔ ∃ key,
        Table.get? key (clauseKeys "require" requireKeys forms).reverse = some lib ∨
        Table.get? key (clauseKeys "use" useKeys forms).reverse = some lib := by
  obtain ⟨name, forms, line, line', requires, uses, rfl, hclauses, rfl, hrecord⟩ :=
    topLevel_declared hc hform hrun
  refine ⟨name, forms, line, Node.demands requires uses, rfl, rfl, hrecord, ?_, nodup_distinct _,
    fun _ => mem_demands_iff hclauses⟩
  rintro σ h filename s rfl rfl
  obtain ⟨_, _, -, hw⟩ := attempt_analyzed h filename hc hform hrun
  exact ⟨_, hw⟩

def demanding : Form :=
  .list [.symbol (.plain "ns"), .symbol (.plain "app"),
    .list [.keyword (.plain "require"), .symbol (.plain "lib.a"),
      .vector [.symbol (.plain "lib.b"), .keyword (.plain "as"), .symbol (.plain "b")] none] none,
    .list [.keyword (.plain "use"), .vector [.symbol (.plain "lib.c"), .keyword (.plain "only"),
      .vector [.symbol (.plain "f")] none] none] none] none

theorem demanding_demands : ∃ node b name demands,
    (topLevel Namespace.user demanding).run.run { namespaces := [] } = (.ok node, b) ∧
      Code.ofNode node = .provide name demands ∧ (b.namespaceOf name).dependencies = demands ∧
      demands.Nodup ∧ "lib.b" ∈ demands ∧ "lib.c" ∈ demands := by
  obtain ⟨node, b, hrun⟩ := ends_of_isOk (m := topLevel Namespace.user demanding)
    (s := { namespaces := [] }) (by rfl)
  obtain ⟨name, forms, line, demands, heq, hcode, hrecord, -, hnodup, hmem⟩ :=
    declaration_demands Analyzer.empty_consistent rfl hrun
  cases heq
  exact ⟨node, b, _, demands, hrun, hcode, hrecord, hnodup, (hmem _).mpr ⟨"b", .inl rfl⟩,
    (hmem _).mpr ⟨"f", .inr rfl⟩⟩

def shadowing : Form :=
  .list [.symbol (.plain "ns"), .symbol (.plain "x"),
    .list [.keyword (.plain "require"), .symbol (.plain "b"),
      .vector [.symbol (.plain "a"), .keyword (.plain "as"), .symbol (.plain "b")] none] none] none

def retaking : Form :=
  .list [.symbol (.plain "ns"), .symbol (.plain "x"),
    .list [.keyword (.plain "use"),
      .vector [.symbol (.plain "a"), .keyword (.plain "only"),
        .vector [.symbol (.plain "f")] none] none,
      .vector [.symbol (.plain "b"), .keyword (.plain "only"),
        .vector [.symbol (.plain "f")] none] none] none] none

/-- The namespace that is named first is not demanded. -/
theorem named_not_demanded :
    (((topLevel Namespace.user shadowing).run.run { namespaces := [] }).1.map Code.ofNode).toOption
        = some (.provide "x" ["a"]) ∧
      (((topLevel Namespace.user retaking).run.run { namespaces := [] }).1.map Code.ofNode).toOption
        = some (.provide "x" ["b"]) := ⟨rfl, rfl⟩

end Session

end Sumi
