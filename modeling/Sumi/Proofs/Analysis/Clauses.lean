import Sumi.Proofs.Analysis.Course
import Sumi.Proofs.Tables

namespace Sumi.Analysis

def requireKeys : Form → List (String × String)
  | .symbol lib => [(lib.name, lib.name)]
  | .vector [.symbol lib] _ => [(lib.name, lib.name)]
  | .vector [.symbol lib, _, .symbol short] _ => [(lib.name, lib.name), (short.name, lib.name)]
  | _ => []

def useKeys : Form → List (String × String)
  | .vector [.symbol lib, _, .vector names _] _ =>
      (names.filterMap symbolName?).map fun name => (name, lib.name)
  | _ => []

def clauseKeys (kind : String) (keys : Form → List (String × String)) :
    List Form → List (String × String)
  | .list (.keyword k :: specs) _ :: rest =>
      (if k.name = kind then specs.flatMap keys else []) ++ clauseKeys kind keys rest
  | _ :: rest => clauseKeys kind keys rest
  | [] => []

variable {es us : List (String × String)} {known : Table String String}

theorem leads_requireSpec (env : Env) (form : Form) (a : Analyzer) :
    Leads (requireSpec env form) a (fun t _ => t.Shows (requireKeys form)) (fun _ _ => True) := by
  rw [requireSpec.eq_def]
  split
  · exact leads_pure.mpr (Table.shows_putAll (requireKeys (.symbol _)))
  · split
    · exact leads_pure.mpr (Table.shows_putAll (requireKeys (.vector [.symbol _] _)))
    · split
      · exact leads_pure.mpr
          (Table.shows_putAll (requireKeys (.vector [.symbol _, .keyword _, .symbol _] _)))
      · exact leads_throw.mpr trivial
    · exact leads_throw.mpr trivial
    · exact leads_throw.mpr trivial
  · exact leads_throw.mpr trivial

theorem leads_useSpec (env : Env) (form : Form) (a : Analyzer) :
    Leads (useSpec env form) a (fun t _ => t.Shows (useKeys form)) (fun _ _ => True) := by
  rw [useSpec.eq_def]
  split
  · split
    · exact leads_pure.mpr (Table.shows_putAll _)
    · exact leads_throw.mpr trivial
  · exact leads_throw.mpr trivial

theorem leads_specs {spec : Form → Analysis (Table String String)}
    {keys : Form → List (String × String)}
    (h : ∀ form a, Leads (spec form) a (fun t _ => t.Shows (keys form)) (fun _ _ => True))
    (hk : known.Shows es) (forms : List Form) (a : Analyzer) :
    Leads (specs spec known forms) a (fun t _ => t.Shows (es ++ forms.flatMap keys))
      (fun _ _ => True) := by
  induction forms generalizing known es a with
  | nil =>
      rw [List.flatMap_nil, List.append_nil]
      exact leads_pure.mpr hk
  | cons form forms ih =>
      rw [List.flatMap_cons, ← List.append_assoc]
      apply (h form a).bind
      · exact fun t b ht => ih (hk.putAll ht) b
      · exact fun _ _ _ => trivial

/-- The clauses of a declaration come to the tables that show all the keys given. -/
theorem leads_keys (env : Env) {requires uses : Table String String} (hr : requires.Shows es) (hu : uses.Shows us)
    (forms : List Form) (a : Analyzer) :
    Leads (clauses env requires uses forms) a
      (fun t _ => t.1.Shows (es ++ clauseKeys "require" requireKeys forms) ∧
        t.2.Shows (us ++ clauseKeys "use" useKeys forms)) (fun _ _ => True) := by
  induction requires, uses, forms using clauses.induct generalizing es us a with
  | case1 requires uses =>
      simp only [clauseKeys, List.append_nil]
      exact leads_pure.mpr ⟨hr, hu⟩
  | case2 requires uses text rest ih => exact ih hr hu a
  | case3 requires uses kind forms line rest hk ih =>
      have hne : ¬ "require" = "use" := by decide
      simp only [clauses, clauseKeys, hk, if_true, if_neg hne, List.nil_append,
        ← List.append_assoc]
      apply (leads_specs (leads_requireSpec env) hr forms a).bind
      · exact fun t b ht => ih t ht hu b
      · exact fun _ _ _ => trivial
  | case4 requires uses kind forms line rest hk hu' ih =>
      have hne : ¬ "use" = "require" := by decide
      simp only [clauses, clauseKeys, hu', if_true, if_neg hne, List.nil_append,
        ← List.append_assoc]
      apply (leads_specs (leads_useSpec env) hu forms a).bind
      · exact fun t b ht => ih t hr ht b
      · exact fun _ _ _ => trivial
  | case5 requires uses kind forms line rest hk hu' =>
      simp only [clauses, hk, hu', if_false]
      exact leads_throw.mpr trivial
  | case6 requires uses form rest hs hl =>
      rw [clauses.eq_4 _ _ _ _ _ hs hl]
      exact leads_throw.mpr trivial

theorem shows_clauses {forms : List Form} {requires uses : Table String String}
    (h : clauses? forms = some (requires, uses)) :
    requires.Shows (clauseKeys "require" requireKeys forms) ∧
      uses.Shows (clauseKeys "use" useKeys forms) := by
  have hl := leads_keys { ns := Namespace.user } (Table.shows_putAll [])
    (Table.shows_putAll []) forms { namespaces := [] }
  rw [clauses?] at h
  rcases hrun : (clauses { ns := Namespace.user } [] [] forms).run.run { namespaces := [] } with
    ⟨e | t, b⟩ <;> rw [hrun] at h <;> cases h
  exact (leads_of_ok hrun).mp hl

/-- What is demanded holds a key in the end. -/
theorem mem_demands_iff {forms : List Form} {requires uses : Table String String} {lib : String}
    (h : clauses? forms = some (requires, uses)) :
    lib ∈ Node.demands requires uses ↔ ∃ key,
      Table.get? key (clauseKeys "require" requireKeys forms).reverse = some lib ∨
      Table.get? key (clauseKeys "use" useKeys forms).reverse = some lib := by
  obtain ⟨hr, hu⟩ := shows_clauses h
  rw [Node.demands, mem_distinct, List.mem_append, hr.keyed.mem_values, hu.keyed.mem_values]
  simp only [hr.last, hu.last, exists_or]

theorem leads_declaration (env : Env) (args : List Form) (a : Analyzer) :
    Leads (declaration env args) a
      (fun x b => ∃ name forms requires uses, args = .symbol ⟨none, name⟩ :: forms ∧
        clauses? forms = some (requires, uses) ∧ x = .ns env.line name requires uses ∧
        b = (a.setNamespace { a.namespaceOf name with requires, uses }).note (.declared name))
      (fun _ _ => True) := by
  rw [declaration.eq_def]
  split
  · next name forms =>
      apply (leads_clauses env forms a).bind
      · rintro ⟨requires, uses⟩ _ ⟨hr, rfl⟩
        rw [leads_bind, leads_modify, leads_pure]
        exact ⟨name, forms, requires, uses, rfl, hr, rfl, rfl⟩
      · exact fun _ _ _ => trivial
  · exact leads_throw.mpr trivial

end Sumi.Analysis
