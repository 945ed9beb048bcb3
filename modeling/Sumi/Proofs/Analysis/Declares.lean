import Sumi.Proofs.Analysis.Header
import Sumi.Proofs.Leads

namespace Sumi.Analysis

variable {env : Env} {a : Analyzer}

abbrev Plain (m : Analysis Node) : Prop :=
  ∀ a, Leads m a (fun x _ => x.declares? = none) (fun _ _ => True)

theorem plain_pure {x : Node} (h : x.declares? = none) : Plain (pure x) :=
  fun _ => leads_pure.mpr h

theorem plain_fail (env : Env) (cause : CompileError.Cause) : Plain (fail env cause) :=
  fun _ => leads_throw.mpr trivial

theorem plain_bind {α : Type} {m : Analysis α} {k : α → Analysis Node} (h : ∀ x, Plain (k x)) :
    Plain (m >>= k) :=
  fun _ => leads_then fun x b => h x b

theorem symbol_plain (env : Env) (n : Name) : Plain (symbol env n) := by
  unfold symbol
  split
  · exact plain_pure rfl
  · exact plain_bind fun _ => plain_pure rfl

theorem definition_plain (env : Env) (n : Name) (init : Option (Analysis Node)) :
    Plain (definition env n init) := by
  unfold definition
  apply plain_bind
  intro _
  split
  · exact plain_pure rfl
  · exact plain_bind fun _ => plain_bind fun _ => plain_pure rfl

theorem analyzeFn_plain (env : Env) (before : Heading) (forms : List Form) :
    Plain (analyzeFn env before forms) := by
  induction forms generalizing before with
  | nil =>
      unfold analyzeFn
      exact plain_fail env _
  | cons form forms ih =>
      unfold analyzeFn
      split
      · exact plain_bind fun _ => plain_bind fun _ => plain_pure rfl
      · next h =>
          cases h
          split
          · exact ih _
          · exact plain_fail env _
      · next h =>
          cases h
          split
          · exact ih _
          · exact plain_fail env _
      · exact plain_fail env _
      · exact plain_fail env _

theorem analyzeDef_plain (env : Env) (args : List Form) : Plain (analyzeDef env args) := by
  unfold analyzeDef
  split
  · exact definition_plain env _ _
  · exact definition_plain env _ _
  all_goals exact plain_fail env _

theorem analyzeDefn_plain (env : Env) (args : List Form) : Plain (analyzeDefn env args) := by
  unfold analyzeDefn
  split
  · split
    · exact plain_fail env _
    · exact definition_plain env _ _
  · exact plain_fail env _

theorem analyzeIf_plain (env : Env) (args : List Form) : Plain (analyzeIf env args) := by
  unfold analyzeIf
  split
  · exact plain_bind fun _ => plain_bind fun _ => plain_pure rfl
  · exact plain_bind fun _ => plain_bind fun _ => plain_bind fun _ => plain_pure rfl
  all_goals exact plain_fail env _

theorem analyzeLet_plain (env : Env) (args : List Form) : Plain (analyzeLet env args) := by
  unfold analyzeLet
  split
  · split
    · exact plain_bind fun _ => plain_bind fun _ => plain_bind fun _ => plain_pure rfl
    · exact plain_bind fun _ => plain_bind fun _ => plain_pure rfl
  · exact plain_fail env _

theorem analyzeSet_plain (env : Env) (args : List Form) : Plain (analyzeSet env args) := by
  unfold analyzeSet
  split
  · split
    · exact plain_fail env _
    · exact plain_bind fun _ => plain_bind fun _ => plain_pure rfl
  · exact plain_fail env _

theorem analyzeThrow_plain (env : Env) (args : List Form) : Plain (analyzeThrow env args) := by
  unfold analyzeThrow
  split
  · exact plain_bind fun _ => plain_pure rfl
  · exact plain_fail env _

theorem quotation_plain (env : Env) (args : List Form) : Plain (quotation env args) := by
  unfold quotation
  split
  · exact plain_pure rfl
  · exact plain_fail env _

theorem isSymbol_of_special {head : Form} (h : special? env head = some .ns) :
    head.isSymbol "ns" = true := by
  unfold special? at h
  split at h
  · split at h
    · cases h
    · next name _ =>
        have hname : name = "ns" := by
          unfold Special.ofName? at h
          split at h <;> first | rfl | cases h
        subst hname
        rfl
  · cases h

theorem analyzeList_plain (line : Option Nat) {head : Form} (args : List Form)
    (h : head.isSymbol "ns" = false) : Plain (analyzeList env line (head :: args)) := by
  unfold analyzeList
  split
  · exact analyzeDef_plain env args
  · exact analyzeDefn_plain env args
  · exact analyzeFn_plain env .bare args
  · exact analyzeIf_plain env args
  · exact plain_bind fun _ => plain_pure rfl
  · exact analyzeLet_plain env args
  · exact quotation_plain env args
  · exact analyzeSet_plain env args
  · exact analyzeThrow_plain env args
  · next hs =>
      rw [isSymbol_of_special hs] at h
      cases h
  · exact plain_bind fun _ => plain_bind fun _ => plain_bind fun _ => plain_pure rfl

theorem analyze_plain (env : Env) {form : Form} (h : form.isNs = false) :
    Plain (analyze env form) := by
  cases form with
  | symbol n =>
      rw [analyze]
      exact symbol_plain env n
  | list items line =>
      rw [analyze]
      cases items with
      | nil =>
          unfold analyzeList
          exact plain_pure rfl
      | cons head args => exact analyzeList_plain line args h
  | vector items line =>
      rw [analyze]
      exact plain_bind fun _ => plain_pure rfl
  | map items line =>
      rw [analyze]
      exact plain_bind fun _ => plain_bind fun _ => plain_pure rfl
  | _ =>
      unfold analyze
      exact plain_pure rfl

theorem topLevel_plain {ns : String} {form : Form} {a b : Analyzer} {x : Node}
    (h : form.isNs = false) (hrun : (topLevel ns form).run.run a = (.ok x, b)) :
    x.declares? = none := by
  obtain ⟨y, hy, rfl⟩ := topLevel_ok_iff.mp hrun
  rw [declares?_settle]
  exact (leads_of_ok hy).mp (analyze_plain _ h _)

theorem topLevel_ns {ns : String} {form : Form} {a b : Analyzer} {x : Node}
    (h : form.isNs = true) (hrun : (topLevel ns form).run.run a = (.ok x, b)) :
    ∃ line name requires uses, x = .ns line name requires uses := by
  obtain ⟨y, hy, rfl⟩ := topLevel_ok_iff.mp hrun
  obtain ⟨args, line, rfl⟩ := list_of_isNs h
  have hdecl : Leads (declaration (Env.within { ns := ns } line) args) (a.enter ns)
      (fun y _ => ∃ line name requires uses, y = .ns line name requires uses)
      (fun _ _ => True) := by
    unfold declaration
    split
    · exact leads_then fun _ _ => leads_then fun _ _ => leads_pure.mpr ⟨_, _, _, _, rfl⟩
    · exact leads_throw.mpr trivial
  have hy' : (declaration (Env.within { ns := ns } line) args).run.run (a.enter ns) =
      (.ok y, b) := by
    rwa [analyze, analyzeList] at hy
  obtain ⟨line, name, requires, uses, rfl⟩ := (leads_of_ok hy').mp hdecl
  exact ⟨_, _, _, _, rfl⟩

end Sumi.Analysis
