import Sumi.Proofs.Analysis.Course

namespace Sumi

namespace Env

def Binds (env : Env) (scope : Scope) : Prop := ∀ name ∈ scope, (env.local? name).isSome = true

/-- The locals at a place are the names bound around it, those without a name included. -/
structure Covers (env : Env) (scope : Scope) : Prop where
  known : env.Scoped scope
  bound : env.Binds scope

variable {env : Env} {scope : Scope}

theorem Binds.bind (h : env.Binds scope) (name : String) : (env.bind name).Binds (name :: scope) := by
  intro other hother
  by_cases hne : other = name
  · rw [hne, local?_bind_self]
    rfl
  · rw [local?_bind_of_ne hne]
    exact h other ((List.mem_cons.mp hother).resolve_left hne)

theorem Binds.bindAll (h : env.Binds scope) (names : List String) :
    (env.bindAll names).Binds (names.reverse ++ scope) := by
  induction names generalizing env scope with
  | nil => exact h
  | cons name names ih =>
      rw [List.reverse_cons, List.append_assoc]
      exact ih (h.bind name)

theorem Covers.bind (h : env.Covers scope) (name : String) : (env.bind name).Covers (name :: scope) :=
  ⟨h.known.bind name, h.bound.bind name⟩

theorem Covers.within (h : env.Covers scope) (line : Option Nat) : (env.within line).Covers scope :=
  ⟨h.known.within line, h.bound⟩

theorem Covers.body (h : env.Covers scope) (before : Analysis.Heading) (ps : Analysis.Parameters) :
    (Analysis.bodyEnv env before.self? ps).Covers (scope.inside before ps) where
  known := Analysis.bodyEnv_scoped h.known before ps
  bound := by
    have hself : (env.bindAll before.self?.toList).Binds ((Scope.self? before).toList ++ scope) := by
      intro name hname
      apply h.bound.bindAll before.self?.toList
      rcases List.mem_append.mp hname with hself | hscope
      · have hbefore : before.self? = some name :=
          Option.eq_some_of_filter_eq_some (Option.mem_toList.mp hself)
        simp [hbefore]
      · exact List.mem_append_right _ hscope
    unfold Scope.inside
    rw [List.append_assoc]
    exact hself.bindAll ps.names

end Env

namespace Analysis

variable {α β : Type} {env : Env} {scope : Scope} {D : String → Prop}

def declare (name : String) (requires uses : Table String String) : Analysis PUnit :=
  modify fun a =>
    (a.setNamespace { a.namespaceOf name with requires, uses }).note (.declared name)

/-- An analysis in namespace `ns` that takes these steps and declares nothing but namespaces in
`D`. -/
inductive Steps (ns : String) (D : String → Prop) : {α : Type} → Analysis α → Prop
  | pure {α : Type} (x : α) : Steps ns D (pure x : Analysis α)
  | throw {α : Type} (e : CompileError) : Steps ns D (throw e : Analysis α)
  /-- What comes next has to do with what the first part can come to. -/
  | bind {α β : Type} {m : Analysis α} {k : α → Analysis β} (R : α → Prop) (first : Steps ns D m)
      (post : ∀ a, Leads m a (fun x _ => R x) (fun _ _ => True))
      (rest : ∀ x, R x → Steps ns D (k x)) : Steps ns D (m >>= k)
  | resolve (env : Env) (h : env.ns = ns) (sym : Name) : Steps ns D (resolveVar env sym)
  | count (env : Env) (f : Node) (count : Nat) : Steps ns D (checkArity env f count)
  | begin (env : Env) (h : env.ns = ns) (sym : Name) : Steps ns D (beginDefinition env sym)
  | finish (env : Env) (h : env.ns = ns) (name : String) (init : Node) :
      Steps ns D (finishDefinition env name init)
  | declare (name : String) (requires uses : Table String String) (h : D name) :
      Steps ns D (declare name requires uses)

abbrev Declares (D : String → Prop) (ms : List Mention) : Prop :=
  ∀ m ∈ ms, ∀ ns, m.declared? = some ns → D ns

namespace Steps

variable {ns : String}

theorem fail (env : Env) (cause : CompileError.Cause) :
    Steps ns D (Analysis.fail env cause : Analysis α) := .throw _

theorem seq {m : Analysis α} {k : α → Analysis β} (first : Steps ns D m)
    (rest : ∀ x, Steps ns D (k x)) : Steps ns D (m >>= k) :=
  .bind (fun _ => True) first (fun _ => leads_any) fun x _ => rest x

end Steps

theorem parameters_steps (env : Env) (forms : List Form) :
    Steps env.ns D (parameters env forms) := by
  induction forms using parameters.induct with
  | case1 => exact .pure _
  | case2 rest => exact .pure _
  | case3 forms h =>
      rw [parameters.eq_def]
      simp only [if_true]
      exact .fail env _
  | case4 name forms hn ih =>
      rw [parameters.eq_def]
      simp only [hn, if_false]
      exact ih.seq fun _ => .pure _
  | case5 form forms h =>
      rw [parameters.eq_def]
      split
      · exact .pure _
      · next heq =>
          cases heq
          exact (h _ rfl).elim
      · exact .fail env _

theorem specs_steps {ns : String} {spec : Form → Analysis (Table String String)}
    (h : ∀ form, Steps ns D (spec form)) (known : Table String String) (forms : List Form) :
    Steps ns D (specs spec known forms) := by
  induction forms generalizing known with
  | nil => exact .pure _
  | cons form forms ih => exact (h form).seq fun entries => ih _

theorem requireSpec_steps (env : Env) (form : Form) : Steps env.ns D (requireSpec env form) := by
  unfold requireSpec
  repeat' split
  all_goals first | exact .fail env _ | exact .pure _

theorem useSpec_steps (env : Env) (form : Form) : Steps env.ns D (useSpec env form) := by
  unfold useSpec
  repeat' split
  all_goals first | exact .fail env _ | exact .pure _

theorem clauses_steps (env : Env) (requires uses : Table String String) (forms : List Form) :
    Steps env.ns D (clauses env requires uses forms) := by
  induction requires, uses, forms using clauses.induct with
  | case1 requires uses => exact .pure _
  | case2 requires uses text rest ih => exact ih
  | case3 requires uses kind forms line rest hk ih =>
      simp only [clauses, hk, if_true]
      exact (specs_steps (requireSpec_steps env) requires forms).seq ih
  | case4 requires uses kind forms line rest hk hu ih =>
      simp only [clauses, hu, if_true]
      exact (specs_steps (useSpec_steps env) uses forms).seq ih
  | case5 requires uses kind forms line rest hk hu =>
      simp only [clauses, hk, hu, if_false]
      exact .fail env _
  | case6 requires uses form rest hs hl =>
      rw [clauses.eq_4 _ _ _ _ _ hs hl]
      exact .fail env _

theorem declaration_steps (env : Env) {args : List Form} (hd : Declares D (Scope.declaration args)) :
    Steps env.ns D (declaration env args) := by
  unfold declaration
  split
  · next name forms =>
      refine .bind (fun r => clauses? forms = some r) (clauses_steps env [] [] forms) ?_ ?_
      · intro a
        exact (leads_clauses env forms a).mono (fun _ _ h => h.1) fun _ _ _ => trivial
      · rintro ⟨requires, uses⟩ hr
        have hname : D name := by
          rw [Scope.declaration, hr] at hd
          exact hd _ List.mem_cons_self name rfl
        exact (Steps.declare name requires uses hname).seq fun _ => .pure _
  · exact .fail env _

theorem symbol_steps (env : Env) (sym : Name) : Steps env.ns D (symbol env sym) := by
  unfold symbol
  split
  · exact .pure _
  · exact (Steps.resolve env rfl sym).seq fun _ => .pure _

theorem definition_steps (env : Env) (sym : Name) {init : Option (Analysis Node)}
    (h : ∀ m ∈ init, Steps env.ns D m) : Steps env.ns D (definition env sym init) := by
  unfold definition
  apply (Steps.begin env rfl sym).seq
  intro _
  cases init with
  | none => exact .pure _
  | some m => exact (h m rfl).seq fun x => (Steps.finish env rfl sym.name x).seq fun _ => .pure _

theorem function_steps (hs : env.Covers scope) (sym : Name) {f : Analysis Node}
    {parts : Analysis (List Node)} (hf : "fn" ∉ scope → Steps env.ns D f)
    (hp : "fn" ∈ scope → Steps env.ns D parts) : Steps env.ns D (function env sym f parts) := by
  have hfn := hs.known "fn" rfl
  unfold function
  by_cases hm : "fn" ∈ scope
  · rw [hfn, if_pos hm]
    exact (symbol_steps env sym).seq fun _ => (hp hm).seq fun _ => .pure _
  · rw [hfn, if_neg hm]
    exact hf hm

theorem quotation_steps (env : Env) (args : List Form) : Steps env.ns D (quotation env args) := by
  unfold quotation
  split
  · exact .pure _
  · exact .fail env _

theorem leads_bindings {env : Env} {scope : Scope} (hs : env.Covers scope) (bindings : List Form)
    (a : Analyzer) :
    Leads (analyzeBindings env bindings) a
      (fun r _ => r.1.Covers (Scope.binders bindings ++ scope) ∧ r.1.ns = env.ns)
      (fun _ _ => True) := by
  unfold analyzeBindings
  split
  · next name init rest =>
      apply leads_then
      intro _ b
      apply (leads_bindings (hs.bind name) rest b).bind
      · rintro ⟨inner, names, inits⟩ _ ⟨hi, hns⟩
        refine leads_pure.mpr ⟨?_, hns⟩
        simpa [Scope.binders] using hi
      · exact fun _ _ _ => trivial
  · exact leads_throw.mpr trivial
  · next hfirst hlong =>
      have hnone : Scope.binders bindings = [] := by
        rcases bindings with _ | ⟨first, _ | ⟨second, rest⟩⟩
        · rfl
        · simp [Scope.binders]
        · exact (hlong first second rest rfl).elim
      rw [hnone]
      exact leads_pure.mpr ⟨hs, rfl⟩
termination_by sizeOf bindings

theorem cons_steps {ns : String} {m : Analysis Node} {rest : Analysis (List Node)} (h : Steps ns D m)
    (hr : Steps ns D rest) :
    Steps ns D (do let node ← m; let nodes ← rest; return node :: nodes) :=
  h.seq fun _ => hr.seq fun _ => .pure _

def Stepwise (D : String → Prop) (form : Form) : Prop :=
  ∀ env scope, env.Covers scope → Declares D (scope.form form) → Steps env.ns D (analyze env form)

section Items

variable {form : Form} {forms args : List Form} (hs : env.Covers scope)

include hs

theorem analyzeAll_steps (h : ∀ f ∈ forms, Stepwise D f) (hd : Declares D (scope.all forms)) :
    Steps env.ns D (analyzeAll env forms) := by
  induction forms with
  | nil => exact .pure _
  | cons form forms ih =>
      rw [List.forall_mem_cons] at h
      rw [Scope.all] at hd
      obtain ⟨hform, hforms⟩ := List.forall_mem_append.mp hd
      rw [analyzeAll]
      exact cons_steps (h.1 env scope hs hform) (ih h.2 hforms)

theorem analyzeEvery_steps (first : Bool) (h : ∀ f ∈ forms, Stepwise D f)
    (hd : Declares D (scope.every first forms)) : Steps env.ns D (analyzeEvery first env forms) := by
  induction forms generalizing first with
  | nil => exact .pure _
  | cons form forms ih =>
      rw [List.forall_mem_cons] at h
      rw [analyzeEvery]
      rw [Scope.every] at hd
      cases first with
      | true =>
          obtain ⟨hform, hforms⟩ := List.forall_mem_append.mp hd
          exact cons_steps (h.1 env scope hs hform) (ih false h.2 hforms)
      | false => exact ih true h.2 hd

theorem analyzeDef_steps (h : ∀ f ∈ args, Stepwise D f) (hd : Declares D (scope.define args)) :
    Steps env.ns D (analyzeDef env args) := by
  rw [analyzeDef.eq_def]
  split
  · apply definition_steps env
    rintro m ⟨⟩
  · next sym init =>
      apply definition_steps env sym
      rintro m ⟨⟩
      rw [Scope.define] at hd
      exact h init (by simp) env scope hs (List.forall_mem_cons.mp hd).2
  · exact .fail env _
  · exact .fail env _
  · exact .fail env _

theorem analyzeParts_steps (h : ∀ f ∈ forms, Stepwise D f) (hd : Declares D (scope.parts forms)) :
    Steps env.ns D (analyzeParts env forms) := by
  rw [analyzeParts.eq_def]
  split
  · exact .pure _
  · next forms =>
      rw [List.forall_mem_cons] at h
      rw [Scope.parts] at hd
      exact analyzeAll_steps hs h.2 hd
  · next form forms hstr =>
      rw [List.forall_mem_cons] at h
      rw [Scope.parts.eq_3 _ _ _ hstr] at hd
      obtain ⟨hform, hforms⟩ := List.forall_mem_append.mp hd
      exact cons_steps (h.1 env scope hs hform) (analyzeAll_steps hs h.2 hforms)

theorem analyzeFn_steps (before : Heading) (h : ∀ f ∈ forms, Stepwise D f)
    (hd : Declares D (scope.fn before forms)) : Steps env.ns D (analyzeFn env before forms) := by
  induction forms generalizing before with
  | nil =>
      rw [analyzeFn.eq_def]
      exact .fail env _
  | cons form forms ih =>
      rw [List.forall_mem_cons] at h
      rw [analyzeFn.eq_def]
      cases form with
      | vector params line =>
          rw [Scope.fn] at hd
          refine .bind (fun ps => Parameters.of? params = some ps) (parameters_steps env params) ?_ ?_
          · intro a
            exact (leads_parameters env params a).mono (fun _ _ h => h.1) fun _ _ _ => trivial
          · intro ps hps
            rw [hps] at hd
            have hbody := analyzeAll_steps (hs.body before ps) h.2 (List.forall_mem_append.mp hd).2
            rw [bodyEnv_ns] at hbody
            exact hbody.seq fun _ => .pure _
      | symbol sym =>
          cases before with
          | bare =>
              rw [Scope.fn] at hd
              exact ih (.named sym.name) h.2 hd
          | named | defined => exact .fail env _
      | str text =>
          cases before with
          | defined self =>
              rw [Scope.fn] at hd
              exact ih (.named self) h.2 hd
          | bare | named => exact .fail env _
      | nil | bool | int | float | keyword | list | map => exact .fail env _

theorem analyzeDefn_steps (h : ∀ f ∈ args, Stepwise D f) (hd : Declares D (scope.defineFn args)) :
    Steps env.ns D (analyzeDefn env args) := by
  rw [analyzeDefn.eq_def]
  split
  · next sym rest =>
      rw [List.forall_mem_cons] at h
      split
      · exact .fail env _
      · next hr =>
          rw [Scope.defineFn, if_neg hr] at hd
          have hvalue := (List.forall_mem_cons.mp hd).2
          apply definition_steps env sym
          rintro m ⟨⟩
          apply function_steps hs sym
          · intro hfn
            rw [if_neg hfn] at hvalue
            exact analyzeFn_steps hs (.defined sym.name) h.2 hvalue
          · intro hfn
            rw [if_pos hfn] at hvalue
            obtain ⟨-, hvalue⟩ := List.forall_mem_cons.mp hvalue
            exact analyzeParts_steps hs h.2 (List.forall_mem_cons.mp hvalue).2
  · exact .fail env _

theorem analyzeIf_steps (h : ∀ f ∈ args, Stepwise D f) (hd : Declares D (scope.cond args)) :
    Steps env.ns D (analyzeIf env args) := by
  rw [analyzeIf.eq_def]
  split
  · next test yes =>
      rw [Scope.cond] at hd
      obtain ⟨htest, hyes⟩ := List.forall_mem_append.mp hd
      apply (h test (by simp) env scope hs htest).seq
      intro _
      exact (h yes (by simp) env scope hs hyes).seq fun _ => .pure _
  · next test yes no =>
      rw [Scope.cond] at hd
      obtain ⟨hd, hno⟩ := List.forall_mem_append.mp hd
      obtain ⟨htest, hyes⟩ := List.forall_mem_append.mp hd
      apply (h test (by simp) env scope hs htest).seq
      intro _
      apply (h yes (by simp) env scope hs hyes).seq
      intro _
      exact (h no (by simp) env scope hs hno).seq fun _ => .pure _
  · exact .fail env _
  · exact .fail env _
  · exact .fail env _

omit hs in
theorem analyzeBindings_steps {env : Env} {scope : Scope} (hs : env.Covers scope)
    {bindings : List Form} (h : ∀ f ∈ bindings, Stepwise D f)
    (hd : Declares D (scope.bindings bindings)) : Steps env.ns D (analyzeBindings env bindings) := by
  rw [analyzeBindings.eq_def]
  split
  · next name init rest =>
      rw [List.forall_mem_cons, List.forall_mem_cons] at h
      rw [Scope.bindings] at hd
      obtain ⟨hinit, hd⟩ := List.forall_mem_append.mp hd
      have hrest := analyzeBindings_steps (hs.bind name) h.2.2 (List.forall_mem_cons.mp hd).2
      apply (h.2.1 env scope hs hinit).seq
      intro _
      exact hrest.seq fun _ => .pure _
  · exact .fail env _
  · exact .pure _
termination_by bindings.length

theorem analyzeLet_steps (h : ∀ f ∈ args, Stepwise D f)
    (hinner : ∀ bindings line, .vector bindings line ∈ args → ∀ f ∈ bindings, Stepwise D f)
    (hd : Declares D (scope.bind args)) : Steps env.ns D (analyzeLet env args) := by
  rw [analyzeLet.eq_def]
  split
  · next bindings line body =>
      rw [List.forall_mem_cons] at h
      rw [Scope.bind] at hd
      dsimp only
      split
      · exact .fail env _
      · next heven =>
          rw [if_neg heven] at hd
          obtain ⟨hbindings, hbody⟩ := List.forall_mem_append.mp hd
          refine .bind _ (analyzeBindings_steps hs (hinner bindings line List.mem_cons_self) hbindings)
            (leads_bindings hs bindings) ?_
          rintro ⟨inner, names, inits⟩ ⟨hi, hns⟩
          have hall := analyzeAll_steps hi h.2 hbody
          rw [hns] at hall
          exact hall.seq fun _ => .pure _
  · exact .fail env _

theorem analyzeSet_steps (h : ∀ f ∈ args, Stepwise D f) (hd : Declares D (scope.assign args)) :
    Steps env.ns D (analyzeSet env args) := by
  rw [analyzeSet.eq_def]
  split
  · next sym value =>
      split
      · exact .fail env _
      · next hlocal =>
          have hscope : ¬ (sym.ns = none ∧ sym.name ∈ scope) := by
            rintro ⟨hns, hm⟩
            have hbound := hs.bound sym.name hm
            rw [localOf?, hns, Option.isNone_none, if_pos rfl] at hlocal
            rw [hlocal] at hbound
            cases hbound
          rw [Scope.assign, if_neg hscope] at hd
          apply (Steps.resolve env rfl sym).seq
          intro _
          exact (h value (by simp) env scope hs (List.forall_mem_cons.mp hd).2).seq fun _ => .pure _
  · exact .fail env _

theorem analyzeThrow_steps (h : ∀ f ∈ args, Stepwise D f) (hd : Declares D (scope.throw args)) :
    Steps env.ns D (analyzeThrow env args) := by
  rw [analyzeThrow.eq_def]
  split
  · next form =>
      rw [Scope.throw] at hd
      exact (h form (by simp) env scope hs hd).seq fun _ => .pure _
  · exact .fail env _

theorem analyzeList_steps (line : Option Nat) (h : ∀ f ∈ forms, Stepwise D f)
    (hinner : ∀ bindings line, .vector bindings line ∈ forms → ∀ f ∈ bindings, Stepwise D f)
    (hd : Declares D (scope.list forms)) : Steps env.ns D (analyzeList env line forms) := by
  cases forms with
  | nil => exact .pure _
  | cons head args =>
      rw [List.forall_mem_cons] at h
      obtain ⟨hhead, hargs⟩ := h
      rw [Scope.list] at hd
      rw [analyzeList, special?_eq hs.known]
      cases hspecial : scope.special? head with
      | none =>
          rw [hspecial] at hd
          obtain ⟨hf, hxs⟩ := List.forall_mem_append.mp hd
          apply (hhead env scope hs hf).seq
          intro f
          apply (analyzeAll_steps hs hargs hxs).seq
          intro xs
          exact (Steps.count env f xs.length).seq fun _ => .pure _
      | some special =>
          rw [hspecial] at hd
          cases special with
          | define => exact analyzeDef_steps hs hargs hd
          | defineFn => exact analyzeDefn_steps hs hargs hd
          | fn => exact analyzeFn_steps hs .bare hargs hd
          | cond => exact analyzeIf_steps hs hargs hd
          | block => exact (analyzeAll_steps hs hargs hd).seq fun _ => .pure _
          | bind =>
              apply analyzeLet_steps hs hargs _ hd
              exact fun bindings line hm => hinner bindings line (List.mem_cons_of_mem head hm)
          | quote => exact quotation_steps env args
          | assign => exact analyzeSet_steps hs hargs hd
          | throw => exact analyzeThrow_steps hs hargs hd
          | ns => exact declaration_steps env hd

end Items

/-- A `let` analyzes the items of its bindings without the vector around them, so the items of a
vector are kept with it. -/
theorem stepwise (D : String → Prop) (form : Form) :
    Stepwise D form ∧ ∀ items line, form = .vector items line → ∀ f ∈ items, Stepwise D f := by
  induction form using Form.byItems with
  | symbol sym =>
      refine ⟨fun env scope hs hd => ?_, nofun⟩
      rw [analyze]
      exact symbol_steps env sym
  | list items line ih =>
      refine ⟨fun env scope hs hd => ?_, nofun⟩
      rw [Scope.form] at hd
      rw [analyze]
      exact analyzeList_steps (hs.within line) line (fun f hf => (ih f hf).1)
        (fun bindings line' hm => (ih _ hm).2 bindings line' rfl) hd
  | vector items line ih =>
      refine ⟨fun env scope hs hd => ?_, ?_⟩
      · rw [Scope.form] at hd
        rw [analyze]
        exact (analyzeAll_steps (hs.within line) (fun f hf => (ih f hf).1) hd).seq fun _ => .pure _
      · rintro _ _ ⟨⟩ f hf
        exact (ih f hf).1
  | map items line ih =>
      refine ⟨fun env scope hs hd => ?_, nofun⟩
      rw [Scope.form] at hd
      obtain ⟨hkeys, hvalues⟩ := List.forall_mem_append.mp hd
      rw [analyze]
      apply (analyzeEvery_steps (hs.within line) true (fun f hf => (ih f hf).1) hkeys).seq
      intro _
      exact (analyzeEvery_steps (hs.within line) false (fun f hf => (ih f hf).1) hvalues).seq
        fun _ => .pure _
  | nil | bool | int | float | str | keyword => exact ⟨fun _ _ _ _ => .pure _, nofun⟩

theorem analyze_steps (hs : env.Covers scope) {form : Form} (hd : Declares D (scope.form form)) :
    Steps env.ns D (analyze env form) :=
  (stepwise D form).1 env scope hs hd

end Analysis

end Sumi
