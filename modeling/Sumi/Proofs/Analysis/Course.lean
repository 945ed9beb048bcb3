import Sumi.Proofs.Analysis.Behind
import Sumi.Proofs.Session.Wrapped

namespace Sumi

namespace Env

/-- The locals at a place are the names bound around it. -/
def Scoped (env : Env) (scope : Scope) : Prop :=
  ∀ name, name.isEmpty = false →
    env.local? name = if name ∈ scope then some (Code.mungeLocal name) else none

variable {env : Env} {scope : Scope} {name : String} {names : List String}

theorem local?_bind_self (env : Env) (name : String) :
    (env.bind name).local? name = some (Code.mungeLocal name) := by
  simp [local?, bind]

theorem local?_bind_of_ne {other : String} (h : other ≠ name) :
    (env.bind name).local? other = env.local? other := by
  simp [local?, bind, List.lookup_cons, beq_false_of_ne h]

theorem Scoped.bind (h : env.Scoped scope) (name : String) : (env.bind name).Scoped (name :: scope) := by
  intro other hother
  by_cases hne : other = name
  · subst hne
    simp [local?_bind_self]
  · rw [local?_bind_of_ne hne, h other hother]
    simp [hne]

theorem Scoped.bind_empty (h : env.Scoped scope) (hname : name.isEmpty = true) :
    (env.bind name).Scoped scope := by
  intro other hother
  have hne : other ≠ name := by
    rintro rfl
    rw [hname] at hother
    cases hother
  rw [local?_bind_of_ne hne, h other hother]

theorem Scoped.bindAll (h : env.Scoped scope) (names : List String) :
    (env.bindAll names).Scoped (names.reverse ++ scope) := by
  induction names generalizing env scope with
  | nil => exact h
  | cons name names ih =>
      rw [List.reverse_cons, List.append_assoc]
      exact ih (h.bind name)

theorem bindAll_ns (env : Env) (names : List String) : (env.bindAll names).ns = env.ns := by
  induction names generalizing env with
  | nil => rfl
  | cons name names ih => exact ih (env.bind name)

theorem Scoped.within (h : env.Scoped scope) (line : Option Nat) : (env.within line).Scoped scope := h

end Env

namespace Analysis

open Env

variable {α β : Type} {env : Env} {scope : Scope}

theorem bodyEnv_ns (env : Env) (self : Option String) (ps : Parameters) :
    (bodyEnv env self ps).ns = env.ns := by
  rw [bodyEnv, bindAll_ns, bindAll_ns]

theorem bodyEnv_scoped (h : env.Scoped scope) (before : Heading) (ps : Parameters) :
    (bodyEnv env before.self? ps).Scoped (scope.inside before ps) := by
  have hself : (env.bindAll before.self?.toList).Scoped ((Scope.self? before).toList ++ scope) := by
    unfold Scope.self?
    cases before.self? with
    | none => exact h
    | some name =>
        cases hname : name.isEmpty with
        | true =>
            rw [Option.filter_some_neg (by simp [hname])]
            exact h.bind_empty hname
        | false =>
            rw [Option.filter_some_pos (by simp [hname])]
            exact h.bind name
  unfold Scope.inside
  rw [List.append_assoc]
  exact hself.bindAll _

theorem special?_eq (h : env.Scoped scope) (head : Form) :
    special? env head = scope.special? head := by
  cases head with
  | symbol n =>
      rcases n with ⟨_ | ns, name⟩
      · change (if (env.local? name).isSome then none else Special.ofName? name) =
          if name ∈ scope then none else Special.ofName? name
        cases hname : name.isEmpty with
        | true =>
            obtain rfl : name = "" := by simpa using hname
            have hnone : Special.ofName? "" = none := rfl
            rw [hnone, ite_self, ite_self]
        | false =>
            rw [h name hname]
            by_cases hm : name ∈ scope <;> simp [hm]
      · rfl
  | _ => rfl

theorem localOf?_eq (h : env.Scoped scope) {sym : Name} (hs : (Form.symbol sym).isNamed = true) :
    localOf? env sym =
      if sym.ns = none ∧ sym.name ∈ scope then some (Code.mungeLocal sym.name) else none := by
  rcases sym with ⟨_ | ns, name⟩
  · have hname : name.isEmpty = false := by simpa [Form.isNamed] using hs
    simp [localOf?, h name hname]
  · simp [localOf?]

theorem leads_parameters (env : Env) (forms : List Form) (a : Analyzer) :
    Leads (parameters env forms) a (fun ps b => Parameters.of? forms = some ps ∧ b = a)
      (fun _ b => b = a) := by
  induction forms using parameters.induct generalizing a with
  | case1 => exact leads_pure.mpr ⟨rfl, rfl⟩
  | case2 rest =>
      refine leads_pure.mpr ⟨?_, rfl⟩
      simp [Parameters.of?]
  | case3 forms h =>
      rw [parameters.eq_def]
      simp only [if_true]
      exact leads_throw.mpr rfl
  | case4 name forms hn ih =>
      rw [parameters.eq_def]
      simp only [hn, if_false]
      apply (ih a).bind
      · rintro more _ ⟨hm, rfl⟩
        refine leads_pure.mpr ⟨?_, rfl⟩
        simp [Parameters.of?, hn, hm]
      · exact fun _ _ h => h
  | case5 form forms h =>
      rw [parameters.eq_def]
      split
      · cases ‹form :: forms = []›
      · next heq =>
          cases heq
          exact (h _ rfl).elim
      · next heq =>
          cases heq
          exact leads_throw.mpr rfl

def Fixed (m m' : Analysis α) : Prop :=
  ∀ a b, (m.run.run a).2 = a ∧ (m'.run.run b).2 = b ∧
    (m.run.run a).1.toOption = (m'.run.run b).1.toOption

theorem fixed_pure (x : α) : Fixed (pure x) (pure x) := fun _ _ => ⟨rfl, rfl, rfl⟩

theorem fixed_fail (env other : Env) (cause cause' : CompileError.Cause) :
    Fixed (fail env cause : Analysis α) (fail other cause') := fun _ _ => ⟨rfl, rfl, rfl⟩

theorem Fixed.bind {m m' : Analysis α} {k k' : α → Analysis β} (h : Fixed m m')
    (hk : ∀ x, Fixed (k x) (k' x)) : Fixed (m >>= k) (m' >>= k') := by
  intro a b
  obtain ⟨ha, hb, hr⟩ := h a b
  simp only [ExceptT.run_bind, StateT.run_bind]
  rcases hm : m.run.run a with ⟨_ | x, a'⟩ <;> rcases hm' : m'.run.run b with ⟨_ | y, b'⟩ <;>
    rw [hm] at ha hr <;> rw [hm'] at hb hr
  · exact ⟨ha, hb, rfl⟩
  · cases hr
  · cases hr
  · cases hr
    subst ha hb
    exact hk x a' b'

theorem specs_fixed {spec spec' : Form → Analysis (Table String String)}
    (h : ∀ form, Fixed (spec form) (spec' form)) (known : Table String String) (forms : List Form) :
    Fixed (specs spec known forms) (specs spec' known forms) := by
  induction forms generalizing known with
  | nil => exact fixed_pure _
  | cons form forms ih => exact (h form).bind fun entries => ih _

theorem requireSpec_fixed (env other : Env) (form : Form) :
    Fixed (requireSpec env form) (requireSpec other form) := by
  unfold requireSpec
  repeat' split
  all_goals first | exact fixed_fail _ _ _ _ | exact fixed_pure _

theorem useSpec_fixed (env other : Env) (form : Form) :
    Fixed (useSpec env form) (useSpec other form) := by
  unfold useSpec
  repeat' split
  all_goals first | exact fixed_fail _ _ _ _ | exact fixed_pure _

theorem clauses_fixed (env other : Env) (requires uses : Table String String) (forms : List Form) :
    Fixed (clauses env requires uses forms) (clauses other requires uses forms) := by
  induction requires, uses, forms using clauses.induct with
  | case1 requires uses => exact fixed_pure _
  | case2 requires uses text rest ih => exact ih
  | case3 requires uses kind forms line rest hk ih =>
      simp only [clauses, hk, if_true]
      exact (specs_fixed (requireSpec_fixed env other) requires forms).bind ih
  | case4 requires uses kind forms line rest hk hu ih =>
      simp only [clauses, hu, if_true]
      exact (specs_fixed (useSpec_fixed env other) uses forms).bind ih
  | case5 requires uses kind forms line rest hk hu =>
      simp only [clauses, hk, hu, if_false]
      exact fixed_fail _ _ _ _
  | case6 requires uses form rest hs hl =>
      rw [clauses.eq_4 _ _ _ _ _ hs hl, clauses.eq_4 _ _ _ _ _ hs hl]
      exact fixed_fail _ _ _ _

theorem leads_clauses (env : Env) (forms : List Form) (a : Analyzer) :
    Leads (clauses env [] [] forms) a (fun r b => clauses? forms = some r ∧ b = a)
      (fun _ b => b = a) := by
  obtain ⟨hs, -, hr⟩ := clauses_fixed env { ns := Namespace.user } [] [] forms a { namespaces := [] }
  rw [leads_iff]
  rcases hrun : (clauses env [] [] forms).run.run a with ⟨e | r, b⟩ <;> rw [hrun] at hs hr
  · exact hs
  · exact ⟨hr.symm, hs⟩

/-- The analysis comes upon `ms` in namespace `ns`; its result is in `R` of what is known before. -/
def Comes (ns : String) (m : Analysis α) (ms : List Mention) (R : View → α → Prop) : Prop :=
  ∀ a, a.Consistent → Leads m a (fun x b => R (a.view ns) x ∧ Behind ns a ms b)
    (fun _ b => ∃ ms', ms' <+: ms ∧ Behind ns a ms' b)

variable {ns : String} {ms ms' : List Mention} {R : View → α → Prop} {T : View → β → Prop}

theorem comes_pure {x : α} (h : ∀ v : View, v.ns = ns → R v x) : Comes ns (pure x) [] R :=
  fun _ hc => leads_pure.mpr ⟨h _ rfl, .refl hc⟩

theorem comes_fail (env : Env) (cause : CompileError.Cause) : Comes ns (fail env cause) ms R :=
  fun _ hc => leads_throw.mpr ⟨[], List.nil_prefix, .refl hc⟩

theorem Comes.bind {m : Analysis α} {k : α → Analysis β} (h : Comes ns m ms R)
    (hk : ∀ v x, v.ns = ns → R v x → Comes ns (k x) ms' fun v' y => v' = v.after ms → T v y) :
    Comes ns (m >>= k) (ms ++ ms') T := by
  intro a hc
  apply (h a hc).bind
  · rintro x b ⟨hx, hb⟩
    apply (hk _ x rfl hx b hb.consistent).mono
    · rintro y c ⟨hy, hc'⟩
      exact ⟨hy hb.view, hb.trans hc'⟩
    · rintro e c ⟨ms'', hp, hc'⟩
      exact ⟨ms ++ ms'', (List.prefix_append_right_inj ms).mpr hp, hb.trans hc'⟩
  · rintro e b ⟨ms'', hp, hb⟩
    exact ⟨ms'', hp.trans (List.prefix_append _ _), hb⟩

theorem Comes.map {m : Analysis α} {f : α → β} (h : Comes ns m ms R)
    (hf : ∀ v x, v.ns = ns → R v x → T v (f x)) : Comes ns (m >>= fun x => pure (f x)) ms T := by
  intro a hc
  apply (h a hc).bind
  · rintro x b ⟨hx, hb⟩
    exact leads_pure.mpr ⟨hf _ x rfl hx, hb⟩
  · exact fun _ _ he => he

theorem Comes.mono {m : Analysis α} {S : View → α → Prop} (h : Comes ns m ms R)
    (hs : ∀ v x, v.ns = ns → R v x → S v x) : Comes ns m ms S := by
  intro a hc
  apply (h a hc).mono
  · rintro x b ⟨hx, hb⟩
    exact ⟨hs _ x rfl hx, hb⟩
  · exact fun _ _ he => he

theorem Comes.past {m : Analysis α} (h : Comes ns m ms R) (hi : ∀ m ∈ ms', m.event? ns = none) :
    Comes ns m (ms' ++ ms) R := by
  intro a hc
  have hfirst : Behind ns a ms' a := (Behind.refl hc).idle hi
  apply (h a hc).mono
  · rintro x b ⟨hx, hb⟩
    exact ⟨hx, hfirst.trans hb⟩
  · rintro e b ⟨ms'', hp, hb⟩
    exact ⟨ms' ++ ms'', (List.prefix_append_right_inj ms').mpr hp, hfirst.trans hb⟩

/-- What only looks at the table comes upon what leaves it alone. -/
theorem comes_idle {m : Analysis α} (hs : ∀ m ∈ ms, m.event? ns = none)
    (h : ∀ a : Analyzer, a.Consistent → Leads m a
      (fun x b => R (a.view ns) x ∧ b.namespaces = a.namespaces ∧ b.events = a.events)
      (fun _ _ => False)) : Comes ns m ms R := by
  intro a hc
  apply (h a hc).mono
  · rintro x b ⟨hx, hn, he⟩
    exact ⟨hx, (Behind.nothing hc hn he).idle hs⟩
  · exact fun _ _ hf => hf.elim

theorem leads_warnUndeclared (env : Env) (ns name : String) (a : Analyzer) :
    Leads (warnUndeclared env ns name) a
      (fun _ b => b.namespaces = a.namespaces ∧ b.events = a.events) (fun _ _ => False) := by
  apply leads_modify.mpr
  split
  · exact ⟨rfl, rfl⟩
  · exact ⟨rfl, rfl⟩

def outlook (a : Analyzer) (ns : String) : View :=
  { a.view ns with ns := (a.namespaceOf ns).name }

theorem leads_lookup (env : Env) (sym : Name) (a : Analyzer) :
    Leads (resolveVar env sym) a
      (fun r b => r = (outlook a env.ns).meaning sym ∧ b.namespaces = a.namespaces ∧
        b.events = a.events) (fun _ _ => False) := by
  unfold resolveVar
  apply leads_bind.mpr
  apply leads_get.mpr
  dsimp only
  -- the places that a name is looked for in, in the order of `View.meaning`
  rcases sym with ⟨_ | short, name⟩
  · dsimp only
    cases hu : (a.namespaceOf env.ns).uses.get? name with
    | some other =>
        refine leads_pure.mpr ⟨?_, rfl, rfl⟩
        simp [View.meaning, outlook, Analyzer.view, hu]
    | none =>
        dsimp only
        cases hd : (a.namespaceOf env.ns).defs.has name with
        | true =>
            rw [if_pos rfl]
            refine leads_pure.mpr ⟨?_, rfl, rfl⟩
            simp [View.meaning, outlook, Analyzer.view, hu, hd]
        | false =>
            rw [if_neg nofun]
            cases hl : (a.namespaceOf Namespace.core).defs.has name with
            | true =>
                rw [if_pos rfl]
                refine leads_pure.mpr ⟨?_, rfl, rfl⟩
                simp [View.meaning, outlook, Analyzer.view, hu, hd, hl]
            | false =>
                rw [if_neg nofun]
                apply (leads_warnUndeclared env _ _ a).bind
                · rintro _ b hb
                  refine leads_pure.mpr ⟨?_, hb⟩
                  simp [View.meaning, outlook, Analyzer.view, hu, hd, hl]
                · exact fun _ _ hf => hf
  · dsimp only
    split
    · exact leads_pure.mpr ⟨rfl, rfl, rfl⟩
    · apply (leads_warnUndeclared env _ _ a).bind
      · rintro _ b hb
        exact leads_pure.mpr ⟨rfl, hb⟩
      · exact fun _ _ hf => hf

theorem leads_resolveVar (env : Env) (sym : Name) {a : Analyzer} (hc : a.Consistent) :
    Leads (resolveVar env sym) a
      (fun r b => r = (a.view env.ns).meaning sym ∧ b.namespaces = a.namespaces ∧
        b.events = a.events) (fun _ _ => False) := by
  have hview : outlook a env.ns = a.view env.ns := by
    rw [outlook, hc.namespaceOf_name]
    rfl
  rw [← hview]
  exact leads_lookup env sym a

theorem resolveVar_comes (env : Env) (sym : Name) (scope : Scope) :
    Comes env.ns (resolveVar env sym) [.symbol sym scope] (fun v r => r = v.meaning sym) :=
  comes_idle (by simp [Mention.event?]) fun _ hc => leads_resolveVar env sym hc

abbrev Reads (scope : Scope) (ms : List Mention) (v : View) (x : Node) : Prop :=
  x.mentions (scope.map Code.mungeLocal) = v.resolve ms

abbrev ReadsAll (scope : Scope) (ms : List Mention) (v : View) (xs : List Node) : Prop :=
  Node.allMentions (scope.map Code.mungeLocal) xs = v.resolve ms

theorem symbol_comes (hs : env.Scoped scope) {sym : Name} (hn : (Form.symbol sym).isNamed = true) :
    Comes env.ns (symbol env sym) [.symbol sym scope] (Reads scope [.symbol sym scope]) := by
  unfold symbol
  rw [localOf?_eq hs hn]
  by_cases hm : sym.ns = none ∧ sym.name ∈ scope
  · rw [if_pos hm]
    apply comes_idle (by simp [Mention.event?])
    intro a _
    refine leads_pure.mpr ⟨?_, rfl, rfl⟩
    simp [Reads, Node.mentions, View.image, hm]
  · rw [if_neg hm]
    change Comes env.ns (resolveVar env sym >>= fun r => pure (Node.var env.line r.1 r.2)) _ _
    apply (resolveVar_comes env sym scope).map
    rintro v r - rfl
    simp [Reads, Node.mentions, View.image, hm]

theorem checkArity_comes (env : Env) (f : Node) (count : Nat) :
    Comes env.ns (checkArity env f count) [] (fun _ _ => True) := by
  apply comes_idle (by simp)
  intro a _
  apply leads_modify.mpr
  refine ⟨trivial, ?_⟩
  split
  · dsimp only
    split
    · exact ⟨rfl, rfl⟩
    · exact ⟨rfl, rfl⟩
  · exact ⟨rfl, rfl⟩

theorem declaration_comes (env : Env) (scope : Scope) (args : List Form) :
    Comes env.ns (declaration env args) (Scope.declaration args)
      (Reads scope (Scope.declaration args)) := by
  intro a hc
  unfold declaration
  split
  · next name forms =>
      rw [Scope.declaration]
      apply (leads_clauses env forms a).bind
      · rintro ⟨requires, uses⟩ _ ⟨hr, rfl⟩
        apply leads_bind.mpr
        apply leads_modify.mpr
        apply leads_pure.mpr
        rw [hr]
        refine ⟨?_, Behind.declare hc name requires uses⟩
        simp [Reads, Node.mentions, View.image]
      · rintro e _ rfl
        exact ⟨[], List.nil_prefix, .refl hc⟩
  · exact leads_throw.mpr ⟨[], List.nil_prefix, .refl hc⟩

theorem beginDefinition_comes (env : Env) (sym : Name) :
    Comes env.ns (beginDefinition env sym) [.defines sym.name] (fun _ _ => True) := by
  intro a hc
  have hlast (b : Analyzer) (hn : b.namespaces = a.namespaces) (he : b.events = a.events) :
      Behind env.ns a [.defines sym.name]
        ((b.setNamespace (recordDefinition env.line sym.name (b.namespaceOf env.ns))).note
          (.defined env.ns sym.name)) := by
    have hb : Behind env.ns a [] b := .nothing hc hn he
    exact hb.trans (.begin hb.consistent env.line sym.name)
  unfold beginDefinition
  apply leads_bind.mpr
  apply leads_get.mpr
  dsimp only
  split
  · exact leads_throw.mpr ⟨[], List.nil_prefix, .refl hc⟩
  · split
    · split
      · apply leads_bind.mpr
        apply leads_modify.mpr
        exact leads_modify.mpr ⟨trivial, hlast _ rfl rfl⟩
      · exact leads_modify.mpr ⟨trivial, hlast _ rfl rfl⟩
    · exact leads_modify.mpr ⟨trivial, hlast _ rfl rfl⟩

theorem definition_comes (env : Env) (scope : Scope) (sym : Name) :
    Comes env.ns (definition env sym none) [.defines sym.name] (Reads scope [.defines sym.name]) := by
  apply (beginDefinition_comes env sym).map
  intro v _ hv _
  simp [Reads, Node.mentions, View.image, hv]

theorem definition_value_comes (env : Env) (sym : Name) {init : Analysis Node}
    (h : Comes env.ns init ms (Reads scope ms)) :
    Comes env.ns (definition env sym (some init)) (.defines sym.name :: ms)
      (Reads scope (.defines sym.name :: ms)) := by
  intro a hc
  unfold definition
  apply (beginDefinition_comes env sym a hc).bind
  · rintro _ b ⟨-, hb⟩
    apply (h b hb.consistent).bind
    · rintro x c ⟨hx, hc'⟩
      apply leads_bind.mpr
      apply leads_modify.mpr
      refine leads_pure.mpr ⟨?_, (hb.trans hc').finish List.mem_cons_self _ _⟩
      rw [hb.view] at hx
      simpa [Reads, Node.mentions, View.image, Analyzer.view] using hx
    · rintro e c ⟨ms', hp, hc'⟩
      exact ⟨.defines sym.name :: ms', List.cons_prefix_cons.mpr ⟨rfl, hp⟩, hb.trans hc'⟩
  · rintro e b ⟨ms', hp, hb⟩
    exact ⟨ms', hp.trans (List.prefix_append [_] ms), hb⟩

theorem quotation_comes (env : Env) (scope : Scope) (args : List Form) :
    Comes env.ns (quotation env args) [] (Reads scope []) := by
  unfold quotation
  split
  · exact comes_pure fun _ _ => rfl
  · exact comes_fail env _

/-- The value of a function definition, where `fn` is a local or means what it usually does. -/
theorem function_comes (hs : env.Scoped scope) {sym : Name} (hn : (Form.symbol sym).isNamed = true)
    {f : Analysis Node} {parts : Analysis (List Node)} (hf : Comes env.ns f ms (Reads scope ms))
    (hp : Comes env.ns parts ms' (ReadsAll scope ms')) :
    let all := if "fn" ∈ scope then .symbol (.plain "fn") scope :: .symbol sym scope :: ms' else ms
    Comes env.ns (function env sym f parts) all (Reads scope all) := by
  have hfn := hs "fn" rfl
  unfold function
  by_cases hm : "fn" ∈ scope
  · rw [if_pos hm] at hfn ⊢
    rw [hfn]
    change Comes env.ns _ ([.symbol (.plain "fn") scope] ++ ([.symbol sym scope] ++ ms')) _
    apply Comes.past _ (by simp [Mention.event?])
    apply (symbol_comes hs hn).bind
    intro v self hv hself
    apply hp.map
    rintro v' xs - hxs rfl
    simp only [Reads, ReadsAll] at hself hxs
    simp [Reads, Node.mentions, Node.allMentions, View.image, View.next, Name.plain, hself, hxs, hm]
  · rw [if_neg hm] at hfn ⊢
    rw [hfn]
    exact hf

theorem cons_comes {m : Analysis Node} {rest : Analysis (List Node)}
    (h : Comes ns m ms (Reads scope ms)) (hr : Comes ns rest ms' (ReadsAll scope ms')) :
    Comes ns (do let node ← m; let nodes ← rest; return node :: nodes) (ms ++ ms')
      (ReadsAll scope (ms ++ ms')) := by
  apply h.bind
  intro v node _ hnode
  apply hr.map
  rintro _ nodes - hnodes rfl
  simp only [ReadsAll, Reads] at hnode hnodes ⊢
  rw [Node.allMentions, hnode, hnodes, View.resolve_append]

theorem named_cons {form : Form} {forms : List Form} (h : Form.allNamed (form :: forms) = true) :
    form.isNamed = true ∧ Form.allNamed forms = true := by
  rwa [Form.allNamed, Bool.and_eq_true] at h

theorem event?_binds (names : List String) :
    ∀ m ∈ names.map Mention.binds, m.event? ns = none := by
  intro m hm
  obtain ⟨name, -, rfl⟩ := List.mem_map.mp hm
  rfl

theorem fn_reads {line : Option Nat} {before : Heading} {ps : Parameters} {v : View} {body : List Node}
    (h : ReadsAll (scope.inside before ps) ms v body) :
    Reads scope (((Scope.self? before).toList ++ ps.names).map .binds ++ ms) v
      (.fn line before.self? ((Scope.self? before).map Code.mungeLocal)
        (ps.fixed.map Code.mungeLocal) (ps.rest.map Code.mungeLocal) body) := by
  have hnames : ps.fixed.map Code.mungeLocal ++ (ps.rest.map Code.mungeLocal).toList =
      ps.names.map Code.mungeLocal := by
    rw [Parameters.names, List.map_append, Option.toList_map]
  have hself : ((Scope.self? before).map Code.mungeLocal).toList =
      (Scope.self? before).toList.map Code.mungeLocal := Option.toList_map
  simp only [ReadsAll, Reads, Scope.inside] at h ⊢
  rw [Node.mentions, hnames, hself, View.resolve_append, View.resolve_binds, View.after_binds, ← h]
  simp [List.map_reverse]

mutual

theorem analyze_comes {env : Env} {scope : Scope} (hs : env.Scoped scope) {form : Form} (hn : form.isNamed = true) :
    Comes env.ns (analyze env form) (scope.form form) (Reads scope (scope.form form)) := by
  cases form with
  | symbol sym =>
      rw [analyze, Scope.form]
      exact symbol_comes hs hn
  | list items line =>
      rw [Form.isNamed] at hn
      rw [analyze, Scope.form]
      exact analyzeList_comes (hs.within line) line hn
  | vector items line =>
      rw [Form.isNamed] at hn
      rw [analyze, Scope.form]
      exact (analyzeAll_comes (hs.within line) hn).map fun _ _ _ h => h
  | map items line =>
      rw [Form.isNamed] at hn
      rw [analyze, Scope.form]
      apply (analyzeEvery_comes true (hs.within line) hn).bind
      intro v keys _ hkeys
      apply (analyzeEvery_comes false (hs.within line) hn).map
      rintro _ values - hvalues rfl
      simp only [ReadsAll, Reads] at hkeys hvalues ⊢
      rw [Node.mentions, hkeys, hvalues, View.resolve_append]
  | nil | bool | int | float | str | keyword => exact comes_pure fun _ _ => rfl
termination_by sizeOf form

theorem analyzeAll_comes {env : Env} {scope : Scope} (hs : env.Scoped scope) {forms : List Form}
    (hn : Form.allNamed forms = true) :
    Comes env.ns (analyzeAll env forms) (scope.all forms) (ReadsAll scope (scope.all forms)) := by
  cases forms with
  | nil => exact comes_pure fun _ _ => rfl
  | cons form forms =>
      obtain ⟨hform, hforms⟩ := named_cons hn
      rw [analyzeAll, Scope.all]
      exact cons_comes (analyze_comes hs hform) (analyzeAll_comes hs hforms)
termination_by sizeOf forms

theorem analyzeEvery_comes {env : Env} {scope : Scope} (first : Bool) (hs : env.Scoped scope) {forms : List Form}
    (hn : Form.allNamed forms = true) :
    Comes env.ns (analyzeEvery first env forms) (scope.every first forms)
      (ReadsAll scope (scope.every first forms)) := by
  cases forms with
  | nil => exact comes_pure fun _ _ => rfl
  | cons form forms =>
      obtain ⟨hform, hforms⟩ := named_cons hn
      rw [analyzeEvery, Scope.every]
      cases first with
      | true => exact cons_comes (analyze_comes hs hform) (analyzeEvery_comes false hs hforms)
      | false => exact analyzeEvery_comes true hs hforms
termination_by sizeOf forms

theorem analyzeList_comes {env : Env} {scope : Scope} (hs : env.Scoped scope) (line : Option Nat) {forms : List Form}
    (hn : Form.allNamed forms = true) :
    Comes env.ns (analyzeList env line forms) (scope.list forms) (Reads scope (scope.list forms)) := by
  cases forms with
  | nil => exact comes_pure fun _ _ => rfl
  | cons head args =>
      obtain ⟨hhead, hargs⟩ := named_cons hn
      rw [analyzeList, Scope.list, special?_eq hs]
      cases scope.special? head with
      | none =>
          dsimp only
          apply (analyze_comes hs hhead).bind
          intro v f _ hf
          rw [← List.append_nil (scope.all args)]
          apply (analyzeAll_comes hs hargs).bind
          intro v' xs _ hxs
          apply (checkArity_comes env f xs.length).map
          rintro _ _ - - - rfl
          simp only [ReadsAll, Reads] at hf hxs ⊢
          rw [List.append_nil, Node.mentions, hf, hxs, View.resolve_append]
      | some special =>
          cases special with
          | define => exact analyzeDef_comes hs hargs
          | defineFn => exact analyzeDefn_comes hs hargs
          | fn => exact analyzeFn_comes hs .bare hargs
          | cond => exact analyzeIf_comes hs hargs
          | block => exact (analyzeAll_comes hs hargs).map fun _ _ _ h => h
          | bind => exact analyzeLet_comes hs hargs
          | quote => exact quotation_comes env scope args
          | assign => exact analyzeSet_comes hs hargs
          | throw => exact analyzeThrow_comes hs hargs
          | ns => exact declaration_comes env scope args
termination_by sizeOf forms

theorem analyzeDef_comes {env : Env} {scope : Scope} (hs : env.Scoped scope) {args : List Form} (hn : Form.allNamed args = true) :
    Comes env.ns (analyzeDef env args) (scope.define args) (Reads scope (scope.define args)) := by
  unfold analyzeDef
  split
  · exact definition_comes env scope _
  · next sym init =>
      rw [Scope.define]
      exact definition_value_comes env sym (analyze_comes hs (named_cons (named_cons hn).2).1)
  · exact comes_fail env _
  · exact comes_fail env _
  · exact comes_fail env _
termination_by sizeOf args

theorem analyzeDefn_comes {env : Env} {scope : Scope} (hs : env.Scoped scope) {args : List Form}
    (hn : Form.allNamed args = true) :
    Comes env.ns (analyzeDefn env args) (scope.defineFn args)
      (Reads scope (scope.defineFn args)) := by
  unfold analyzeDefn
  split
  · next sym rest =>
      obtain ⟨hsym, hrest⟩ := named_cons hn
      rw [Scope.defineFn]
      split
      · exact comes_fail env _
      · exact definition_value_comes env sym (function_comes hs hsym
          (analyzeFn_comes hs (.defined sym.name) hrest) (analyzeParts_comes hs hrest))
  · exact comes_fail env _
termination_by sizeOf args

theorem analyzeParts_comes {env : Env} {scope : Scope} (hs : env.Scoped scope) {forms : List Form}
    (hn : Form.allNamed forms = true) :
    Comes env.ns (analyzeParts env forms) (scope.parts forms)
      (ReadsAll scope (scope.parts forms)) := by
  unfold analyzeParts
  split
  · exact comes_pure fun _ _ => rfl
  · next forms =>
      rw [Scope.parts]
      exact analyzeAll_comes hs (named_cons hn).2
  · next form forms hstr =>
      rw [Scope.parts.eq_3 _ _ _ hstr]
      exact cons_comes (analyze_comes hs (named_cons hn).1) (analyzeAll_comes hs (named_cons hn).2)
termination_by sizeOf forms

theorem analyzeFn_comes {env : Env} {scope : Scope} (hs : env.Scoped scope) (before : Heading) {forms : List Form}
    (hn : Form.allNamed forms = true) :
    Comes env.ns (analyzeFn env before forms) (scope.fn before forms)
      (Reads scope (scope.fn before forms)) := by
  unfold analyzeFn
  split
  · next params _ body =>
      rw [Scope.fn]
      intro a hc
      apply (leads_parameters env params a).bind
      · rintro ps _ ⟨hps, rfl⟩
        rw [hps]
        have hbody := analyzeAll_comes (bodyEnv_scoped hs before ps) (named_cons hn).2
        rw [bodyEnv_ns] at hbody
        refine Comes.map (hbody.past (event?_binds _)) ?_ _ hc
        intro v xs _ hxs
        exact fn_reads hxs
      · rintro e _ rfl
        exact ⟨[], List.nil_prefix, .refl hc⟩
  · next sym rest =>
      cases before with
      | bare =>
          rw [Scope.fn]
          exact analyzeFn_comes hs (.named sym.name) (named_cons hn).2
      | named | defined => exact comes_fail env _
  · next rest =>
      cases before with
      | defined self =>
          rw [Scope.fn]
          exact analyzeFn_comes hs (.named self) (named_cons hn).2
      | bare | named => exact comes_fail env _
  · exact comes_fail env _
  · exact comes_fail env _
termination_by sizeOf forms

theorem analyzeIf_comes {env : Env} {scope : Scope} (hs : env.Scoped scope) {args : List Form} (hn : Form.allNamed args = true) :
    Comes env.ns (analyzeIf env args) (scope.cond args) (Reads scope (scope.cond args)) := by
  unfold analyzeIf
  split
  · next test yes =>
      obtain ⟨htest, hn⟩ := named_cons hn
      rw [Scope.cond]
      apply (analyze_comes hs htest).bind
      intro v test _ ht
      apply (analyze_comes hs (named_cons hn).1).map
      rintro _ yes - hy rfl
      simp only [Reads] at ht hy ⊢
      rw [Node.mentions, Node.mentions, ht, hy, View.resolve_append, List.append_nil]
  · next test yes no =>
      obtain ⟨htest, hn⟩ := named_cons hn
      obtain ⟨hyes, hn⟩ := named_cons hn
      rw [Scope.cond, List.append_assoc]
      apply (analyze_comes hs htest).bind
      intro v test _ ht
      apply (analyze_comes hs hyes).bind
      intro v' yes _ hy
      apply (analyze_comes hs (named_cons hn).1).map
      rintro _ no - hno rfl rfl
      simp only [Reads] at ht hy hno ⊢
      rw [Node.mentions, ht, hy, hno, View.resolve_append, View.resolve_append, List.append_assoc]
  · exact comes_fail env _
  · exact comes_fail env _
  · exact comes_fail env _
termination_by sizeOf args

theorem analyzeLet_comes {env : Env} {scope : Scope} (hs : env.Scoped scope) {args : List Form}
    (hn : Form.allNamed args = true) :
    Comes env.ns (analyzeLet env args) (scope.bind args) (Reads scope (scope.bind args)) := by
  unfold analyzeLet
  split
  · next bindings _ body =>
      rw [Scope.bind]
      dsimp only
      split
      · exact comes_fail env _
      · obtain ⟨hbindings, hbody⟩ := named_cons hn
        apply (analyzeBindings_comes hs hbindings).bind
        rintro v ⟨inner, names, inits⟩ _ ⟨hi, hns, hnames, hinits⟩
        have hall := analyzeAll_comes hi hbody
        rw [hns] at hall
        apply hall.map
        rintro _ xs - hxs rfl
        simp only [ReadsAll, Reads] at hxs ⊢
        rw [List.map_append, ← hnames] at hxs
        rw [Node.mentions, hinits, hxs, View.resolve_append]
  · exact comes_fail env _
termination_by sizeOf args

theorem analyzeBindings_comes {env : Env} {scope : Scope} (hs : env.Scoped scope) {bindings : List Form}
    (hn : Form.allNamed bindings = true) :
    Comes env.ns (analyzeBindings env bindings) (scope.bindings bindings) fun v r =>
      r.1.Scoped (Scope.binders bindings ++ scope) ∧ r.1.ns = env.ns ∧
        r.2.1.reverse = (Scope.binders bindings).map Code.mungeLocal ∧
        Node.bindingMentions (scope.map Code.mungeLocal) r.2.1 r.2.2 =
          v.resolve (scope.bindings bindings) := by
  unfold analyzeBindings
  split
  · next name init rest =>
      obtain ⟨-, hn⟩ := named_cons hn
      obtain ⟨hinit, hrest⟩ := named_cons hn
      rw [Scope.bindings, Scope.binders]
      apply (analyze_comes hs hinit).bind
      intro v init _ hi
      have hmore := analyzeBindings_comes (hs.bind name) hrest
      apply (hmore.past (event?_binds [name])).map
      rintro _ ⟨inner, names, inits⟩ - ⟨hscope, hns, hnames, hinits⟩ rfl
      refine ⟨by simpa using hscope, hns, ?_, ?_⟩
      · simp [hnames]
      · simp only [Reads, List.map_cons] at hi hinits
        simp [Node.bindingMentions, hi, hinits, View.resolve_append, View.image, View.next]
  · exact comes_fail env _
  · next hfirst hlong =>
      have hnone : Scope.bindings scope bindings = [] ∧ Scope.binders bindings = [] := by
        rcases bindings with _ | ⟨first, _ | ⟨second, rest⟩⟩
        · exact ⟨rfl, rfl⟩
        · simp [Scope.bindings, Scope.binders]
        · exact (hlong first second rest rfl).elim
      rw [hnone.1, hnone.2]
      exact comes_pure fun v _ => ⟨hs, rfl, rfl, rfl⟩
termination_by sizeOf bindings

theorem analyzeSet_comes {env : Env} {scope : Scope} (hs : env.Scoped scope) {args : List Form} (hn : Form.allNamed args = true) :
    Comes env.ns (analyzeSet env args) (scope.assign args) (Reads scope (scope.assign args)) := by
  unfold analyzeSet
  split
  · next sym value =>
      obtain ⟨hsym, hn⟩ := named_cons hn
      rw [localOf?_eq hs hsym, Scope.assign]
      by_cases hm : sym.ns = none ∧ sym.name ∈ scope
      · rw [if_pos hm, if_pos hm]
        exact comes_fail env _
      · rw [if_neg hm, if_neg hm]
        apply (resolveVar_comes env sym scope).bind
        rintro v _ _ rfl
        apply (analyze_comes hs (named_cons hn).1).map
        rintro _ x - hx rfl
        simp only [Reads] at hx ⊢
        rw [Node.mentions, hx, View.resolve_cons, View.image, if_neg hm]
        rfl
  · exact comes_fail env _
termination_by sizeOf args

theorem analyzeThrow_comes {env : Env} {scope : Scope} (hs : env.Scoped scope) {args : List Form}
    (hn : Form.allNamed args = true) :
    Comes env.ns (analyzeThrow env args) (scope.throw args) (Reads scope (scope.throw args)) := by
  unfold analyzeThrow
  split
  · next form =>
      rw [Scope.throw]
      exact (analyze_comes hs (named_cons hn).1).map fun _ _ _ h => h
  · exact comes_fail env _
termination_by sizeOf args

end

end Analysis

namespace Node

mutual

theorem mentions_settle (events : List Event) (x : Node) (scope : List String) :
    (x.settle events).1.mentions scope = x.mentions scope := by
  cases x with
  | const | bound | var | ns => rfl
  | define line space name init =>
      cases init with
      | none => rfl
      | some init => simp only [settle, mentions, mentions_settle events init]
  | fn line name self params rest body =>
      simp only [settle, mentions, allMentions_settleAll events body]
  | cond line test yes no =>
      simp only [settle, mentions, mentions_settle _ test, mentions_settle _ yes, mentions_settle _ no]
  | block line body => simp only [settle, mentions, allMentions_settleAll events body]
  | bind line names inits body =>
      simp only [settle, mentions, bindingMentions_settleAll _ names inits,
        allMentions_settleAll _ body]
  | assign line space name value => simp only [settle, mentions, mentions_settle _ value]
  | throw line value => simp only [settle, mentions, mentions_settle _ value]
  | call line f args => simp only [settle, mentions, mentions_settle _ f, allMentions_settleAll _ args]
  | vector line items => simp only [settle, mentions, allMentions_settleAll _ items]
  | map line keys values =>
      simp only [settle, mentions, allMentions_settleAll _ keys, allMentions_settleAll _ values]
termination_by sizeOf x

theorem allMentions_settleAll (events : List Event) (xs : List Node) (scope : List String) :
    allMentions scope (settleAll events xs).1 = allMentions scope xs := by
  cases xs with
  | nil => rfl
  | cons x xs =>
      simp only [settleAll, allMentions, mentions_settle _ x, allMentions_settleAll _ xs]
termination_by sizeOf xs

theorem bindingMentions_settleAll (events : List Event) (names : List String) (inits : List Node)
    (scope : List String) :
    bindingMentions scope names (settleAll events inits).1 = bindingMentions scope names inits := by
  cases inits with
  | nil => cases names <;> rfl
  | cons init inits =>
      cases names with
      | nil =>
          simp only [settleAll, bindingMentions, mentions_settle _ init,
            bindingMentions_settleAll _ [] inits]
      | cons name names =>
          simp only [settleAll, bindingMentions, mentions_settle _ init,
            bindingMentions_settleAll _ names inits]
termination_by sizeOf inits

end

end Node

namespace Analyzer

theorem namespaceOf_entered (a : Analyzer) (ns other : String) :
    (a.enter ns).namespaceOf other = a.namespaceOf other := by
  by_cases h : other = ns
  · rw [h, Analysis.namespaceOf_enter]
  · unfold enter
    split
    · rfl
    · exact namespaceOf_setNamespace_of_ne h

theorem events_enter (a : Analyzer) (ns : String) : (a.enter ns).events = a.events := by
  unfold enter
  split <;> rfl

theorem view_enter (a : Analyzer) (ns : String) : (a.enter ns).view ns = a.view ns := by
  unfold view
  rw [namespaceOf_entered, namespaceOf_entered]

end Analyzer

namespace Analysis

theorem topLevel_comes (ns : String) {form : Form} {a : Analyzer} (hc : a.Consistent)
    (hn : form.isNamed = true) :
    Leads (topLevel ns form) a
      (fun x b => x.mentions [] = (a.view ns).resolve form.mentions ∧
        Behind ns (a.enter ns) form.mentions b)
      (fun _ b => ∃ ms, ms <+: form.mentions ∧ Behind ns (a.enter ns) ms b) := by
  have hs : (top ns).Scoped [] := fun name _ => rfl
  apply leads_topLevel.mpr
  apply (analyze_comes hs hn (a.enter ns) (hc.enter ns)).mono
  · rintro x b ⟨hx, hb⟩
    refine ⟨?_, hb⟩
    rw [Node.mentions_settle, ← Analyzer.view_enter a ns]
    exact hx
  · exact fun _ _ he => he

end Analysis

end Sumi
