import Mathlib.Data.Set.Insert
import Sumi.Proofs.Analysis.Declares
import Sumi.Proofs.Analysis.Steps

namespace Sumi

/-- The two tables agree on the namespaces in `S`. -/
def Analyzer.Agree (S : Set String) (a b : Analyzer) : Prop :=
  ∀ ns ∈ S, a.namespaces.get? ns = b.namespaces.get? ns

namespace Analyzer.Agree

variable {S : Set String} {a b a' b' : Analyzer} {ns : String}

theorem namespaceOf (h : Agree S a b) (hns : ns ∈ S) : a.namespaceOf ns = b.namespaceOf ns := by
  unfold Analyzer.namespaceOf
  rw [h ns hns]

theorem of_namespaces (h : Agree S a b) (ha : a'.namespaces = a.namespaces)
    (hb : b'.namespaces = b.namespaces) : Agree S a' b' := by
  intro ns hns
  rw [ha, hb, h ns hns]

theorem setNamespace (h : Agree S a b) (n : Namespace) :
    Agree S (a.setNamespace n) (b.setNamespace n) := by
  intro ns hns
  unfold Analyzer.setNamespace
  by_cases hn : ns = n.name
  · rw [hn, Table.get?_put_self, Table.get?_put_self]
  · rw [Table.get?_put_of_ne hn, Table.get?_put_of_ne hn, h ns hns]

theorem enter (h : Agree S a b) (hns : ns ∈ S) : Agree S (a.enter ns) (b.enter ns) := by
  unfold Analyzer.enter Table.has
  rw [h ns hns]
  split
  · exact h
  · exact h.setNamespace _

end Analyzer.Agree

namespace Analysis

open Analyzer

variable {α β : Type} {S : Set String} {a b : Analyzer}

/-- Two runs, one from `a` and one from `b`, come to the same by the same changes, and leave tables
that agree. -/
structure Level (S : Set String) (a b : Analyzer) (r r' : Except CompileError α × Analyzer) :
    Prop where
  result : r'.1 = r.1
  tables : Agree S r.2 r'.2
  events : ∃ es, r.2.events = es ++ a.events ∧ r'.2.events = es ++ b.events

def Parallel (S : Set String) (a b : Analyzer) (m m' : Analysis α) : Prop :=
  Level S a b (m.run.run a) (m'.run.run b)

def Separate (S : Set String) (m : Analysis α) : Prop := ∀ a b, Agree S a b → Parallel S a b m m

theorem parallel_pure (h : Agree S a b) (x : α) : Parallel S a b (pure x) (pure x) :=
  ⟨rfl, h, [], rfl, rfl⟩

theorem parallel_throw (h : Agree S a b) (e : CompileError) :
    Parallel S a b (throw e : Analysis α) (throw e) :=
  ⟨rfl, h, [], rfl, rfl⟩

theorem parallel_modify {f g : Analyzer → Analyzer} (es : List Event) (h : Agree S (f a) (g b))
    (ha : (f a).events = es ++ a.events) (hb : (g b).events = es ++ b.events) :
    Parallel S a b (modify f) (modify g) :=
  ⟨rfl, h, es, ha, hb⟩

theorem run_bind (m : Analysis α) (k : α → Analysis β) (a : Analyzer) :
    (m >>= k).run.run a =
      match m.run.run a with
      | (.ok x, b) => (k x).run.run b
      | (.error e, b) => (.error e, b) := by
  simp only [ExceptT.run_bind, StateT.run_bind]
  rcases m.run.run a with ⟨_ | x, b⟩ <;> rfl

/-- The second parts only have to go together behind what the first ones can come to. -/
theorem Parallel.bind {R : α → Prop} {m m' : Analysis α} {k k' : α → Analysis β}
    (h : Parallel S a b m m') (post : Leads m a (fun x _ => R x) (fun _ _ => True))
    (hk : ∀ x, R x → ∀ a' b', Agree S a' b' → Parallel S a' b' (k x) (k' x)) :
    Parallel S a b (m >>= k) (m' >>= k') := by
  rw [leads_iff] at post
  rw [Parallel] at h ⊢
  rw [run_bind, run_bind]
  obtain ⟨hresult, htables, es, ha, hb⟩ := h
  rcases hm : m.run.run a with ⟨e | x, a'⟩ <;> rcases hm' : m'.run.run b with ⟨e' | x', b'⟩ <;>
    rw [hm, hm'] at hresult htables <;> rw [hm] at ha post <;> rw [hm'] at hb <;> cases hresult
  · exact ⟨rfl, htables, es, ha, hb⟩
  · obtain ⟨hresult', htables', es', ha', hb'⟩ := hk x post a' b' htables
    refine ⟨hresult', htables', es' ++ es, ?_, ?_⟩
    · rw [ha', ha, List.append_assoc]
    · rw [hb', hb, List.append_assoc]

theorem parallel_warned {m : Analysis α} {x : α} (h : Agree S a b)
    (ha : Leads m a (fun y c => y = x ∧ Warned a c) (fun _ _ => False))
    (hb : Leads m b (fun y c => y = x ∧ Warned b c) (fun _ _ => False)) : Parallel S a b m m := by
  obtain ⟨_, a', hrun, rfl, hwa⟩ := ha.ends
  obtain ⟨_, b', hrun', rfl, hwb⟩ := hb.ends
  rw [Parallel, hrun, hrun']
  exact ⟨rfl, h.of_namespaces hwa.1 hwb.1, [], hwa.2, hwb.2⟩

theorem resolveVar_separate {env : Env} (hns : env.ns ∈ S) (hcore : Namespace.core ∈ S) (sym : Name) :
    Separate S (resolveVar env sym) := by
  intro a b h
  have hlook : outlook b env.ns = outlook a env.ns := by
    unfold outlook Analyzer.view
    rw [h.namespaceOf hns, h.namespaceOf hcore]
  have hb := leads_lookup env sym b
  rw [hlook] at hb
  exact parallel_warned h (leads_lookup env sym a) hb

theorem checkArity_separate (env : Env) (f : Node) (count : Nat) :
    Separate S (checkArity env f count) := by
  intro a b h
  exact parallel_warned h (x := ()) (leads_checkArity env f count fun _ hw => ⟨rfl, hw⟩)
    (leads_checkArity env f count fun _ hw => ⟨rfl, hw⟩)

theorem leads_begin (env : Env) (sym : Name) (a : Analyzer) :
    Leads (beginDefinition env sym) a
      (fun _ c => sym.ns.any (· != (a.namespaceOf env.ns).name) = false ∧
        c.namespaces = (a.setNamespace
          (recordDefinition env.line sym.name (a.namespaceOf env.ns))).namespaces ∧
        c.events = .defined env.ns sym.name :: a.events)
      (fun e c => sym.ns.any (· != (a.namespaceOf env.ns).name) = true ∧
        e = ⟨.defElsewhere sym (a.namespaceOf env.ns).name, env.line⟩ ∧ c = a) := by
  rw [beginDefinition]
  apply leads_bind.mpr
  apply leads_get.mpr
  dsimp only
  split
  · next helse => exact leads_throw.mpr ⟨helse, rfl, rfl⟩
  · next hown =>
      have hown : sym.ns.any (· != (a.namespaceOf env.ns).name) = false := by simpa using hown
      split
      · split
        · apply leads_bind.mpr
          apply leads_modify.mpr
          exact leads_modify.mpr ⟨hown, rfl, rfl⟩
        · exact leads_modify.mpr ⟨hown, rfl, rfl⟩
      · exact leads_modify.mpr ⟨hown, rfl, rfl⟩

theorem beginDefinition_separate {env : Env} (hns : env.ns ∈ S) (sym : Name) :
    Separate S (beginDefinition env sym) := by
  intro a b h
  have ha := leads_begin env sym a
  have hb := leads_begin env sym b
  rw [← h.namespaceOf hns] at hb
  rw [leads_iff] at ha hb
  rw [Parallel]
  rcases hrun : (beginDefinition env sym).run.run a with ⟨e | x, a'⟩ <;>
    rcases hrun' : (beginDefinition env sym).run.run b with ⟨e' | x', b'⟩ <;>
    rw [hrun] at ha <;> rw [hrun'] at hb
  · obtain ⟨-, rfl, rfl⟩ := ha
    obtain ⟨-, rfl, rfl⟩ := hb
    exact ⟨rfl, h, [], rfl, rfl⟩
  · exact absurd (ha.1.symm.trans hb.1) nofun
  · exact absurd (ha.1.symm.trans hb.1) nofun
  · obtain ⟨-, hna, hea⟩ := ha
    obtain ⟨-, hnb, heb⟩ := hb
    exact ⟨rfl, (h.setNamespace _).of_namespaces hna hnb, [_], hea, heb⟩

theorem finishDefinition_separate {env : Env} (hns : env.ns ∈ S) (name : String) (init : Node) :
    Separate S (finishDefinition env name init) := by
  intro a b h
  apply parallel_modify [] _ rfl rfl
  rw [← h.namespaceOf hns]
  exact h.setNamespace _

theorem declare_separate {name : String} (hname : name ∈ S) (requires uses : Table String String) :
    Separate S (declare name requires uses) := by
  intro a b h
  apply parallel_modify [.declared name] _ rfl rfl
  rw [← h.namespaceOf hname]
  exact h.setNamespace _

theorem Steps.separate {ns : String} {D : String → Prop} {m : Analysis α} (hm : Steps ns D m)
    (hns : ns ∈ S) (hcore : Namespace.core ∈ S) (hD : ∀ name, D name → name ∈ S) : Separate S m := by
  induction hm with
  | pure x => exact fun _ _ h => parallel_pure h x
  | throw e => exact fun _ _ h => parallel_throw h e
  | bind R first post rest ihfirst ihrest =>
      exact fun a b h => (ihfirst a b h).bind (post a) ihrest
  | resolve env h sym => exact resolveVar_separate (h.symm ▸ hns) hcore sym
  | count env f count => exact checkArity_separate env f count
  | begin env h sym => exact beginDefinition_separate (h.symm ▸ hns) sym
  | finish env h name init => exact finishDefinition_separate (h.symm ▸ hns) name init
  | declare name requires uses h => exact declare_separate (hD name h) requires uses

theorem since_of_append {es : List Event} (h : b.events = es ++ a.events) : since a b = es.reverse := by
  rw [since, h]
  simp

theorem topLevel_separate {ns : String} (hns : ns ∈ S) (hcore : Namespace.core ∈ S) {form : Form}
    (hd : Declares (· ∈ S) form.mentions) : Separate S (topLevel ns form) := by
  intro a b h
  have hs : (top ns).Covers [] := ⟨fun _ _ => rfl, fun _ hname => nomatch hname⟩
  have hform := (analyze_steps hs hd).separate hns hcore (fun _ hname => hname) _ _ (h.enter hns)
  obtain ⟨hresult, htables, es, ha, hb⟩ := hform
  rw [Parallel]
  rcases hrun : (analyze (top ns) form).run.run (a.enter ns) with ⟨e | x, a'⟩ <;>
    rcases hrun' : (analyze (top ns) form).run.run (b.enter ns) with ⟨e' | x', b'⟩ <;>
    rw [hrun, hrun'] at hresult htables <;> rw [hrun] at ha <;> rw [hrun'] at hb <;> cases hresult
  · rw [topLevel_error hrun, topLevel_error hrun']
    exact ⟨rfl, htables, es, Analyzer.events_enter a ns ▸ ha, Analyzer.events_enter b ns ▸ hb⟩
  · rw [topLevel_ok hrun, topLevel_ok hrun', since_of_append ha, since_of_append hb]
    exact ⟨rfl, htables, es, Analyzer.events_enter a ns ▸ ha, Analyzer.events_enter b ns ▸ hb⟩

theorem leads_declared {D : String → Prop} {ns : String} {form : Form}
    (hd : Declares D form.mentions) (a : Analyzer) :
    Leads (topLevel ns form) a (fun x _ => ∀ name, x.declares? = some name → D name)
      (fun _ _ => True) := by
  apply leads_topLevel.mpr
  simp only [declares?_settle]
  cases hform : form.isNs with
  | false =>
      apply (analyze_plain (top ns) hform _).mono
      · intro x _ hx name hname
        rw [hx] at hname
        cases hname
      · exact fun _ _ _ => trivial
  | true =>
      obtain ⟨args, line, rfl⟩ := list_of_isNs hform
      have hargs : Declares D (Scope.declaration args) := by
        rwa [Form.mentions, Scope.form, Scope.list] at hd
      rw [analyze, analyzeList]
      change Leads (declaration _ args) _ _ _
      rw [declaration.eq_def]
      split
      · next other forms =>
          apply (leads_clauses _ forms _).bind
          · rintro ⟨requires, uses⟩ _ ⟨hr, -⟩
            apply leads_then
            intro _ _
            apply leads_pure.mpr
            rintro name ⟨⟩
            rw [Scope.declaration, hr] at hargs
            exact hargs _ List.mem_cons_self _ rfl
          · exact fun _ _ _ => trivial
      · exact leads_throw.mpr trivial

theorem nodes_separate {ns : String} (hns : ns ∈ S) (hcore : Namespace.core ∈ S) {forms : List Form}
    (hd : ∀ form ∈ forms, Declares (· ∈ S) form.mentions) : Separate S (nodes ns forms) := by
  induction forms generalizing ns with
  | nil =>
      intro a b h
      have henter : Parallel S a b (modify (·.enter ns)) (modify (·.enter ns)) :=
        parallel_modify [] (h.enter hns) (Analyzer.events_enter a ns) (Analyzer.events_enter b ns)
      exact henter.bind leads_any fun _ _ _ _ h => parallel_pure h []
  | cons form forms ih =>
      intro a b h
      rw [List.forall_mem_cons] at hd
      apply (topLevel_separate hns hcore hd.1 a b h).bind (leads_declared hd.1 a)
      intro node hnode a' b' h'
      have hnext : node.declares?.getD ns ∈ S := by
        cases hdeclares : node.declares? with
        | none => exact hns
        | some name => exact hnode name hdeclares
      exact (ih hnext hd.2 a' b' h').bind leads_any fun _ _ _ _ h => parallel_pure h _

/-- A source compiles to the same module, or fails for the same cause, with any two tables that agree
on the library, on the namespace it starts in and on those that its forms declare. These tables
agree again afterwards. -/
theorem compile_separate (source : Option String) {ns : String} {forms : List Form}
    (hcore : Namespace.core ∈ S) (hns : ns ∈ S)
    (hd : ∀ form ∈ forms, ∀ m ∈ form.mentions, ∀ name, m.declared? = some name → name ∈ S)
    (h : Agree S a b) :
    ((compile source ns forms).run.run b).1 = ((compile source ns forms).run.run a).1 ∧
      Agree S ((compile source ns forms).run.run a).2 ((compile source ns forms).run.run b).2 := by
  have hall : Parallel S a b (compile source ns forms) (compile source ns forms) :=
    (nodes_separate hns hcore hd a b h).bind leads_any fun _ _ _ _ h => parallel_pure h _
  exact ⟨hall.result, hall.tables⟩

def mixture : List Form :=
  [.list [.symbol (.plain "ns"), .symbol (.plain "app"),
      .list [.keyword (.plain "use"), .vector [.symbol (.plain "lib"), .keyword (.plain "only"),
        .vector [.symbol (.plain "f")] none] none] none] none,
    .list [.symbol (.plain "def"), .symbol (.plain "x"),
      .list [.symbol (.plain "f"), .symbol (.qualified "lib" "g")] none] none,
    .list [.symbol (.plain "if"), .symbol (.plain "x"),
      .list [.symbol (.plain "ns"), .symbol (.plain "inner")] none] none]

def sparse : Analyzer := .ofLibrary ["inc"] {}

def stocked : Analyzer :=
  { sparse with
    namespaces := sparse.namespaces.put "lib"
      { name := "lib", requires := [("g", "app")], defs := [("f", ⟨.source none, some ⟨3, false⟩⟩)] }
    flags := ⟨true, false, true⟩ }

/-- A program compiles alike with a table that knows a namespace it uses and with one that does not. -/
theorem mixture_separate :
    Agree {Namespace.core, Namespace.user, "app", "inner"} sparse stocked ∧
      ((compile none Namespace.user mixture).run.run stocked).1 =
        ((compile none Namespace.user mixture).run.run sparse).1 ∧
      Agree {Namespace.core, Namespace.user, "app", "inner"}
        ((compile none Namespace.user mixture).run.run sparse).2
        ((compile none Namespace.user mixture).run.run stocked).2 := by
  have hagree : Agree {Namespace.core, Namespace.user, "app", "inner"} sparse stocked := by
    rintro ns (rfl | rfl | rfl | rfl) <;> rfl
  have hdeclared : (mixture.flatMap Form.mentions).filterMap Mention.declared? = ["app", "inner"] := by
    decide +kernel
  refine ⟨hagree, compile_separate none (.inl rfl) (.inr (.inl rfl)) ?_ hagree⟩
  intro form hform m hm name hname
  have hmem : name ∈ ["app", "inner"] := by
    rw [← hdeclared]
    exact List.mem_filterMap.mpr ⟨m, List.mem_flatMap.mpr ⟨form, hform, hm⟩, hname⟩
  simp only [List.mem_cons, List.not_mem_nil, or_false] at hmem
  exact .inr (.inr hmem)

end Analysis

end Sumi
