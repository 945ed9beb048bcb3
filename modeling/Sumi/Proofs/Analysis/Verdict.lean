import Sumi.Code.Module
import Sumi.Proofs.Leads

namespace Sumi

namespace Analyzer

def Consistent (a : Analyzer) : Prop :=
  ∀ ns n, a.namespaces.get? ns = some n → n.name = ns

theorem empty_consistent : Consistent { namespaces := [] } := by
  intro ns n h
  cases h

theorem ofLibrary_consistent (names : List String) (flags : Flags) :
    (ofLibrary names flags).Consistent := by
  intro ns n h
  simp only [ofLibrary, Table.get?] at h
  split at h
  · next hns =>
      cases h
      exact eq_of_beq hns
  · cases h

theorem Consistent.namespaceOf_name {a : Analyzer} (h : a.Consistent) (ns : String) :
    (a.namespaceOf ns).name = ns := by
  unfold namespaceOf
  cases hn : a.namespaces.get? ns with
  | none => rfl
  | some n => exact h ns n hn

theorem Consistent.setNamespace {a : Analyzer} (h : a.Consistent) (n : Namespace) :
    (a.setNamespace n).Consistent := by
  intro ns m hm
  by_cases hns : ns = n.name
  · subst hns
    rw [Analyzer.setNamespace, Table.get?_put_self] at hm
    cases hm
    rfl
  · rw [Analyzer.setNamespace, Table.get?_put_of_ne hns] at hm
    exact h ns m hm

theorem Consistent.enter {a : Analyzer} (h : a.Consistent) (ns : String) :
    (a.enter ns).Consistent := by
  unfold Analyzer.enter
  split
  · exact h
  · exact h.setNamespace _

theorem Consistent.warn {a : Analyzer} (h : a.Consistent) (w : Warning) :
    (a.warn w).Consistent := h

theorem Consistent.note {a : Analyzer} (h : a.Consistent) (e : Event) :
    (a.note e).Consistent := h

end Analyzer

namespace Analysis

variable {α β γ δ : Type}

def Related (R : α → β → Prop) : Except CompileError α → Except CompileError β → Prop
  | .ok x, .ok y => R x y
  | .error e, .error f => e = f
  | _, _ => False

def Alike (R : α → β → Prop) (m : Analysis α) (m' : Analysis β) : Prop :=
  ∀ a b : Analyzer, a.Consistent → b.Consistent →
    Related R (m.run.run a).1 (m'.run.run b).1 ∧
      (m.run.run a).2.Consistent ∧ (m'.run.run b).2.Consistent

theorem alike_pure {R : α → β → Prop} {x : α} {y : β} (h : R x y) :
    Alike R (pure x) (pure y) := by
  intro a b ha hb
  exact ⟨h, ha, hb⟩

theorem alike_bind {R : α → β → Prop} {S : γ → δ → Prop} {m : Analysis α} {m' : Analysis β}
    {k : α → Analysis γ} {k' : β → Analysis δ} (h : Alike R m m')
    (hk : ∀ x y, R x y → Alike S (k x) (k' y)) : Alike S (m >>= k) (m' >>= k') := by
  intro a b ha hb
  obtain ⟨hr, hca, hcb⟩ := h a b ha hb
  simp only [ExceptT.run_bind, StateT.run_bind]
  rcases hm : m.run.run a with ⟨_ | x, a'⟩ <;> rcases hm' : m'.run.run b with ⟨_ | y, b'⟩ <;>
    rw [hm, hm'] at hr <;> rw [hm] at hca <;> rw [hm'] at hcb
  · exact ⟨hr, hca, hcb⟩
  · exact hr.elim
  · exact hr.elim
  · exact hk x y hr a' b' hca hcb

theorem Alike.mono {R S : α → β → Prop} {m : Analysis α} {m' : Analysis β} (h : Alike R m m')
    (hs : ∀ x y, R x y → S x y) : Alike S m m' := by
  intro a b ha hb
  obtain ⟨hr, hca, hcb⟩ := h a b ha hb
  refine ⟨?_, hca, hcb⟩
  revert hr
  rcases (m.run.run a).1 with _ | x <;> rcases (m'.run.run b).1 with _ | y <;> intro hr
  · exact hr
  · exact hr
  · exact hr
  · exact hs x y hr

theorem alike_fail {R : α → α → Prop} (env : Env) (cause : CompileError.Cause) :
    Alike R (fail env cause) (fail env cause) := by
  intro a b ha hb
  exact ⟨rfl, ha, hb⟩

theorem alike_get : Alike (fun a b : Analyzer => a.Consistent ∧ b.Consistent) get get := by
  intro a b ha hb
  exact ⟨⟨ha, hb⟩, ha, hb⟩

theorem alike_modify {f g : Analyzer → Analyzer} (hf : ∀ a, a.Consistent → (f a).Consistent)
    (hg : ∀ a, a.Consistent → (g a).Consistent) :
    Alike (fun _ _ => True) (modify f : Analysis PUnit) (modify g) := by
  intro a b ha hb
  exact ⟨trivial, hf a ha, hg b hb⟩

def Sure (m : Analysis α) : Prop := ∀ a : Analyzer, a.Consistent →
  ∃ x a', m.run.run a = (.ok x, a') ∧ a'.Consistent

theorem sure_pure (x : α) : Sure (pure x) := by
  intro a ha
  exact ⟨x, a, rfl, ha⟩

theorem sure_bind {m : Analysis α} {k : α → Analysis β} (h : Sure m) (hk : ∀ x, Sure (k x)) :
    Sure (m >>= k) := by
  intro a ha
  obtain ⟨x, b, hm, hb⟩ := h a ha
  obtain ⟨y, c, hy, hc⟩ := hk x b hb
  refine ⟨y, c, ?_, hc⟩
  simp only [ExceptT.run_bind, StateT.run_bind, hm]
  exact hy

theorem sure_get : Sure get := by
  intro a ha
  exact ⟨a, a, rfl, ha⟩

theorem sure_modify {f : Analyzer → Analyzer} (h : ∀ a, a.Consistent → (f a).Consistent) :
    Sure (modify f) := by
  intro a ha
  exact ⟨_, f a, rfl, h a ha⟩

theorem Sure.alike {m : Analysis α} {m' : Analysis β} (h : Sure m) (h' : Sure m') :
    Alike (fun _ _ => True) m m' := by
  intro a b ha hb
  obtain ⟨x, a', hx, hca⟩ := h a ha
  obtain ⟨y, b', hy, hcb⟩ := h' b hb
  rw [hx, hy]
  exact ⟨trivial, hca, hcb⟩

theorem warnUndeclared_sure (env : Env) (ns name : String) : Sure (warnUndeclared env ns name) := by
  apply sure_modify
  intro a ha
  split
  · exact ha.warn _
  · exact ha

theorem resolveVar_sure (env : Env) (sym : Name) : Sure (resolveVar env sym) := by
  unfold resolveVar
  apply sure_bind sure_get
  intro a
  dsimp only
  split
  · split
    · exact sure_pure _
    · apply sure_bind (warnUndeclared_sure env _ _)
      intro _
      exact sure_pure _
  · split
    · exact sure_pure _
    · split
      · exact sure_pure _
      · split
        · exact sure_pure _
        · apply sure_bind (warnUndeclared_sure env _ _)
          intro _
          exact sure_pure _

theorem checkArity_sure (env : Env) (f : Node) (count : Nat) : Sure (checkArity env f count) := by
  apply sure_modify
  intro a ha
  split
  · dsimp only
    split
    · exact ha.warn _
    · exact ha
  · exact ha

end Analysis

namespace Node

mutual

def bare : Node → Node
  | .var line _ name => .var line "" name
  | .define line space name (some init) => .define line space name (some init.bare)
  | .fn line name self params rest body => .fn line name self params rest (bareAll body)
  | .cond line test yes no => .cond line test.bare yes.bare no.bare
  | .block line body => .block line (bareAll body)
  | .bind line names inits body => .bind line names (bareAll inits) (bareAll body)
  | .assign line _ name value => .assign line "" name value.bare
  | .throw line value => .throw line value.bare
  | .call line f args => .call line f.bare (bareAll args)
  | .vector line items => .vector line (bareAll items)
  | .map line keys values => .map line (bareAll keys) (bareAll values)
  | node => node

def bareAll : List Node → List Node
  | [] => []
  | node :: nodes => node.bare :: bareAll nodes

end

theorem declares?_bare (x : Node) : x.bare.declares? = x.declares? := by
  cases x with
  | define line space name init => cases init <;> rfl
  | _ => rfl

end Node

namespace Analysis

variable {α β γ δ : Type}

def SameKind (x y : Node) : Prop := x.declares? = y.declares?

/-- The two nodes are the same but for the namespaces that their vars were found in. -/
abbrev Resembles (x y : Node) : Prop := x.bare = y.bare

abbrev AllResemble (xs ys : List Node) : Prop := Node.bareAll xs = Node.bareAll ys

theorem Resembles.sameKind {x y : Node} (h : Resembles x y) : SameKind x y := by
  unfold SameKind
  rw [← x.declares?_bare, ← y.declares?_bare, h]

theorem AllResemble.cons {x y : Node} {xs ys : List Node} (h : Resembles x y)
    (hs : AllResemble xs ys) : AllResemble (x :: xs) (y :: ys) := by
  change x.bare :: Node.bareAll xs = y.bare :: Node.bareAll ys
  rw [h, hs]

theorem Resembles.call {line : Option Nat} {f g : Node} {xs ys : List Node} (h : Resembles f g)
    (hs : AllResemble xs ys) : Resembles (.call line f xs) (.call line g ys) := by
  change Node.call line f.bare (Node.bareAll xs) = Node.call line g.bare (Node.bareAll ys)
  rw [h, hs]

theorem Resembles.map {line : Option Nat} {ks ls vs ws : List Node} (hk : AllResemble ks ls)
    (hv : AllResemble vs ws) : Resembles (.map line ks vs) (.map line ls ws) := by
  change Node.map line (Node.bareAll ks) (Node.bareAll vs) =
    Node.map line (Node.bareAll ls) (Node.bareAll ws)
  rw [hk, hv]

theorem Resembles.cond {line : Option Nat} {t t' x x' y y' : Node} (ht : Resembles t t')
    (hx : Resembles x x') (hy : Resembles y y') : Resembles (.cond line t x y) (.cond line t' x' y') := by
  change Node.cond line t.bare x.bare y.bare = Node.cond line t'.bare x'.bare y'.bare
  rw [ht, hx, hy]

theorem Resembles.bind {line : Option Nat} {names : List String} {xs ys zs ws : List Node}
    (hi : AllResemble xs ys) (hb : AllResemble zs ws) :
    Resembles (.bind line names xs zs) (.bind line names ys ws) := by
  change Node.bind line names (Node.bareAll xs) (Node.bareAll zs) =
    Node.bind line names (Node.bareAll ys) (Node.bareAll ws)
  rw [hi, hb]

theorem Resembles.assign {line : Option Nat} {ns ns' name : String} {x y : Node}
    (h : Resembles x y) : Resembles (.assign line ns name x) (.assign line ns' name y) :=
  congrArg (Node.assign line "" name) h

theorem resolveVar_name (env : Env) (sym : Name) (a : Analyzer) :
    Leads (resolveVar env sym) a (fun r _ => r.2 = sym.name) (fun _ _ => True) := by
  unfold resolveVar
  apply leads_then
  intro a' _
  dsimp only
  repeat' split
  · exact leads_pure.mpr rfl
  · exact leads_then fun _ _ => leads_pure.mpr rfl
  · exact leads_pure.mpr rfl
  · exact leads_pure.mpr rfl
  · exact leads_pure.mpr rfl
  · exact leads_then fun _ _ => leads_pure.mpr rfl

theorem resolveVar_alike (env : Env) (sym : Name) :
    Alike (fun r r' => r.2 = r'.2) (resolveVar env sym) (resolveVar env sym) := by
  intro a b ha hb
  obtain ⟨r, a', hr, hca⟩ := resolveVar_sure env sym a ha
  obtain ⟨r', b', hr', hcb⟩ := resolveVar_sure env sym b hb
  have hname := (leads_of_ok hr).mp (resolveVar_name env sym a)
  have hname' := (leads_of_ok hr').mp (resolveVar_name env sym b)
  rw [hr, hr']
  exact ⟨hname.trans hname'.symm, hca, hcb⟩

theorem symbol_alike (env : Env) (sym : Name) :
    Alike Resembles (symbol env sym) (symbol env sym) := by
  unfold symbol
  split
  · exact alike_pure rfl
  · apply alike_bind (resolveVar_alike env sym)
    intro r r' h
    exact alike_pure (congrArg (Node.var env.line "") h)

theorem parameters_alike (env : Env) (forms : List Form) :
    Alike Eq (parameters env forms) (parameters env forms) := by
  induction forms using parameters.induct with
  | case1 => exact alike_pure rfl
  | case2 rest => exact alike_pure rfl
  | case3 forms h =>
      rw [parameters.eq_def]
      simp only [if_true]
      exact alike_fail env _
  | case4 name forms hn ih =>
      rw [parameters.eq_def]
      simp only [hn, if_false]
      apply alike_bind ih
      rintro more _ rfl
      exact alike_pure rfl
  | case5 form forms h =>
      rw [parameters.eq_def]
      split
      · cases ‹form :: forms = []›
      · next heq =>
          cases heq
          exact (h _ rfl).elim
      · next heq =>
          cases heq
          exact alike_fail env _

theorem requireSpec_alike (env : Env) (form : Form) :
    Alike Eq (requireSpec env form) (requireSpec env form) := by
  unfold requireSpec
  repeat' split
  all_goals first | exact alike_fail env _ | exact alike_pure rfl

theorem useSpec_alike (env : Env) (form : Form) :
    Alike Eq (useSpec env form) (useSpec env form) := by
  unfold useSpec
  repeat' split
  all_goals first | exact alike_fail env _ | exact alike_pure rfl

theorem specs_alike {spec : Form → Analysis (Table String String)}
    (h : ∀ form, Alike Eq (spec form) (spec form)) (known : Table String String)
    (forms : List Form) : Alike Eq (specs spec known forms) (specs spec known forms) := by
  induction forms generalizing known with
  | nil => exact alike_pure rfl
  | cons form forms ih =>
      apply alike_bind (h form)
      rintro entries _ rfl
      exact ih _

theorem clauses_alike (env : Env) (requires uses : Table String String) (forms : List Form) :
    Alike Eq (clauses env requires uses forms) (clauses env requires uses forms) := by
  induction requires, uses, forms using clauses.induct with
  | case1 requires uses => exact alike_pure rfl
  | case2 requires uses text rest ih => exact ih
  | case3 requires uses kind forms line rest hk ih =>
      simp only [clauses, hk, if_true]
      apply alike_bind (specs_alike (requireSpec_alike env) requires forms)
      rintro known _ rfl
      exact ih known
  | case4 requires uses kind forms line rest hk hu ih =>
      simp only [clauses, hu, if_true]
      apply alike_bind (specs_alike (useSpec_alike env) uses forms)
      rintro known _ rfl
      exact ih known
  | case5 requires uses kind forms line rest hk hu =>
      simp only [clauses, hk, hu, if_false]
      exact alike_fail env _
  | case6 requires uses form rest hs hl =>
      rw [clauses.eq_4 _ _ _ _ _ hs hl]
      exact alike_fail env _

theorem declaration_alike (env : Env) (args : List Form) :
    Alike Resembles (declaration env args) (declaration env args) := by
  unfold declaration
  split
  · next name forms =>
      apply alike_bind (clauses_alike env [] [] forms)
      rintro ⟨requires, uses⟩ _ rfl
      have hset (a : Analyzer) (ha : a.Consistent) :
          ((a.setNamespace { a.namespaceOf name with requires := requires, uses := uses }).note
            (.declared name)).Consistent := (ha.setNamespace _).note _
      apply alike_bind (alike_modify hset hset)
      intro _ _ _
      exact alike_pure rfl
  · exact alike_fail env _

theorem beginDefinition_alike (env : Env) (sym : Name) :
    Alike (fun _ _ => True) (beginDefinition env sym) (beginDefinition env sym) := by
  have hlast : Sure (modify fun a =>
      (a.setNamespace (recordDefinition env.line sym.name (a.namespaceOf env.ns))).note
        (.defined env.ns sym.name)) := by
    apply sure_modify
    intro a ha
    exact (ha.setNamespace _).note _
  unfold beginDefinition
  apply alike_bind alike_get
  rintro a b ⟨ha, hb⟩
  simp only [ha.namespaceOf_name, hb.namespaceOf_name]
  split
  · apply alike_bind (R := fun _ _ => False) (alike_fail env _)
    intro _ _ h
    exact h.elim
  · apply Sure.alike
    · split
      · split
        · apply sure_bind (sure_modify fun c hc => hc.warn _)
          intro _
          exact hlast
        · exact hlast
      · exact hlast
    · split
      · split
        · apply sure_bind (sure_modify fun c hc => hc.warn _)
          intro _
          exact hlast
        · exact hlast
      · exact hlast

theorem definition_alike (env : Env) (sym : Name) {init : Option (Analysis Node)}
    (h : ∀ m ∈ init, Alike Resembles m m) :
    Alike Resembles (definition env sym init) (definition env sym init) := by
  unfold definition
  apply alike_bind (beginDefinition_alike env sym)
  intro _ _ _
  cases init with
  | none => exact alike_pure rfl
  | some m =>
      apply alike_bind (h m rfl)
      intro x y hxy
      have hfinish (n : Node) : ∀ a : Analyzer, a.Consistent →
          (a.setNamespace { a.namespaceOf env.ns with
            defs := (a.namespaceOf env.ns).defs.update sym.name ⟨.source env.line, none⟩
              (fun d => { d with arity := arityOf? n }) }).Consistent := fun a ha =>
        ha.setNamespace _
      apply alike_bind (alike_modify (hfinish x) (hfinish y))
      intro _ _ _
      exact alike_pure (congrArg (fun z => Node.define env.line env.ns sym.name (some z)) hxy)

theorem function_alike (env : Env) (sym : Name) {f : Analysis Node} {parts : Analysis (List Node)}
    (hf : Alike Resembles f f) (hp : Alike AllResemble parts parts) :
    Alike Resembles (function env sym f parts) (function env sym f parts) := by
  unfold function
  split
  · exact hf
  · apply alike_bind (symbol_alike env sym)
    intro x y hx
    apply alike_bind hp
    intro xs ys hxs
    exact alike_pure (.call rfl (.cons hx hxs))

theorem quotation_alike (env : Env) (forms : List Form) :
    Alike Resembles (quotation env forms) (quotation env forms) := by
  unfold quotation
  split
  · exact alike_pure rfl
  · exact alike_fail env _

theorem cons_alike {m m' : Analysis Node} {rest rest' : Analysis (List Node)}
    (h : Alike Resembles m m') (hr : Alike AllResemble rest rest') :
    Alike AllResemble (do let node ← m; let nodes ← rest; return node :: nodes)
      (do let node ← m'; let nodes ← rest'; return node :: nodes) := by
  apply alike_bind h
  intro x y hx
  apply alike_bind hr
  intro xs ys hxs
  exact alike_pure (.cons hx hxs)

mutual

theorem analyze_alike (env : Env) (form : Form) :
    Alike Resembles (analyze env form) (analyze env form) := by
  cases form with
  | symbol n =>
      rw [analyze]
      exact symbol_alike env n
  | list items line =>
      rw [analyze]
      exact analyzeList_alike (env.within line) line items
  | vector items line =>
      rw [analyze]
      apply alike_bind (analyzeAll_alike (env.within line) items)
      intro xs ys h
      exact alike_pure (congrArg (Node.vector _) h)
  | map items line =>
      rw [analyze]
      apply alike_bind (analyzeEvery_alike true (env.within line) items)
      intro ks ls hk
      apply alike_bind (analyzeEvery_alike false (env.within line) items)
      intro vs ws hv
      exact alike_pure (.map hk hv)
  | nil | bool | int | float | str | keyword => exact alike_pure rfl
termination_by sizeOf form

theorem analyzeAll_alike (env : Env) (forms : List Form) :
    Alike AllResemble (analyzeAll env forms) (analyzeAll env forms) := by
  cases forms with
  | nil => exact alike_pure rfl
  | cons form forms =>
      rw [analyzeAll]
      exact cons_alike (analyze_alike env form) (analyzeAll_alike env forms)
termination_by sizeOf forms

theorem analyzeEvery_alike (first : Bool) (env : Env) (forms : List Form) :
    Alike AllResemble (analyzeEvery first env forms) (analyzeEvery first env forms) := by
  cases forms with
  | nil => exact alike_pure rfl
  | cons form forms =>
      rw [analyzeEvery]
      split
      · exact cons_alike (analyze_alike env form) (analyzeEvery_alike false env forms)
      · exact analyzeEvery_alike true env forms
termination_by sizeOf forms

theorem analyzeList_alike (env : Env) (line : Option Nat) (forms : List Form) :
    Alike Resembles (analyzeList env line forms) (analyzeList env line forms) := by
  cases forms with
  | nil => exact alike_pure rfl
  | cons head args =>
      rw [analyzeList]
      cases special? env head with
      | none =>
          dsimp only
          apply alike_bind (analyze_alike env head)
          intro f g hf
          apply alike_bind (analyzeAll_alike env args)
          intro xs ys hxs
          apply alike_bind ((checkArity_sure env f xs.length).alike (checkArity_sure env g ys.length))
          intro _ _ _
          exact alike_pure (.call hf hxs)
      | some special =>
          cases special with
          | define => exact analyzeDef_alike env args
          | defineFn => exact analyzeDefn_alike env args
          | fn => exact analyzeFn_alike env .bare args
          | cond => exact analyzeIf_alike env args
          | block =>
              apply alike_bind (analyzeAll_alike env args)
              intro xs ys h
              exact alike_pure (congrArg (Node.block _) h)
          | bind => exact analyzeLet_alike env args
          | quote => exact quotation_alike env args
          | assign => exact analyzeSet_alike env args
          | throw => exact analyzeThrow_alike env args
          | ns => exact declaration_alike env args
termination_by sizeOf forms

theorem analyzeDef_alike (env : Env) (args : List Form) :
    Alike Resembles (analyzeDef env args) (analyzeDef env args) := by
  unfold analyzeDef
  split
  · exact definition_alike env _ (fun m hm => nomatch hm)
  · next sym init =>
      apply definition_alike env sym
      rintro m ⟨⟩
      exact analyze_alike env init
  · exact alike_fail env _
  · exact alike_fail env _
  · exact alike_fail env _
termination_by sizeOf args

theorem analyzeDefn_alike (env : Env) (args : List Form) :
    Alike Resembles (analyzeDefn env args) (analyzeDefn env args) := by
  unfold analyzeDefn
  split
  · next sym rest =>
      split
      · exact alike_fail env _
      · apply definition_alike env sym
        rintro m ⟨⟩
        exact function_alike env sym (analyzeFn_alike env (.defined sym.name) rest)
          (analyzeParts_alike env rest)
  · exact alike_fail env _
termination_by sizeOf args

theorem analyzeParts_alike (env : Env) (forms : List Form) :
    Alike AllResemble (analyzeParts env forms) (analyzeParts env forms) := by
  unfold analyzeParts
  split
  · exact alike_pure rfl
  · next forms => exact analyzeAll_alike env forms
  · next form forms _ => exact cons_alike (analyze_alike env form) (analyzeAll_alike env forms)
termination_by sizeOf forms

theorem analyzeFn_alike (env : Env) (before : Heading) (forms : List Form) :
    Alike Resembles (analyzeFn env before forms) (analyzeFn env before forms) := by
  unfold analyzeFn
  split
  · next params _ body =>
      apply alike_bind (parameters_alike env params)
      rintro ps _ rfl
      apply alike_bind (analyzeAll_alike (bodyEnv env before.self? ps) body)
      intro xs ys h
      exact alike_pure (congrArg (Node.fn _ _ _ _ _) h)
  · next n rest =>
      cases before with
      | bare => exact analyzeFn_alike env (.named n.name) rest
      | named | defined => exact alike_fail env _
  · next rest =>
      cases before with
      | defined self => exact analyzeFn_alike env (.named self) rest
      | bare | named => exact alike_fail env _
  · exact alike_fail env _
  · exact alike_fail env _
termination_by sizeOf forms

theorem analyzeIf_alike (env : Env) (args : List Form) :
    Alike Resembles (analyzeIf env args) (analyzeIf env args) := by
  unfold analyzeIf
  split
  · next test yes =>
      apply alike_bind (analyze_alike env test)
      intro t u ht
      apply alike_bind (analyze_alike env yes)
      intro y z hy
      exact alike_pure (.cond ht hy rfl)
  · next test yes no =>
      apply alike_bind (analyze_alike env test)
      intro t u ht
      apply alike_bind (analyze_alike env yes)
      intro y z hy
      apply alike_bind (analyze_alike env no)
      intro n o hn
      exact alike_pure (.cond ht hy hn)
  · exact alike_fail env _
  · exact alike_fail env _
  · exact alike_fail env _
termination_by sizeOf args

theorem analyzeLet_alike (env : Env) (args : List Form) :
    Alike Resembles (analyzeLet env args) (analyzeLet env args) := by
  unfold analyzeLet
  split
  · next bindings _ body =>
      have hrest : Alike Resembles (do
          let (inner, names, inits) ← analyzeBindings env bindings
          let body ← analyzeAll inner body
          return .bind env.line names inits body) (do
          let (inner, names, inits) ← analyzeBindings env bindings
          let body ← analyzeAll inner body
          return .bind env.line names inits body) := by
        apply alike_bind (analyzeBindings_alike env bindings)
        rintro ⟨inner, names, inits⟩ ⟨_, _, inits'⟩ ⟨rfl, rfl, hi⟩
        apply alike_bind (analyzeAll_alike inner body)
        intro xs ys h
        exact alike_pure (.bind hi h)
      dsimp only
      split
      · apply alike_bind (R := fun _ _ => False) (alike_fail env _)
        intro _ _ h
        exact h.elim
      · exact hrest
  · exact alike_fail env _
termination_by sizeOf args

theorem analyzeBindings_alike (env : Env) (bindings : List Form) :
    Alike (fun x y => x.1 = y.1 ∧ x.2.1 = y.2.1 ∧ AllResemble x.2.2 y.2.2)
      (analyzeBindings env bindings) (analyzeBindings env bindings) := by
  unfold analyzeBindings
  split
  · next name init rest =>
      apply alike_bind (analyze_alike env init)
      intro x y h
      apply alike_bind (analyzeBindings_alike (env.bind name) rest)
      rintro ⟨inner, names, inits⟩ ⟨_, _, inits'⟩ ⟨rfl, rfl, hi⟩
      exact alike_pure ⟨rfl, rfl, .cons h hi⟩
  · exact alike_fail env _
  · exact alike_pure ⟨rfl, rfl, rfl⟩
termination_by sizeOf bindings

theorem analyzeSet_alike (env : Env) (args : List Form) :
    Alike Resembles (analyzeSet env args) (analyzeSet env args) := by
  unfold analyzeSet
  split
  · next sym value =>
      split
      · exact alike_fail env _
      · apply alike_bind (resolveVar_alike env sym)
        rintro ⟨ns, name⟩ ⟨ns', _⟩ rfl
        apply alike_bind (analyze_alike env value)
        intro x y h
        exact alike_pure (.assign h)
  · exact alike_fail env _
termination_by sizeOf args

theorem analyzeThrow_alike (env : Env) (args : List Form) :
    Alike Resembles (analyzeThrow env args) (analyzeThrow env args) := by
  unfold analyzeThrow
  split
  · next form =>
      apply alike_bind (analyze_alike env form)
      intro x y h
      exact alike_pure (congrArg (Node.throw _) h)
  · exact alike_fail env _
termination_by sizeOf args

end

theorem declares?_settle (events : List Event) (n : Node) :
    (n.settle events).1.declares? = n.declares? := by
  cases n with
  | define line space name init => cases init <;> rfl
  | _ => rfl

theorem settling_alike {R S : α → β → Prop} {f : List Event → α → α × List Event}
    {g : List Event → β → β × List Event} {m : Analysis α} {m' : Analysis β} (h : Alike R m m')
    (hs : ∀ events others x y, R x y → S (f events x).1 (g others y).1) :
    Alike S (settling f m) (settling g m') := by
  unfold settling
  apply alike_bind alike_get
  intro _ _ _
  apply alike_bind h
  intro x y hr
  apply alike_bind alike_get
  intro _ _ _
  exact alike_pure (hs _ _ x y hr)

theorem topLevel_alike (ns : String) (form : Form) :
    Alike SameKind (topLevel ns form) (topLevel ns form) := by
  unfold topLevel
  apply alike_bind (alike_modify (fun _ ha => ha.enter ns) (fun _ ha => ha.enter ns))
  intro _ _ _
  apply settling_alike (analyze_alike { ns := ns } form)
  intro events others x y h
  unfold SameKind
  rw [declares?_settle, declares?_settle]
  exact h.sameKind

theorem nodes_alike (ns : String) (forms : List Form) :
    Alike (fun _ _ => True) (nodes ns forms) (nodes ns forms) := by
  induction forms generalizing ns with
  | nil =>
      apply alike_bind (alike_modify (fun _ ha => ha.enter ns) (fun _ ha => ha.enter ns))
      intro _ _ _
      exact alike_pure trivial
  | cons form forms ih =>
      apply alike_bind (topLevel_alike ns form)
      intro x y h
      rw [h]
      apply alike_bind (ih _)
      intro _ _ _
      exact alike_pure trivial

/-- A source that compiles does so whatever was compiled before it, and where it does not the error
is always the same. -/
theorem compile_alike (source : Option String) (ns : String) (forms : List Form) :
    Alike (fun _ _ => True) (compile source ns forms) (compile source ns forms) := by
  apply alike_bind (nodes_alike ns forms)
  intro _ _ _
  exact alike_pure trivial

theorem Alike.ok {R : α → β → Prop} {m : Analysis α} {m' : Analysis β} (h : Alike R m m')
    {a b a' : Analyzer} (ha : a.Consistent) (hb : b.Consistent) {x : α}
    (hx : m.run.run a = (.ok x, a')) :
    ∃ y b', m'.run.run b = (.ok y, b') ∧ R x y ∧ b'.Consistent := by
  obtain ⟨hr, -, hc⟩ := h a b ha hb
  rw [hx] at hr
  rcases hm : m'.run.run b with ⟨_ | y, b'⟩ <;> rw [hm] at hr hc
  · exact hr.elim
  · exact ⟨y, b', rfl, hr, hc⟩

theorem Alike.consistent {R : α → α → Prop} {m : Analysis α} (h : Alike R m m) {a : Analyzer}
    (ha : a.Consistent) : (m.run.run a).2.Consistent := (h a a ha ha).2.1

end Analysis

end Sumi
