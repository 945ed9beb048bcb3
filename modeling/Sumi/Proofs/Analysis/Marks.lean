import Sumi.Proofs.Analysis.Clauses
import Sumi.Proofs.Analysis.Separate

namespace Sumi

/-- A step of an analysis that can be seen from its node. -/
inductive Mark
  | begins (line : Option Nat) (ns name : String)
  /-- The end of a definition, with what its value shows. -/
  | ends (ns name : String) (arity : Option Arity)
  /-- The end of a definition without a value. -/
  | blank (ns name : String)
  | declares (ns : String) (requires uses : Table String String)
  /-- The arguments of a call are counted. In the value of a definition of the very var that is
  called, `own` has what this value shows. -/
  | counts (line : Option Nat) (ns name : String) (count : Nat) (own : Option (Option Arity))
  deriving DecidableEq

def Mark.within (ns name : String) (arity : Option Arity) : Mark → Mark
  | .counts line other x count none =>
      .counts line other x count (if other = ns ∧ x = name then some arity else none)
  | m => m

namespace Node

def counted (line : Option Nat) (count : Nat) : Node → List Mark
  | .var _ space name => [.counts line space name count none]
  | _ => []

mutual

def marks : Node → List Mark
  | .define line space name none => [.begins line space name, .blank space name]
  | .define line space name (some init) =>
      .begins line space name ::
        (init.marks.map (Mark.within space name (Analysis.arityOf? init)) ++
          [.ends space name (Analysis.arityOf? init)])
  | .fn _ _ _ _ _ body => allMarks body
  | .cond _ test yes no => test.marks ++ (yes.marks ++ no.marks)
  | .block _ body => allMarks body
  | .bind _ _ inits body => allMarks inits ++ allMarks body
  | .assign _ _ _ value => value.marks
  | .throw _ value => value.marks
  | .call line f args => f.marks ++ (allMarks args ++ f.counted line args.length)
  | .vector _ items => allMarks items
  | .map _ keys values => allMarks keys ++ allMarks values
  | .ns _ name requires uses => [.declares name requires uses]
  | .const _ _ | .bound _ _ | .var _ _ _ => []

def allMarks : List Node → List Mark
  | [] => []
  | node :: nodes => node.marks ++ allMarks nodes

end

end Node

namespace Analysis

open Node

variable {α β : Type} {env : Env} {R : Analyzer → List Mark → Analyzer → Prop}
  {P : α → List Mark → Prop} {Q : β → List Mark → Prop}

def Takes (R : Analyzer → List Mark → Analyzer → Prop) (m : Analysis α) (P : α → List Mark → Prop) :
    Prop :=
  ∀ a : Analyzer, Leads m a (fun x b => ∃ ms, P x ms ∧ R a ms b) (fun _ _ => True)

/-- Between tables, `R` goes along with each step. The end of a definition may count on its
beginning. -/
structure Along (R : Analyzer → List Mark → Analyzer → Prop) : Prop where
  refl : ∀ a, R a [] a
  trans : ∀ {a b c ms ns}, R a ms b → R b ns c → R a (ms ++ ns) c
  looks : ∀ env sym, Takes R (resolveVar env sym) fun _ ms => ms = []
  counts : ∀ env f count, Takes R (checkArity env f count) fun _ ms => ms = f.counted env.line count
  begins : ∀ env sym, Takes R (beginDefinition env sym) fun _ ms =>
    ms = [.begins env.line env.ns sym.name]
  ends : ∀ env name init a b c ms, R a [.begins env.line env.ns name] b → R b ms c →
    Leads (finishDefinition env name init) c (fun _ d => R a
      (.begins env.line env.ns name ::
        (ms.map (Mark.within env.ns name (arityOf? init)) ++ [.ends env.ns name (arityOf? init)])) d)
      (fun _ _ => True)
  blank : ∀ line ns name a b, R a [.begins line ns name] b →
    R a [.begins line ns name, .blank ns name] b
  declares : ∀ env args, Takes R (declaration env args) fun x ms => x.marks = ms

abbrev Shows (x : Node) (ms : List Mark) : Prop := x.marks = ms

abbrev ShowsAll (xs : List Node) (ms : List Mark) : Prop := allMarks xs = ms

theorem takes_fail (env : Env) (cause : CompileError.Cause) : Takes R (fail env cause) P :=
  fun _ => leads_throw.mpr trivial

section

variable (hR : Along R)

include hR

theorem takes_pure {x : α} (h : P x []) : Takes R (pure x) P :=
  fun a => leads_pure.mpr ⟨[], h, hR.refl a⟩

theorem takes_bind {m : Analysis α} {k : α → Analysis β} (h : Takes R m P)
    (hk : ∀ x ms, P x ms → Takes R (k x) fun y ns => Q y (ms ++ ns)) : Takes R (m >>= k) Q := by
  intro a
  apply (h a).bind
  · rintro x b ⟨ms, hx, hms⟩
    apply (hk x ms hx b).mono
    · rintro y c ⟨ns, hy, hns⟩
      exact ⟨ms ++ ns, hy, hR.trans hms hns⟩
    · exact fun _ _ _ => trivial
  · exact fun _ _ _ => trivial

theorem takes_map {m : Analysis α} {f : α → β} (h : Takes R m P) (hf : ∀ x ms, P x ms → Q (f x) ms) :
    Takes R (m >>= fun x => pure (f x)) Q := by
  apply takes_bind hR h
  intro x ms hx
  exact takes_pure hR (by simpa using hf x ms hx)

theorem symbol_takes (env : Env) (sym : Name) : Takes R (symbol env sym) Shows := by
  unfold symbol
  split
  · exact takes_pure hR rfl
  · apply takes_bind hR (hR.looks env sym)
    rintro _ _ rfl
    exact takes_pure hR rfl

theorem parameters_takes (env : Env) (forms : List Form) :
    Takes R (parameters env forms) fun _ ms => ms = [] := by
  intro a
  apply (leads_parameters env forms a).mono
  · rintro _ b ⟨-, rfl⟩
    exact ⟨[], rfl, hR.refl b⟩
  · exact fun _ _ _ => trivial

theorem definition_takes (env : Env) (sym : Name) {init : Option (Analysis Node)}
    (h : ∀ m ∈ init, Takes R m Shows) : Takes R (definition env sym init) Shows := by
  intro a
  apply (hR.begins env sym a).bind
  · rintro _ b ⟨_, rfl, hbegin⟩
    cases init with
    | none => exact leads_pure.mpr ⟨_, rfl, hR.blank _ _ _ a b hbegin⟩
    | some m =>
        apply (h m rfl b).bind
        · rintro x c ⟨_, rfl, hx⟩
          apply (hR.ends env sym.name x a b c _ hbegin hx).bind
          · exact fun _ _ hend => leads_pure.mpr ⟨_, rfl, hend⟩
          · exact fun _ _ _ => trivial
        · exact fun _ _ _ => trivial
  · exact fun _ _ _ => trivial

theorem function_takes (env : Env) (sym : Name) {f : Analysis Node} {parts : Analysis (List Node)}
    (hf : Takes R f Shows) (hp : Takes R parts ShowsAll) : Takes R (function env sym f parts) Shows := by
  unfold function
  split
  · exact hf
  · apply takes_bind hR (symbol_takes hR env sym)
    rintro x _ rfl
    apply takes_map hR hp
    rintro xs _ rfl
    simp only [Shows, marks, allMarks, counted, List.nil_append, List.append_nil]

theorem quotation_takes (env : Env) (forms : List Form) : Takes R (quotation env forms) Shows := by
  unfold quotation
  split
  · exact takes_pure hR rfl
  · exact takes_fail env _

theorem cons_takes {m : Analysis Node} {rest : Analysis (List Node)} (h : Takes R m Shows)
    (hr : Takes R rest ShowsAll) :
    Takes R (do let node ← m; let nodes ← rest; return node :: nodes) ShowsAll := by
  apply takes_bind hR h
  rintro x _ rfl
  apply takes_map hR hr
  rintro xs _ rfl
  rfl

mutual

theorem analyze_takes (env : Env) (form : Form) : Takes R (analyze env form) Shows := by
  cases form with
  | symbol n =>
      rw [analyze]
      exact symbol_takes hR env n
  | list items line =>
      rw [analyze]
      exact analyzeList_takes (env.within line) line items
  | vector items line =>
      rw [analyze]
      exact takes_map hR (analyzeAll_takes (env.within line) items) fun _ _ h => h
  | map items line =>
      rw [analyze]
      apply takes_bind hR (analyzeEvery_takes true (env.within line) items)
      rintro keys _ rfl
      apply takes_map hR (analyzeEvery_takes false (env.within line) items)
      rintro values _ rfl
      rfl
  | nil | bool | int | float | str | keyword => exact takes_pure hR rfl
termination_by sizeOf form

theorem analyzeAll_takes (env : Env) (forms : List Form) :
    Takes R (analyzeAll env forms) ShowsAll := by
  cases forms with
  | nil => exact takes_pure hR rfl
  | cons form forms =>
      rw [analyzeAll]
      exact cons_takes hR (analyze_takes env form) (analyzeAll_takes env forms)
termination_by sizeOf forms

theorem analyzeEvery_takes (first : Bool) (env : Env) (forms : List Form) :
    Takes R (analyzeEvery first env forms) ShowsAll := by
  cases forms with
  | nil => exact takes_pure hR rfl
  | cons form forms =>
      rw [analyzeEvery]
      split
      · exact cons_takes hR (analyze_takes env form) (analyzeEvery_takes false env forms)
      · exact analyzeEvery_takes true env forms
termination_by sizeOf forms

theorem analyzeList_takes (env : Env) (line : Option Nat) (forms : List Form) :
    Takes R (analyzeList env line forms) Shows := by
  cases forms with
  | nil => exact takes_pure hR rfl
  | cons head args =>
      rw [analyzeList]
      cases special? env head with
      | none =>
          dsimp only
          apply takes_bind hR (analyze_takes env head)
          rintro f _ rfl
          apply takes_bind hR (analyzeAll_takes env args)
          rintro xs _ rfl
          apply takes_map hR (hR.counts env f xs.length)
          rintro _ _ rfl
          rfl
      | some special =>
          cases special with
          | define => exact analyzeDef_takes env args
          | defineFn => exact analyzeDefn_takes env args
          | fn => exact analyzeFn_takes env .bare args
          | cond => exact analyzeIf_takes env args
          | block => exact takes_map hR (analyzeAll_takes env args) fun _ _ h => h
          | bind => exact analyzeLet_takes env args
          | quote => exact quotation_takes hR env args
          | assign => exact analyzeSet_takes env args
          | throw => exact analyzeThrow_takes env args
          | ns => exact hR.declares env args
termination_by sizeOf forms

theorem analyzeDef_takes (env : Env) (args : List Form) : Takes R (analyzeDef env args) Shows := by
  unfold analyzeDef
  split
  · exact definition_takes hR env _ (fun m hm => nomatch hm)
  · next sym init =>
      apply definition_takes hR env sym
      rintro m ⟨⟩
      exact analyze_takes env init
  · exact takes_fail env _
  · exact takes_fail env _
  · exact takes_fail env _
termination_by sizeOf args

theorem analyzeDefn_takes (env : Env) (args : List Form) : Takes R (analyzeDefn env args) Shows := by
  unfold analyzeDefn
  split
  · next sym rest =>
      split
      · exact takes_fail env _
      · apply definition_takes hR env sym
        rintro m ⟨⟩
        exact function_takes hR env sym (analyzeFn_takes env (.defined sym.name) rest)
          (analyzeParts_takes env rest)
  · exact takes_fail env _
termination_by sizeOf args

theorem analyzeParts_takes (env : Env) (forms : List Form) :
    Takes R (analyzeParts env forms) ShowsAll := by
  unfold analyzeParts
  split
  · exact takes_pure hR rfl
  · next forms => exact analyzeAll_takes env forms
  · next form forms _ => exact cons_takes hR (analyze_takes env form) (analyzeAll_takes env forms)
termination_by sizeOf forms

theorem analyzeFn_takes (env : Env) (before : Heading) (forms : List Form) :
    Takes R (analyzeFn env before forms) Shows := by
  unfold analyzeFn
  split
  · next params _ body =>
      apply takes_bind hR (parameters_takes hR env params)
      rintro ps _ rfl
      exact takes_map hR (analyzeAll_takes (bodyEnv env before.self? ps) body) fun _ _ h => h
  · next n rest =>
      cases before with
      | bare => exact analyzeFn_takes env (.named n.name) rest
      | named | defined => exact takes_fail env _
  · next rest =>
      cases before with
      | defined self => exact analyzeFn_takes env (.named self) rest
      | bare | named => exact takes_fail env _
  · exact takes_fail env _
  · exact takes_fail env _
termination_by sizeOf forms

theorem analyzeIf_takes (env : Env) (args : List Form) : Takes R (analyzeIf env args) Shows := by
  unfold analyzeIf
  split
  · next test yes =>
      apply takes_bind hR (analyze_takes env test)
      rintro t _ rfl
      apply takes_map hR (analyze_takes env yes)
      rintro y _ rfl
      simp only [Shows, marks, List.append_nil]
  · next test yes no =>
      apply takes_bind hR (analyze_takes env test)
      rintro t _ rfl
      apply takes_bind hR (analyze_takes env yes)
      rintro y _ rfl
      apply takes_map hR (analyze_takes env no)
      rintro n _ rfl
      rfl
  · exact takes_fail env _
  · exact takes_fail env _
  · exact takes_fail env _
termination_by sizeOf args

theorem analyzeLet_takes (env : Env) (args : List Form) : Takes R (analyzeLet env args) Shows := by
  unfold analyzeLet
  split
  · next bindings _ body =>
      dsimp only
      split
      · exact takes_fail env _
      · apply takes_bind hR (analyzeBindings_takes env bindings)
        rintro ⟨inner, names, inits⟩ _ rfl
        apply takes_map hR (analyzeAll_takes inner body)
        rintro xs _ rfl
        rfl
  · exact takes_fail env _
termination_by sizeOf args

theorem analyzeBindings_takes (env : Env) (bindings : List Form) :
    Takes R (analyzeBindings env bindings) fun r ms => ShowsAll r.2.2 ms := by
  unfold analyzeBindings
  split
  · next name init rest =>
      apply takes_bind hR (analyze_takes env init)
      rintro x _ rfl
      apply takes_map hR (analyzeBindings_takes (env.bind name) rest)
      rintro ⟨inner, names, inits⟩ _ rfl
      rfl
  · exact takes_fail env _
  · exact takes_pure hR rfl
termination_by sizeOf bindings

theorem analyzeSet_takes (env : Env) (args : List Form) : Takes R (analyzeSet env args) Shows := by
  unfold analyzeSet
  split
  · next sym value =>
      split
      · exact takes_fail env _
      · apply takes_bind hR (hR.looks env sym)
        rintro ⟨ns, name⟩ _ rfl
        exact takes_map hR (analyze_takes env value) fun _ _ h => h
  · exact takes_fail env _
termination_by sizeOf args

theorem analyzeThrow_takes (env : Env) (args : List Form) : Takes R (analyzeThrow env args) Shows := by
  unfold analyzeThrow
  split
  · next form => exact takes_map hR (analyze_takes env form) fun _ _ h => h
  · exact takes_fail env _
termination_by sizeOf args

end

end

end Analysis

end Sumi
