import Sumi.Proofs.Analysis.Course
import Sumi.Proofs.Form.Marked

namespace Sumi

open Form

theorem Env.within_within (env : Env) (line : Option Nat) :
    (env.within line).within line = env.within line := by
  cases line <;> rfl

namespace Form

def function (sym : Name) (params : List Form) (at? : Option Nat) (body : List Form)
    (line : Option Nat) : Form :=
  .list (Form.sym "fn" :: .symbol sym :: .vector params at? :: body) line

def definition (sym : Name) (value : Form) (line : Option Nat) : Form :=
  .list [Form.sym "def", .symbol sym, value] line

def functionDefinition (sym : Name) (params : List Form) (at? : Option Nat) (body : List Form)
    (line : Option Nat) : Form :=
  .list (Form.sym "defn" :: .symbol sym :: .vector params at? :: body) line

end Form

namespace Analysis

variable {env : Env} {sym : Name} {params body : List Form} {at? line : Option Nat}

theorem special?_sym {name : String} (h : env.local? name = none) :
    special? env (Form.sym name) = Special.ofName? name := by
  rw [Form.sym, Name.plain, special?, h]
  rfl

theorem analyze_quotation (h : env.local? "quote" = none) (x : Form) :
    analyze env (.list [Form.sym "quote", x] line) = return .const (env.within line).line x := by
  have hs : special? (env.within line) (Form.sym "quote") = some .quote := special?_sym h
  rw [analyze, analyzeList, hs]
  rfl

theorem analyze_definition (h : env.local? "def" = none) (value : Form) :
    analyze env (Form.definition sym value line) =
      analyzeDef (env.within line) [.symbol sym, value] := by
  have hs : special? (env.within line) (Form.sym "def") = some .define := special?_sym h
  rw [Form.definition, analyze, analyzeList, hs]

theorem analyze_function (h : env.local? "fn" = none) :
    analyze env (Form.function sym params at? body line) =
      analyzeFn (env.within line) (.named sym.name) (.vector params at? :: body) := by
  have hs : special? (env.within line) (Form.sym "fn") = some .fn := special?_sym h
  rw [Form.function, analyze, analyzeList, hs]
  simp only [analyzeFn]

theorem analyze_functionDefinition (hd : env.local? "defn" = none) (hf : env.local? "fn" = none) :
    analyze env (Form.functionDefinition sym params at? body line) =
      analyzeDef (env.within line) [.symbol sym, Form.function sym params at? body line] := by
  have hs : special? (env.within line) (Form.sym "defn") = some .defineFn := special?_sym hd
  have hf' : (env.within line).local? "fn" = none := hf
  rw [Form.functionDefinition, analyze, analyzeList, hs]
  simp only [analyzeDefn, analyzeDef, List.isEmpty_cons, Bool.false_eq_true, if_false, function, hf',
    analyze_function hf', Env.within_within, analyzeFn, Heading.self?]

def functionNode (line : Option Nat) (self : Option String) (ps : Parameters) (body : List Node) :
    Node :=
  .fn line self ((self.filter (!·.isEmpty)).map Code.mungeLocal) (ps.fixed.map Code.mungeLocal)
    (ps.rest.map Code.mungeLocal) body

theorem arityOf_functionNode (line : Option Nat) (self : Option String) (ps : Parameters)
    (body : List Node) :
    arityOf? (functionNode line self ps body) = some ⟨ps.fixed.length, ps.rest.isSome⟩ := by
  simp [functionNode, arityOf?]

theorem analyzeFn_ok {before : Heading} {a b : Analyzer} {x : Node}
    (h : (analyzeFn env before (.vector params at? :: body)).run.run a = (.ok x, b)) :
    ∃ ps nodes, Parameters.of? params = some ps ∧
      (analyzeAll (bodyEnv env before.self? ps) body).run.run a = (.ok nodes, b) ∧
      x = functionNode env.line before.self? ps nodes := by
  rw [analyzeFn] at h
  obtain ⟨ps, c, hps, hrest⟩ := run_bind_ok_iff.mp h
  obtain ⟨hof, rfl⟩ := (leads_of_ok hps).mp (leads_parameters env params a)
  obtain ⟨nodes, d, hbody, hlast⟩ := run_bind_ok_iff.mp hrest
  cases hlast
  exact ⟨ps, nodes, hof, hbody, rfl⟩

theorem definition_ok {init : Analysis Node} {a b : Analyzer} {x : Node}
    (h : (definition env sym (some init)).run.run a = (.ok x, b)) :
    ∃ c d y, (beginDefinition env sym).run.run a = (.ok (), c) ∧ init.run.run c = (.ok y, d) ∧
      (finishDefinition env sym.name y).run.run d = (.ok (), b) ∧
      x = .define env.line env.ns sym.name (some y) := by
  obtain ⟨_, c, hbegin, h⟩ := run_bind_ok_iff.mp h
  obtain ⟨y, d, hinit, h⟩ := run_bind_ok_iff.mp h
  obtain ⟨_, e, hfinish, h⟩ := run_bind_ok_iff.mp h
  cases h
  exact ⟨c, d, y, hbegin, hinit, hfinish, rfl⟩

theorem arity_finished {a b : Analyzer} (hc : a.Consistent) {name : String} {y : Node}
    (h : (finishDefinition (env.within line) name y).run.run a = (.ok (), b)) :
    ((b.namespaceOf env.ns).defs.get? name).map (·.arity) = some (arityOf? y) := by
  cases h
  have hname := hc.namespaceOf_name env.ns
  rw [Analyzer.namespaceOf_setNamespace (by exact hname), Table.update, Table.get?_put_self]
  rfl

/-- A quoted text is a constant wherever `quote` is no local, and a function can be defined in one
form wherever neither `defn` nor `fn` is one: it is the definition of the name as the function with
these parameters and this body, and the arity of the function is recorded. -/
theorem sugar_analyzed (env : Env) :
    (env.local? "quote" = none → ∀ source x rest, readAll source = .ok (x :: rest) →
      ∃ quoted, readAll (marked .quote source) = .ok (quoted :: rest) ∧
        ∀ a, (analyze env quoted).run.run a = (.ok (.const (some 1) x), a)) ∧
    (env.local? "defn" = none → env.local? "fn" = none → ∀ sym params at? body line,
      analyze env (Form.functionDefinition sym params at? body line) =
          analyzeDef (env.within line) [.symbol sym, Form.function sym params at? body line] ∧
        (env.local? "def" = none → analyze env (Form.functionDefinition sym params at? body line) =
          analyze env (Form.definition sym (Form.function sym params at? body line) line)) ∧
        ∀ a x b, a.Consistent →
          (analyze env (Form.functionDefinition sym params at? body line)).run.run a = (.ok x, b) →
          ∃ ps nodes c d, Parameters.of? params = some ps ∧
            (beginDefinition (env.within line) sym).run.run a = (.ok (), c) ∧
            (analyzeAll (bodyEnv (env.within line) (some sym.name) ps) body).run.run c =
              (.ok nodes, d) ∧
            x = .define (env.within line).line env.ns sym.name
              (some (functionNode (env.within line).line (some sym.name) ps nodes)) ∧
            ((b.namespaceOf env.ns).defs.get? sym.name).map (·.arity) =
              some (some ⟨ps.fixed.length, ps.rest.isSome⟩)) := by
  constructor
  · intro hq source x rest hread
    refine ⟨_, readAll_marked .quote hread, fun a => ?_⟩
    rw [Tree.markName, analyze_quotation hq]
    rfl
  · intro hd hf sym params at? body line
    have heq : analyze env (Form.functionDefinition sym params at? body line) = _ :=
      analyze_functionDefinition hd hf
    refine ⟨heq, fun hdef => heq.trans (analyze_definition hdef _).symm, ?_⟩
    intro a x b hc hrun
    have hplace : (env.within line).local? "fn" = none := hf
    rw [heq, analyzeDef, analyze_function hplace, Env.within_within] at hrun
    obtain ⟨c, d, y, hbegin, hinit, hfinish, rfl⟩ := definition_ok hrun
    obtain ⟨ps, nodes, hps, hbody, rfl⟩ := analyzeFn_ok hinit
    have hbegun : c.Consistent := by
      have := (beginDefinition_alike (env.within line) sym).consistent hc
      rwa [hbegin] at this
    have hended : d.Consistent := by
      have := (analyzeAll_alike (bodyEnv (env.within line) (Heading.self? (.named sym.name)) ps)
        body).consistent hbegun
      rwa [hbody] at this
    refine ⟨ps, nodes, c, d, hps, hbegin, hbody, rfl, ?_⟩
    rw [← arityOf_functionNode (env.within line).line (some sym.name) ps nodes]
    exact arity_finished hended hfinish

def crowded : Env := Env.bindAll { ns := Namespace.user } ["if", "f", "x"]

def choosing : Form :=
  Form.functionDefinition (.plain "f") [Form.sym "x", Form.sym "&", Form.sym "if"] none
    [Form.sym "x"] none

theorem sugar_crowded :
    crowded.local? "quote" = none ∧ crowded.local? "defn" = none ∧ crowded.local? "fn" = none ∧
      crowded.local? "def" = none ∧
      readAll "(f) x" = .ok [.list [Form.sym "f"] (some 1), Form.sym "x"] ∧
      (∃ quoted, readAll (marked .quote "(f) x") = .ok [quoted, Form.sym "x"] ∧
        ∀ a, (analyze crowded quoted).run.run a =
          (.ok (.const (some 1) (.list [Form.sym "f"] (some 1))), a)) ∧
      analyze crowded choosing = analyze crowded (Form.definition (.plain "f")
        (Form.function (.plain "f") [Form.sym "x", Form.sym "&", Form.sym "if"] none [Form.sym "x"]
          none) none) ∧
      ∃ x b, (analyze crowded choosing).run.run (.ofLibrary [] {}) = (.ok x, b) ∧
        ((b.namespaceOf Namespace.user).defs.get? "f").map (·.arity) = some (some ⟨1, true⟩) := by
  have hquote : crowded.local? "quote" = none := by decide
  have hdefn : crowded.local? "defn" = none := by decide
  have hfn : crowded.local? "fn" = none := by decide
  have hdef : crowded.local? "def" = none := by decide
  have hread : readAll "(f) x" = .ok [.list [Form.sym "f"] (some 1), Form.sym "x"] := by
    with_unfolding_all rfl
  obtain ⟨x, b, hrun⟩ : ∃ x b, (analyze crowded choosing).run.run (.ofLibrary [] {}) = (.ok x, b) :=
    ends_of_isOk (by rfl)
  obtain ⟨-, hsame, hrecords⟩ := (sugar_analyzed crowded).2 hdefn hfn (.plain "f")
    [Form.sym "x", Form.sym "&", Form.sym "if"] none [Form.sym "x"] none
  obtain ⟨ps, -, -, -, hps, -, -, -, harity⟩ :=
    hrecords _ x b (Analyzer.ofLibrary_consistent [] {}) hrun
  cases hps
  exact ⟨hquote, hdefn, hfn, hdef, hread, (sugar_analyzed crowded).1 hquote _ _ _ hread, hsame hdef,
    x, b, hrun, harity⟩

/-- A local called `quote` is called with what was to be quoted, and one called `fn` with what was to
be a function. -/
theorem sugar_hidden :
    readAll "1" = .ok [.int 1] ∧
      readAll (marked .quote "1") = .ok [.list [Form.sym "quote", .int 1] (some 1)] ∧
      (∀ a, (analyze (Env.bind { ns := Namespace.user } "quote")
          (.list [Form.sym "quote", .int 1] (some 1))).run.run a =
        (.ok (.call (some 1) (.bound (some 1) "quote") [.const (some 1) (.int 1)]), a)) ∧
      (Env.bind { ns := Namespace.user } "fn").local? "defn" = none ∧
      ∃ x b, (analyze (Env.bind { ns := Namespace.user } "fn")
          (Form.functionDefinition (.plain "f") [] none [.int 1] none)).run.run (.ofLibrary [] {}) =
            (.ok x, b) ∧
        ((b.namespaceOf Namespace.user).defs.get? "f").map (·.arity) = some none := by
  refine ⟨by with_unfolding_all rfl, by with_unfolding_all rfl, fun a => by rfl, by decide, ?_⟩
  exact ⟨_, _, rfl, by decide⟩

end Analysis

end Sumi
