import Sumi.Proofs.Analysis.Settled
import Sumi.Proofs.Code.Constants
import Sumi.Proofs.Code.Lines
import Sumi.Proofs.Project.LoadOrder
import Sumi.Project.Script

namespace Sumi

open Node Change

namespace Analysis

variable {α : Type} {a b : Analyzer} {ns : String} {form : Form} {forms : List Form} {x : Node}
  {xs : List Node}

theorem enter_enter (a : Analyzer) (ns : String) : (a.enter ns).enter ns = a.enter ns := by
  have hknown : (a.enter ns).namespaces.has ns = true := by
    unfold Analyzer.enter
    split
    · assumption
    · exact (Table.has_put ns ns _ _).trans (by simp)
  rw [Analyzer.enter, if_pos hknown]

theorem nodes_entered (a : Analyzer) (ns : String) (forms : List Form) :
    (nodes ns forms).run.run (a.enter ns) = (nodes ns forms).run.run a := by
  cases forms with
  | nil =>
      change (Except.ok [], (a.enter ns).enter ns) = (_, a.enter ns)
      rw [enter_enter]
  | cons form forms =>
      have hfirst : (topLevel ns form).run.run (a.enter ns) = (topLevel ns form).run.run a := by
        change (settling settle (analyze { ns := ns } form)).run.run ((a.enter ns).enter ns) = _
        rw [enter_enter]
        rfl
      simp only [nodes, ExceptT.run_bind, StateT.run_bind, hfirst]

theorem topLevel_log (hc : a.Consistent) (hn : form.isNamed = true)
    (h : (topLevel ns form).run.run a = (.ok x, b)) :
    b.Consistent ∧ b.events = (events x.changes).reverse ++ a.events := by
  obtain ⟨hx, hb⟩ := (leads_of_ok h).mp (topLevel_comes ns hc hn)
  refine ⟨hb.consistent, ?_⟩
  rw [hb.events, Analyzer.events_enter, ← events_mentions x [], hx, View.events_resolve]
  rfl

theorem nodes_log (hc : a.Consistent) (hn : ∀ f ∈ forms, f.isNamed = true)
    (h : (nodes ns forms).run.run a = (.ok xs, b)) :
    b.events = (events (allChanges xs)).reverse ++ a.events := by
  induction forms generalizing ns a xs with
  | nil =>
      cases h
      exact Analyzer.events_enter a ns
  | cons form forms ih =>
      obtain ⟨hform, hforms⟩ := List.forall_mem_cons.mp hn
      obtain ⟨x, c, rest, hx, hrest, rfl⟩ := nodes_cons_ok h
      obtain ⟨hconsistent, hlog⟩ := topLevel_log hc hform hx
      rw [ih hconsistent hforms hrest, hlog, allChanges, events_append, List.reverse_append,
        List.append_assoc]

theorem settling_run {settle : List Event → α → α × List Event} {m : Analysis α} {y : α}
    (h : m.run.run a = (.ok y, b)) :
    (settling settle m).run.run a = (.ok (settle (since a b) y).1, b) := by
  apply bind_ok (x := a) rfl
  apply bind_ok h
  exact bind_ok rfl rfl

end Analysis

namespace Code

theorem ofNodes_eq (xs : List Node) : ofNodes xs = xs.map ofNode := by
  induction xs with
  | nil => rfl
  | cons x xs ih => exact congrArg (ofNode x :: ·) ih

theorem provide_unique {ns : String} {requires others : List String}
    (h : (provide ns requires).render = (provide ns others).render) : requires = others := by
  have htext (names : List String) : (provide ns names).render.toList =
      ("sumi_provide(" ++ Text.Literal.write ns ++ ", [").toList ++
        (", ".toList.intercalate (names.map fun s => (Text.Literal.write s).toList) ++ [']', ')']) := by
    have hparts (a b c : String) : (a ++ b ++ c).toList = a.toList ++ (b.toList ++ c.toList) := by
      simp only [String.toList_append, List.append_assoc]
    have hrow : (commas (names.map Text.Literal.write)).toList =
        ", ".toList.intercalate (names.map fun s => (Text.Literal.write s).toList) := by
      rw [commas, String.toList_intercalate, List.map_map]
      rfl
    rw [← hrow]
    exact hparts _ _ _
  have htold : Told (fun s => (Text.Literal.write s).toList) id requires others :=
    fun _ _ _ _ _ _ _ _ => Text.Literal.write_unique
  have hhead (names : List String) (s : String) (_ : s ∈ names) (rest : List Char) :
      ((Text.Literal.write s).toList ++ rest).head? ≠ some ']' := by
    obtain ⟨cs, hs | hs⟩ := toList_write s <;> rw [hs] <;> rintro ⟨⟩
  rw [← String.toList_inj, htext, htext, List.append_cancel_left_eq] at h
  obtain ⟨hnames, -⟩ := htold.row (by decide) (hhead requires) (hhead others) h
  simpa using hnames

end Code

namespace Project

open Analysis Work

variable {w : Workspace} {path : String} {forms : List Form} {ys : List Node} {a : Analyzer}

theorem Work.analyze_run {α : Type} {m : Analysis α} {x : α}
    (h : m.run.run w.analyzer = (.ok x, a)) :
    (Work.analyze m).run.run w = (.ok x, showWarnings { w with analyzer := a }) := by
  have hrun : m.run w.analyzer = (.ok x, a) := h
  apply run_of_leads
  apply leads_bind.mpr
  apply leads_get.mpr
  rw [hrun]
  apply leads_bind.mpr
  apply leads_set.mpr
  exact leads_pure.mpr rfl

theorem ofFiles_run {α : Type} {f : Files → String → Except FileFault α} {x : α}
    (h : f w.files path = .ok x) : (ofFiles path f).run.run w = (.ok x, w) := by
  apply run_of_leads
  apply leads_bind.mpr
  apply leads_get.mpr
  rw [h]
  exact leads_pure.mpr rfl

theorem readForms_run {text : String} (h : Form.readAll text = .ok forms) (w : Workspace) :
    (readForms text).run.run w = (.ok forms, w) := by
  unfold readForms
  rw [h]
  rfl

/-- The nodes of a file are kept while all of it is analyzed. -/
theorem analyzeFile_run (hc : w.analyzer.Consistent) (hread : ReadsAs w.files path forms)
    (h : (nodes Namespace.user forms).run.run w.analyzer = (.ok ys, a)) :
    (analyzeFile path).run.run w = (.ok (allBehind [] ys), showWarnings { w with analyzer := a }) := by
  obtain ⟨text, htext, hforms⟩ := hread
  have hentered := (nodes_entered w.analyzer Namespace.user forms).trans h
  have hlog := nodes_log (hc.enter _) (Form.readAll_named hforms) hentered
  have hsettled : (settling settleAll (nodes Namespace.user forms)).run.run
      (w.analyzer.enter Namespace.user) = _ := settling_run hentered
  rw [since_of_append hlog, List.reverse_reverse, settleAll_own] at hsettled
  refine run_bind_ok_iff.mpr ⟨_, _, ofFiles_run htext, ?_⟩
  refine run_bind_ok_iff.mpr
    ⟨⟨⟩, { w with analyzer := w.analyzer.enter Namespace.user }, rfl, ?_⟩
  refine run_bind_ok_iff.mpr ⟨_, _, readForms_run hforms _, ?_⟩
  exact analyze_run hsettled

/-- The node of a form is compiled before the next form is analyzed. -/
theorem compileFile_run (hread : ReadsAs w.files path forms)
    (h : (nodes Namespace.user forms).run.run w.analyzer = (.ok ys, a)) :
    (compileFile path).run.run w =
      (.ok ⟨some path, ys.map Code.ofNode⟩, showWarnings { w with analyzer := a }) := by
  obtain ⟨text, htext, hforms⟩ := hread
  have hcompiled : (compile (some path) Namespace.user forms).run.run w.analyzer =
      (.ok ⟨some path, ys.map Code.ofNode⟩, a) := bind_ok h rfl
  have hformsOf : (formsOf path).run.run w = (.ok forms, w) :=
    run_bind_ok_iff.mpr ⟨_, _, ofFiles_run htext, readForms_run hforms w⟩
  exact run_bind_ok_iff.mpr ⟨_, _, hformsOf, analyze_run hcompiled⟩

def written (x : Node) : String := (Code.ofNode x).render

/-- The text of a declaration that was kept, wherever in its source it stands. -/
theorem written_kept {before after : List Node} {line : Option Nat} {name : String}
    {requires uses : Table String String}
    (h : (allBehind [] (before ++ .ns line name requires uses :: after)).map written =
      (before ++ .ns line name requires uses :: after).map written) :
    Demanding requires uses (left name (events (allChanges after)) uses) := by
  rw [allBehind_append, List.map_append, List.map_append] at h
  obtain ⟨-, h⟩ := List.append_inj h (by rw [List.length_map, List.length_map, length_allBehind])
  have hhead := (List.cons.inj h).1
  rw [List.append_nil] at hhead
  exact Code.provide_unique hhead

/-- A file that reads and analyzes is analyzed and compiled with the same effect. The nodes that are
kept are those that are compiled, save that a declaration loses the names that are taken over behind
it; and they have the same text as long as each declaration demands the same namespaces all the
same. -/
theorem analyzed_as_compiled (hc : w.analyzer.Consistent) (hread : ReadsAs w.files path forms)
    (h : (nodes Namespace.user forms).run.run w.analyzer = (.ok ys, a)) :
    ∃ xs m w', (analyzeFile path).run.run w = (.ok xs, w') ∧
      (compileFile path).run.run w = (.ok m, w') ∧
      w'.analyzer.namespaces = a.namespaces ∧
      m.lines = Module.heading (some path) ++ ys.map written ∧
      xs = allBehind [] ys ∧
      (xs = ys ↔ Leaves (fun _ uses left => left = uses) [] (allChanges ys)) ∧
      (Leaves Demanding [] (allChanges ys) → xs.map written = ys.map written) ∧
      (xs.map written = ys.map written →
        ∀ before line name requires uses after, ys = before ++ .ns line name requires uses :: after →
          Demanding requires uses (left name (events (allChanges after)) uses)) := by
  refine ⟨_, _, _, analyzeFile_run hc hread h, compileFile_run hread h, rfl, ?_, rfl,
    allBehind_eq_iff [] ys, fun hleaves => ?_, ?_⟩
  · rw [Module.lines, List.map_map]
    rfl
  · have hcode : (allBehind [] ys).map Code.ofNode = ys.map Code.ofNode := by
      rw [← Code.ofNodes_eq, ← Code.ofNodes_eq, ofNodes_behind ys hleaves]
    have htexts := congrArg (List.map Code.render) hcode
    rwa [List.map_map, List.map_map] at htexts
  · rintro htexts before line name requires uses after rfl
    exact written_kept htexts

def partly : Workspace :=
  .ofSources [[], ["src"]] [(["src", "a.sumi"], "(ns a (:use [b :only [x y]]))\n(def x 1)\n")]

def wholly : Workspace :=
  .ofSources [[], ["src"]] [(["src", "a.sumi"], "(ns a (:use [b :only [x]]))\n(def x 1)\n")]

def redefining (names : List Form) : List Form :=
  [.list [.sym "ns", .sym "a", .list [.keyword (.plain "use"),
      .vector [.sym "b", .keyword (.plain "only"), .vector names (some 1)] (some 1)] (some 1)] (some 1),
    .list [.sym "def", .sym "x", .int 1] (some 2)]

theorem partly_read : ReadsAs partly.files "src/a.sumi" (redefining [.sym "x", .sym "y"]) :=
  ⟨"(ns a (:use [b :only [x y]]))\n(def x 1)\n", by rfl, by with_unfolding_all rfl⟩

theorem wholly_read : ReadsAs wholly.files "src/a.sumi" (redefining [.sym "x"]) :=
  ⟨"(ns a (:use [b :only [x]]))\n(def x 1)\n", by rfl, by with_unfolding_all rfl⟩

theorem partly_analyzed : ∃ xs ys a m w',
    (nodes Namespace.user (redefining [.sym "x", .sym "y"])).run.run partly.analyzer = (.ok ys, a) ∧
      (analyzeFile "src/a.sumi").run.run partly = (.ok xs, w') ∧
      (compileFile "src/a.sumi").run.run partly = (.ok m, w') ∧
      xs ≠ ys ∧ m.lines = Module.heading (some "src/a.sumi") ++ xs.map written := by
  have hc : partly.analyzer.Consistent := Analyzer.ofLibrary_consistent _ _
  obtain ⟨ys, a, h⟩ : ∃ ys a, (nodes Namespace.user (redefining [.sym "x", .sym "y"])).run.run
      partly.analyzer = (.ok ys, a) := ends_of_isOk (by rfl)
  obtain ⟨xs, m, w', hx, hm, -, hlines, -, hsame, hkeep, -⟩ := analyzed_as_compiled hc partly_read h
  have hys : allChanges ys = [.declare "a" [] [("x", "b"), ("y", "b")], .begin (some 2) "a" "x",
      .finish "a" "x" none] := by
    cases h
    rfl
  rw [hys] at hsame hkeep
  refine ⟨xs, ys, a, m, w', h, hx, hm, fun he => ?_, ?_⟩
  · exact absurd (hsame.mp he).1 (by decide)
  · rw [hlines, hkeep ⟨by decide, trivial⟩]

/-- What is kept is not always what is compiled. -/
theorem wholly_differs : ∃ xs m w',
    (analyzeFile "src/a.sumi").run.run wholly = (.ok xs, w') ∧
      (compileFile "src/a.sumi").run.run wholly = (.ok m, w') ∧
      m.lines = ["# Compiled by sumi from src/a.sumi", "sumi_provide('a', ['b'])",
        "sumi_def('a', 'x', 1)"] ∧
      xs.map written = ["sumi_provide('a', [])", "sumi_def('a', 'x', 1)"] := by
  have hc : wholly.analyzer.Consistent := Analyzer.ofLibrary_consistent _ _
  obtain ⟨ys, a, h⟩ : ∃ ys a, (nodes Namespace.user (redefining [.sym "x"])).run.run
      wholly.analyzer = (.ok ys, a) := ends_of_isOk (by rfl)
  have hys : ys = [.ns (some 1) "a" [] [("x", "b")],
      .define (some 2) "a" "x" (some (.const (some 2) (.int 1)))] := by
    cases h
    rfl
  subst hys
  exact ⟨_, _, _, analyzeFile_run hc wholly_read h, compileFile_run wholly_read h, by decide,
    by decide⟩

end Project

end Sumi
