import Sumi.Proofs.Form.Incremental
import Sumi.Proofs.Session.Redeclared
import Sumi.Proofs.Session.Tandem

namespace Sumi

namespace Form.Stream

def gather (s : Stream) : List Form × Option ReadError :=
  match _hn : s.next? with
  | none => ([], none)
  | some (.error e, _) => ([], some e)
  | some (.ok form, t) => (form :: t.gather.1, t.gather.2)
termination_by (s.weight, s.pending.length)
decreasing_by all_goals exact (next?_shorter _hn).lex

theorem gather_eq (s : Stream) : s.gather =
    match s.next? with
    | none => ([], none)
    | some (.error e, _) => ([], some e)
    | some (.ok form, t) => (form :: t.gather.1, t.gather.2) := by
  rw [gather]
  split <;> simp only [*]

end Form.Stream

namespace Session

open Project Analysis

variable {σ α : Type} {h : Host σ} {s : Session σ} {form : Form} {node : Node} {ns : String}
  {texts : List String}

/-- The session is in the namespace and has these last results. -/
def At (ns : String) (texts : List String) (s : Session σ) : Prop := s.ns = ns ∧ s.history = texts

def declared? (s : Session σ) (form : Form) : Option String :=
  (s.first? form).bind fun p => p.1.declares?

/-- The second analysis of a declaration fails no more than the first one. -/
theorem second_succeeds {a b : Analyzer} (hns : form.isNs = true)
    (hrun : (topLevel ns form).run.run a = (.ok node, b)) (a' : Analyzer) :
    ∃ outer c, (topLevel ns form).run.run a' = (.ok outer, c) := by
  obtain ⟨name, forms, line, _, requires, uses, hform, hclauses, -⟩ := topLevel_reads hns hrun
  obtain ⟨line', hrun'⟩ := topLevel_succeeds ⟨forms, line, hform, hclauses⟩ ns a'
  exact ⟨_, _, hrun'⟩

/-- Where the session is behind a form, whether or not its evaluation succeeds. -/
theorem attempt_at (h : Host σ) (filename : String) (form : Form) (s : Session σ) :
    Leads (attempt h filename form form) s
      (fun _ => Stays (fun _ => True) ((s.declared? form).getD s.ns) s.history)
      (fun _ => Stays (fun _ => True) ((s.declared? form).getD s.ns) s.history) := by
  rw [attempt, leads_bind, leads_get, leads_bind, leads_work]
  rcases hfirst : (Work.analyze (topLevel s.ns form)).run.run s.workspace with ⟨f | node, w⟩
  · rw [leads_of_error hfirst, declared?, first_error hfirst]
    exact ⟨rfl, rfl, trivial⟩
  · rw [leads_of_ok hfirst, declared?, first_ok hfirst, Option.bind_some, leads_bind, leads_work,
      Work.leads_silently]
    obtain ⟨b, hrun⟩ := Work.analyze_ran hfirst
    have hs : ∀ w, Stays (fun _ => True) s.ns s.history { s with workspace := w } :=
      fun _ => ⟨rfl, rfl, trivial⟩
    have hok (outer : Node) (w : Workspace) :
        Leads (conclude h filename form node outer) { s with workspace := w }
          (fun _ => Stays (fun _ => True) (node.declares?.getD s.ns) s.history)
          (fun _ => Stays (fun _ => True) (node.declares?.getD s.ns) s.history) := by
      apply ((hs w).follow (fun _ _ _ _ _ => trivial) node).bind
      · exact fun _ _ hs => hs.deliver form _ _ fun _ _ => trivial
      · exact fun _ _ hs => hs
    -- the second analysis of a declaration succeeds like the first one; any other form leads
    -- nowhere, so it does not matter whether its second analysis does
    cases hns : form.isNs with
    | true =>
        obtain ⟨outer, c, hsecond⟩ := second_succeeds hns hrun { w.analyzer with flags := .silent }
        exact (leads_of_ok hsecond).mpr (hok outer _)
    | false =>
        have hplain := topLevel_plain hns hrun
        apply leads_any.mono
        · exact fun outer _ _ => hok outer _
        · intro f a _
          rw [hplain]
          exact hs _

theorem evaluate_at (h : Host σ) (filename : String) (form : Form) (s : Session σ) :
    At ((s.declared? form).getD s.ns) s.history (evaluate h filename form form s).2 := by
  have hl := attempt_at h filename form s
  rw [leads_iff] at hl
  unfold evaluate
  rcases hrun : (attempt h filename form form).run.run s with ⟨f | value, s'⟩ <;> rw [hrun] at hl
  · rw [run_apply, hrun]
    exact ⟨hl.ns, hl.history⟩
  · rw [run_apply, hrun]
    exact ⟨hl.ns, hl.history⟩

def evaluated (h : Host σ) (filename : String) (forms : List Form) (s : Session σ) : Session σ :=
  forms.foldl (fun s form => (evaluate h filename form form s).2) s

def declarations (h : Host σ) (filename : String) : List Form → Session σ → List String
  | [], _ => []
  | form :: forms, s =>
      (s.declared? form).toList ++ declarations h filename forms (evaluate h filename form form s).2

theorem evaluated_at (h : Host σ) (filename : String) (forms : List Form) (s : Session σ) :
    At ((declarations h filename forms s).getLast?.getD s.ns) s.history
      (evaluated h filename forms s) := by
  induction forms generalizing s with
  | nil => exact ⟨rfl, rfl⟩
  | cons form forms ih =>
      obtain ⟨hns, htexts⟩ := evaluate_at h filename form s
      obtain ⟨hns', htexts'⟩ := ih (evaluate h filename form form s).2
      refine ⟨?_, htexts'.trans htexts⟩
      have hlast : (s.declared? form).toList.getLast? = s.declared? form := by
        cases s.declared? form <;> rfl
      rw [declarations, List.getLast?_append, Option.getD_or, hlast, ← hns]
      exact hns'

theorem evaluateStream_run (h : Host σ) (filename : String) (stream : Form.Stream)
    (s : Session σ) : (evaluateStream h filename stream).run.run s =
      (stream.gather.2.elim (.ok ()) fun e => .error (.read e),
        evaluated h filename stream.gather.1 s) := by
  rw [evaluateStream_eq, Form.Stream.gather_eq]
  rcases hn : stream.next? with _ | ⟨e | form, rest⟩
  · rfl
  · rfl
  · exact evaluateStream_run h filename rest (evaluate h filename form form s).2
termination_by (stream.weight, stream.pending.length)
decreasing_by exact (Form.Stream.next?_shorter hn).lex

/-- What runs inside is undone in nothing but the namespace, however it ends. -/
theorem inside_run (load : Action σ Unit) (saved : String) (s : Session σ) :
    (do
      let (result, s) := load.run (← get)
      set { s with ns := saved }
      match result with
      | .ok () => return
      | .error f => throw f : Action σ Unit).run.run s =
    ((load.run.run s).1, { (load.run.run s).2 with ns := saved }) := by
  apply run_of_leads
  rw [leads_bind, leads_get]
  rcases hrun : load.run.run s with ⟨f | ⟨⟩, s'⟩
  · rw [run_apply, hrun]
    exact leads_bind.mpr (leads_set.mpr (leads_throw.mpr rfl))
  · rw [run_apply, hrun]
    exact leads_bind.mpr (leads_set.mpr (leads_pure.mpr rfl))

def textOf (layout : Layout) (name : String) : Work String := do
  let path ← resource layout name
  Work.ofFiles path Files.readText

def entered (s : Session σ) (w : Workspace) : Session σ :=
  { s with workspace := w, ns := Namespace.user }

theorem loadFile_run (h : Host σ) (name : String) (s : Session σ) :
    (loadFile h name).run.run s =
      match (textOf s.layout name).run.run s.workspace with
      | (.error f, w) => (.error f, { s with workspace := w })
      | (.ok text, w) =>
          ((Form.Stream.ofText text).gather.2.elim (.ok ()) fun e => .error (.read e),
            { evaluated h name (Form.Stream.ofText text).gather.1 (s.entered w) with ns := s.ns }) := by
  apply run_of_leads
  rw [loadFile, leads_bind, leads_get, leads_bind, leads_work]
  rcases hpath : (resource s.layout name).run.run s.workspace with ⟨f | path, w⟩
  · have htext : (textOf s.layout name).run.run s.workspace = (.error f, w) := by
      rw [textOf, ExceptT.run_bind, StateT.run_bind, hpath]
      rfl
    rw [leads_of_error hpath, htext]
  · have htext : (textOf s.layout name).run.run s.workspace =
        (Work.ofFiles path Files.readText).run.run w := by
      rw [textOf, ExceptT.run_bind, StateT.run_bind, hpath]
      rfl
    rw [leads_of_ok hpath, leads_bind, leads_get, leads_bind, leads_modify, htext]
    let load : Action σ Unit := do
      let text ← Action.work (Work.ofFiles path Files.readText)
      evaluateStream h name (.ofText text)
    have hload : load.run.run (s.entered w) =
        match (Work.ofFiles path Files.readText).run.run w with
        | (.error f, w) => (.error f, s.entered w)
        | (.ok text, w) => (evaluateStream h name (.ofText text)).run.run (s.entered w) := by
      apply run_of_leads
      rw [leads_bind, leads_work]
      rcases hfile : (Work.ofFiles path Files.readText).run.run w with ⟨f | text, w'⟩
      · exact (leads_of_error hfile).mpr rfl
      · exact (leads_of_ok hfile).mpr (leads_of_run rfl)
    have hinside := inside_run load s.ns (s.entered w)
    rw [hload] at hinside
    rcases hfile : (Work.ofFiles path Files.readText).run.run w with ⟨f | text, w'⟩ <;>
      rw [hfile] at hinside
    · exact leads_of_run hinside
    · dsimp only at hinside
      rw [evaluateStream_run] at hinside
      exact leads_of_run hinside

/-- What loading a file comes to. -/
structure Loads (h : Host σ) (name : String) (s : Session σ) : Prop where
  returns : At s.ns s.history ((loadFile h name).run.run s).2
  anywhere : ∀ other : String, (loadFile h name).run.run { s with ns := other } =
    (((loadFile h name).run.run s).1, { ((loadFile h name).run.run s).2 with ns := other })
  unread : ∀ f w, (textOf s.layout name).run.run s.workspace = (.error f, w) →
    (loadFile h name).run.run s = (.error f, { s with workspace := w })
  read : ∀ text w, (textOf s.layout name).run.run s.workspace = (.ok text, w) →
    ∀ forms error, (Form.Stream.ofText text).gather = (forms, error) →
      (loadFile h name).run.run s =
          (error.elim (.ok ()) (fun e => .error (.read e)),
            { evaluated h name forms (s.entered w) with ns := s.ns }) ∧
        ∀ before form after, forms = before ++ form :: after →
          (evaluated h name before (s.entered w)).ns =
            (declarations h name before (s.entered w)).getLast?.getD Namespace.user

theorem loadFile_loads (h : Host σ) (name : String) (s : Session σ) : Loads h name s where
  returns := by
    rw [loadFile_run]
    split
    · exact ⟨rfl, rfl⟩
    · exact ⟨rfl, (evaluated_at h name _ _).2⟩
  anywhere other := by
    rw [loadFile_run, loadFile_run]
    change (match (textOf s.layout name).run.run s.workspace with
      | (.error f, w) => _
      | (.ok text, w) => _) = _
    split <;> rfl
  unread f w hrun := by rw [loadFile_run, hrun]
  read text w hrun forms error hread := by
    rw [loadFile_run, hrun]
    dsimp only
    rw [hread]
    exact ⟨rfl, fun before form after _ => (evaluated_at h name before (s.entered w)).1⟩

end Session

end Sumi
