import Mathlib.Data.List.Forall2
import Sumi.Proofs.Analysis.Header
import Sumi.Proofs.Leads
import Sumi.Proofs.Machine.Results
import Sumi.Code.OfNode
import Sumi.Session.Wrap

namespace Sumi.Analysis

variable {ns : String} {form : Form} {a : Analyzer} {Q : Node → Analyzer → Prop}
  {E : CompileError → Analyzer → Prop}

/-- No other namespace goes by the name of the library in a namespace. -/
def Unaliased (ns : String) (a : Analyzer) : Prop :=
  ((a.namespaceOf ns).requires.get? Namespace.core).getD Namespace.core = Namespace.core

theorem namespaceOf_enter (a : Analyzer) (ns : String) :
    (a.enter ns).namespaceOf ns = a.namespaceOf ns := by
  unfold Analyzer.enter
  split
  · rfl
  · next h =>
      have hnone : a.namespaces.get? ns = none := by simpa [Table.has] using h
      unfold Analyzer.setNamespace Analyzer.namespaceOf
      rw [Table.get?_put_self, hnone]
      rfl

theorem Unaliased.enter (h : Unaliased ns a) : Unaliased ns (a.enter ns) := by
  unfold Unaliased
  rwa [namespaceOf_enter]

def Warned (a b : Analyzer) : Prop := b.namespaces = a.namespaces ∧ b.events = a.events

theorem Warned.refl (a : Analyzer) : Warned a a := ⟨rfl, rfl⟩

theorem Warned.trans {a b c : Analyzer} (h : Warned a b) (h' : Warned b c) : Warned a c :=
  ⟨h'.1.trans h.1, h'.2.trans h.2⟩

theorem Unaliased.warned (h : Unaliased ns a) {b : Analyzer} (hb : Warned a b) : Unaliased ns b := by
  unfold Unaliased Analyzer.namespaceOf
  rw [hb.1]
  exact h

theorem leads_checkArity (env : Env) (f : Node) (count : Nat) {Q : Unit → Analyzer → Prop}
    (h : ∀ b, Warned a b → Q () b) : Leads (checkArity env f count) a Q E := by
  apply leads_modify.mpr
  apply h
  split
  · dsimp only
    split
    · exact ⟨rfl, rfl⟩
    · exact Warned.refl a
  · exact Warned.refl a

theorem leads_core (env : Env) (hu : Unaliased env.ns a) (name : String) :
    Leads (resolveVar env ⟨some Namespace.core, name⟩) a
      (fun r b => r = (Namespace.core, name) ∧ Warned a b ∧ (a.flags.undeclared = false → b = a))
      (fun _ _ => False) := by
  unfold resolveVar
  apply leads_bind.mpr
  apply leads_get.mpr
  dsimp only
  rw [hu]
  by_cases hk : ((a.namespaces.get? Namespace.core).elim false fun n => n.defs.has name) = true
  · rw [if_pos hk]
    exact leads_pure.mpr ⟨rfl, Warned.refl a, fun _ => rfl⟩
  · rw [if_neg hk]
    apply leads_bind.mpr
    apply leads_modify.mpr
    apply leads_pure.mpr
    cases hf : a.flags.undeclared with
    | true => exact ⟨rfl, ⟨rfl, rfl⟩, nofun⟩
    | false => exact ⟨rfl, Warned.refl a, fun _ => rfl⟩

theorem leads_coreSymbol (env : Env) (hu : Unaliased env.ns a) (name : String) :
    Leads (analyze env (Form.coreSymbol name)) a
      (fun x b => x = .var env.line Namespace.core name ∧ Warned a b ∧
        (a.flags.undeclared = false → b = a)) (fun _ _ => False) := by
  change Leads (analyze env (.symbol ⟨some Namespace.core, name⟩)) a _ _
  rw [analyze]
  apply (leads_core env hu name).bind
  · rintro _ b ⟨rfl, hw⟩
    exact leads_pure.mpr ⟨rfl, hw⟩
  · exact fun _ _ h => h

def printedNode (x : Node) : Node := .call none (.var none Namespace.core "pr-str") [x]

def keepNode (name : String) (value : Node) : Node := .assign none Namespace.core name value

def keepingNode : Node :=
  .block none
    [keepNode "*3" (.var none Namespace.core "*2"), keepNode "*2" (.var none Namespace.core "*1"),
      keepNode "*1" (.bound none "ret__repl"), .bound none "ret__repl"]

def keptNode (x : Node) : Node := .bind none ["ret__repl"] [x] [keepingNode]

theorem settle_printed (events : List Event) (x : Node) :
    (printedNode x).settle events =
      (printedNode (x.settle events).1, (x.settle events).2) := by
  simp [printedNode, Node.settle, Node.settleAll]

theorem settle_kept (events : List Event) (x : Node) :
    (keptNode x).settle events = (keptNode (x.settle events).1, (x.settle events).2) := by
  simp [keptNode, keepingNode, keepNode, Node.settle, Node.settleAll]

theorem ofNode_printed (x : Node) :
    Code.ofNode (printedNode x) = Machine.printedCode (Code.ofNode x) := by
  have hname : Code.munge "pr-str" = "pr_str" := by decide
  simp [printedNode, Machine.printedCode, Code.ofNode, Code.ofNodes, hname]

theorem ofNode_kept (x : Node) :
    Code.ofNode (keptNode x) = Machine.keptCode (Code.ofNode x) := by
  simp [keptNode, keepingNode, keepNode, Machine.keptCode, Code.ofNode, Code.ofNodes, Code.sequence,
    Code.bindAll, Machine.munge_latest, Machine.munge_second]

def top (ns : String) : Env := { ns := ns }

theorem leads_printed (hf : a.flags.undeclared = false) (hu : Unaliased ns a)
    (h : Leads (analyze (top ns) form) a Q E) :
    Leads (analyze (top ns) form.printed) a
      (fun x b => ∃ y b', x = printedNode y ∧ Q y b' ∧ Warned b' b) E := by
  unfold Form.printed Form.call
  rw [analyze]
  change Leads (analyzeList (top ns) none [Form.coreSymbol "pr-str", form]) a _ _
  rw [analyzeList]
  change Leads (analyze (top ns) (Form.coreSymbol "pr-str") >>= _) a _ _
  apply (leads_coreSymbol (top ns) hu "pr-str").bind
  · rintro _ b ⟨rfl, -, hb⟩
    rw [hb hf, analyzeAll, analyzeAll]
    simp only [bind_assoc, pure_bind]
    apply h.bind
    · intro y b' hq
      apply leads_bind.mpr
      apply leads_checkArity
      intro b'' hw
      exact leads_pure.mpr ⟨y, b', rfl, hq, hw⟩
    · exact fun _ _ he => he
  · exact fun _ _ he => he.elim

def inner (ns : String) : Env := (top ns).bind "ret__repl"

theorem leads_keep (hu : Unaliased ns a) (name : String) {value : Form} {y : Node}
    (hy : ∀ b, Unaliased ns b → Leads (analyze (inner ns) value) b
      (fun x c => x = y ∧ Warned b c) (fun _ _ => False)) :
    Leads (analyze (inner ns) (Form.call (Form.sym "set!") [Form.coreSymbol name, value])) a
      (fun x b => x = keepNode name y ∧ Warned a b) (fun _ _ => False) := by
  unfold Form.call
  rw [analyze]
  change Leads (analyzeList (inner ns) none [Form.sym "set!", Form.coreSymbol name, value]) a _ _
  rw [analyzeList]
  change Leads (analyzeSet (inner ns) [.symbol ⟨some Namespace.core, name⟩, value]) a _ _
  rw [analyzeSet]
  apply (leads_core (inner ns) hu name).bind
  · rintro _ b ⟨rfl, hb, -⟩
    apply (hy b (hu.warned hb)).bind
    · rintro _ c ⟨rfl, hc⟩
      exact leads_pure.mpr ⟨rfl, hb.trans hc⟩
    · exact fun _ _ he => he
  · exact fun _ _ he => he

theorem leads_bound : Leads (analyze (inner ns) (Form.sym "ret__repl")) a
    (fun x b => x = .bound none "ret__repl" ∧ Warned a b) (fun _ _ => False) := by
  have hname : Code.mungeLocal "ret__repl" = "ret__repl" := by decide
  have hlocal : localOf? (inner ns) (.plain "ret__repl") = some "ret__repl" := congrArg some hname
  unfold Form.sym
  rw [analyze]
  unfold symbol
  rw [hlocal]
  exact leads_pure.mpr ⟨rfl, Warned.refl a⟩

theorem leads_innerSymbol (hu : Unaliased ns a) (name : String) :
    Leads (analyze (inner ns) (Form.coreSymbol name)) a
      (fun x b => x = .var none Namespace.core name ∧ Warned a b) (fun _ _ => False) := by
  apply (leads_coreSymbol (inner ns) hu name).mono
  · exact fun _ _ h => ⟨h.1, h.2.1⟩
  · exact fun _ _ he => he

theorem leads_all (env : Env) {forms : List Form} {nodes : List Node}
    (h : List.Forall₂ (fun form y => ∀ a, Unaliased ns a →
      Leads (analyze env form) a (fun x b => x = y ∧ Warned a b) (fun _ _ => False)) forms nodes)
    (hu : Unaliased ns a) :
    Leads (analyzeAll env forms) a (fun xs b => xs = nodes ∧ Warned a b) (fun _ _ => False) := by
  induction h generalizing a with
  | nil =>
      rw [analyzeAll]
      exact leads_pure.mpr ⟨rfl, Warned.refl a⟩
  | cons hy _ ih =>
      rw [analyzeAll]
      apply (hy a hu).bind
      · rintro _ b ⟨rfl, hb⟩
        apply (ih (hu.warned hb)).bind
        · rintro _ c ⟨rfl, hc⟩
          exact leads_pure.mpr ⟨rfl, hb.trans hc⟩
        · exact fun _ _ he => he
      · exact fun _ _ he => he

theorem leads_keeping (hu : Unaliased ns a) :
    Leads (analyze (inner ns) (Form.call (Form.sym "do")
        [Form.call (Form.sym "set!") [Form.coreSymbol "*3", Form.coreSymbol "*2"],
          Form.call (Form.sym "set!") [Form.coreSymbol "*2", Form.coreSymbol "*1"],
          Form.call (Form.sym "set!") [Form.coreSymbol "*1", Form.sym "ret__repl"],
          Form.sym "ret__repl"])) a
      (fun x b => x = keepingNode ∧ Warned a b) (fun _ _ => False) := by
  have hbody := leads_all (inner ns) (.cons
    (fun _ hb => leads_keep hb "*3" fun _ hb => leads_innerSymbol hb "*2") (.cons
    (fun _ hb => leads_keep hb "*2" fun _ hb => leads_innerSymbol hb "*1") (.cons
    (fun _ hb => leads_keep hb "*1" fun _ _ => leads_bound) (.cons
    (fun _ _ => leads_bound) .nil)))) hu
  unfold Form.call at *
  rw [analyze]
  change Leads (analyzeList (inner ns) none (Form.sym "do" :: _)) a _ _
  rw [analyzeList]
  change Leads (analyzeAll (inner ns) _ >>= _) a _ _
  apply hbody.bind
  · rintro _ b ⟨rfl, hb⟩
    exact leads_pure.mpr ⟨rfl, hb⟩
  · exact fun _ _ he => he

variable (form) in
theorem leads_kept (hu : ∀ y b, Q y b → Unaliased ns b) (h : Leads (analyze (top ns) form) a Q E) :
    Leads (analyze (top ns) form.kept) a
      (fun x b => ∃ y b', x = keptNode y ∧ Q y b' ∧ Warned b' b) E := by
  have hname : Code.mungeLocal "ret__repl" = "ret__repl" := by decide
  have hend : analyzeBindings (inner ns) [] = pure (inner ns, [], []) := by simp [analyzeBindings]
  unfold Form.kept
  rw [Form.call, analyze]
  change Leads (analyzeList (top ns) none (Form.sym "let" :: _)) a _ _
  rw [analyzeList]
  change Leads (analyzeLet (top ns) _) a _ _
  rw [analyzeLet, if_neg (by simp)]
  change Leads (analyzeBindings (top ns) [.symbol ⟨none, "ret__repl"⟩, form] >>= _) a _ _
  rw [analyzeBindings]
  simp only [bind_assoc]
  apply h.bind
  · intro y b hq
    change Leads (analyzeBindings (inner ns) [] >>= _) b _ _
    rw [hend, pure_bind]
    apply (leads_all (inner ns) (.cons (fun _ => leads_keeping) .nil) (hu y b hq)).bind
    · rintro _ b' ⟨rfl, hb⟩
      refine leads_pure.mpr ⟨y, b, ?_, hq, hb⟩
      rw [hname]
      rfl
    · exact fun _ _ he => he.elim
  · exact fun _ _ he => he

theorem flags_enter (a : Analyzer) (ns : String) : (a.enter ns).flags = a.flags := by
  unfold Analyzer.enter
  split <;> rfl

def since (a b : Analyzer) : List Event := (b.events.take (b.events.length - a.events.length)).reverse

theorem leads_topLevel : Leads (topLevel ns form) a Q E ↔
    Leads (analyze (top ns) form) (a.enter ns) (fun x b => Q (x.settle (since (a.enter ns) b)).1 b)
      E := by
  unfold topLevel settling
  rw [leads_bind, leads_modify, leads_bind, leads_get, leads_bind]
  simp only [leads_bind, leads_get, leads_pure]
  rfl

theorem topLevel_error {e : CompileError} {b : Analyzer}
    (h : (analyze (top ns) form).run.run (a.enter ns) = (.error e, b)) :
    (topLevel ns form).run.run a = (.error e, b) := by
  have hl : Leads (topLevel ns form) a (fun _ _ => False) (fun e' b' => e' = e ∧ b' = b) :=
    leads_topLevel.mpr ((leads_of_error h).mpr ⟨rfl, rfl⟩)
  rw [leads_iff] at hl
  rcases hrun : (topLevel ns form).run.run a with ⟨e' | x, b'⟩ <;> rw [hrun] at hl
  · rw [hl.1, hl.2]
  · exact hl.elim

theorem topLevel_ok {x : Node} {b : Analyzer}
    (h : (analyze (top ns) form).run.run (a.enter ns) = (.ok x, b)) :
    (topLevel ns form).run.run a = (.ok (x.settle (since (a.enter ns) b)).1, b) :=
  topLevel_ok_iff.mpr ⟨x, h, rfl⟩

theorem topLevel_printed (hf : a.flags.undeclared = false) (hu : Unaliased ns a) :
    Leads (topLevel ns form.printed) a
      (fun x _ => ∃ y b, (topLevel ns form).run.run a = (.ok y, b) ∧ x = printedNode y)
      (fun _ _ => ∃ e b, (topLevel ns form).run.run a = (.error e, b)) := by
  apply leads_topLevel.mpr
  rw [← flags_enter a ns] at hf
  apply (leads_printed hf hu.enter leads_self).mono
  · rintro _ b ⟨y, b', rfl, hy, hw⟩
    refine ⟨_, b', topLevel_ok hy, ?_⟩
    unfold since
    rw [settle_printed, hw.2]
  · intro e b he
    exact ⟨e, b, topLevel_error he⟩

theorem topLevel_kept (hf : a.flags.undeclared = false) (hu : Unaliased ns a)
    (hu' : ∀ y b, (topLevel ns form).run.run a = (.ok y, b) → Unaliased ns b) :
    Leads (topLevel ns form.kept.printed) a
      (fun x _ => ∃ y b, (topLevel ns form).run.run a = (.ok y, b) ∧ x = printedNode (keptNode y))
      (fun _ _ => ∃ e b, (topLevel ns form).run.run a = (.error e, b)) := by
  apply leads_topLevel.mpr
  rw [← flags_enter a ns] at hf
  have hkept := leads_kept form (fun y b hy => hu' _ b (topLevel_ok hy)) leads_self
  apply (leads_printed hf hu.enter hkept).mono
  · rintro _ b ⟨_, b', rfl, ⟨y, b'', rfl, hy, hw⟩, hw'⟩
    refine ⟨_, b'', topLevel_ok hy, ?_⟩
    unfold since
    rw [settle_printed, settle_kept, hw'.2, hw.2]
  · intro e b he
    exact ⟨e, b, topLevel_error he⟩

end Sumi.Analysis
