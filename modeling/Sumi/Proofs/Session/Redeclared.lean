import Sumi.Proofs.Session.Demand
import Sumi.Proofs.Session.Reload

namespace Sumi

open Analysis

theorem Ledger.change_entered (l : Ledger) (c : Change) :
    (l.change (.enter c.space)).change c = l.change c := by
  simp only [change, Change.space.eq_1, Bool.or_self_left, mk.injEq, true_and]
  exact ⟨rfl, rfl, rfl⟩

def Form.Declares (form : Form) (name : String) (requires uses : Table String String) : Prop :=
  ∃ clauses line, form = .list (.symbol ⟨none, "ns"⟩ :: .symbol ⟨none, name⟩ :: clauses) line ∧
    clauses? clauses = some (requires, uses)

namespace Analysis

variable {a b : Analyzer} {form : Form} {name : String} {requires uses : Table String String}
  {node : Node}

theorem clauses_read {forms : List Form} {r : Table String String × Table String String}
    (h : clauses? forms = some r) (env : Env) (a : Analyzer) :
    (clauses env [] [] forms).run.run a = (.ok r, a) := by
  obtain ⟨hs, -, hr⟩ := clauses_fixed env { ns := Namespace.user } [] [] forms a { namespaces := [] }
  rw [← clauses?, h] at hr
  exact Prod.ext (Project.toOption_eq_some.mp hr) hs

theorem topLevel_succeeds (h : form.Declares name requires uses) (ns : String) (a : Analyzer) :
    ∃ line, (topLevel ns form).run.run a = (.ok (.ns line name requires uses),
      ((a.enter ns).setNamespace { (a.enter ns).namespaceOf name with requires, uses }).note
        (.declared name)) := by
  obtain ⟨forms, line, rfl, hclauses⟩ := h
  let b := ((a.enter ns).setNamespace { (a.enter ns).namespaceOf name with requires, uses }).note
    (.declared name)
  have hanalyzed : (analyze (top ns) (.list (.symbol ⟨none, "ns"⟩ :: .symbol ⟨none, name⟩ :: forms)
      line)).run.run (a.enter ns) = (.ok (.ns ((top ns).within line).line name requires uses), b) := by
    rw [analyze, analyzeList]
    exact (declaration_ok_iff _ name forms).mpr
      ⟨requires, uses, _, clauses_read hclauses _ _, rfl, rfl⟩
  refine ⟨((top ns).within line).line, ?_⟩
  rw [topLevel_ok hanalyzed, since_note, settle_declared]

theorem topLevel_declares (hc : a.Consistent) (h : form.Declares name requires uses) (ns : String) :
    ∃ line b, (topLevel ns form).run.run a = (.ok (.ns line name requires uses), b) ∧ b.Consistent ∧
      b.ledger = a.ledger.changes [.enter ns, .declare name requires uses] := by
  obtain ⟨line, hrun⟩ := topLevel_succeeds h ns a
  refine ⟨line, _, hrun, (hc.enter ns).setNamespace _, ?_⟩
  exact ((a.enter ns).ledger_declare (hc.enter ns) name requires uses).trans
    (congrArg (Ledger.change · _) (a.ledger_enter ns))

end Analysis

namespace Session

open Project Machine

variable {σ : Type} {form : Form} {name text : String} {requires uses : Table String String}
  {demands : List String}

theorem declares_isNs (h : form.Declares name requires uses) : form.isNs = true := by
  obtain ⟨clauses, line, rfl, -⟩ := h
  rfl

/-- What has been analyzed twice when a declaration goes on to load what it demands. -/
theorem attempt_declares (h : Host σ) {s : Session σ} (hc : s.workspace.analyzer.Consistent)
    (hform : form.Declares name requires uses) :
    ∃ w, s.workspace.Same w ∧ s.workspace.console.Quiet w.console ∧
      w.analyzer.ledger = s.workspace.analyzer.ledger.changes [.enter s.ns,
        .declare name requires uses, .enter s.ns, .declare name requires uses] ∧
      (attempt h promptName form form.wrap).run.run s =
        (do
          (Node.demands requires uses).forM (loadNamespace h)
          deliver h promptName form (.provide name (Node.demands requires uses))
            (.provide name (Node.demands requires uses))).run.run
        { s with workspace := w, ns := name } := by
  obtain ⟨line, b, hrun, hb, hfirst⟩ := topLevel_declares hc hform s.ns
  have hns := declares_isNs hform
  obtain ⟨outer, c, hagain, hattempt⟩ := attempt_analyzed h promptName hc hns hrun
  have hb' : Analyzer.Consistent { b with warnings := [], flags := .silent } := hb
  obtain ⟨line', c', hrun', hc', hsecond⟩ := topLevel_declares hb' hform s.ns
  cases hagain.symm.trans hrun'
  refine ⟨analyzed s.workspace b c, ⟨rfl, rfl, hc'⟩, Console.Quiet.same.warnings _, ?_, ?_⟩
  · refine hsecond.trans ?_
    change b.ledger.changes _ = _
    rw [hfirst, ← Ledger.changes_append]
    rfl
  · have hwrap : form.wrap = form := if_pos hns
    rw [hwrap, hattempt]
    rfl

theorem attempt_reads {h : Host σ} {s s' : Session σ} {r : Option String}
    (hc : s.workspace.analyzer.Consistent) (hns : form.isNs = true)
    (hrun : (attempt h promptName form form.wrap).run.run s = (.ok r, s')) :
    ∃ name requires uses, form.Declares name requires uses := by
  have hl : Leads (attempt h promptName form form.wrap) s
      (fun _ _ => ∃ name requires uses, form.Declares name requires uses) (fun _ _ => True) := by
    rw [attempt, leads_bind, leads_get, leads_bind, leads_work, Work.leads_analyze]
    apply leads_self.mono
    · intro node b hnode
      obtain ⟨name, clauses, line, _, requires, uses, hform, hclauses, -⟩ :=
        topLevel_declared hc hns hnode
      exact leads_any.mono (fun _ _ _ => ⟨name, requires, uses, clauses, line, hform, hclauses⟩)
        fun _ _ _ => trivial
    · exact fun _ _ _ => trivial
  exact (leads_of_ok hrun).mp hl

/-- A declaration succeeds only where the namespace is declared then, and its code can be run again. -/
theorem provide_succeeds {e : Engine}
    (h : answer (e.evaluate (site form) [.provide name demands]) = some text) :
    (site form).fault? = none ∧
      (e.evaluate (site form) [.provide name demands]).state.loaded = e.loaded ∧
      name ∈ (e.evaluate (site form) [.provide name demands]).state.machine.provided ∧
      (e.evaluate (site form) [.provide name demands]).state.machine.printed = "" := by
  cases hs : (site form).fault? with
  | some f =>
      rw [(evaluate_refused (by rw [hs]; rfl)).2] at h
      cases h
  | none =>
      rw [evaluate_compiled hs rfl] at h ⊢
      have hgoes : Leads (Machine.evaluate (.provide name demands)) e.machine
          (fun _ m => name ∈ m.provided) (fun _ _ => True) := by
        unfold Machine.evaluate
        rw [clear_nil.provide]
        apply (leads_provide name _).mono
        · rintro _ _ rfl
          exact List.mem_append_right _ (List.mem_singleton_self name)
        · exact fun _ _ _ => trivial
      rcases evaluateCode_goes hgoes with ⟨f, m, -, ha, -⟩ | ⟨v, m, hm, -, he⟩
      · rw [ha] at h
        cases h
      · rw [he]
        exact ⟨rfl, rfl, hm, rfl⟩

def refusal (name : String) : Outcome :=
  ⟨.error, "Error: Namespace \"" ++ name ++ "\" already declared.", none⟩

theorem provide_refused {e : Engine} (hs : (site form).fault? = none)
    (hname : name ∈ e.machine.provided) (hprinted : e.machine.printed = "") :
    e.evaluate (site form) [.provide name demands] = ⟨.ok (refusal name), e, ""⟩ := by
  have hrun : (Machine.evaluate (.provide name demands)).run e.machine =
      (.error (.thrown ("Namespace \"" ++ name ++ "\" already declared.")), e.machine) := by
    apply run_of_leads
    unfold Machine.evaluate
    rw [clear_nil.provide]
    apply (leads_provide_again hname _).mono
    · exact fun _ _ h => h.elim
    · rintro _ _ ⟨rfl, rfl⟩
      rfl
  have hleft : { e with machine := { e.machine with printed := "" } } = e := by
    rw [← hprinted]
  rw [evaluate_compiled hs rfl, Engine.evaluateCode, hrun]
  dsimp only [Engine.report, Engine.drain]
  rw [hleft, hprinted]
  rfl

variable {s s' t t' q : Session (Option Engine × List Deed)} {e : Engine}

structure Declared (form : Form) (name : String) (e : Engine) : Prop where
  stands : (site form).fault? = none
  provided : name ∈ e.machine.provided
  printed : e.machine.printed = ""

theorem watched_evaluate (he : t.host.1 = some e) (form : Form) (code : Code) :
    Host.watched.evaluate promptName (form.line?.getD 1) code t.host =
      ⟨(e.evaluate (site form) [code]).result,
        (some (e.evaluate (site form) [code]).state,
          t.host.2 ++ [.evaluation e (site form) code]),
        (e.evaluate (site form) [code]).printed⟩ := by
  have hhost : t.host = (some e, t.host.2) := Prod.ext he rfl
  rw [hhost]
  rfl

theorem served_showing (code : Code) (t : Session (Option Engine × List Deed)) :
    Served t (showing code t) :=
  ⟨rfl, ⟨_, rfl⟩, List.Subset.refl _⟩

theorem deliver_ok (h : (deliver Host.watched promptName form (.provide name demands)
      (.provide name demands)).run.run t =
    (.ok (some text), t')) : Served t t' ∧ ∃ e, t'.host.1 = some e ∧ Declared form name e := by
  have hl : Leads (deliver Host.watched promptName form (.provide name demands)
      (.provide name demands)) t
      (fun r t' => r.isSome = true → Served t t' ∧ ∃ e, t'.host.1 = some e ∧ Declared form name e)
      (fun _ _ => True) := by
    rcases he : t.host.1 with _ | e
    · have hhost : t.host = (none, t.host.2) := Prod.ext he rfl
      apply (leads_deliver rfl).mpr
      rw [hhost]
      trivial
    · apply (leads_deliver (watched_evaluate he form _)).mpr
      dsimp only
      split
      · next outcome hok =>
        split
        · next hs =>
          intro _
          have hanswer : answer (e.evaluate (site form) [.provide name demands]) =
              some outcome.value := by
            rw [answer, hok]
            exact if_pos hs
          obtain ⟨hstands, hloaded, hname, hprinted⟩ := provide_succeeds hanswer
          refine ⟨(served_showing _ t).trans ⟨rfl, ⟨_, rfl⟩, ?_⟩, _, rfl, hstands, hname, hprinted⟩
          have hbefore : (showing (.provide name demands) t).loaded = e.loaded := loaded_of_engine he
          rw [hbefore, ← hloaded]
          exact List.Subset.refl _
        · intro h
          cases h
      · trivial
  exact (leads_of_ok h).mp hl rfl

theorem deliver_refused (hns : form.isNs = true) (he : q.host.1 = some e)
    (hd : Declared form name e) (demands : List String) :
    (deliver Host.watched promptName form (.provide name demands)
      (.provide name demands)).run.run q =
      (.ok none, { showing (.provide name demands) q with
        host := (some e, q.host.2 ++ [.evaluation e (site form) (.provide name demands)]) }) := by
  apply run_of_leads
  apply (leads_deliver (watched_evaluate he form _)).mpr
  rw [provide_refused hd.stands hd.provided hd.printed]
  have hstatus : (refusal name).status = .error := rfl
  dsimp only
  rw [if_neg (by rw [hstatus]; decide)]
  have hshown (c : Console) : showFailure form (.provide name demands) (refusal name) c = c := by
    unfold showFailure
    rw [hstatus]
    exact if_pos hns
  simp only [tell, hshown, print_nothing]

theorem attempt_ok (hc : s.workspace.analyzer.Consistent) (hform : form.Declares name requires uses)
    (hrun : (attempt Host.watched promptName form form.wrap).run.run s = (.ok (some text), s')) :
    ∃ w t, s.workspace.Same w ∧
      w.analyzer.ledger = s.workspace.analyzer.ledger.changes [.enter s.ns,
        .declare name requires uses, .enter s.ns, .declare name requires uses] ∧
      ((Node.demands requires uses).forM (loadNamespace Host.watched)).run.run
        { s with workspace := w, ns := name } = (.ok (), t) ∧
      Served t s' ∧ ∃ e, s'.host.1 = some e ∧ Declared form name e := by
  obtain ⟨w, hw, -, hledger, hattempt⟩ := attempt_declares Host.watched hc hform
  rw [hrun] at hattempt
  obtain ⟨_, t, hloads, hdelivers⟩ := run_bind_ok_iff.mp hattempt.symm
  obtain ⟨hserved, hdeclared⟩ := deliver_ok hdelivers
  exact ⟨w, t, hw, hledger, hloads, hserved, hdeclared⟩

/-- `s'` is `s` behind a declaration that was refused. -/
structure Unmoved (form : Form) (s s' : Session (Option Engine × List Deed)) : Prop where
  /-- Code was evaluated, no module was run, and the engine is what it was. -/
  host : ∃ e code, s.host.1 = some e ∧
    s'.host = (some e, s.host.2 ++ [.evaluation e (site form) code])
  ns : s'.ns = s.ns
  history : s'.history = s.history
  table : s'.workspace.analyzer.ledger = s.workspace.analyzer.ledger
  /-- No error is shown. -/
  shown : ∃ (c : Console) (code : Code), s.workspace.console.Quiet c ∧
    s'.workspace.console = (if s.verbose then c.say code.render else c).say "nil"

/-- Changes that were made already, with two declarations before them, come to nothing. -/
theorem changes_redeclared {l l' : Ledger} {cs : List Change} {ns : String}
    (h : l = (l'.changes [.enter ns, .declare name requires uses, .enter ns,
      .declare name requires uses]).changes cs) :
    (l.changes [.enter name, .declare name requires uses, .enter name,
      .declare name requires uses]).changes cs = l := by
  have hentered (l : Ledger) : (l.change (.enter name)).change (.declare name requires uses) =
      l.change (.declare name requires uses) := l.change_entered (.declare name requires uses)
  have hl : l = (l'.changes [.enter ns, .declare name requires uses, .enter ns]).changes
      (.declare name requires uses :: cs) := h
  simp only [Ledger.changes_cons, Ledger.changes_nil, hentered, Ledger.change_again]
  rw [← Ledger.changes_cons, hl]
  exact Ledger.changes_twice _ _

theorem attempt_again (hc : s.workspace.analyzer.Consistent) (hp : Placed s.layout s.workspace)
    (hform : form.Declares name requires uses)
    (hrun : (attempt Host.watched promptName form form.wrap).run.run s = (.ok (some text), s'))
    (hserved : Served s' t) (hhost : t.host = s'.host) :
    ∃ t', (attempt Host.watched promptName form form.wrap).run.run t = (.ok none, t') ∧
      Unmoved form t (t'.tell (·.say "nil")) := by
  obtain ⟨w, t₁, hw, hfirst, hloads, hserved', e, he, hdeclared⟩ := attempt_ok hc hform hrun
  have hpw : Placed s.layout w := hp.onward hw.onward
  have hend := hserved'.trans hserved
  have ht₁ := loadNamespaces_advances (t := { s with workspace := w, ns := name }) hpw hw.analyzer hloads
  have ht := ht₁.trans hpw (hend.advances ht₁.workspace.analyzer)
  obtain ⟨w', hw', hquiet, hsecond, hattempt⟩ :=
    attempt_declares Host.watched ht.workspace.analyzer hform
  have hww' : w.Onward w' := ht.workspace.trans hw'.onward
  have hfiles : w'.files = t₁.workspace.files := by
    obtain ⟨c, hc⟩ := hend.workspace
    rw [hw'.files, hc]
  have hbeside : Beside s.layout w w' w w' :=
    ⟨hpw, hpw.onward hww', hww'.files.grown.cwd, fun _ _ _ _ => (hpw.source_iff hww').mpr,
      .refl hw.analyzer hw'.analyzer⟩
  -- all is loaded by now, so at most modules are written once more
  obtain ⟨v, hagain, hquiet', hdone⟩ := loadNamespaces_again (q := { t with workspace := w', ns := name })
    hpw hloads hbeside ht.layout (hhost ▸ he) hend.loaded (hfiles ▸ le_rfl)
    fun _ _ _ _ _ hr => hfiles ▸ hr
  have hrefused := deliver_refused (q := { t with workspace := v, ns := name })
    (declares_isNs hform) (hhost ▸ he) hdeclared (Node.demands requires uses)
  have hns : t.ns = name := by rw [ht.same]
  refine ⟨_, hattempt.trans (run_bind_ok_iff.mpr ⟨(), _, hagain, hrefused⟩), ?_⟩
  refine ⟨⟨e, _, hhost ▸ he, rfl⟩, hns.symm, rfl, ?_, v.console, _, hquiet.trans hquiet', rfl⟩
  obtain ⟨cs, hcs, hcs'⟩ := hdone.abreast.changes
  have hledger : t.workspace.analyzer.ledger = (s.workspace.analyzer.ledger.changes [.enter s.ns,
      .declare name requires uses, .enter s.ns, .declare name requires uses]).changes cs := by
    obtain ⟨c, hw₁⟩ := hend.workspace
    rw [hw₁, ← hfirst, ← hcs]
  change v.analyzer.ledger = _
  rw [hcs', hsecond, hns, changes_redeclared hledger]

theorem evaluate_of_attempt {h : Host σ} {wrapped : Form} {s s' : Session σ} {r : Option String}
    (hrun : (attempt h promptName form wrapped).run.run s = (.ok r, s')) :
    evaluate h promptName form wrapped s = (r, s') := by
  unfold evaluate
  rw [run_apply, hrun]

theorem evaluate_some {h : Host σ} {wrapped : Form} {s : Session σ}
    (hrun : (evaluate h promptName form wrapped s).1 = some text) :
    ∃ s', (attempt h promptName form wrapped).run.run s = (.ok (some text), s') := by
  rcases hattempt : (attempt h promptName form wrapped).run.run s with ⟨f | r, s'⟩
  · unfold evaluate at hrun
    rw [run_apply, hattempt] at hrun
    cases hrun
  · rw [evaluate_of_attempt hattempt] at hrun
    cases hrun
    exact ⟨s', rfl⟩

/-- To evaluate a declaration again that succeeded changes nothing: no error is shown and no module is
run, and the engine, the namespace, the history and what is known of all namespaces stay as they are.
The record of what is done with the engine changes nothing about the session. -/
theorem redeclared_unmoved (hns : form.isNs = true) (hc : s.workspace.analyzer.Consistent)
    (hp : Placed s.layout s.workspace)
    (hrun : (evaluate Host.inProcess promptName form form.wrap (s.on s.host.1)).1 = some text) :
    let s₁ := evaluateAndPrint Host.watched form s
    let s₂ := evaluateAndPrint Host.watched form s₁
    evaluateAndPrint Host.inProcess form (s.on s.host.1) = s₁.on s₁.host.1 ∧
      evaluateAndPrint Host.inProcess form (s₁.on s₁.host.1) = s₂.on s₂.host.1 ∧
      Unmoved form s₁ s₂ := by
  have hwatched (s : Session (Option Engine × List Deed)) :
      evaluateAndPrint Host.inProcess form (s.on s.host.1) =
        (evaluateAndPrint Host.watched form s).on (evaluateAndPrint Host.watched form s).host.1 := by
    obtain ⟨_, hsame, rfl⟩ := evaluateAndPrint_abreast Host.watched_inProcess form (s := s) rfl
    exact hsame
  intro s₁ s₂
  refine ⟨hwatched s, hwatched s₁, ?_⟩
  obtain ⟨s', hattempt⟩ : ∃ s', (attempt Host.watched promptName form form.wrap).run.run s =
      (.ok (some text), s') := by
    obtain ⟨_, hsame, -⟩ :=
      evaluate_abreast Host.watched_inProcess promptName form form.wrap (s := s) rfl
    rw [hsame] at hrun
    exact evaluate_some hrun
  obtain ⟨name, requires, uses, hform⟩ := attempt_reads hc hns hattempt
  have hs₁ : ∃ c, s₁ = s'.tell c := by
    change ∃ c, evaluateAndPrint Host.watched form s = _
    have hexempt : form.isExempt = true := by simp [Form.isExempt, hns]
    unfold evaluateAndPrint evaluateAndKeep
    rw [evaluate_of_attempt hattempt]
    dsimp only
    rw [if_pos hexempt]
    exact output_tell Console.say (display text) s'
  obtain ⟨c, hs₁⟩ := hs₁
  have hserved : Served s' s₁ := by
    rw [hs₁]
    exact ⟨rfl, ⟨_, rfl⟩, List.Subset.refl _⟩
  obtain ⟨t, hagain, hunmoved⟩ := attempt_again hc hp hform hattempt hserved (by rw [hs₁]; rfl)
  have hs₂ : s₂ = t.tell (·.say "nil") := by
    change evaluateAndPrint Host.watched form s₁ = _
    unfold evaluateAndPrint evaluateAndKeep
    rw [evaluate_of_attempt hagain]
    rfl
  rwa [hs₂]

def requiring (names : List String) : Form :=
  .list [.sym "ns", .sym "x", .list (.keyword (.plain "require") :: names.map .sym) none] (some 1)

theorem Unbuilt.placed {layout : Layout} {w : Workspace} (h : Unbuilt layout w)
    (hroot : Path.place w.files.cwd layout.output ≠ []) : Placed layout w := by
  obtain ⟨hrooted, hlevel, habsolute, -⟩ := h
  exact ⟨⟨hrooted, fun base hb => .inl (hlevel base hb)⟩, habsolute, hroot⟩

theorem requiring_checked : Unbuilt plain trial.workspace ∧
    Path.place trial.workspace.files.cwd plain.output ≠ [] ∧
    (evaluate Host.inProcess promptName (requiring ["a"]) (requiring ["a"]).wrap
      (trial.on trial.host.1)).1 = some "nil" ∧
    ∀ e ∈ (evaluateAndPrint Host.watched (requiring ["a"]) trial).host.1,
      e.loaded = [Namespace.core, "b", "a"] ∧ e.machine.provided = [Namespace.core, "b", "a", "x"] := by
  decide +kernel

theorem requiring_unmoved :
    ∃ e, (evaluateAndPrint Host.watched (requiring ["a"]) trial).host.1 = some e ∧
      e.loaded = [Namespace.core, "b", "a"] ∧ e.machine.provided = [Namespace.core, "b", "a", "x"] ∧
      Unmoved (requiring ["a"]) (evaluateAndPrint Host.watched (requiring ["a"]) trial)
        (evaluateAndPrint Host.watched (requiring ["a"])
          (evaluateAndPrint Host.watched (requiring ["a"]) trial)) := by
  obtain ⟨hunbuilt, hroot, hrun, hlists⟩ := requiring_checked
  obtain ⟨-, -, hunmoved⟩ := redeclared_unmoved (s := trial) rfl (Analyzer.ofLibrary_consistent _ _)
    (hunbuilt.placed hroot) hrun
  obtain ⟨e, code, he, -⟩ := hunmoved.host
  exact ⟨e, he, (hlists e he).1, (hlists e he).2, hunmoved⟩

def starting (w : Workspace) (layout : Layout) : Session (Option Engine) where
  workspace := w
  host := some .fresh
  layout := layout

def Faults (form : Form) (s : Session (Option Engine)) (fault : String) : Prop :=
  s.workspace.analyzer.Consistent ∧ form.isNs = true ∧
    (evaluate Host.inProcess promptName form form.wrap s).1 = some "nil" ∧
    (evaluateAndPrint Host.inProcess form s).workspace.console.err = "" ∧
    (evaluateAndPrint Host.inProcess form
      (evaluateAndPrint Host.inProcess form s)).workspace.console.err = "Fault: " ++ fault ++ "\n"

/-- The second time, a source path that goes up from the output directory leads to another source, or a
module is older than its source as the module of another namespace took its place. -/
theorem redeclared_faults :
    Faults (requiring ["c"]) (starting lured upward)
      ("SumiCompileError: Compile error at line 1: Namespace d found in /w/lib/c.sumi, " ++
        "expected c\n   hint: Rename the file or declare (ns c)") ∧
    Faults (requiring [".", "/"]) (starting crowded rootward) "FileNotFoundError" :=
  ⟨⟨Analyzer.ofLibrary_consistent _ _, rfl, by decide +kernel⟩,
    ⟨Analyzer.ofLibrary_consistent _ _, rfl, by decide +kernel⟩⟩

end Session

end Sumi
