import Sumi.Host.Local
import Sumi.Proofs.Analysis.Declares
import Sumi.Proofs.Project.Work
import Sumi.Proofs.Session.Steps
import Sumi.Proofs.Session.Wrapped

namespace Sumi.Session

open Project Analysis Machine

variable {σ : Type} {s : Session (Option Engine)} {e : Engine} {form : Form} {values : List Value}

structure Reading where
  node : Node
  workspace : Workspace
  code : Code
  analyzer : Analyzer

def first? (s : Session σ) (form : Form) : Option (Node × Workspace) :=
  match (Work.analyze (topLevel s.ns form)).run.run s.workspace with
  | (.ok node, w) => some (node, w)
  | (.error _, _) => none

def second? (ns : String) (form : Form) (w : Workspace) : Option (Node × Analyzer) :=
  match (topLevel ns form).run.run { w.analyzer with flags := .silent } with
  | (.ok node, a) => some (node, a)
  | (.error _, _) => none

def reading? (s : Session σ) (form : Form) : Option Reading :=
  (s.first? form).bind fun p =>
    (second? s.ns form p.2).map fun q => ⟨p.1, p.2, Code.ofNode q.1, q.2⟩

def site (form : Form) : Site := ⟨promptName, form.line?.getD 1⟩

def own? (s : Session (Option Engine)) (form : Form) : Option (Except Failure Value × Machine) :=
  match s.reading? form, s.host with
  | some r, some e =>
      if (site form).fault?.isNone && r.code.compiles then
        some ((Machine.evaluate r.code).run.run e.machine)
      else none
  | _, _ => none

/-- The value that counts as a result, and its text once it is kept. -/
def result? (s : Session (Option Engine)) (form : Form) : Option (Value × String) :=
  if form.isExempt then none
  else
    match s.own? form with
    | some (.ok v, m) => ((m.push v).text true v).toOption.map fun t => (v, t)
    | _ => none

def declaring (s : Session σ) (r : Reading) : Session σ :=
  { s with workspace :=
      { r.workspace with analyzer := { r.analyzer with flags := r.workspace.analyzer.flags } } }

/-- A form that leaves the last results alone: no namespace is taken for the library, neither the
modules it loads nor its own code change what the library has under the names of results, and the
value it comes to can be printed. -/
structure Undisturbed (s : Session (Option Engine)) (form : Form) : Prop where
  unaliased : form.isNs = false → ∀ p ∈ s.first? form, Unaliased s.ns p.2.analyzer ∧
    ∀ q ∈ second? s.ns form p.2, Unaliased s.ns q.2
  loading : form.isNs = true → ∀ r ∈ s.reading? form, ∀ e ∈ s.host, ∀ e' ∈
    ((follow Host.inProcess r.node).run.run (s.declaring r)).2.host, Kept e.machine e'.machine
  evaluating : form.isNs = false → ∀ p ∈ s.own? form, ∀ e ∈ s.host, Kept e.machine p.2
  printing : form.isExempt = false → ∀ p ∈ s.own? form, ∀ v ∈ p.1.toOption,
    ((p.2.push v).text true v).toOption.isSome

theorem loaded_engine (files : Files) (provides : List String) (url : String)
    (x : Option Engine) (hx : ∃ e, x = some e) :
    ∃ e, (Host.inProcess.load files provides url x).state = some e := by
  obtain ⟨e, rfl⟩ := hx
  change ∃ e', Reply.state (if e.has provides then _ else _) = some e'
  split
  · exact ⟨e, rfl⟩
  · split
    · exact ⟨e, rfl⟩
    · dsimp only
      split
      · exact ⟨_, rfl⟩
      · exact ⟨_, rfl⟩

def answer (r : Reply Engine Outcome) : Option String :=
  match r.result with
  | .ok outcome => if outcome.status = .success then some outcome.value else none
  | .error _ => none

theorem leads_delivered (he : s.host = some e) (code outer : Code) :
    Leads (deliver Host.inProcess promptName form code outer) s
      (fun r s' => s'.history = s.history ∧
        s'.host = some (e.evaluate (site form) [outer]).state ∧
        r = answer (e.evaluate (site form) [outer]))
      (fun _ s' => s'.history = s.history ∧
        s'.host = some (e.evaluate (site form) [outer]).state ∧
        answer (e.evaluate (site form) [outer]) = none) := by
  have hr : Host.inProcess.evaluate promptName (form.line?.getD 1) outer s.host =
      ⟨(e.evaluate (site form) [outer]).result, some (e.evaluate (site form) [outer]).state,
        (e.evaluate (site form) [outer]).printed⟩ := by
    rw [he]
    rfl
  apply (leads_deliver hr).mpr
  unfold answer
  dsimp only
  cases (e.evaluate (site form) [outer]).result with
  | error f => exact ⟨rfl, rfl, rfl⟩
  | ok outcome =>
      dsimp only
      by_cases hs : outcome.status = .success
      · rw [if_pos hs, if_pos hs]
        exact ⟨rfl, rfl, rfl⟩
      · rw [if_neg hs, if_neg hs]
        exact ⟨rfl, rfl, rfl⟩

def left (e : Engine) (m : Machine) : Engine := { e with machine := { m with printed := "" } }

theorem display_looks (v : Value) : Moves Eq (Engine.display v) := by
  unfold Engine.display
  split
  · exact moves_pure _
  · intro m
    apply (leads_text _).mpr
    split
    · rfl
    · rfl

theorem classify_status (f : Failure) : (Engine.classify f).status ≠ .success := by
  unfold Engine.classify
  intro h
  split at h <;> cases h

/-- Where the evaluation of code leads, the engine goes. -/
theorem evaluateCode_goes {c : Code} {Q : Value → Machine → Prop} {E : Failure → Machine → Prop}
    (h : Leads (Machine.evaluate c) e.machine Q E) :
    (∃ f m, E f m ∧ answer (e.evaluateCode c) = none ∧ (e.evaluateCode c).state = left e m) ∨
      ∃ v m, Q v m ∧ (∀ t, v = .str t → answer (e.evaluateCode c) = some t) ∧
        (e.evaluateCode c).state = left e m := by
  rw [leads_iff] at h
  unfold Engine.evaluateCode Engine.report
  rw [run_apply]
  rcases hrun : (Machine.evaluate c).run.run e.machine with ⟨f | v, m⟩ <;> rw [hrun] at h
  · refine .inl ⟨f, m, h, ?_, rfl⟩
    exact if_neg (classify_status f)
  · refine .inr ⟨v, m, h, ?_, ?_⟩
    · rintro t rfl
      rfl
    · -- showing the value only looks at the machine, even where it fails
      have hlook := display_looks v m
      rw [leads_iff] at hlook
      dsimp only
      rw [run_apply]
      rcases hshow : (Engine.display v).run.run m with ⟨f | t, m'⟩ <;> rw [hshow] at hlook
      · cases hlook
        rfl
      · cases hlook
        rfl

theorem evaluateCode_kept {c : Code} (h : Leads (Machine.evaluate c) e.machine
    (fun _ => Kept e.machine) (fun _ => Kept e.machine)) :
    Kept e.machine (e.evaluateCode c).state.machine := by
  rcases evaluateCode_goes h with ⟨f, m, hm, -, he⟩ | ⟨v, m, hm, -, he⟩
  · rw [he]
    exact hm
  · rw [he]
    exact hm

theorem left_kept {m m' : Machine} (h : Kept m m') (e : Engine) : Kept m (left e m').machine := h

theorem evaluate_compiled {c : Code} (hs : (site form).fault? = none) (hc : c.compiles = true) :
    e.evaluate (site form) [c] = e.evaluateCode c := by
  unfold Engine.evaluate
  rw [hs]
  exact if_pos hc

theorem evaluate_refused {c : Code} (h : ((site form).fault?.isNone && c.compiles) = false) :
    (e.evaluate (site form) [c]).state = e ∧
      answer (e.evaluate (site form) [c]) = none := by
  unfold Engine.evaluate
  cases hs : (site form).fault? with
  | some f => exact ⟨rfl, rfl⟩
  | none =>
      rw [hs] at h
      dsimp only
      rw [if_neg (by simpa using h)]
      exact ⟨rfl, rfl⟩

/-- After an attempt: the history is what it was, the host holds the new result, if there is one,
and the answer is its text. -/
structure Attempted (s : Session (Option Engine)) (form : Form) (values : List Value)
    (r : Option String) (s' : Session (Option Engine)) : Prop where
  history : s'.history = s.history
  holds : ∃ e, s'.host = some e ∧
    Holds e.machine ((s.result? form).toList.map Prod.fst ++ values)
  answer : form.isExempt = false → r = (s.result? form).map Prod.snd

theorem result_exempt (h : form.isExempt = true) : s.result? form = none := by
  unfold result?
  rw [if_pos h]

theorem Attempted.exempt (h : form.isExempt = true) {s' : Session (Option Engine)} {r : Option String}
    (hh : s'.history = s.history) (he : s'.host = some e) (hm : Holds e.machine values) :
    Attempted s form values r s' where
  history := hh
  holds := ⟨e, he, by rwa [result_exempt h]⟩
  answer h' := by
    rw [h] at h'
    cases h'

variable (form) in
theorem printed_kept {c : Code} (hp : core? e.machine "pr_str" = some (.builtin .prStr))
    (h : ((site form).fault?.isNone && c.compiles) = true →
      Kept e.machine ((Machine.evaluate c).run.run e.machine).2) :
    Kept e.machine (e.evaluate (site form) [printedCode c]).state.machine := by
  cases hok : (site form).fault?.isNone && c.compiles with
  | false =>
      rw [← printedCode_compiles c] at hok
      rw [(evaluate_refused hok).1]
      exact Kept.refl _
  | true =>
      obtain ⟨hs, hc⟩ := (Bool.and_eq_true _ _).mp hok
      rw [← printedCode_compiles c] at hc
      rw [evaluate_compiled (Option.isNone_iff_eq_none.mp hs) hc]
      have hown : Leads (Machine.evaluate c) e.machine (fun _ => Kept e.machine)
          (fun _ => Kept e.machine) := by
        have hk := h hok
        rw [leads_iff]
        rcases hrun : (Machine.evaluate c).run.run e.machine with ⟨f | v, m⟩
        · rwa [hrun] at hk
        · rwa [hrun] at hk
      apply evaluateCode_kept
      apply Machine.leads_printed hp
      apply hown.mono
      · intro v m hm
        apply (leads_print v).mpr
        split
        · exact hm
        · exact hm
      · exact fun _ _ hm => hm

theorem own_eq {r : Reading} (hr : s.reading? form = some r) (he : s.host = some e) :
    s.own? form =
      if (site form).fault?.isNone && r.code.compiles then
        some ((Machine.evaluate r.code).run.run e.machine)
      else none := by
  unfold own?
  rw [hr, he]

theorem result_eq (hx : form.isExempt = false) : s.result? form =
    match s.own? form with
    | some (.ok v, m) => ((m.push v).text true v).toOption.map fun t => (v, t)
    | _ => none := by
  unfold result?
  rw [if_neg (by simp [hx])]

/-- Code that fails by itself fails while it is kept, and nothing is pushed. -/
theorem kept_fails {c : Code} {f : Failure} {m : Machine} (hm : Holds e.machine values)
    (hrun : (Machine.evaluate c).run.run e.machine = (.error f, m)) :
    answer (e.evaluateCode (printedCode (keptCode c))) = none ∧
      (e.evaluateCode (printedCode (keptCode c))).state = left e m := by
  have hlost : Leads (Machine.evaluate (printedCode (keptCode c))) e.machine
      (fun _ _ => False) (fun _ m' => m' = m) := by
    apply Machine.leads_printed hm.printer
    apply Machine.leads_kept
    exact (leads_of_error hrun).mpr rfl
  rcases evaluateCode_goes hlost with ⟨_, _, rfl, ha, hst⟩ | ⟨_, _, hf, -⟩
  · exact ⟨ha, hst⟩
  · exact hf.elim

/-- The value of code that ends by itself is pushed before it is printed, so that its text is the
one it has among the results. -/
theorem kept_ends {c : Code} {v : Value} {m : Machine} {t : String} (hm : Holds e.machine values)
    (hrun : (Machine.evaluate c).run.run e.machine = (.ok v, m)) (hk : Kept e.machine m)
    (ht : (m.push v).text true v = .ok t) :
    answer (e.evaluateCode (printedCode (keptCode c))) = some t ∧
      (e.evaluateCode (printedCode (keptCode c))).state = left e (m.push v) := by
  have hdone : Leads (Machine.evaluate (printedCode (keptCode c))) e.machine
      (fun x m' => x = .str t ∧ m' = m.push v) (fun _ _ => False) := by
    apply Machine.leads_printed hm.printer
    apply Machine.leads_kept
    refine (leads_of_ok hrun).mpr ⟨⟨values, hm.kept hk⟩, ?_⟩
    apply (leads_print v).mpr
    rw [ht]
    exact ⟨rfl, rfl⟩
  rcases evaluateCode_goes hdone with ⟨_, _, hf, -⟩ | ⟨_, _, ⟨rfl, rfl⟩, ha, hst⟩
  · exact hf.elim
  · exact ⟨ha t rfl, hst⟩

/-- What is kept and printed moves the results if it succeeds, and leaves them if not. -/
theorem kept_holds {r : Reading} (hr : s.reading? form = some r) (he : s.host = some e)
    (hx : form.isExempt = false) (hm : Holds e.machine values)
    (hk : ∀ result m, s.own? form = some (result, m) → Kept e.machine m)
    (hp : ∀ v m, s.own? form = some (.ok v, m) → ((m.push v).text true v).toOption.isSome) :
    answer (e.evaluate (site form) [printedCode (keptCode r.code)]) =
        (s.result? form).map Prod.snd ∧
      Holds (e.evaluate (site form) [printedCode (keptCode r.code)]).state.machine
        ((s.result? form).toList.map Prod.fst ++ values) := by
  have hcompiles : (printedCode (keptCode r.code)).compiles = r.code.compiles := by
    rw [printedCode_compiles, keptCode_compiles]
  have hown := own_eq hr he
  rw [result_eq hx]
  cases hok : (site form).fault?.isNone && r.code.compiles with
  | false =>
      rw [hok] at hown
      rw [hown]
      rw [← hcompiles] at hok
      obtain ⟨hstate, hanswer⟩ := evaluate_refused hok (e := e)
      rw [hstate, hanswer]
      exact ⟨rfl, hm⟩
  | true =>
      rw [hok, if_pos rfl] at hown
      obtain ⟨hs, hc⟩ := (Bool.and_eq_true _ _).mp hok
      rw [← hcompiles] at hc
      rw [evaluate_compiled (Option.isNone_iff_eq_none.mp hs) hc]
      rcases hrun : (Machine.evaluate r.code).run.run e.machine with ⟨f | v, m⟩ <;>
        rw [hrun] at hown
      · have hkept := hk _ _ hown
        obtain ⟨hanswer, hstate⟩ := kept_fails hm hrun
        rw [hown, hanswer, hstate]
        exact ⟨rfl, hm.kept hkept⟩
      · have hkept := hk _ _ hown
        have hshown := hp v m hown
        cases ht : (m.push v).text true v with
        | error f =>
            rw [ht] at hshown
            cases hshown
        | ok t =>
            obtain ⟨hanswer, hstate⟩ := kept_ends hm hrun hkept ht
            rw [hown, hanswer, hstate]
            dsimp only
            rw [ht]
            exact ⟨rfl, ((hm.kept hkept).push v).kept (left_kept (Kept.refl _) e)⟩

theorem reading_none (h : s.first? form = none) : s.reading? form = none := by
  unfold reading?
  rw [h]
  rfl

theorem reading_some {node : Node} {w : Workspace} (h : s.first? form = some (node, w)) :
    s.reading? form = (second? s.ns form w).map fun q => ⟨node, w, Code.ofNode q.1, q.2⟩ := by
  unfold reading?
  rw [h, Option.bind_some]

theorem first_ok {s : Session σ} {node : Node} {w : Workspace}
    (h : (Work.analyze (topLevel s.ns form)).run.run s.workspace = (.ok node, w)) :
    s.first? form = some (node, w) := by
  unfold first?
  rw [h]

theorem first_error {s : Session σ} {f : Fault} {w : Workspace}
    (h : (Work.analyze (topLevel s.ns form)).run.run s.workspace = (.error f, w)) :
    s.first? form = none := by
  unfold first?
  rw [h]

theorem second_ok {ns : String} {again : Node} {w : Workspace} {a : Analyzer}
    (h : (topLevel ns form).run.run { w.analyzer with flags := .silent } = (.ok again, a)) :
    second? ns form w = some (again, a) := by
  unfold second?
  rw [h]

theorem second_error {ns : String} {w : Workspace} {c : CompileError} {a : Analyzer}
    (h : (topLevel ns form).run.run { w.analyzer with flags := .silent } = (.error c, a)) :
    second? ns form w = none := by
  unfold second?
  rw [h]

theorem result_none (h : s.reading? form = none) : s.result? form = none := by
  unfold result? own?
  rw [h]
  split <;> rfl

theorem Attempted.unread (h : s.reading? form = none) {s' : Session (Option Engine)}
    (hh : s'.history = s.history) (he : s'.host = some e) (hm : Holds e.machine values) :
    Attempted s form values none s' where
  history := hh
  holds := ⟨e, he, by rwa [result_none h]⟩
  answer _ := by rw [result_none h]; rfl

/-- Behind the loading, everything is the answer of the engine. -/
theorem leads_conclude {node outer : Node} {s' : Session (Option Engine)} (P : Engine → Prop)
    (hfollow : Leads (follow Host.inProcess node) s'
      (fun _ s₁ => s₁.history = s.history ∧ ∃ e₁, s₁.host = some e₁ ∧ P e₁)
      (fun _ s₁ => Attempted s form values none s₁))
    (h : ∀ (e₁ : Engine) (s₂ : Session (Option Engine)), P e₁ → s₂.history = s.history →
      s₂.host = some (e₁.evaluate (site form) [Code.ofNode outer]).state →
        Attempted s form values (answer (e₁.evaluate (site form) [Code.ofNode outer])) s₂) :
    Leads (conclude Host.inProcess promptName form node outer) s' (Attempted s form values)
      (fun _ => Attempted s form values none) := by
  apply hfollow.bind
  · rintro _ s₁ ⟨hh, e₁, he, hk⟩
    apply (leads_delivered he _ _).mono
    · rintro _ s₂ ⟨hh₂, he₂, rfl⟩
      exact h e₁ s₂ hk (hh₂.trans hh) he₂
    · rintro _ s₂ ⟨hh₂, he₂, ha⟩
      have hs₂ := h e₁ s₂ hk (hh₂.trans hh) he₂
      rwa [ha] at hs₂
  · exact fun _ _ ha => ha

variable (form) in
theorem provide_kept (e : Engine) (name : String) (requires : List String) :
    Kept e.machine (e.evaluate (site form) [.provide name requires]).state.machine := by
  cases hs : (site form).fault? with
  | some f =>
      rw [(evaluate_refused (by rw [hs]; rfl)).1]
      exact Kept.refl _
  | none =>
      rw [evaluate_compiled hs rfl]
      apply evaluateCode_kept
      unfold Machine.evaluate
      rw [clear_nil.provide]
      apply (leads_provide name _).mono
      · rintro _ _ rfl _ _
        rfl
      · rintro _ _ rfl _ _
        rfl

theorem conclude_declaration {r : Reading} (hu : Undisturbed s form) (hns : form.isNs = true)
    (hr : s.reading? form = some r) (he : s.host = some e) (hm : Holds e.machine values)
    {outer : Node} (ho : ∃ line name requires uses, outer = .ns line name requires uses) :
    Leads (conclude Host.inProcess promptName form r.node outer) (s.declaring r) (Attempted s form values)
      (fun _ => Attempted s form values none) := by
  have hx : form.isExempt = true := by simp [Form.isExempt, hns]
  have hfollow := (Stays.follow loaded_engine (s := s.declaring r) ⟨rfl, rfl, e, he⟩ r.node).and
    leads_self
  apply leads_conclude fun e₁ => Kept e.machine e₁.machine
  · apply hfollow.mono
    · rintro _ s₁ ⟨⟨-, hh₁, e₁, he₁⟩, hrun⟩
      exact ⟨hh₁, e₁, he₁, hu.loading hns r hr e he e₁ (by rw [hrun]; exact he₁)⟩
    · rintro f s₁ ⟨⟨-, hh₁, e₁, he₁⟩, hrun⟩
      have hk := hu.loading hns r hr e he e₁ (by rw [hrun]; exact he₁)
      exact .exempt hx hh₁ he₁ (hm.kept hk)
  · intro e₁ s₂ hk hh₂ he₂
    obtain ⟨line, name, requires, uses, rfl⟩ := ho
    have hk₂ := provide_kept form e₁ name (Node.demands requires uses)
    rw [Code.ofNode] at he₂
    exact .exempt hx hh₂ he₂ (hm.kept (hk.trans hk₂))

theorem conclude_plain {node outer : Node} (hplain : node.declares? = none)
    {s' : Session (Option Engine)} (hh : s'.history = s.history) (he : s'.host = some e)
    (h : ∀ s₂ : Session (Option Engine), s₂.history = s.history →
      s₂.host = some (e.evaluate (site form) [Code.ofNode outer]).state →
        Attempted s form values (answer (e.evaluate (site form) [Code.ofNode outer])) s₂) :
    Leads (conclude Host.inProcess promptName form node outer) s' (Attempted s form values)
      (fun _ => Attempted s form values none) := by
  have hfollow : follow Host.inProcess node = pure () := by
    cases node with
    | ns => cases hplain
    | _ => rfl
  apply leads_conclude (· = e)
  · rw [hfollow]
    exact leads_pure.mpr ⟨hh, e, he, rfl⟩
  · rintro _ s₂ rfl
    exact h s₂

theorem conclude_result {r : Reading} (hu : Undisturbed s form) (hns : form.isNs = false)
    (hx : form.isResult = true) (hr : s.reading? form = some r) (hplain : r.node.declares? = none)
    (he : s.host = some e) (hm : Holds e.machine values) {again : Node}
    (hcode : r.code = Code.ofNode again) {s' : Session (Option Engine)}
    (hh' : s'.history = s.history) (he' : s'.host = some e) :
    Leads (conclude Host.inProcess promptName form r.node (printedNode again)) s' (Attempted s form values)
      (fun _ => Attempted s form values none) := by
  have hexempt : form.isExempt = true := by simp [Form.isExempt, hx]
  apply conclude_plain hplain hh' he'
  intro s₂ hh₂ he₂
  rw [ofNode_printed, ← hcode] at he₂ ⊢
  have hk := printed_kept form hm.printer fun hok =>
    hu.evaluating hns _ ((own_eq hr he).trans (if_pos hok)) e he
  exact .exempt hexempt hh₂ he₂ (hm.kept hk)

theorem conclude_kept {r : Reading} (hu : Undisturbed s form) (hns : form.isNs = false)
    (hx : form.isResult = false) (hr : s.reading? form = some r) (hplain : r.node.declares? = none)
    (he : s.host = some e) (hm : Holds e.machine values) {again : Node}
    (hcode : r.code = Code.ofNode again) {s' : Session (Option Engine)}
    (hh' : s'.history = s.history) (he' : s'.host = some e) :
    Leads (conclude Host.inProcess promptName form r.node (printedNode (keptNode again))) s' (Attempted s form values)
      (fun _ => Attempted s form values none) := by
  have hexempt : form.isExempt = false := by simp [Form.isExempt, hns, hx]
  apply conclude_plain hplain hh' he'
  intro s₂ hh₂ he₂
  rw [ofNode_printed, ofNode_kept, ← hcode] at he₂ ⊢
  obtain ⟨hanswer, hholds⟩ := kept_holds hr he hexempt hm
    (fun _ _ hown => hu.evaluating hns _ hown e he) fun v _ hown => hu.printing hexempt _ hown v rfl
  exact ⟨hh₂, ⟨_, he₂, hholds⟩, fun _ => hanswer⟩

theorem attempt_leads (hu : Undisturbed s form) (he : s.host = some e)
    (hm : Holds e.machine values) :
    Leads (attempt Host.inProcess promptName form form.wrap) s (Attempted s form values)
      (fun _ => Attempted s form values none) := by
  unfold attempt
  apply leads_bind.mpr
  apply leads_get.mpr
  apply leads_bind.mpr
  apply leads_work.mpr
  apply leads_self.mono
  · intro node w hnode
    apply leads_bind.mpr
    apply leads_work.mpr
    apply Work.leads_silently.mpr
    have hfirst := first_ok hnode
    have hread (again : Node) (a : Analyzer)
        (h : (topLevel s.ns form).run.run { w.analyzer with flags := .silent } = (.ok again, a)) :
        s.reading? form = some ⟨node, w, Code.ofNode again, a⟩ := by
      rw [reading_some hfirst, second_ok h]
      rfl
    have hunread (c : CompileError) (a : Analyzer)
        (h : (topLevel s.ns form).run.run { w.analyzer with flags := .silent } = (.error c, a)) :
        s.reading? form = none := by
      rw [reading_some hfirst, second_error h]
      rfl
    -- a declaration is analyzed a second time as it stands, any other form inside what surrounds it
    cases hns : form.isNs with
    | true =>
        have hwrap : form.wrap = form := if_pos hns
        rw [hwrap]
        apply leads_self.mono
        · intro again a hagain
          exact conclude_declaration hu hns (hread again a hagain) he hm (topLevel_ns hns hagain)
        · intro c a hc
          exact .unread (hunread c a hc) rfl he hm
    | false =>
        obtain ⟨b, hb⟩ := Work.analyze_ran hnode
        have hplain : node.declares? = none := topLevel_plain hns hb
        obtain ⟨hw, hub⟩ := hu.unaliased hns _ hfirst
        have hua : Unaliased s.ns { w.analyzer with flags := .silent } := hw
        cases hx : form.isResult with
        | true =>
            have hwrap : form.wrap = form.printed := by simp [Form.wrap, hns, hx]
            rw [hwrap]
            apply (topLevel_printed rfl hua).mono
            · rintro _ c ⟨again, a, hagain, rfl⟩
              exact conclude_result hu hns hx (hread again a hagain) hplain he hm rfl rfl he
            · rintro f c ⟨c', a, hc⟩
              exact .unread (hunread c' a hc) rfl he hm
        | false =>
            have hwrap : form.wrap = form.kept.printed := by simp [Form.wrap, hns, hx]
            rw [hwrap]
            apply (topLevel_kept rfl hua fun y b hy => hub _ (second_ok hy)).mono
            · rintro _ c ⟨again, a, hagain, rfl⟩
              exact conclude_kept hu hns hx (hread again a hagain) hplain he hm rfl rfl he
            · rintro f c ⟨c', a, hc⟩
              exact .unread (hunread c' a hc) rfl he hm
  · intro f w hf
    exact .unread (reading_none (first_error hf)) rfl he hm

end Sumi.Session
