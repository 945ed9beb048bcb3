import Sumi.Proofs.Machine.Provided
import Sumi.Proofs.Session.Lockstep
import Sumi.Proofs.Session.Tandem

namespace Sumi

open Project Machine

/-- What was done with an engine: code was evaluated, or the module at a url was run for what it
provides. -/
inductive Deed
  | evaluation (e : Engine) (site : Site) (code : Code)
  | load (e : Engine) (provides : List String) (url : String) (content : Content)

namespace Deed

def before : Deed → Engine
  | evaluation e _ _ => e
  | load e _ _ _ => e

def after : Deed → Engine
  | evaluation e site code => (e.evaluate site [code]).state
  | load e provides url content => (e.load provides url content.program?).state

def Declares (deed : Deed) (ns : String) : Prop :=
  ns ∉ deed.before.machine.provided ∧ ns ∈ deed.after.machine.provided

def Runs : Deed → String → Prop
  | evaluation _ _ _, _ => False
  | load _ provides _ _, ns => ns ∈ provides

def Completes : Deed → String → Prop
  | evaluation _ _ _, _ => False
  | load e provides url content, ns =>
      ns ∈ provides ∧ ∃ outcome, (e.load provides url content.program?).result = .ok outcome ∧
        outcome.status = .success

def Honest : Deed → Prop
  | evaluation _ _ _ => True
  | load e provides url content => ∀ ns ∈ provides, (load e provides url content).Completes ns →
      ∀ program ∈ content.program?, Machine.Declares program ns

end Deed

namespace Host

def module? (files : Files) (provides : List String) (url : String) (e : Engine) : Option Deed :=
  if e.has provides then none
  else (fetch files url).toOption.map (Deed.load e provides url)

/-- The host that runs an engine of its own, with a record of what was done with the engine. -/
def watched : Host (Option Engine × List Deed) where
  setup x :=
    let r := inProcess.setup x.1
    ⟨r.result, (r.state, x.2), r.printed⟩
  evaluate filename line code x :=
    let r := inProcess.evaluate filename line code x.1
    ⟨r.result, (r.state, x.2 ++ (x.1.map fun e => .evaluation e ⟨filename, line⟩ code).toList),
      r.printed⟩
  load files provides url x :=
    let r := inProcess.load files provides url x.1
    ⟨r.result, (r.state, x.2 ++ (x.1.bind (module? files provides url)).toList), r.printed⟩
  tearDown x := (inProcess.tearDown x.1, x.2)

theorem watched_inProcess : watched.Tandem (fun x y => y = x.1) inProcess where
  evaluate := by
    rintro filename line code x _ rfl
    exact ⟨rfl, rfl, rfl⟩
  load := by
    rintro files provides url x _ rfl
    exact ⟨rfl, rfl, rfl⟩

end Host

namespace Engine

theorem evaluate_grows (e : Engine) (site : Site) (cs : List Code) :
    (e.evaluate site cs).state.loaded = e.loaded ∧
      Grows e.machine (e.evaluate site cs).state.machine := by
  have hself : Grows e.machine e.machine := refl_of Grows _
  unfold evaluate
  split
  · exact ⟨rfl, hself⟩
  · next c _ =>
    split
    · rcases Session.evaluateCode_goes (Machine.evaluate_grows c e.machine) with
        ⟨f, m, hm, -, he⟩ | ⟨v, m, hm, -, he⟩
      · rw [he]
        exact ⟨rfl, hm.provided, hm.symbols⟩
      · rw [he]
        exact ⟨rfl, hm.provided, hm.symbols⟩
    · exact ⟨rfl, hself⟩
  · exact ⟨rfl, hself⟩

structure Stops (e : Engine) (r : Reply Engine Outcome) : Prop where
  result : ∃ outcome, r.result = .ok outcome ∧ outcome.status ≠ .success
  loaded : r.state.loaded = e.loaded
  grows : Grows e.machine r.state.machine

structure Ends (e : Engine) (provides : List String) (program : List Code)
    (r : Reply Engine Outcome) : Prop where
  result : r.result = .ok ⟨.success, "nil", none⟩
  loaded : r.state.loaded = e.loaded ++ provides.filter (!e.loaded.contains ·)
  grows : Grows e.machine r.state.machine
  declared : ∀ ns, Declares program ns → ns ∈ r.state.machine.provided

theorem load_ran {e : Engine} {provides : List String} (h : e.has provides = false) {url : String}
    (hnamed : Site.isNamed { filename := url } = true) {cs : List Code} {m : Machine}
    {r : Except Failure Unit} : (execute cs).run.run e.machine = (r, m) →
      e.load provides url (some cs) = e.finish provides (r, m) := by
  intro hrun
  unfold load
  rw [if_neg (by simp [h]), if_neg (by simp [hnamed])]
  dsimp only
  rw [run_apply, hrun]

theorem load_goes {e : Engine} {provides : List String} (h : e.has provides = false)
    (url : String) (program : Option (List Code)) :
    e.Stops (e.load provides url program) ∨
      ∃ cs, program = some cs ∧ e.Ends provides cs (e.load provides url program) := by
  have hself : Grows e.machine e.machine := refl_of Grows _
  have hstop (f : Failure) : ∃ outcome, (.ok (classify f) : Except Sumi.Fault Outcome) = .ok outcome ∧
      outcome.status ≠ .success := ⟨_, rfl, Session.classify_status f⟩
  have hrefused (f : Failure) : e.Stops ⟨.ok (classify f), e, ""⟩ := ⟨hstop f, rfl, hself⟩
  cases hnamed : Site.isNamed { filename := url } with
  | false =>
      left
      unfold load
      rw [if_neg (by simp [h]), if_pos (by simp [hnamed])]
      exact hrefused _
  | true =>
    cases program with
    | none =>
        left
        unfold load
        rw [if_neg (by simp [h]), if_neg (by simp [hnamed])]
        exact hrefused _
    | some cs =>
        have hgrows := execute_grows cs e.machine
        have hdeclared (ns : String) (hns : Declares cs ns) := execute_declares hns e.machine
        rw [leads_iff] at hgrows
        simp only [leads_iff] at hdeclared
        rcases hrun : (execute cs).run.run e.machine with ⟨f | u, m⟩ <;>
          simp only [hrun] at hgrows hdeclared
        · left
          rw [load_ran h hnamed hrun]
          exact ⟨hstop f, rfl, hgrows.provided, hgrows.symbols⟩
        · right
          rw [load_ran h hnamed hrun]
          exact ⟨cs, rfl, rfl, rfl, ⟨hgrows.provided, hgrows.symbols⟩, hdeclared⟩

end Engine

namespace Deed

def Due : Deed → Prop
  | evaluation _ _ _ => True
  | load e provides _ _ => e.has provides = false

variable {deed : Deed} {ns : String}

theorem grows (h : deed.Due) : Grows deed.before.machine deed.after.machine := by
  cases deed with
  | evaluation e site code => exact (e.evaluate_grows site [code]).2
  | load e provides url content =>
      rcases e.load_goes h url content.program? with hs | ⟨cs, -, hs⟩
      · exact hs.grows
      · exact hs.grows

theorem loaded_iff (h : deed.Due) :
    ns ∈ deed.after.loaded ↔ ns ∈ deed.before.loaded ∨ deed.Completes ns := by
  cases deed with
  | evaluation e site code =>
      change ns ∈ (e.evaluate site [code]).state.loaded ↔ ns ∈ e.loaded ∨ False
      rw [(e.evaluate_grows site [code]).1, or_false]
  | load e provides url content =>
      change ns ∈ (e.load provides url content.program?).state.loaded ↔ ns ∈ e.loaded ∨
        (ns ∈ provides ∧ ∃ outcome, (e.load provides url content.program?).result = .ok outcome ∧
          outcome.status = .success)
      rcases e.load_goes h url content.program? with hs | ⟨cs, -, hs⟩
      · obtain ⟨outcome, hr, hno⟩ := hs.result
        simp [hs.loaded, hr, hno]
      · by_cases hns : ns ∈ e.loaded <;> simp [hs.loaded, hs.result, hns]

theorem declared_of_completes (h : deed.Due) (hh : deed.Honest) (hc : deed.Completes ns) :
    ns ∈ deed.after.machine.provided := by
  cases deed with
  | evaluation e site code => exact hc.elim
  | load e provides url content =>
      obtain ⟨hns, outcome, hr, hok⟩ := id hc
      rcases e.load_goes h url content.program? with hs | ⟨cs, hcs, hs⟩
      · obtain ⟨outcome', hr', hno⟩ := hs.result
        cases hr.symm.trans hr'
        exact absurd hok hno
      · exact hs.declared ns (hh ns hns hc cs hcs)

end Deed

/-- The registries of an engine agree as far as what was done with it allows. -/
structure Engine.Registered (e : Engine) (deeds : List Deed) : Prop where
  /-- What is loaded is declared, as long as modules declare what they are run for. -/
  declared : (∀ deed ∈ deeds, deed.Honest) → ∀ ns ∈ e.loaded, ns ∈ e.machine.provided
  /-- What is declared is loaded, unless something else declared it than its own module. -/
  loaded : ∀ ns ∈ e.machine.provided,
    ns ∈ e.loaded ∨ ∃ deed ∈ deeds, deed.Declares ns ∧ ¬ deed.Completes ns
  /-- What is loaded was run to its end. -/
  completed : ∀ ns ∈ e.loaded, ns = Namespace.core ∨ ∃ deed ∈ deeds, deed.Completes ns

theorem Engine.fresh_registered : Engine.fresh.Registered [] where
  declared _ _ h := h
  loaded _ h := .inl h
  completed _ h := .inl (List.mem_singleton.mp h)

theorem Engine.Registered.step (deed : Deed) {deeds : List Deed}
    (h : deed.before.Registered deeds) (hdue : deed.Due) :
    deed.after.Registered (deeds ++ [deed]) where
  declared hh ns hns := by
    rcases (Deed.loaded_iff hdue).mp hns with hns | hc
    · exact (Deed.grows hdue).provided (h.declared (fun d hd => hh d (List.mem_append_left _ hd)) ns hns)
    · exact Deed.declared_of_completes hdue (hh deed (by simp)) hc
  loaded ns hns := by
    by_cases hold : ns ∈ deed.before.machine.provided
    · rcases h.loaded ns hold with hl | ⟨d, hd, hdeed⟩
      · exact .inl ((Deed.loaded_iff hdue).mpr (.inl hl))
      · exact .inr ⟨d, List.mem_append_left _ hd, hdeed⟩
    · by_cases hc : deed.Completes ns
      · exact .inl ((Deed.loaded_iff hdue).mpr (.inr hc))
      · exact .inr ⟨deed, by simp, ⟨hold, hns⟩, hc⟩
  completed ns hns := by
    rcases (Deed.loaded_iff hdue).mp hns with hns | hc
    · refine (h.completed ns hns).imp_right ?_
      rintro ⟨d, hd, hdeed⟩
      exact ⟨d, List.mem_append_left _ hd, hdeed⟩
    · exact .inr ⟨deed, by simp, hc⟩

theorem Host.load_loaded {provides : List String} {e : Engine} (h : ∀ ns ∈ provides, ns ∈ e.loaded)
    (files : Files) (url : String) :
    inProcess.load files provides url (some e) = ⟨.ok (), some e, ""⟩ :=
  if_pos (List.all_eq_true.mpr fun ns hns => List.contains_iff_mem.mpr (h ns hns))

theorem Host.load_module {files : Files} {provides : List String} {url : String} {e : Engine}
    (h : e.has provides = false) {content : Content} (hfetch : fetch files url = .ok content) :
    inProcess.load files provides url (some e) =
      let r := e.load provides url content.program?
      match r.result with
      | .ok outcome =>
          ⟨if outcome.status = .success then .ok ()
            else .error (.host (.notLoaded provides outcome.value)), some r.state, r.printed⟩
      | .error f => ⟨.error f, some r.state, r.printed⟩ := by
  change (if e.has provides then _ else _) = _
  exact (if_neg (by simp [h])).trans (hfetch ▸ rfl)

theorem Host.watched_loaded {provides : List String} {e : Engine} (h : ∀ ns ∈ provides, ns ∈ e.loaded)
    (files : Files) (url : String) (deeds : List Deed) :
    watched.load files provides url (some e, deeds) = ⟨.ok (), (some e, deeds), ""⟩ := by
  have hhas : e.has provides = true :=
    List.all_eq_true.mpr fun ns hns => List.contains_iff_mem.mpr (h ns hns)
  unfold watched module?
  dsimp only
  rw [Host.load_loaded h, Option.bind_some, if_pos hhas, Option.toList_none, List.append_nil]

/-- Loading on a watched host does nothing, or it runs one module, and goes well only if that runs to
its end. -/
theorem Host.watched_load (files : Files) (provides : List String) (url : String) (e : Engine)
    (deeds : List Deed) :
    (∀ ns ∈ provides, ns ∈ e.loaded) ∧
        watched.load files provides url (some e, deeds) = ⟨.ok (), (some e, deeds), ""⟩ ∨
      (∃ f, watched.load files provides url (some e, deeds) = ⟨.error f, (some e, deeds), ""⟩) ∨
      ∃ content, e.has provides = false ∧ fetch files url = .ok content ∧
        (watched.load files provides url (some e, deeds)).state =
          (some (Deed.load e provides url content).after,
            deeds ++ [Deed.load e provides url content]) ∧
        ∀ u, (watched.load files provides url (some e, deeds)).result = .ok u →
          ∀ ns ∈ provides, (Deed.load e provides url content).Completes ns := by
  cases hhas : e.has provides with
  | true =>
      have hall : ∀ ns ∈ provides, ns ∈ e.loaded := fun ns hns =>
        List.contains_iff_mem.mp (List.all_eq_true.mp hhas ns hns)
      exact .inl ⟨hall, Host.watched_loaded hall files url deeds⟩
  | false =>
      right
      cases hfetch : fetch files url with
      | error f =>
          refine .inl ⟨f, ?_⟩
          have hload : inProcess.load files provides url (some e) = ⟨.error f, some e, ""⟩ := by
            change (if e.has provides then _ else _) = _
            rw [if_neg (by simp [hhas]), hfetch]
          unfold watched module?
          dsimp only
          rw [hload, Option.bind_some, if_neg (by simp [hhas]), hfetch]
          simp [Except.toOption]
      | ok content =>
          refine .inr ⟨content, rfl, rfl, ?_⟩
          have hmodule : module? files provides url e = some (.load e provides url content) := by
            unfold module?
            rw [if_neg (by simp [hhas]), hfetch]
            rfl
          unfold watched
          dsimp only
          rw [Host.load_module hhas hfetch, Option.bind_some, hmodule]
          dsimp only
          cases hr : (e.load provides url content.program?).result with
          | error f =>
              refine ⟨rfl, ?_⟩
              intro u hu
              cases hu
          | ok outcome =>
              refine ⟨rfl, ?_⟩
              by_cases hs : outcome.status = .success
              · exact fun _ _ ns hns => ⟨hns, outcome, hr, hs⟩
              · intro u hu
                dsimp only at hu
                rw [if_neg hs] at hu
                cases hu

def Host.Registered (x : Option Engine × List Deed) : Prop :=
  ∃ e, x.1 = some e ∧ e.Registered x.2

/-- Whatever a session asks of its host, the registries go on to agree. -/
theorem Host.watched_registered :
    watched.Tandem (fun x y => x = y ∧ Host.Registered x) watched where
  evaluate := by
    rintro filename line code ⟨_, deeds⟩ _ ⟨rfl, e, rfl, he⟩
    refine ⟨rfl, rfl, rfl, _, rfl, ?_⟩
    exact Engine.Registered.step (.evaluation e ⟨filename, line⟩ code) he trivial
  load := by
    rintro files provides url ⟨_, deeds⟩ _ ⟨rfl, e, rfl, he⟩
    refine ⟨rfl, rfl, rfl, ?_⟩
    rcases Host.watched_load files provides url e deeds with
      ⟨-, hload⟩ | ⟨f, hload⟩ | ⟨content, hno, -, hstate, -⟩
    · rw [hload]
      exact ⟨e, rfl, he⟩
    · rw [hload]
      exact ⟨e, rfl, he⟩
    · rw [hstate]
      exact ⟨_, rfl, Engine.Registered.step (.load e provides url content) he hno⟩

namespace Session

variable {σ : Type}

/-- One session comes after another: forms were typed, texts shown, and files changed by others
between two forms. -/
inductive Between (h : Host σ) (cs : Commands) (s : Session σ) : Session σ → Prop
  | start : Between h cs s s
  | typed {s' : Session σ} (form : Form) : Between h cs s s' → Between h cs s (dispatch h cs form s').2
  | shown {s' : Session σ} (f : Console → Console) : Between h cs s s' → Between h cs s (s'.tell f)
  | changed {s' : Session σ} (files : Files) : Between h cs s s' →
      Between h cs s { s' with workspace := { s'.workspace with files := files } }

theorem output_between {h : Host σ} {cs : Commands} {s s' : Session σ} (hs : Between h cs s s')
    (put : Console → String → Console) (text : String) : Between h cs s (s'.output put text).2 := by
  unfold output
  split
  · exact hs.shown (put · text)
  · exact hs

theorem round_between {h : Host σ} {cs : Commands} {s s' : Session σ} (hs : Between h cs s s')
    (stream : Form.Stream) : Between h cs s (round h cs stream s').session := by
  have hprompt := output_between hs Console.print s'.prompt
  unfold round
  generalize s'.output Console.print s'.prompt = o at hprompt
  rcases o with ⟨f | _, s'⟩
  · exact hprompt
  dsimp only at hprompt ⊢
  rcases stream.next? with _ | ⟨e | form, rest⟩
  · exact hprompt
  · have herror := output_between hprompt Console.say e.text
    dsimp only
    generalize s'.output Console.say e.text = o at herror
    rcases o with ⟨f | _, s'⟩
    · exact herror
    · exact herror
  · dsimp only
    split
    · exact hprompt
    · have hform := hprompt.typed form
      generalize dispatch h cs form s' = r at hform
      rcases r with ⟨_ | f | _, s'⟩
      · exact hform
      · exact hform
      · exact hform

theorem loop_between {h : Host σ} {cs : Commands} {s s' : Session σ} (hs : Between h cs s s')
    (stream : Form.Stream) : Between h cs s (loop h cs stream s').2 := by
  have hround := round_between hs stream
  rw [loop_eq]
  cases hr : round h cs stream s' with
  | ends result t =>
      rw [hr] at hround
      exact hround
  | next rest t =>
      rw [hr] at hround
      exact loop_between hround rest
termination_by (stream.weight, stream.pending.length)
decreasing_by exact (round_shorter hr).lex

theorem Between.tandem {τ : Type} {R : σ → τ → Prop} {h : Host σ} {h' : Host τ}
    (ht : h.Tandem R h') {cs : Commands} {s s' : Session σ} (hs : Between h cs s s') {y : τ}
    (hy : R s.host y) : ∃ y', Between h' cs (s.on y) (s'.on y') ∧ R s'.host y' := by
  induction hs with
  | start => exact ⟨y, .start, hy⟩
  | typed form _ ih =>
      obtain ⟨y', hb, hy'⟩ := ih
      obtain ⟨y'', hrun, hy''⟩ := dispatch_abreast ht cs form hy'
      refine ⟨y'', ?_, hy''⟩
      have hb := hb.typed form
      rwa [hrun] at hb
  | shown f _ ih =>
      obtain ⟨y', hb, hy'⟩ := ih
      exact ⟨y', hb.shown f, hy'⟩
  | changed files _ ih =>
      obtain ⟨y', hb, hy'⟩ := ih
      exact ⟨y', hb.changed files, hy'⟩

end Session

theorem Host.load_refused {e : Engine} {ns url : String} (hdeclared : ns ∈ e.machine.provided)
    (hno : ns ∉ e.loaded) {files : Files} {content : Content} {requires : List String}
    {rest : List Code} (hfetch : fetch files url = .ok content)
    (hprogram : content.program? = some (.provide ns requires :: rest))
    (hnamed : Site.isNamed { filename := url } = true) :
    (inProcess.load files [ns] url (some e)).result =
        .error (.host (.notLoaded [ns] ("Error: Namespace \"" ++ ns ++ "\" already declared."))) ∧
      ∃ e', (inProcess.load files [ns] url (some e)).state = some e' ∧ e'.loaded = e.loaded ∧
        e'.machine.provided = e.machine.provided := by
  have hhas : e.has [ns] = false := by simpa [Engine.has] using hno
  have hrun : Leads (execute (.provide ns requires :: rest)) e.machine (fun _ _ => False)
      (fun f m => f = .thrown ("Namespace \"" ++ ns ++ "\" already declared.") ∧ m = e.machine) := by
    unfold execute Machine.evaluate
    rw [clear_nil.provide]
    exact (leads_provide_again hdeclared _).bind (fun _ _ h => h.elim) fun _ _ h => h
  rw [leads_iff] at hrun
  rcases hexec : (execute (.provide ns requires :: rest)).run.run e.machine with ⟨f | u, m⟩ <;>
    rw [hexec] at hrun
  · obtain ⟨rfl, rfl⟩ := hrun
    rw [Host.load_module hhas hfetch, hprogram]
    dsimp only
    rw [Engine.load_ran hhas hnamed hexec]
    exact ⟨rfl, _, rfl, rfl, rfl⟩
  · exact hrun.elim

/-- A namespace that is not declared is loaded from a module that declares it and runs to its end,
whatever modules failed before. -/
theorem Host.load_undeclared {e : Engine} {ns url : String} (hdeclared : ns ∉ e.machine.provided)
    (hno : ns ∉ e.loaded) {files : Files} {content : Content} {requires : List String}
    {rest : List Code} (hfetch : fetch files url = .ok content)
    (hprogram : content.program? = some (.provide ns requires :: rest))
    (hnamed : Site.isNamed { filename := url } = true)
    (hrequires : ∀ name ∈ requires, name ∈ e.machine.provided)
    (hrest : ∃ m, (execute rest).run.run
      { e.machine with provided := e.machine.provided ++ [ns] } = (.ok (), m)) :
    (inProcess.load files [ns] url (some e)).result = .ok () ∧
      ∃ e', (inProcess.load files [ns] url (some e)).state = some e' ∧ ns ∈ e'.loaded ∧
        ns ∈ e'.machine.provided := by
  have hhas : e.has [ns] = false := by simpa [Engine.has] using hno
  obtain ⟨m, hm⟩ := hrest
  have hrun : Leads (execute (.provide ns requires :: rest)) e.machine (fun _ _ => True)
      (fun _ _ => False) := by
    unfold execute Machine.evaluate
    rw [clear_nil.provide]
    apply (leads_provide_new hdeclared hrequires).bind
    · rintro _ _ rfl
      exact (leads_of_ok hm).mpr trivial
    · exact fun _ _ h => h
  have hdeclares : Declares (.provide ns requires :: rest) ns := ⟨requires, List.mem_cons_self⟩
  have hdone := (hrun.and (execute_declares hdeclares e.machine))
  rw [leads_iff] at hdone
  rcases hexec : (execute (.provide ns requires :: rest)).run.run e.machine with ⟨f | u, m'⟩ <;>
    rw [hexec] at hdone
  · exact hdone.1.elim
  · rw [Host.load_module hhas hfetch, hprogram]
    dsimp only
    rw [Engine.load_ran hhas hnamed hexec]
    refine ⟨rfl, _, rfl, ?_, hdone.2⟩
    simp [Engine.finish, hno]

structure Engine.Agrees (e : Engine) (deeds : List Deed) : Prop where
  /-- What is loaded is declared. -/
  declared : ∀ ns ∈ e.loaded, ns ∈ e.machine.provided
  /-- What is declared is loaded, unless something else declared it than its own module. -/
  loaded : ∀ ns ∈ e.machine.provided,
    ns ∈ e.loaded ∨ ∃ deed ∈ deeds, deed.Declares ns ∧ ¬ deed.Completes ns
  /-- Loading does nothing to what is loaded. -/
  again : ∀ files provides url, (∀ ns ∈ provides, ns ∈ e.loaded) →
    Host.inProcess.load files provides url (some e) = ⟨.ok (), some e, ""⟩
  /-- What was declared without a module is not loaded from one. -/
  refused : ∀ ns ∈ e.machine.provided, ns ≠ Namespace.core → (∀ deed ∈ deeds, ¬ deed.Runs ns) →
    ∀ files url content requires rest, Host.fetch files url = .ok content →
      content.program? = some (.provide ns requires :: rest) →
      Site.isNamed { filename := url } = true →
      (Host.inProcess.load files [ns] url (some e)).result = .error (.host (.notLoaded [ns]
          ("Error: Namespace \"" ++ ns ++ "\" already declared."))) ∧
        ∃ e', (Host.inProcess.load files [ns] url (some e)).state = some e' ∧
          e'.loaded = e.loaded ∧ e'.machine.provided = e.machine.provided
  /-- What is not declared can still be loaded. -/
  undeclared : ∀ ns, ns ∉ e.machine.provided →
    ∀ files url content requires rest, Host.fetch files url = .ok content →
      content.program? = some (.provide ns requires :: rest) →
      Site.isNamed { filename := url } = true → (∀ name ∈ requires, name ∈ e.machine.provided) →
      (∃ m, (execute rest).run.run
        { e.machine with provided := e.machine.provided ++ [ns] } = (.ok (), m)) →
      (Host.inProcess.load files [ns] url (some e)).result = .ok () ∧
        ∃ e', (Host.inProcess.load files [ns] url (some e)).state = some e' ∧ ns ∈ e'.loaded ∧
          ns ∈ e'.machine.provided

theorem Deed.Completes.runs {deed : Deed} {ns : String} (h : deed.Completes ns) : deed.Runs ns := by
  cases deed with
  | evaluation e site code => exact h
  | load e provides url content => exact h.1

theorem Engine.Registered.agrees {e : Engine} {deeds : List Deed} (h : e.Registered deeds)
    (hh : ∀ deed ∈ deeds, deed.Honest) : e.Agrees deeds where
  declared := h.declared hh
  loaded := h.loaded
  again files provides url hall := Host.load_loaded hall files url
  refused ns hns hcore hruns files url content requires rest hfetch hprogram hnamed := by
    have hno : ns ∉ e.loaded := by
      intro hl
      rcases h.completed ns hl with rfl | ⟨deed, hd, hc⟩
      · exact hcore rfl
      · exact hruns deed hd hc.runs
    exact Host.load_refused hns hno hfetch hprogram hnamed
  undeclared ns hns files url content requires rest hfetch hprogram hnamed hrequires hrest :=
    Host.load_undeclared hns (fun hl => hns (h.declared hh ns hl)) hfetch hprogram hnamed hrequires
      hrest

namespace Session

def declares (program : List Code) (ns : String) : Bool :=
  program.any fun
    | .provide name _ => name == ns
    | _ => false

theorem declares_of {program : List Code} {ns : String} (h : declares program ns = true) :
    Machine.Declares program ns := by
  obtain ⟨c, hc, hns⟩ := List.any_eq_true.mp h
  cases c with
  | provide name requires =>
      obtain rfl := eq_of_beq hns
      exact ⟨requires, hc⟩
  | _ => cases hns

def isHonest : Deed → Bool
  | .evaluation _ _ _ => true
  | .load _ provides _ content =>
      provides.all fun ns => content.program?.all (declares · ns)

theorem honest_of_isHonest {deed : Deed} (h : isHonest deed = true) : deed.Honest := by
  cases deed with
  | evaluation e site code => trivial
  | load e provides url content =>
      intro ns hns _ program hp
      have hall := List.all_eq_true.mp h ns hns
      rw [Option.mem_def.mp hp] at hall
      exact declares_of hall

def ready : Session (Option Engine) where
  workspace := .ofSources [[], ["src"]]
    [(["src", "a.sumi"], "(ns a)"), (["src", "b.sumi"], "(ns b)"),
      (["src", "c.sumi"], "(ns c)\n(throw \"no\")")]
  host := some .fresh
  layout := plain

def declaration : Form :=
  .list [.sym "ns", .sym "a", .list [.keyword (.plain "require"), .sym "b"] none] (some 1)

def loading (ns : String) : Form := .list [.sym "load-namespace", .sym ns] (some 2)

def mixed : Session (Option Engine × List Deed) :=
  (dispatch Host.watched defaultCommands (loading "c")
    (dispatch Host.watched defaultCommands declaration (ready.on (ready.host, []))).2).2

theorem mixed_checked : mixed.host.2.all isHonest = true ∧
    mixed.host.2.length = 3 ∧ ∀ e ∈ mixed.host.1, e.loaded = [Namespace.core, "b"] ∧
      e.machine.provided = [Namespace.core, "b", "a", "c"] := by
  decide +kernel

/-- In every state between two forms the registries agree: what is loaded is declared; what is
declared and not loaded was declared by something else than its own module, and if no module was run
for it, none can be; what is not declared can be loaded. The record that tells so changes nothing
about the session. -/
theorem registries_agree {cs : Commands} {s s' : Session (Option Engine × List Deed)}
    (hstart : s.host = (some .fresh, [])) (h : Between Host.watched cs s s')
    (hh : ∀ deed ∈ s'.host.2, deed.Honest) :
    Between Host.inProcess cs (s.on s.host.1) (s'.on s'.host.1) ∧
      ∃ e, s'.host.1 = some e ∧ e.Agrees s'.host.2 := by
  constructor
  · obtain ⟨_, hb, rfl⟩ := h.tandem Host.watched_inProcess rfl
    exact hb
  · have hfresh : Host.Registered s.host := by
      rw [hstart]
      exact ⟨.fresh, rfl, Engine.fresh_registered⟩
    obtain ⟨_, -, -, e, he, hr⟩ := h.tandem Host.watched_registered ⟨rfl, hfresh⟩
    exact ⟨e, he, hr.agrees hh⟩

theorem mixed_agree : mixed.host.2.length = 3 ∧ ∃ e, mixed.host.1 = some e ∧
    e.loaded = [Namespace.core, "b"] ∧ e.machine.provided = [Namespace.core, "b", "a", "c"] ∧
    e.Agrees mixed.host.2 := by
  obtain ⟨hhonest, hlength, hlists⟩ := mixed_checked
  have hbetween : Between Host.watched defaultCommands (ready.on (ready.host, [])) mixed :=
    (Between.start.typed declaration).typed (loading "c")
  have hdeeds : ∀ deed ∈ mixed.host.2, deed.Honest := fun deed hd =>
    honest_of_isHonest (List.all_eq_true.mp hhonest deed hd)
  obtain ⟨-, e, he, hagrees⟩ := registries_agree rfl hbetween hdeeds
  exact ⟨hlength, e, he, (hlists e he).1, (hlists e he).2, hagrees⟩

def isRefused : Ending → HostFault → Bool
  | .failed (.host f), f' => f == f'
  | _, _ => false

theorem ending_of_isRefused {ending : Ending} {f : HostFault} (h : isRefused ending f = true) :
    ending = .failed (.host f) := by
  unfold isRefused at h
  split at h
  · rw [eq_of_beq h]
  · cases h

/-- What is declared at the prompt is not loaded, and then cannot be. -/
theorem declared_not_loaded :
    Between Host.inProcess defaultCommands ready
        (dispatch Host.inProcess defaultCommands declaration ready).2 ∧
      (∃ e, (dispatch Host.inProcess defaultCommands declaration ready).2.host = some e ∧
        "a" ∈ e.machine.provided ∧ "a" ∉ e.loaded) ∧
      (run Host.inProcess .loadNamespace [.sym "a"]
          (dispatch Host.inProcess defaultCommands declaration ready).2).1 =
        .failed (.host (.notLoaded ["a"] "Error: Namespace \"a\" already declared.")) := by
  have hends : (∃ e ∈ (dispatch Host.inProcess defaultCommands declaration ready).2.host,
      "a" ∈ e.machine.provided ∧ "a" ∉ e.loaded) ∧
      isRefused (run Host.inProcess .loadNamespace [.sym "a"]
          (dispatch Host.inProcess defaultCommands declaration ready).2).1
        (.notLoaded ["a"] "Error: Namespace \"a\" already declared.") = true := by
    decide +kernel
  obtain ⟨hregistries, hrefused⟩ := hends
  exact ⟨.typed declaration .start, hregistries, ending_of_isRefused hrefused⟩

end Session

end Sumi
