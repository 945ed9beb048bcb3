import Sumi.Proofs.Session.Attempt
import Sumi.Session.Loop

namespace Sumi

open Project

variable {σ τ α β : Type} {R : σ → τ → Prop}

structure Reply.Tandem (R : σ → τ → Prop) (r : Reply σ α) (r' : Reply τ α) : Prop where
  result : r'.result = r.result
  printed : r'.printed = r.printed
  state : R r.state r'.state

/-- In related states, two hosts give the same answers. -/
structure Host.Tandem (R : σ → τ → Prop) (h : Host σ) (h' : Host τ) : Prop where
  evaluate : ∀ filename line code x y, R x y →
    (h.evaluate filename line code x).Tandem R (h'.evaluate filename line code y)
  load : ∀ files provides url x y, R x y →
    (h.load files provides url x).Tandem R (h'.load files provides url y)

namespace Session

/-- The same result, and the same session but for its host. -/
def Abreast (R : σ → τ → Prop) (r : α × Session σ) (r' : α × Session τ) : Prop :=
  ∃ y, r' = (r.1, r.2.on y) ∧ R r.2.host y

def Tandem (R : σ → τ → Prop) (s : Session σ) (y : τ) (m : Action σ α) (m' : Action τ α) : Prop :=
  Abreast R (m.run.run s) (m'.run.run (s.on y))

def Tandems (R : σ → τ → Prop) (m : Action σ α) (m' : Action τ α) : Prop :=
  ∀ s y, R s.host y → Tandem R s y m m'

variable {s : Session σ} {y : τ}

theorem tandems_pure (a : α) : Tandems R (pure a) (pure a) := fun _ y h => ⟨y, rfl, h⟩

theorem tandems_throw (f : Fault) : Tandems R (throw f : Action σ α) (throw f) :=
  fun _ y h => ⟨y, rfl, h⟩

theorem Tandem.ends {m : Action σ α} {m' : Action τ α} (h : Tandem R s y m m') :
    (∃ f s' y', m.run s = (.error f, s') ∧ m'.run (s.on y) = (.error f, s'.on y') ∧
        R s'.host y') ∨
      ∃ a s' y', m.run s = (.ok a, s') ∧ m'.run (s.on y) = (.ok a, s'.on y') ∧ R s'.host y' := by
  obtain ⟨y', hrun', hy'⟩ := h
  rcases hrun : m.run.run s with ⟨f | a, s'⟩ <;> rw [hrun] at hrun' hy'
  · exact .inl ⟨f, s', y', hrun, hrun', hy'⟩
  · exact .inr ⟨a, s', y', hrun, hrun', hy'⟩

theorem Tandem.bind {m : Action σ α} {m' : Action τ α} {k : α → Action σ β} {k' : α → Action τ β}
    (h : Tandem R s y m m') (hk : ∀ a, Tandems R (k a) (k' a)) :
    Tandem R s y (m >>= k) (m' >>= k') := by
  obtain ⟨y', hm, hy⟩ := h
  unfold Tandem Abreast
  simp only [ExceptT.run_bind, StateT.run_bind]
  rw [hm]
  rcases hrun : m.run.run s with ⟨f | a, s'⟩ <;> rw [hrun] at hy
  · exact ⟨y', rfl, hy⟩
  · exact hk a s' y' hy

theorem Tandems.bind {m : Action σ α} {m' : Action τ α} {k : α → Action σ β}
    {k' : α → Action τ β} (h : Tandems R m m') (hk : ∀ a, Tandems R (k a) (k' a)) :
    Tandems R (m >>= k) (m' >>= k') :=
  fun s y hy => (h s y hy).bind hk

theorem tandems_get {k : Session σ → Action σ α} {k' : Session τ → Action τ α}
    (h : ∀ s y, R s.host y → Tandem R s y (k s) (k' (s.on y))) :
    Tandems R (get >>= k) (get >>= k') := h

theorem tandems_modify {f : Session σ → Session σ} {f' : Session τ → Session τ}
    (hf : ∀ s, (f s).host = s.host) (h : ∀ s (y : τ), f' (s.on y) = (f s).on y) :
    Tandems R (modify f) (modify f') := by
  intro s y hy
  refine ⟨y, ?_, (hf s).symm ▸ hy⟩
  change (Except.ok (), f' (s.on y)) = _
  rw [h]
  rfl

theorem ask_run (act : σ → Reply σ α) (s : Session σ) :
    (Action.ask act).run.run s = ((act s.host).result,
      { s with host := (act s.host).state }.tell (·.print (act s.host).printed)) := by
  apply run_of_leads
  apply (leads_ask rfl).mpr
  cases (act s.host).result <;> rfl

theorem work_run (m : Work α) (s : Session σ) : (Action.work m).run.run s =
    ((m.run.run s.workspace).1, { s with workspace := (m.run.run s.workspace).2 }) := by
  apply run_of_leads
  apply leads_work.mpr
  apply leads_self.mono
  · intro a w hrun
    rw [hrun]
  · intro f w hrun
    rw [hrun]

theorem tandems_work (m : Work α) : Tandems R (Action.work m) (Action.work m) := by
  intro s y hy
  unfold Tandem
  rw [work_run, work_run]
  exact ⟨y, rfl, hy⟩

theorem tandem_ask {act : σ → Reply σ α} {act' : τ → Reply τ α}
    (h : (act s.host).Tandem R (act' y)) : Tandem R s y (Action.ask act) (Action.ask act') := by
  obtain ⟨hresult, hprinted, hstate⟩ := h
  unfold Tandem
  rw [ask_run, ask_run]
  refine ⟨(act' y).state, ?_, hstate⟩
  change ((act' y).result, Session.tell { s.on y with host := (act' y).state }
    (·.print (act' y).printed)) = _
  rw [hresult, hprinted]
  rfl

theorem tandems_ask {act : σ → Reply σ α} {act' : τ → Reply τ α}
    (h : ∀ x y, R x y → (act x).Tandem R (act' y)) :
    Tandems R (Action.ask act) (Action.ask act') :=
  fun s y hy => tandem_ask (h s.host y hy)

theorem tandems_tell (f : Console → Console) :
    Tandems R (Action.tell f : Action σ Unit) (Action.tell f) :=
  tandems_modify (fun _ => rfl) fun _ _ => rfl

theorem tandems_forM {γ : Type} {xs : List γ} {f : γ → Action σ PUnit} {f' : γ → Action τ PUnit}
    (h : ∀ x, Tandems R (f x) (f' x)) : Tandems R (xs.forM f) (xs.forM f') := by
  induction xs with
  | nil => exact tandems_pure _
  | cons x xs ih => exact (h x).bind fun _ => ih

variable {h : Host σ} {h' : Host τ}

theorem tandems_namespaceName (form : Form) :
    Tandems R (namespaceName form : Action σ String) (namespaceName form) := by
  unfold namespaceName
  split
  · exact tandems_pure _
  · exact tandems_pure _
  · exact tandems_throw _

theorem tandems_loadNamespace (ht : h.Tandem R h') (ns : String) :
    Tandems R (loadNamespace h ns) (loadNamespace h' ns) := by
  apply tandems_get
  intro s y hy
  apply (tandems_work _ s y hy).bind
  intro components
  apply tandems_forM
  intro c
  split
  · apply tandems_get
    intro s y hy
    exact tandems_ask (fun x y hxy => ht.load _ _ _ x y hxy) s y hy
  · exact tandems_pure _

theorem tandems_follow (ht : h.Tandem R h') (node : Node) :
    Tandems R (follow h node) (follow h' node) := by
  unfold follow
  split
  · apply Tandems.bind
    · exact tandems_modify (fun _ => rfl) fun _ _ => rfl
    · exact fun _ => tandems_forM fun ns => tandems_loadNamespace ht ns
  · exact tandems_pure _

theorem tandems_deliver (ht : h.Tandem R h') (filename : String) (form : Form) (code outer : Code) :
    Tandems R (deliver h filename form code outer) (deliver h' filename form code outer) := by
  have hanswer : Tandems R
      (do
        let outcome ← Action.ask (h.evaluate filename (form.line?.getD 1) outer)
        if outcome.status = .success then return some outcome.value
        else
          Action.tell (showFailure form code outcome)
          return none)
      (do
        let outcome ← Action.ask (h'.evaluate filename (form.line?.getD 1) outer)
        if outcome.status = .success then return some outcome.value
        else
          Action.tell (showFailure form code outcome)
          return none) := by
    apply (tandems_ask (ht.evaluate _ _ _)).bind
    intro outcome
    split
    · exact tandems_pure _
    · exact (tandems_tell _).bind fun _ => tandems_pure _
  apply tandems_get
  intro s y hy
  change Tandem R s y (if s.verbose then _ else _) (if s.verbose then _ else _)
  split
  · exact ((tandems_tell _).bind fun _ => hanswer) s y hy
  · exact hanswer s y hy

theorem tandems_attempt (ht : h.Tandem R h') (filename : String) (form wrapped : Form) :
    Tandems R (attempt h filename form wrapped) (attempt h' filename form wrapped) := by
  apply tandems_get
  intro s y hy
  apply (tandems_work _ s y hy).bind
  intro node
  apply (tandems_work _).bind
  intro outer
  apply (tandems_follow ht node).bind
  exact fun _ => tandems_deliver ht filename form _ _

theorem tandems_enterNamespace (form : Form) :
    Tandems R (enterNamespace form : Action σ Unit) (enterNamespace form) := by
  unfold enterNamespace
  split
  · exact tandems_modify (fun _ => rfl) fun _ _ => rfl
  · exact tandems_throw _

theorem evaluate_abreast (ht : h.Tandem R h') (filename : String) (form wrapped : Form)
    (hy : R s.host y) :
    Abreast R (evaluate h filename form wrapped s) (evaluate h' filename form wrapped (s.on y)) := by
  unfold evaluate
  rcases (tandems_attempt ht filename form wrapped s y hy).ends with
    ⟨f, s', y', hrun, hrun', hy'⟩ | ⟨value, s', y', hrun, hrun', hy'⟩
  · rw [hrun, hrun']
    exact ⟨y', rfl, hy'⟩
  · rw [hrun, hrun']
    exact ⟨y', rfl, hy'⟩

theorem output_on (put : Console → String → Console) (text : String) (s : Session σ) (y : τ) :
    (s.on y).output put text = ((s.output put text).1, (s.output put text).2.on y) := by
  unfold output
  split <;> rfl

theorem output_tell (put : Console → String → Console) (text : String) (s : Session σ) :
    ∃ c, (s.output put text).2 = s.tell c := by
  unfold output
  split
  · exact ⟨(put · text), rfl⟩
  · exact ⟨id, rfl⟩

theorem output_host (put : Console → String → Console) (text : String) (s : Session σ) :
    (s.output put text).2.host = s.host := by
  unfold output
  split <;> rfl

theorem evaluateAndKeep_abreast (ht : h.Tandem R h') (form : Form) (hy : R s.host y) :
    Abreast R (evaluateAndKeep h form s) (evaluateAndKeep h' form (s.on y)) := by
  obtain ⟨y', hrun, hy'⟩ := evaluate_abreast ht promptName form form.wrap hy
  unfold evaluateAndKeep
  rw [hrun]
  generalize evaluate h promptName form form.wrap s = r at hy'
  rcases r with ⟨_ | text, s'⟩
  · exact ⟨y', rfl, hy'⟩
  · dsimp only
    split
    · exact ⟨y', rfl, hy'⟩
    · exact ⟨y', rfl, hy'⟩

theorem evaluateAndPrint_abreast (ht : h.Tandem R h') (form : Form) (hy : R s.host y) :
    ∃ y', evaluateAndPrint h' form (s.on y) = (evaluateAndPrint h form s).on y' ∧
      R (evaluateAndPrint h form s).host y' := by
  obtain ⟨y', hrun, hy'⟩ := evaluateAndKeep_abreast ht form hy
  unfold evaluateAndPrint
  rw [hrun]
  dsimp only
  rw [output_on, output_host]
  exact ⟨y', rfl, hy'⟩

theorem evaluateStream_eq (h : Host σ) (filename : String) (stream : Form.Stream) :
    evaluateStream h filename stream =
      (match stream.next? with
      | none => pure ()
      | some (.error e, _) => throw (.read e)
      | some (.ok form, rest) => do
          modify fun s => (evaluate h filename form form s).2
          evaluateStream h filename rest) := by
  rw [evaluateStream]
  split <;> simp_all

theorem tandems_evaluateStream (ht : h.Tandem R h') (filename : String) (stream : Form.Stream) :
    Tandems R (evaluateStream h filename stream) (evaluateStream h' filename stream) := by
  rw [evaluateStream_eq, evaluateStream_eq]
  rcases hn : stream.next? with _ | ⟨e | form, rest⟩
  · exact tandems_pure _
  · exact tandems_throw _
  · apply Tandems.bind
    · intro s y hy
      obtain ⟨y', hrun, hy'⟩ := evaluate_abreast ht filename form form hy
      refine ⟨y', ?_, hy'⟩
      change (Except.ok (), (evaluate h' filename form form (s.on y)).2) = _
      rw [hrun]
      rfl
    · exact fun _ => tandems_evaluateStream ht filename rest
termination_by (stream.weight, stream.pending.length)
decreasing_by exact (Form.Stream.next?_shorter hn).lex

/-- An action that runs another one inside, and comes back to a namespace. -/
theorem tandems_inside {load : Action σ Unit} {load' : Action τ Unit} (h : Tandems R load load')
    (saved : String) :
    Tandems R
      (do
        let (result, s) := load.run (← get)
        set { s with ns := saved }
        match result with
        | .ok () => return
        | .error f => throw f)
      (do
        let (result, s) := load'.run (← get)
        set { s with ns := saved }
        match result with
        | .ok () => return
        | .error f => throw f) := by
  apply tandems_get
  intro s y hy
  rcases (h s y hy).ends with ⟨f, s', y', hrun, hrun', hy'⟩ | ⟨_, s', y', hrun, hrun', hy'⟩
  · rw [hrun, hrun']
    exact ⟨y', rfl, hy'⟩
  · rw [hrun, hrun']
    exact ⟨y', rfl, hy'⟩

theorem tandems_loadFile (ht : h.Tandem R h') (name : String) :
    Tandems R (loadFile h name) (loadFile h' name) := by
  apply tandems_get
  intro s y hy
  apply (tandems_work _ s y hy).bind
  intro path
  apply tandems_get
  intro s y hy
  have hload : Tandems R
      (do
        let text ← Action.work (Work.ofFiles path Files.readText)
        evaluateStream h name (.ofText text))
      (do
        let text ← Action.work (Work.ofFiles path Files.readText)
        evaluateStream h' name (.ofText text)) :=
    (tandems_work _).bind fun _ => tandems_evaluateStream ht name _
  have henter : Tandems R (modify fun s => { s with ns := Namespace.user })
      (modify fun s => { s with ns := Namespace.user }) :=
    tandems_modify (fun _ => rfl) fun _ _ => rfl
  exact (henter.bind fun _ => tandems_inside hload s.ns) s y hy

theorem perform_abreast {act : Form → Action σ Unit} {act' : Form → Action τ Unit}
    (h : ∀ form, Tandems R (act form) (act' form)) (args : List Form) (hy : R s.host y) :
    Abreast R (perform act args s) (perform act' args (s.on y)) := by
  unfold perform
  split
  · next form =>
    rcases (h form s y hy).ends with ⟨f, s', y', hrun, hrun', hy'⟩ | ⟨_, s', y', hrun, hrun', hy'⟩
    · rw [hrun, hrun']
      exact ⟨y', rfl, hy'⟩
    · rw [hrun, hrun']
      exact ⟨y', rfl, hy'⟩
  · exact ⟨y, rfl, hy⟩

theorem run_abreast (ht : h.Tandem R h') (handler : Handler) (args : List Form)
    (hy : R s.host y) : Abreast R (run h handler args s) (run h' handler args (s.on y)) := by
  unfold run
  cases handler with
  | enterNamespace => exact perform_abreast tandems_enterNamespace args hy
  | loadFile =>
      apply perform_abreast _ args hy
      intro form
      split
      · exact tandems_loadFile ht _
      · exact tandems_throw _
  | loadNamespace =>
      apply perform_abreast _ args hy
      exact fun form => (tandems_namespaceName form).bind fun _ => tandems_loadNamespace ht _
  | custom act => exact ⟨y, rfl, hy⟩

theorem dispatch_abreast (ht : h.Tandem R h') (cs : Commands) (form : Form) (hy : R s.host y) :
    Abreast R (dispatch h cs form s) (dispatch h' cs form (s.on y)) := by
  unfold dispatch
  split
  · next handler args _ =>
    obtain ⟨y', hrun, hy'⟩ := run_abreast ht handler args hy
    rw [hrun]
    generalize run h handler args s = r at hy'
    rcases r with ⟨_ | f | _, s'⟩
    · exact ⟨y', rfl, hy'⟩
    · exact ⟨y', rfl, hy'⟩
    · exact ⟨y', rfl, hy'⟩
  · obtain ⟨y', hrun, hy'⟩ := evaluateAndKeep_abreast ht form hy
    rw [hrun]
    generalize evaluateAndKeep h form s = r at hy'
    rcases r with ⟨text, s'⟩
    dsimp only at hy' ⊢
    rw [output_on, ← output_host Console.say text s'] at *
    generalize s'.output Console.say text = o at hy' ⊢
    rcases o with ⟨f | _, s''⟩
    · exact ⟨y', rfl, hy'⟩
    · exact ⟨y', rfl, hy'⟩

def Round.on (y : τ) : Round σ → Round τ
  | .ends result s => .ends result (s.on y)
  | .next rest s => .next rest (s.on y)

def Round.session : Round σ → Session σ
  | .ends _ s | .next _ s => s

theorem loop_eq (h : Host σ) (cs : Commands) (stream : Form.Stream) (s : Session σ) :
    loop h cs stream s =
      match round h cs stream s with
      | .ends result s => (result, s)
      | .next rest s => loop h cs rest s := by
  rw [loop]
  split
  · next hr => rw [hr]
  · next hr => rw [hr]

end Session

end Sumi
