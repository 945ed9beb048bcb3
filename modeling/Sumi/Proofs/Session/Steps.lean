import Sumi.Proofs.Leads
import Sumi.Session.Evaluate

namespace Sumi.Session

open Project

variable {σ α : Type} {h : Host σ} {s : Session σ} {form : Form} {filename : String}

theorem leads_work {m : Work α} {Q : α → Session σ → Prop} {E : Fault → Session σ → Prop} :
    Leads (Action.work m) s Q E ↔
      Leads m s.workspace (fun a w => Q a { s with workspace := w })
        (fun f w => E f { s with workspace := w }) := by
  rw [leads_iff (m := m), Action.work, leads_bind, leads_get, run_apply]
  rcases m.run.run s.workspace with ⟨f | a, w⟩
  · rw [leads_bind, leads_set, leads_throw]
  · rw [leads_bind, leads_set, leads_pure]

theorem leads_ask {act : σ → Reply σ α} {Q : α → Session σ → Prop}
    {E : Fault → Session σ → Prop} {r : Reply σ α} (hr : act s.host = r) :
    Leads (Action.ask act) s Q E ↔
      match r.result with
      | .ok a => Q a ({ s with host := r.state }.tell (·.print r.printed))
      | .error f => E f ({ s with host := r.state }.tell (·.print r.printed)) := by
  unfold Action.ask
  rw [leads_bind, leads_get]
  dsimp only
  rw [hr, leads_bind, leads_set]
  cases r.result with
  | ok a => exact leads_pure
  | error f => exact leads_throw

theorem leads_tell {f : Console → Console} {Q : Unit → Session σ → Prop}
    {E : Fault → Session σ → Prop} : Leads (Action.tell f) s Q E ↔ Q () (s.tell f) := leads_modify

theorem print_nothing (c : Console) : c.print "" = c := by
  unfold Console.print
  rw [String.append_empty]

def showing (code : Code) (s : Session σ) : Session σ :=
  s.tell fun c => if s.verbose then c.say code.render else c

theorem leads_deliver {code outer : Code} {Q : Option String → Session σ → Prop}
    {E : Fault → Session σ → Prop} {r : Reply σ Outcome}
    (hr : h.evaluate filename (form.line?.getD 1) outer s.host = r) :
    Leads (deliver h filename form code outer) s Q E ↔
      let s' := { showing code s with host := r.state }.tell (·.print r.printed)
      match r.result with
      | .ok outcome => if outcome.status = .success then Q (some outcome.value) s'
          else Q none (s'.tell (showFailure form code outcome))
      | .error f => E f s' := by
  have hr' : h.evaluate filename (form.line?.getD 1) outer (showing code s).host = r := hr
  have hshow : Leads (deliver h filename form code outer) s Q E ↔ Leads (do
      let outcome ← Action.ask (h.evaluate filename (form.line?.getD 1) outer)
      if outcome.status = .success then return some outcome.value
      else
        Action.tell (showFailure form code outcome)
        return none) (showing code s) Q E := by
    unfold deliver showing
    rw [leads_bind, leads_get]
    cases s.verbose with
    | true => exact leads_bind.trans leads_tell
    | false => rfl
  rw [hshow, leads_bind, leads_ask hr']
  cases r.result with
  | error f => rfl
  | ok outcome =>
      dsimp only
      by_cases hs : outcome.status = .success
      · rw [if_pos hs, if_pos hs, leads_pure]
      · rw [if_neg hs, if_neg hs, leads_bind, leads_tell, leads_pure]

/-- The session is in the namespace and has these last results, and the host is in a state of `P`. -/
structure Stays (P : σ → Prop) (ns : String) (texts : List String) (s : Session σ) : Prop where
  ns : s.ns = ns
  history : s.history = texts
  host : P s.host

namespace Stays

variable {P : σ → Prop} {ns : String} {texts : List String}

theorem ask (hs : Stays P ns texts s) {act : σ → Reply σ α} (hact : ∀ x, P x → P (act x).state) :
    Leads (Action.ask act) s (fun _ => Stays P ns texts) (fun _ => Stays P ns texts) := by
  apply (leads_ask rfl).mpr
  have hstays : Stays P ns texts
      ({ s with host := (act s.host).state }.tell (·.print (act s.host).printed)) :=
    ⟨hs.ns, hs.history, hact _ hs.host⟩
  split <;> exact hstays

variable (hload : ∀ files provides url x, P x → P (h.load files provides url x).state)

include hload in
theorem loadNamespace (hs : Stays P ns texts s) (name : String) :
    Leads (loadNamespace h name) s (fun _ => Stays P ns texts) (fun _ => Stays P ns texts) := by
  rw [Session.loadNamespace, leads_bind, leads_get, leads_bind, leads_work]
  apply leads_any.mono
  · intro components w _
    apply leads_forM
    · intro c _ s hs
      split
      · rw [leads_bind, leads_get]
        exact hs.ask (hload _ _ _)
      · exact leads_pure.mpr hs
    · exact ⟨hs.ns, hs.history, hs.host⟩
  · exact fun _ _ _ => ⟨hs.ns, hs.history, hs.host⟩

include hload in
theorem follow (hs : Stays P ns texts s) (node : Node) :
    Leads (follow h node) s (fun _ => Stays P (node.declares?.getD ns) texts)
      (fun _ => Stays P (node.declares?.getD ns) texts) := by
  cases node with
  | ns line name requires uses =>
      rw [Session.follow, leads_bind, leads_modify]
      apply leads_forM
      · exact fun lib _ s hs => hs.loadNamespace hload lib
      · exact ⟨rfl, hs.history, hs.host⟩
  | _ => exact leads_pure.mpr hs

theorem deliver (hs : Stays P ns texts s) (form : Form) (code outer : Code)
    (heval : ∀ x, P x → P (h.evaluate filename (form.line?.getD 1) outer x).state) :
    Leads (deliver h filename form code outer) s (fun _ => Stays P ns texts)
      (fun _ => Stays P ns texts) := by
  apply (leads_deliver rfl).mpr
  have hhost := heval _ hs.host
  dsimp only
  split
  · split <;> exact ⟨hs.ns, hs.history, hhost⟩
  · exact ⟨hs.ns, hs.history, hhost⟩

end Stays

end Sumi.Session
