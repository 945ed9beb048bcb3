import Sumi.Project.Workspace
import Sumi.Proofs.Leads

namespace Sumi.Project.Work

variable {α : Type} {w : Workspace} {Q : α → Workspace → Prop} {E : Fault → Workspace → Prop}

theorem leads_analyze {m : Analysis α} : Leads (analyze m) w Q E ↔
    Leads m w.analyzer (fun x a => Q x (showWarnings { w with analyzer := a }))
      (fun c a => E (.analysis c) (showWarnings { w with analyzer := a })) := by
  rw [leads_iff (m := m), analyze, leads_bind, leads_get, run_apply]
  rcases m.run.run w.analyzer with ⟨c | x, a⟩
  · rw [leads_bind, leads_set, leads_throw]
  · rw [leads_bind, leads_set, leads_pure]

theorem leads_silently {m : Analysis α} : Leads (analyzeSilently m) w Q E ↔
    Leads m { w.analyzer with flags := .silent }
      (fun x a => Q x { w with analyzer := { a with flags := w.analyzer.flags } })
      (fun c a => E (.analysis c) { w with analyzer := { a with flags := w.analyzer.flags } }) := by
  rw [leads_iff (m := m), analyzeSilently, leads_bind, leads_get, leads_bind, leads_modify,
    leads_bind, leads_get, run_apply]
  rcases m.run.run { w.analyzer with flags := .silent } with ⟨c | x, a⟩
  · rw [leads_bind, leads_set, leads_throw]
  · rw [leads_bind, leads_set, leads_pure]

theorem analyze_ran {m : Analysis α} {w' : Workspace} {x : α}
    (h : (analyze m).run.run w = (.ok x, w')) : ∃ b, m.run.run w.analyzer = (.ok x, b) := by
  have hl : Leads (analyze m) w (fun x _ => ∃ b, m.run.run w.analyzer = (.ok x, b))
      (fun _ _ => True) := by
    apply leads_analyze.mpr
    apply leads_self.mono
    · exact fun x b hb => ⟨b, hb⟩
    · exact fun _ _ _ => trivial
  exact (leads_of_ok h).mp hl

theorem leads_ofFiles {path : String} {f : Files → String → Except FileFault α} :
    Leads (ofFiles path f) w (fun a w' => f w.files path = .ok a ∧ w = w')
      (fun _ w' => (∀ a, f w.files path ≠ .ok a) ∧ w = w') := by
  apply leads_bind.mpr
  apply leads_get.mpr
  cases f w.files path with
  | ok a => exact leads_pure.mpr ⟨rfl, rfl⟩
  | error e => exact leads_throw.mpr ⟨fun _ => nofun, rfl⟩

theorem leads_changeFiles {path : String} {f : Files → String → Except FileFault Files} :
    Leads (changeFiles path f) w
      (fun _ w' => ∃ files, f w.files path = .ok files ∧ w' = { w with files := files })
      (fun _ w' => (∀ files, f w.files path ≠ .ok files) ∧ w = w') := by
  apply leads_ofFiles.bind
  · rintro files _ ⟨hf, rfl⟩
    exact leads_modify.mpr ⟨files, hf, rfl⟩
  · rintro e w' h
    exact h

theorem leads_readForms {text : String} :
    Leads (readForms text) w (fun forms w' => Form.readAll text = .ok forms ∧ w = w')
      (fun _ w' => (∀ forms, Form.readAll text ≠ .ok forms) ∧ w = w') := by
  unfold readForms
  cases Form.readAll text with
  | ok forms => exact leads_pure.mpr ⟨rfl, rfl⟩
  | error e => exact leads_throw.mpr ⟨fun _ => nofun, rfl⟩

end Sumi.Project.Work
