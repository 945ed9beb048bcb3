import Sumi.Proofs.Project.LoadOrder
import Sumi.Proofs.Session.Attempt

namespace Sumi.Session

open Project Analysis Machine

variable {s : Session (Option Engine)} {form : Form} {forms seen : List Form}
  {rs : List (Value × String)}

def next (s : Session (Option Engine)) (form : Form) : Session (Option Engine) :=
  evaluateAndPrint Host.inProcess form s

def typed (s : Session (Option Engine)) (forms : List Form) : Session (Option Engine) :=
  forms.foldl next s

def results (s : Session (Option Engine)) : List Form → List (Value × String)
  | [] => []
  | form :: forms => (s.next form).results forms ++ (s.result? form).toList

/-- Forms typed one after the other, each of which leaves the last results alone. -/
inductive Calm : Session (Option Engine) → List Form → Prop
  | nil (s : Session (Option Engine)) : Calm s []
  | cons {s : Session (Option Engine)} {form : Form} {forms : List Form}
      (first : Undisturbed s form) (rest : Calm (s.next form) forms) : Calm s (form :: forms)

/-- The session has the texts of the last results, and the host their values. -/
structure Lockstep (s : Session (Option Engine)) (results : List (Value × String)) : Prop where
  texts : s.history = (results.map Prod.snd).take memory
  values : ∃ e, s.host = some e ∧ Holds e.machine (results.map Prod.fst)

theorem remember_take (text : String) {texts : List String} (h : s.history = texts.take memory) :
    (s.remember text).history = (text :: texts).take memory := by
  unfold remember memory at *
  rw [h, List.take_succ_cons, List.take_succ_cons, List.take_take]
  rfl

theorem Attempted.failed {values : List Value} {s' : Session (Option Engine)}
    (h : Attempted s form values none s') : s.result? form = none := by
  cases hx : form.isExempt with
  | true => exact result_exempt hx
  | false => exact Option.map_eq_none_iff.mp (h.answer hx).symm

theorem Lockstep.still {s' : Session (Option Engine)} (h : Lockstep s rs) {r : Option String}
    (ha : Attempted s form (rs.map Prod.fst) r s') (hr : s.result? form = none) :
    Lockstep s' ((s.result? form).toList ++ rs) := by
  obtain ⟨e, he, hm⟩ := ha.holds
  rw [hr] at hm ⊢
  exact ⟨ha.history.trans h.texts, e, he, hm⟩

/-- What is shown, or cannot be, is no matter of either side. -/
theorem Lockstep.output (h : Lockstep s rs) (put : Console → String → Console) (text : String) :
    Lockstep (s.output put text).2 rs := by
  unfold Session.output
  split
  · exact ⟨h.texts, h.values⟩
  · exact h

/-- A form moves both sides or none. -/
theorem Lockstep.next (h : Lockstep s rs) (hu : Undisturbed s form) :
    Lockstep (s.next form) ((s.result? form).toList ++ rs) := by
  obtain ⟨e, he, hm⟩ := h.values
  have hleads := attempt_leads hu he hm
  have hrun : (attempt Host.inProcess promptName form form.wrap).run s =
    (attempt Host.inProcess promptName form form.wrap).run.run s := rfl
  rw [leads_iff] at hleads
  refine Lockstep.output (s := (evaluateAndKeep Host.inProcess form s).2) ?_ Console.say _
  unfold evaluateAndKeep evaluate
  rw [hrun]
  generalize (attempt Host.inProcess promptName form form.wrap).run.run s = r at hleads ⊢
  rcases r with ⟨f | _ | text, s'⟩
  · have hstill := h.still hleads hleads.failed
    exact ⟨hstill.texts, hstill.values⟩
  · have hstill := h.still hleads hleads.failed
    exact ⟨hstill.texts, hstill.values⟩
  · dsimp only
    cases hx : form.isExempt with
    | true =>
        have hstill := h.still hleads (result_exempt hx)
        rw [if_pos rfl]
        exact ⟨hstill.texts, hstill.values⟩
    | false =>
        obtain ⟨⟨v, t⟩, hv, rfl⟩ := Option.map_eq_some_iff.mp (hleads.answer hx).symm
        obtain ⟨e', he', hm'⟩ := hleads.holds
        rw [hv] at hm' ⊢
        rw [if_neg nofun]
        exact ⟨remember_take t (hleads.history.trans h.texts), e', he', hm'⟩

theorem Lockstep.typed (h : Lockstep s rs) (hc : Calm s forms) :
    Lockstep (s.typed forms) (s.results forms ++ rs) := by
  induction hc generalizing rs with
  | nil => exact h
  | cons hu _ ih =>
      have hrest := ih (h.next hu)
      unfold results
      rwa [List.append_assoc]

theorem Calm.of_prefix (h : Calm s forms) (hs : seen <+: forms) : Calm s seen := by
  induction h generalizing seen with
  | nil =>
      rw [List.prefix_nil.mp hs]
      exact .nil _
  | @cons s form forms hu _ ih =>
      cases seen with
      | nil => exact .nil _
      | cons first seen =>
          obtain ⟨rfl, hrest⟩ := List.cons_prefix_cons.mp hs
          exact .cons hu (ih hrest)

abbrev AllAlike (m m' : Machine) : Prop := ∀ attr ∈ slots, alike (core? m attr) (core? m' attr)

theorem AllAlike.kept {m m' : Machine} (h : AllAlike m m') : Kept m m' :=
  fun attr ha => eq_of_alike (h attr ha)

instance (ns : String) (a : Analyzer) : Decidable (Unaliased ns a) :=
  inferInstanceAs (Decidable (_ = _))

abbrev Checked (s : Session (Option Engine)) (form : Form) : Prop :=
  (form.isNs = false → ∀ p ∈ s.first? form, Unaliased s.ns p.2.analyzer ∧
    ∀ q ∈ second? s.ns form p.2, Unaliased s.ns q.2) ∧
  (form.isNs = true → ∀ r ∈ s.reading? form, ∀ e ∈ s.host, ∀ e' ∈
    ((follow Host.inProcess r.node).run.run (s.declaring r)).2.host,
      AllAlike e.machine e'.machine) ∧
  (form.isNs = false → ∀ p ∈ s.own? form, ∀ e ∈ s.host, AllAlike e.machine p.2) ∧
  (form.isExempt = false → ∀ p ∈ s.own? form, ∀ v ∈ p.1.toOption,
    ((p.2.push v).text true v).toOption.isSome)

theorem Checked.undisturbed (h : Checked s form) : Undisturbed s form := by
  obtain ⟨hunaliased, hloading, hevaluating, hprinting⟩ := h
  exact ⟨hunaliased, fun hns r hr e he e' he' => (hloading hns r hr e he e' he').kept,
    fun hns p hp e he => (hevaluating hns p hp e he).kept, hprinting⟩

def checked (s : Session (Option Engine)) : List Form → Bool
  | [] => true
  | form :: forms => decide (Checked s form) && (s.next form).checked forms

theorem calm_of_checked (h : s.checked forms = true) : Calm s forms := by
  induction forms generalizing s with
  | nil => exact .nil s
  | cons form forms ih =>
      obtain ⟨hform, hforms⟩ := (Bool.and_eq_true _ _).mp h
      exact .cons (of_decide_eq_true hform).undisturbed (ih hforms)

def begun : Session (Option Engine) where
  workspace := .ofSources [[], ["src"]] [(["src", "b.sumi"], "(ns b)\n(def x 1)")]
  host := some .fresh
  layout := plain

def typing : List Form :=
  [.int 1, .list [.sym "throw", .str "no"] (some 2),
    .list [.sym "ns", .sym "a", .list [.keyword (.plain "require"), .sym "b"] none] (some 3),
    .sym "*1", .int 2]

theorem typing_checked :
    begun.checked typing = true ∧ (begun.typed typing).history = ["2", "1"] := by
  rw [begun, Engine.fresh, initial_eq_spelled]
  decide +kernel

/-- A session keeps the texts and its host the values of the same last results, whatever is typed
and however much of it so far. -/
theorem results_lockstep (hhost : s.host = some .fresh) (hhistory : s.history = [])
    (hc : Calm s forms) (hs : seen <+: forms) : Lockstep (s.typed seen) (s.results seen) := by
  have hstart : Lockstep s [] := ⟨hhistory, .fresh, hhost, initial_holds⟩
  have hend := hstart.typed (hc.of_prefix hs)
  rwa [List.append_nil] at hend

theorem typing_lockstep : Calm begun typing ∧ (begun.typed typing).history = ["2", "1"] ∧
    Lockstep (begun.typed typing) (begun.results typing) :=
  have hcalm : Calm begun typing := calm_of_checked typing_checked.1
  ⟨hcalm, typing_checked.2, results_lockstep rfl rfl hcalm List.prefix_rfl⟩

/-- Gives the last result a value of its own, by the name of its attribute. -/
def setting : Form :=
  .list [.symbol (.qualified Namespace.core "__setattr__"), .str "_STAR_1", .int 5] (some 2)

def settingCode : Code := .call (.var Namespace.core "__setattr__") [.str "_STAR_1", .int 5]

def isSetting : Code → Bool
  | .call (.var ns attr) [.str name, .int n] =>
      ns == Namespace.core && attr == "__setattr__" && name == "_STAR_1" && n == 5
  | _ => false

theorem eq_of_isSetting {c : Code} (h : isSetting c = true) : c = settingCode := by
  unfold isSetting at h
  split at h
  · simp only [Bool.and_eq_true, beq_iff_eq] at h
    obtain ⟨⟨⟨rfl, rfl⟩, rfl⟩, rfl⟩ := h
    rfl
  · cases h

/-- Nothing is defined or assigned, yet the two sides come apart. -/
theorem setting_apart :
    (∃ r, (begun.typed [.int 1]).reading? setting = some r ∧ r.code = settingCode) ∧
    ¬ Lockstep (begun.typed [.int 1, setting]) (begun.results [.int 1, setting]) := by
  have hends : ((begun.typed [.int 1]).reading? setting).any (isSetting ·.code) = true ∧
      (∀ e ∈ (begun.typed [.int 1, setting]).host,
        alike (some (.int 5)) (core? e.machine "_STAR_2") = true) ∧
      alike (some (.int 1))
        (some (((begun.results [.int 1, setting]).map Prod.fst).getD 1 .nil)) = true := by
    decide +kernel
  obtain ⟨hread, hfive, hone⟩ := hends
  constructor
  · obtain ⟨r, hr, hcode⟩ := (Option.any_eq_true _ _).mp hread
    exact ⟨r, hr, eq_of_isSetting hcode⟩
  · rintro ⟨-, e, he, hm⟩
    have hsecond := hm.second
    rw [eq_of_alike (hfive e he), eq_of_alike hone] at hsecond
    cases hsecond

end Sumi.Session
