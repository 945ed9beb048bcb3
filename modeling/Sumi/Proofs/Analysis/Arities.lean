import Sumi.Form.Reader
import Sumi.Proofs.Analysis.Changes

namespace Sumi

def Warning.isMiscount : Warning → Bool
  | .argumentCount _ _ _ _ => true
  | _ => false

def Analyzer.miscounts (a : Analyzer) : List Warning := a.warnings.filter Warning.isMiscount

abbrev Arities := String → String → Option Arity

namespace Mark

def learn (known : Arities) : Mark → Arities
  | .ends ns name arity => fun other x => if ns = other ∧ name = x then arity else known other x
  | _ => known

def miscount (known : Arities) : Mark → List Warning
  | .counts line ns name count _ =>
      if (known ns name).any (fun arity => !arity.accepts count) then
        [.argumentCount count ns name line]
      else []
  | _ => []

def learned (known : Arities) (ms : List Mark) : Arities := ms.foldl learn known

def miscounts (known : Arities) : List Mark → List Warning
  | [] => []
  | m :: ms => m.miscount known ++ miscounts (m.learn known) ms

def stripped : Mark → Mark
  | .declares ns _ _ => .declares ns [] []
  | m => m

variable {known : Arities} {ns name : String} {arity : Option Arity} {ms more : List Mark}

theorem learned_append : learned known (ms ++ more) = learned (learned known ms) more :=
  List.foldl_append

theorem miscounts_append :
    miscounts known (ms ++ more) = miscounts known ms ++ miscounts (learned known ms) more := by
  induction ms generalizing known with
  | nil => rfl
  | cons m ms ih => rw [List.cons_append, miscounts, miscounts, ih, List.append_assoc]; rfl

theorem learn_within (ns name : String) (arity : Option Arity) (m : Mark) :
    (m.within ns name arity).learn known = m.learn known := by
  unfold within
  split <;> rfl

theorem miscount_within (ns name : String) (arity : Option Arity) (m : Mark) :
    (m.within ns name arity).miscount known = m.miscount known := by
  unfold within
  split <;> rfl

theorem miscounts_within (ns name : String) (arity : Option Arity) (ms : List Mark) :
    miscounts known (ms.map (within ns name arity)) = miscounts known ms := by
  induction ms generalizing known with
  | nil => rfl
  | cons m ms ih => rw [List.map_cons, miscounts, miscounts, miscount_within, learn_within, ih]

theorem miscounts_definition {line : Option Nat} : miscounts known
    (.begins line ns name :: (ms.map (within ns name arity) ++ [.ends ns name arity])) =
      miscounts known ms := by
  rw [miscounts, miscounts_append, miscounts_within]
  exact List.append_nil _

theorem learned_stripped (ms : List Mark) : learned known (ms.map stripped) = learned known ms := by
  induction ms generalizing known with
  | nil => rfl
  | cons m ms ih =>
      have hm : m.stripped.learn known = m.learn known := by cases m <;> rfl
      exact (congrArg (learned · (ms.map stripped)) hm).trans ih

theorem miscounts_stripped (ms : List Mark) :
    miscounts known (ms.map stripped) = miscounts known ms := by
  induction ms generalizing known with
  | nil => rfl
  | cons m ms ih =>
      have hm : m.stripped.learn known = m.learn known := by cases m <;> rfl
      have hw : m.stripped.miscount known = m.miscount known := by cases m <;> rfl
      rw [List.map_cons, miscounts, miscounts, hm, hw, ih]

theorem learned_changes (l : Ledger) (ms : List Mark) :
    (l.changes (ms.filterMap change?)).arity = learned l.arity ms := by
  induction ms generalizing l with
  | nil => rfl
  | cons m ms ih => cases m <;> exact ih _

theorem stripped_within (ns name : String) (arity : Option Arity) (ms : List Mark) :
    (ms.map (within ns name arity)).map stripped = (ms.map stripped).map (within ns name arity) := by
  rw [List.map_map, List.map_map]
  apply List.map_congr_left
  intro m _
  cases m with
  | counts line other x count own => cases own <;> rfl
  | _ => rfl

end Mark

namespace Node

open Mark

theorem counted_settle (events : List Event) (f : Node) (line : Option Nat) (count : Nat) :
    (f.settle events).1.counted line count = f.counted line count := by
  cases f with
  | define line space name init => cases init <;> rfl
  | _ => rfl

theorem arityOf?_settle (events : List Event) (x : Node) :
    Analysis.arityOf? (x.settle events).1 = Analysis.arityOf? x := by
  cases x with
  | define line space name init => cases init <;> rfl
  | _ => rfl

theorem length_settleAll (events : List Event) (xs : List Node) :
    (settleAll events xs).1.length = xs.length := by
  induction xs generalizing events with
  | nil => rfl
  | cons x xs ih => simp only [settleAll, List.length_cons, ih]

mutual

theorem marks_settle (events : List Event) (x : Node) :
    (x.settle events).1.marks.map stripped = x.marks.map stripped := by
  cases x with
  | const | bound | var | ns => rfl
  | define line space name init =>
      cases init with
      | none => rfl
      | some init =>
          simp only [settle, marks, List.map_cons, List.map_append, arityOf?_settle, stripped_within,
            marks_settle events init]
  | fn line name self params rest body => simp only [settle, marks, allMarks_settleAll events body]
  | cond line test yes no =>
      simp only [settle, marks, List.map_append, marks_settle _ test, marks_settle _ yes,
        marks_settle _ no]
  | block line body => simp only [settle, marks, allMarks_settleAll events body]
  | bind line names inits body =>
      simp only [settle, marks, List.map_append, allMarks_settleAll _ inits, allMarks_settleAll _ body]
  | assign line space name value => simp only [settle, marks, marks_settle _ value]
  | throw line value => simp only [settle, marks, marks_settle _ value]
  | call line f args =>
      simp only [settle, marks, List.map_append, marks_settle _ f, allMarks_settleAll _ args,
        counted_settle, length_settleAll]
  | vector line items => simp only [settle, marks, allMarks_settleAll _ items]
  | map line keys values =>
      simp only [settle, marks, List.map_append, allMarks_settleAll _ keys,
        allMarks_settleAll _ values]
termination_by sizeOf x

theorem allMarks_settleAll (events : List Event) (xs : List Node) :
    (allMarks (settleAll events xs).1).map stripped = (allMarks xs).map stripped := by
  cases xs with
  | nil => rfl
  | cons x xs =>
      simp only [settleAll, allMarks, List.map_append, marks_settle _ x, allMarks_settleAll _ xs]
termination_by sizeOf xs

end

end Node

namespace Analysis

open Mark Node

def Tallied (a : Analyzer) (ms : List Mark) (b : Analyzer) : Prop :=
  a.Consistent → b.flags = a.flags ∧ (a.flags.arity = true →
    b.miscounts = (Mark.miscounts a.ledger.arity ms).reverse ++ a.miscounts)

def Keeps (a b : Analyzer) : Prop := b.flags = a.flags ∧ b.miscounts = a.miscounts

instance : IsPreorder Analyzer Keeps where
  refl _ := ⟨rfl, rfl⟩
  trans _ _ _ h h' := ⟨h'.1.trans h.1, h'.2.trans h.2⟩

theorem Keeps.tallied {a b : Analyzer} (h : Keeps a b) {ms : List Mark}
    (hms : Mark.miscounts a.ledger.arity ms = []) : Tallied a ms b := by
  intro _
  rw [hms]
  exact ⟨h.1, fun _ => h.2⟩

theorem warnUndeclared_keeps (env : Env) (ns name : String) :
    Moves Keeps (warnUndeclared env ns name) := by
  apply moves_modify
  intro a
  split
  · exact ⟨rfl, rfl⟩
  · exact ⟨rfl, rfl⟩

theorem resolveVar_keeps (env : Env) (sym : Name) : Moves Keeps (resolveVar env sym) := by
  unfold resolveVar
  apply moves_get.bind
  intro a
  dsimp only
  repeat' split
  all_goals first
    | exact moves_pure _
    | exact (warnUndeclared_keeps env _ _).bind fun _ => moves_pure _

theorem beginDefinition_keeps (env : Env) (sym : Name) : Moves Keeps (beginDefinition env sym) := by
  intro a
  rw [beginDefinition]
  apply leads_bind.mpr
  apply leads_get.mpr
  dsimp only
  split
  · exact leads_throw.mpr ⟨rfl, rfl⟩
  · split
    · split
      · apply leads_bind.mpr
        apply leads_modify.mpr
        exact leads_modify.mpr ⟨rfl, rfl⟩
      · exact leads_modify.mpr ⟨rfl, rfl⟩
    · exact leads_modify.mpr ⟨rfl, rfl⟩

theorem arity_ledger (a : Analyzer) (ns name : String) :
    ((a.namespaces.get? ns).bind (·.defs.get? name)).bind (·.arity) = a.ledger.arity ns name := by
  change _ = ((a.namespaceOf ns).defs.get? name).bind (·.arity)
  unfold Analyzer.namespaceOf
  cases a.namespaces.get? ns <;> rfl

/-- The arguments of a call are counted against what the table knows. -/
theorem checkArity_tallies (env : Env) (f : Node) (count : Nat) :
    Takes Tallied (checkArity env f count) fun _ ms => ms = f.counted env.line count := by
  intro a
  refine leads_modify.mpr ⟨_, rfl, fun _ => ?_⟩
  cases f with
  | var line ns name =>
      dsimp only
      rw [arity_ledger, counted, Mark.miscounts, Mark.miscounts, miscount]
      split
      · next h =>
          rw [Bool.and_eq_true] at h
          rw [if_pos h.2]
          exact ⟨rfl, fun _ => rfl⟩
      · next h =>
          refine ⟨rfl, fun hf => ?_⟩
          rw [hf, Bool.true_and] at h
          rw [if_neg h]
          rfl
  | _ => exact ⟨rfl, fun _ => rfl⟩

theorem Tallied.trans {a b c : Analyzer} {ms ns : List Mark} (he : Enacted a ms b)
    (h : Tallied a ms b) (h' : Tallied b ns c) : Tallied a (ms ++ ns) c := by
  intro ha
  obtain ⟨hb, hledger⟩ := he ha
  obtain ⟨hf, hm⟩ := h ha
  obtain ⟨hf', hm'⟩ := h' hb
  refine ⟨hf'.trans hf, fun hflag => ?_⟩
  rw [hm' (by rw [hf, hflag]), hm hflag, hledger, learned_changes, miscounts_append,
    List.reverse_append, List.append_assoc]

theorem tallied_along : Along fun a ms b => Enacted a ms b ∧ Tallied a ms b where
  refl a := ⟨enacted_along.refl a, Keeps.tallied ⟨rfl, rfl⟩ rfl⟩
  trans h h' := ⟨h.1.trans h'.1, h.2.trans h.1 h'.2⟩
  looks env sym a := by
    apply ((enacted_along.looks env sym a).and (resolveVar_keeps env sym a)).mono
    · rintro _ b ⟨⟨_, rfl, he⟩, hk⟩
      exact ⟨[], rfl, he, hk.tallied rfl⟩
    · exact fun _ _ _ => trivial
  counts env f count a := by
    apply ((enacted_along.counts env f count a).and (checkArity_tallies env f count a)).mono
    · rintro _ b ⟨⟨_, rfl, he⟩, ⟨_, rfl, ht⟩⟩
      exact ⟨_, rfl, he, ht⟩
    · exact fun _ _ _ => trivial
  begins env sym a := by
    apply ((enacted_along.begins env sym a).and (beginDefinition_keeps env sym a)).mono
    · rintro _ b ⟨⟨_, rfl, he⟩, hk⟩
      exact ⟨_, rfl, he, hk.tallied rfl⟩
    · exact fun _ _ _ => trivial
  ends env name init a b c ms hbegin hinit := by
    have hdone := enacted_along.ends env name init a b c ms hbegin.1 hinit.1
    refine leads_modify.mpr ⟨leads_modify.mp hdone, fun hc => ?_⟩
    obtain ⟨hf, hm⟩ := (hbegin.2.trans hbegin.1 hinit.2) hc
    refine ⟨hf, fun hflag => (hm hflag).trans ?_⟩
    rw [miscounts_definition]
    rfl
  blank line ns name a b hbegin := ⟨enacted_along.blank line ns name a b hbegin.1, hbegin.2⟩
  declares env args a := by
    apply ((enacted_along.declares env args a).and (leads_declaration env args a)).mono
    · rintro x b ⟨⟨_, rfl, he⟩, ⟨name, forms, requires, uses, -, -, rfl, rfl⟩⟩
      exact ⟨_, rfl, he, Keeps.tallied ⟨rfl, rfl⟩ rfl⟩
    · exact fun _ _ _ => trivial

/-- What has come of forms at the top, by the steps of their nodes. -/
structure Judged (a : Analyzer) (ms : List Mark) (b : Analyzer) : Prop where
  consistent : b.Consistent
  flags : b.flags = a.flags
  arity : b.ledger.arity = learned a.ledger.arity ms
  miscounts : a.flags.arity = true →
    b.miscounts = (Mark.miscounts a.ledger.arity ms).reverse ++ a.miscounts

variable {a b c : Analyzer} {ms more : List Mark} {ns : String} {form : Form} {y : Node}

theorem Judged.trans (h : Judged a ms b) (h' : Judged b more c) : Judged a (ms ++ more) c where
  consistent := h'.consistent
  flags := h'.flags.trans h.flags
  arity := by rw [h'.arity, h.arity, learned_append]
  miscounts hflag := by
    rw [h'.miscounts (by rw [h.flags, hflag]), h.miscounts hflag, h.arity, miscounts_append,
      List.reverse_append, List.append_assoc]

theorem topLevel_judged (hc : a.Consistent) (hrun : (topLevel ns form).run.run a = (.ok y, b)) :
    Judged a y.marks b := by
  obtain ⟨x, hx, rfl⟩ := topLevel_ok_iff.mp hrun
  obtain ⟨_, rfl, he, ht⟩ := (leads_of_ok hx).mp (analyze_takes tallied_along _ form (a.enter ns))
  have hflags : (a.enter ns).flags = a.flags := by
    unfold Analyzer.enter
    split <;> rfl
  have hmiscounts : (a.enter ns).miscounts = a.miscounts := by
    unfold Analyzer.enter
    split <;> rfl
  have hknown : (a.enter ns).ledger.arity = a.ledger.arity := by
    rw [Analyzer.ledger_enter]
    rfl
  obtain ⟨hb, hledger⟩ := he (hc.enter ns)
  obtain ⟨hf, hm⟩ := ht (hc.enter ns)
  refine ⟨hb, hf.trans hflags, ?_, fun hflag => ?_⟩
  · rw [hledger, learned_changes, hknown, ← learned_stripped, ← marks_settle, learned_stripped]
  · rw [hm (by rw [hflags, hflag]), hknown, hmiscounts, ← miscounts_stripped, ← marks_settle,
      miscounts_stripped]

/-- Forms at the top are judged in their order, each in a namespace of its own. -/
theorem topLevels_judged {forms : List (String × Form)} {ys : List Node} (hc : a.Consistent)
    (hrun : (forms.mapM fun f => topLevel f.1 f.2).run.run a = (.ok ys, b)) :
    Judged a (allMarks ys) b := by
  induction forms generalizing a ys with
  | nil =>
      cases hrun
      exact ⟨hc, rfl, rfl, fun _ => rfl⟩
  | cons f forms ih =>
      rw [List.mapM_cons] at hrun
      obtain ⟨y, c, hy, hrun⟩ := bind_ok_inv hrun
      obtain ⟨ys, d, hys, hrun⟩ := bind_ok_inv hrun
      cases hrun
      have hfirst := topLevel_judged hc hy
      exact hfirst.trans (ih hfirst.consistent hys)

end Analysis

structure CallSite where
  /-- The steps before it, latest first. -/
  past : List Mark
  line : Option Nat
  ns : String
  name : String
  count : Nat
  /-- What the value of the definition of the var shows, if the call stands in it. -/
  own : Option (Option Arity)

namespace Mark

def call? (past : List Mark) : Mark → Option CallSite
  | .counts line ns name count own => some ⟨past, line, ns, name, count, own⟩
  | _ => none

def calls (past : List Mark) : List Mark → List CallSite
  | [] => []
  | m :: ms => (m.call? past).toList ++ calls (m :: past) ms

def recorded (past : List Mark) : Arities := past.foldr (fun m known => m.learn known) fun _ _ => none

def shown? : Mark → Option Arity
  | .ends _ _ arity => arity
  | _ => none

def closes (ns name : String) : Mark → Bool
  | .ends other x _ | .blank other x => other == ns && x == name
  | _ => false

end Mark

namespace CallSite

open Mark

variable {c : CallSite}

def warning (c : CallSite) : Warning := .argumentCount c.count c.ns c.name c.line

def warned (c : CallSite) : Bool :=
  (recorded c.past c.ns c.name).any fun arity => !arity.accepts c.count

def latest? (c : CallSite) : Option Mark := c.past.find? (closes c.ns c.name)

def inForce (c : CallSite) : Option Arity :=
  match c.own with
  | some arity => arity
  | none => c.latest?.bind shown?

end CallSite

namespace Mark

variable {ns name : String} {arity : Arity} {past : List Mark} {known : Arities} {m : Mark}

theorem learn_of_ne (h : ∀ arity, m ≠ .ends ns name arity) : m.learn known ns name = known ns name := by
  cases m with
  | ends other x arity =>
      apply if_neg
      rintro ⟨rfl, rfl⟩
      exact h arity rfl
  | _ => rfl

/-- What is known of a var is what its latest definition with a value shows. -/
theorem recorded_eq_some_iff : recorded past ns name = some arity ↔
    ∃ since before, past = since ++ .ends ns name (some arity) :: before ∧
      ∀ later, .ends ns name later ∉ since := by
  induction past with
  | nil => simp [recorded]
  | cons m past ih =>
      change m.learn (recorded past) ns name = some arity ↔ _
      by_cases hm : ∃ shown, m = .ends ns name shown
      · obtain ⟨shown, rfl⟩ := hm
        rw [show (ends ns name shown).learn (recorded past) ns name = shown from if_pos ⟨rfl, rfl⟩]
        constructor
        · rintro rfl
          exact ⟨[], past, rfl, by simp⟩
        · rintro ⟨_ | ⟨m, since⟩, before, he, hno⟩
          · cases he
            rfl
          · cases he
            exact absurd List.mem_cons_self (hno shown)
      · rw [learn_of_ne fun shown he => hm ⟨shown, he⟩, ih]
        constructor
        · rintro ⟨since, before, rfl, hno⟩
          refine ⟨m :: since, before, rfl, fun later hl => ?_⟩
          rcases List.mem_cons.mp hl with he | hl
          · exact hm ⟨later, he.symm⟩
          · exact hno later hl
        · rintro ⟨_ | ⟨n, since⟩, before, he, hno⟩
          · cases he
            exact absurd ⟨_, rfl⟩ hm
          · cases he
            exact ⟨since, before, rfl, fun later hl => hno later (List.mem_cons_of_mem _ hl)⟩

/-- Unless the latest definition has no value, this is the latest one of all. -/
theorem recorded_of_find? (h : past.find? (closes ns name) ≠ some (.blank ns name)) :
    recorded past ns name = (past.find? (closes ns name)).bind shown? := by
  induction past with
  | nil => rfl
  | cons m past ih =>
      change m.learn (recorded past) ns name = _
      rw [List.find?_cons] at h ⊢
      cases hm : m.closes ns name with
      | false =>
          rw [hm] at h
          rw [learn_of_ne, ih h]
          rintro shown rfl
          simp [closes] at hm
      | true =>
          rw [hm] at h
          cases m with
          | ends other x shown =>
              simp only [closes, Bool.and_eq_true, beq_iff_eq] at hm
              exact if_pos hm
          | blank other x =>
              simp only [closes, Bool.and_eq_true, beq_iff_eq] at hm
              obtain ⟨rfl, rfl⟩ := hm
              exact absurd rfl h
          | begins | declares | counts => cases hm

/-- The warnings are those of the calls that are warned of. -/
theorem miscounts_calls (past ms : List Mark) : miscounts (recorded past) ms =
    ((calls past ms).filter CallSite.warned).map CallSite.warning := by
  induction ms generalizing past with
  | nil => rfl
  | cons m ms ih =>
      rw [miscounts, calls, List.filter_append, List.map_append, ← ih (m :: past)]
      apply congrArg (· ++ _)
      cases m with
      | counts line ns name count own =>
          by_cases h : (recorded past ns name).any (fun arity => !arity.accepts count) = true
          · simp [miscount, call?, CallSite.warned, CallSite.warning, h]
          · simp [miscount, call?, CallSite.warned, h]
      | _ => rfl

end Mark

namespace CallSite

open Mark

variable {c : CallSite}

def rejected (c : CallSite) : Prop := ∃ arity, c.inForce = some arity ∧ arity.accepts c.count = false

instance : Decidable c.rejected :=
  decidable_of_iff ((c.inForce.any fun arity => !arity.accepts c.count) = true)
    (by simp [rejected, Option.any_eq_true])

theorem warned_iff : c.warned = true ↔
    ∃ arity, recorded c.past c.ns c.name = some arity ∧ arity.accepts c.count = false := by
  simp [warned, Option.any_eq_true]

/-- What a call is judged by is in force, outside the definition of the var and unless the latest
definition has no value. -/
theorem recorded_eq_inForce (hown : c.own = none) (h : c.latest? ≠ some (.blank c.ns c.name)) :
    recorded c.past c.ns c.name = c.inForce := by
  rw [recorded_of_find? h]
  unfold inForce
  rw [hown]
  rfl

end CallSite

namespace Analysis

open Mark

def topLevels (forms : List (String × Form)) : Analysis (List Node) :=
  forms.mapM fun f => topLevel f.1 f.2

theorem arity_ofLibrary (library : List String) (flags : Flags) :
    (Analyzer.ofLibrary library flags).ledger.arity = recorded [] := by
  funext ns name
  change (((Analyzer.ofLibrary library flags).namespaceOf ns).defs.get? name).bind (·.arity) = none
  by_cases h : ns = Namespace.core
  · rw [h]
    change (Table.get? name (library.map fun name => (name, Definition.mk .library none))).bind _ = _
    induction library with
    | nil => rfl
    | cons other library ih =>
        rw [List.map_cons, Table.get?]
        split
        · rfl
        · exact ih
  · have hempty : (Analyzer.ofLibrary library flags).namespaceOf ns = { name := ns } := by
      simp [Analyzer.ofLibrary, Analyzer.namespaceOf, Table.get?, Ne.symm h]
    rw [hempty]
    rfl

/-- Where forms are analyzed in order with a result, the warnings about numbers of arguments are
those of the calls that the latest definition with a value does not accept. A call outside the
definition of its own var is warned of whenever the definition in force does not accept it; and only
then, unless the latest definition has no value. -/
theorem calls_judged (library : List String) (flags : Flags) (hflag : flags.arity = true)
    (forms : List (String × Form)) {ys : List Node} {b : Analyzer}
    (hrun : (topLevels forms).run.run (.ofLibrary library flags) = (.ok ys, b)) :
    b.miscounts.reverse =
        ((calls [] (Node.allMarks ys)).filter CallSite.warned).map CallSite.warning ∧
    ∀ c ∈ calls [] (Node.allMarks ys),
      (c.warned = true ↔ ∃ arity since before,
        c.past = since ++ .ends c.ns c.name (some arity) :: before ∧
          (∀ later, .ends c.ns c.name later ∉ since) ∧ arity.accepts c.count = false) ∧
      (c.own = none → c.rejected → c.warned = true) ∧
      (c.own = none → c.latest? ≠ some (.blank c.ns c.name) → c.warned = true → c.rejected) := by
  refine ⟨?_, fun c _ => ⟨?_, ?_, fun hown hlatest => ?_⟩⟩
  · have hjudged := topLevels_judged (Analyzer.ofLibrary_consistent library flags) hrun
    have hnone : (Analyzer.ofLibrary library flags).miscounts = [] := rfl
    rw [hjudged.miscounts hflag, hnone, List.append_nil, List.reverse_reverse, arity_ofLibrary,
      miscounts_calls]
  · rw [CallSite.warned_iff]
    constructor
    · rintro ⟨arity, hknown, hcount⟩
      obtain ⟨since, before, hpast, hno⟩ := recorded_eq_some_iff.mp hknown
      exact ⟨arity, since, before, hpast, hno, hcount⟩
    · rintro ⟨arity, since, before, hpast, hno, hcount⟩
      exact ⟨arity, recorded_eq_some_iff.mpr ⟨since, before, hpast, hno⟩, hcount⟩
  · rintro hown ⟨arity, hforce, hcount⟩
    refine CallSite.warned_iff.mpr ⟨arity, ?_, hcount⟩
    by_cases hlatest : c.latest? = some (.blank c.ns c.name)
    · rw [CallSite.inForce, hown, hlatest] at hforce
      cases hforce
    · rw [CallSite.recorded_eq_inForce hown hlatest, hforce]
  · rw [CallSite.warned_iff, CallSite.recorded_eq_inForce hown hlatest]
    exact id

def ofText (text : String) : List (String × Form) :=
  ((Form.readAll text).toOption.getD []).map fun form => (Namespace.user, form)

/-- A call that the latest definition accepts, and one that it does not. -/
theorem redefined_judged : ∃ ys b,
    (topLevels (ofText "(defn f [x] x)\n(f 1 2)\n(defn f [x & more] x)\n(f 1 2)")).run.run
      (.ofLibrary [] {}) = (.ok ys, b) ∧
    b.miscounts.reverse =
      ((calls [] (Node.allMarks ys)).filter CallSite.warned).map CallSite.warning := by
  obtain ⟨ys, b, hrun⟩ := ends_of_isOk (m := topLevels (ofText
    "(defn f [x] x)\n(f 1 2)\n(defn f [x & more] x)\n(f 1 2)")) (s := .ofLibrary [] {})
    (by decide +kernel)
  exact ⟨ys, b, hrun, (calls_judged [] {} rfl _ hrun).1⟩

def former : String := "(def f (fn [x] x))\n(def f (fn [x y] (f x y)))\n(def f)\n(f 1)"

/-- The call is warned of, though the definition in force does not reject it. -/
abbrev Misjudged (b : Analyzer) (c : CallSite) : Prop := ¬ c.rejected ∧ c.warning ∈ b.miscounts

theorem former_tried :
    let r := (topLevels (ofText former)).run.run (.ofLibrary [] {})
    r.1.isOk = true ∧
      (∃ c ∈ calls [] (Node.allMarks (r.1.toOption.getD [])),
        c.own = some (some ⟨2, false⟩) ∧ Misjudged r.2 c) ∧
      ∃ c ∈ calls [] (Node.allMarks (r.1.toOption.getD [])), c.own = none ∧ Misjudged r.2 c := by
  decide +kernel

/-- Calls are warned of inside the definition of their own var, and outside of it, that the definition
in force does not reject. -/
theorem former_judges : ∃ ys b,
    (topLevels (ofText former)).run.run (.ofLibrary [] {}) = (.ok ys, b) ∧
    (∃ c ∈ calls [] (Node.allMarks ys), c.own = some (some ⟨2, false⟩) ∧ Misjudged b c) ∧
    ∃ c ∈ calls [] (Node.allMarks ys), c.own = none ∧ Misjudged b c := by
  obtain ⟨hok, hcalls⟩ := former_tried
  obtain ⟨ys, b, hrun⟩ := ends_of_isOk hok
  rw [hrun] at hcalls
  exact ⟨ys, b, hrun, hcalls⟩

end Analysis

end Sumi
