import Sumi.Proofs.Analysis.Marks

namespace Sumi

namespace Table

variable {κ ν : Type} [BEq κ]

theorem erase_again (key : κ) (t : Table κ ν) : (t.erase key).erase key = t.erase key := by
  simp [erase]

theorem erase_comm (key other : κ) (t : Table κ ν) :
    (t.erase key).erase other = (t.erase other).erase key := by
  simp [erase, Bool.and_comm]

end Table

inductive Change
  | enter (ns : String)
  | begin (line : Option Nat) (ns name : String)
  | finish (ns name : String) (arity : Option Arity)
  | declare (ns : String) (requires uses : Table String String)

namespace Change

def space : Change → String
  | enter ns => ns
  | begin _ ns _ => ns
  | finish ns _ _ => ns
  | declare ns _ _ => ns

def clauses (ns : String) (c : Change) (old : Table String String × Table String String) :
    Table String String × Table String String :=
  match c with
  | begin _ other name => if other = ns then (old.1, old.2.erase name) else old
  | declare other requires uses => if other = ns then (requires, uses) else old
  | _ => old

def origin (ns name : String) (c : Change) (old : Option Origin) : Option Origin :=
  match c with
  | begin line other x => if other = ns ∧ x = name then some (.source line) else old
  | _ => old

def arity (ns name : String) (c : Change) (old : Option Arity) : Option Arity :=
  match c with
  | finish other x arity => if other = ns ∧ x = name then arity else old
  | _ => old

theorem clauses_congr {ns : String} {c : Change} {x y : Table String String × Table String String}
    (h : c.clauses ns x = c.clauses ns y) (d : Change) :
    c.clauses ns (d.clauses ns x) = c.clauses ns (d.clauses ns y) := by
  cases c with
  | begin line other name =>
      by_cases ho : other = ns
      · simp only [clauses, if_pos ho, Prod.mk.injEq] at h ⊢
        cases d with
        | begin line' other' name' =>
            by_cases hd : other' = ns
            · simp only [if_pos hd]
              rw [h.1, Table.erase_comm, h.2, Table.erase_comm]
              exact ⟨rfl, rfl⟩
            · simpa only [clauses, if_neg hd] using h
        | declare other' requires uses =>
            by_cases hd : other' = ns
            · simp only [if_pos hd, and_self]
            · simpa only [clauses, if_neg hd] using h
        | _ => exact h
      · simp only [clauses, if_neg ho] at h
        rw [h]
  | declare other requires uses =>
      by_cases ho : other = ns
      · simp only [clauses, if_pos ho]
      · simp only [clauses, if_neg ho] at h
        rw [h]
  | _ =>
      change x = y at h
      rw [h]

theorem clauses_again (ns : String) (c : Change) (x : Table String String × Table String String) :
    c.clauses ns (c.clauses ns x) = c.clauses ns x := by
  cases c with
  | begin line other name =>
      by_cases ho : other = ns
      · simp only [clauses, if_pos ho, Table.erase_again]
      · simp only [clauses, if_neg ho]
  | declare other requires uses =>
      by_cases ho : other = ns
      · simp only [clauses, if_pos ho]
      · simp only [clauses, if_neg ho]
  | _ => rfl

theorem clauses_of_ne {ns : String} {c : Change} (h : ns ≠ c.space)
    (x : Table String String × Table String String) : c.clauses ns x = x := by
  cases c with
  | begin line other name => exact if_neg (Ne.symm h)
  | declare other requires uses => exact if_neg (Ne.symm h)
  | _ => rfl

theorem origin_of_ne {ns : String} {c : Change} (h : ns ≠ c.space) (name : String)
    (x : Option Origin) : c.origin ns name x = x := by
  cases c with
  | begin line other y => exact if_neg fun he => h he.1.symm
  | _ => rfl

theorem arity_of_ne {ns : String} {c : Change} (h : ns ≠ c.space) (name : String)
    (x : Option Arity) : c.arity ns name x = x := by
  cases c with
  | finish other y arity => exact if_neg fun he => h he.1.symm
  | _ => rfl

theorem origin_cases (ns name : String) (c : Change) :
    (∃ new, ∀ x, c.origin ns name x = new) ∨ ∀ x, c.origin ns name x = x := by
  cases c with
  | begin line other x =>
      by_cases h : other = ns ∧ x = name
      · exact .inl ⟨some (.source line), fun _ => if_pos h⟩
      · exact .inr fun _ => if_neg h
  | _ => exact .inr fun _ => rfl

theorem arity_cases (ns name : String) (c : Change) :
    (∃ new, ∀ x, c.arity ns name x = new) ∨ ∀ x, c.arity ns name x = x := by
  cases c with
  | finish other x arity =>
      by_cases h : other = ns ∧ x = name
      · exact .inl ⟨arity, fun _ => if_pos h⟩
      · exact .inr fun _ => if_neg h
  | _ => exact .inr fun _ => rfl

end Change

/-- What a namespace table says, entry by entry. -/
structure Ledger where
  known : String → Bool
  clauses : String → Table String String × Table String String
  origin : String → String → Option Origin
  arity : String → String → Option Arity

namespace Ledger

def change (l : Ledger) (c : Change) : Ledger where
  known ns := ns == c.space || l.known ns
  clauses ns := c.clauses ns (l.clauses ns)
  origin ns name := c.origin ns name (l.origin ns name)
  arity ns name := c.arity ns name (l.arity ns name)

def changes (l : Ledger) (cs : List Change) : Ledger := cs.foldl change l

variable {l l' : Ledger} {c : Change} {cs ds : List Change} {ns name : String}

@[simp] theorem changes_nil (l : Ledger) : l.changes [] = l := rfl

@[simp] theorem changes_cons (l : Ledger) (c : Change) (cs : List Change) :
    l.changes (c :: cs) = (l.change c).changes cs := rfl

theorem changes_append (l : Ledger) (cs ds : List Change) :
    l.changes (cs ++ ds) = (l.changes cs).changes ds := List.foldl_append

theorem change_again (l : Ledger) (c : Change) : (l.change c).change c = l.change c := by
  have horigin (ns name : String) : c.origin ns name (c.origin ns name (l.origin ns name)) =
      c.origin ns name (l.origin ns name) := by
    rcases c.origin_cases ns name with ⟨new, h⟩ | h <;> simp only [h]
  have harity (ns name : String) : c.arity ns name (c.arity ns name (l.arity ns name)) =
      c.arity ns name (l.arity ns name) := by
    rcases c.arity_cases ns name with ⟨new, h⟩ | h <;> simp only [h]
  simp only [change, Change.clauses_again, horigin, harity, Bool.or_self_left]

theorem change_congr (h : l.change c = l'.change c) (d : Change) :
    (l.change d).change c = (l'.change d).change c := by
  simp only [change, mk.injEq, funext_iff] at h ⊢
  obtain ⟨hknown, hclauses, horigin, harity⟩ := h
  refine ⟨fun ns => ?_, fun ns => c.clauses_congr (hclauses ns) d, fun ns name => ?_,
    fun ns name => ?_⟩
  · rw [Bool.or_left_comm, hknown, Bool.or_left_comm]
  · have h := horigin ns name
    rcases c.origin_cases ns name with ⟨new, hc⟩ | hc
    · rw [hc, hc]
    · rw [hc, hc] at h ⊢
      rw [h]
  · have h := harity ns name
    rcases c.arity_cases ns name with ⟨new, hc⟩ | hc
    · rw [hc, hc]
    · rw [hc, hc] at h ⊢
      rw [h]

theorem changes_congr (h : l.change c = l'.change c) (cs : List Change) :
    (l.changes cs).change c = (l'.changes cs).change c := by
  induction cs generalizing l l' with
  | nil => exact h
  | cons d cs ih => exact ih (change_congr h d)

theorem changes_absorb (h : c ∈ cs) (l : Ledger) : (l.change c).changes cs = l.changes cs := by
  obtain ⟨before, behind, rfl⟩ := List.append_of_mem h
  rw [changes_append, changes_append, changes_cons, changes_cons,
    changes_congr (l.change_again c) before]

theorem changes_absorb_all (h : ∀ c ∈ ds, c ∈ cs) (l : Ledger) :
    (l.changes ds).changes cs = l.changes cs := by
  induction ds generalizing l with
  | nil => rfl
  | cons c ds ih =>
      rw [List.forall_mem_cons] at h
      rw [changes_cons, ih h.2, changes_absorb h.1]

theorem changes_twice (cs : List Change) (l : Ledger) : (l.changes cs).changes cs = l.changes cs :=
  changes_absorb_all (fun _ h => h) l

/-- No definition is taken back. -/
theorem isSome_origin_changes (h : (l.origin ns name).isSome = true) (cs : List Change) :
    ((l.changes cs).origin ns name).isSome = true := by
  induction cs generalizing l with
  | nil => exact h
  | cons c cs ih =>
      apply ih
      cases c with
      | begin line other x =>
          simp only [change, Change.origin]
          split
          · rfl
          · exact h
      | _ => exact h

end Ledger

namespace Analyzer

variable {a b : Analyzer} {ns name : String} {n : Namespace}

def ledger (a : Analyzer) : Ledger where
  known := a.namespaces.has
  clauses ns := ((a.namespaceOf ns).requires, (a.namespaceOf ns).uses)
  origin ns name := ((a.namespaceOf ns).defs.get? name).map (·.origin)
  arity ns name := ((a.namespaceOf ns).defs.get? name).bind (·.arity)

theorem ledger_of_namespaces (h : b.namespaces = a.namespaces) : b.ledger = a.ledger := by
  unfold ledger namespaceOf
  rw [h]

theorem isSome_origin (a : Analyzer) (ns name : String) :
    (a.ledger.origin ns name).isSome = (a.namespaceOf ns).defs.has name := Option.isSome_map

theorem ledger_enter (a : Analyzer) (ns : String) : (a.enter ns).ledger = a.ledger.change (.enter ns) := by
  have hknown (other : String) : (a.enter ns).namespaces.has other =
      (other == ns || a.namespaces.has other) := by
    unfold enter
    split
    · next h =>
        by_cases ho : other = ns
        · rw [ho, h, Bool.or_true]
        · rw [beq_false_of_ne ho, Bool.false_or]
    · exact Table.has_put ns other _ _
  unfold ledger Ledger.change
  simp only [namespaceOf_entered, Change.space, Change.clauses, Change.origin, Change.arity, ← hknown]

theorem ledger_setNamespace {c : Change} (hname : n.name = c.space)
    (hclauses : c.clauses c.space (a.ledger.clauses c.space) = (n.requires, n.uses))
    (horigin : ∀ x, c.origin c.space x (a.ledger.origin c.space x) = (n.defs.get? x).map (·.origin))
    (harity : ∀ x, c.arity c.space x (a.ledger.arity c.space x) = (n.defs.get? x).bind (·.arity)) :
    (a.setNamespace n).ledger = a.ledger.change c := by
  have hown : (a.setNamespace n).namespaceOf c.space = n := namespaceOf_setNamespace hname
  have helse {other : String} (ho : other ≠ c.space) :
      (a.setNamespace n).namespaceOf other = a.namespaceOf other :=
    namespaceOf_setNamespace_of_ne (hname.symm ▸ ho)
  unfold Ledger.change
  simp only [ledger, Ledger.mk.injEq, funext_iff] at hclauses horigin harity ⊢
  refine ⟨fun other => ?_, fun other => ?_, fun other x => ?_, fun other x => ?_⟩
  · rw [← hname]
    exact Table.has_put n.name other n a.namespaces
  · by_cases ho : other = c.space
    · rw [ho, hown, hclauses]
    · rw [helse ho, Change.clauses_of_ne ho]
  · by_cases ho : other = c.space
    · rw [ho, hown, horigin]
    · rw [helse ho, Change.origin_of_ne ho]
  · by_cases ho : other = c.space
    · rw [ho, hown, harity]
    · rw [helse ho, Change.arity_of_ne ho]

theorem ledger_begin (hc : a.Consistent) (line : Option Nat) (ns name : String) :
    (a.setNamespace (Analysis.recordDefinition line name (a.namespaceOf ns))).ledger =
      a.ledger.change (.begin line ns name) := by
  apply ledger_setNamespace (hc.namespaceOf_name ns)
  · exact if_pos rfl
  · intro x
    simp only [Change.origin, Change.space, Analysis.recordDefinition, Table.update, true_and]
    by_cases hx : x = name
    · rw [hx, if_pos rfl, Table.get?_put_self]
      rfl
    · rw [if_neg (Ne.symm hx), Table.get?_put_of_ne hx]
      rfl
  · intro x
    simp only [Change.arity, Change.space, Analysis.recordDefinition, Table.update]
    by_cases hx : x = name
    · rw [hx, Table.get?_put_self]
      change ((a.namespaceOf ns).defs.get? name).bind (·.arity) = _
      cases (a.namespaceOf ns).defs.get? name with
      | none => rfl
      | some d => rfl
    · rw [Table.get?_put_of_ne hx]
      rfl

theorem ledger_finish (hc : a.Consistent) (h : (a.ledger.origin ns name).isSome = true)
    (line : Option Nat) (arity : Option Arity) :
    (a.setNamespace { a.namespaceOf ns with
      defs := (a.namespaceOf ns).defs.update name ⟨.source line, none⟩
        (fun d => { d with arity := arity }) }).ledger = a.ledger.change (.finish ns name arity) := by
  rw [isSome_origin] at h
  obtain ⟨d, hd⟩ := Option.isSome_iff_exists.mp h
  apply ledger_setNamespace (hc.namespaceOf_name ns)
  · rfl
  · intro x
    simp only [Change.origin, Change.space, Table.update, ledger]
    by_cases hx : x = name
    · rw [hx, Table.get?_put_self, hd]
      rfl
    · rw [Table.get?_put_of_ne hx]
  · intro x
    simp only [Change.arity, Change.space, Table.update, ledger, true_and]
    by_cases hx : x = name
    · rw [hx, if_pos rfl, Table.get?_put_self]
      rfl
    · rw [if_neg (Ne.symm hx), Table.get?_put_of_ne hx]

theorem ledger_declare (hc : a.Consistent) (name : String) (requires uses : Table String String) :
    (a.setNamespace { a.namespaceOf name with requires, uses }).ledger =
      a.ledger.change (.declare name requires uses) := by
  apply ledger_setNamespace (hc.namespaceOf_name name)
  · exact if_pos rfl
  · exact fun _ => rfl
  · exact fun _ => rfl

end Analyzer

namespace Node

mutual

def changes : Node → List Change
  | .define line space name none => [.begin line space name]
  | .define line space name (some init) =>
      .begin line space name :: (init.changes ++ [.finish space name (Analysis.arityOf? init)])
  | .fn _ _ _ _ _ body => allChanges body
  | .cond _ test yes no => test.changes ++ (yes.changes ++ no.changes)
  | .block _ body => allChanges body
  | .bind _ _ inits body => allChanges inits ++ allChanges body
  | .assign _ _ _ value => value.changes
  | .throw _ value => value.changes
  | .call _ f args => f.changes ++ allChanges args
  | .vector _ items => allChanges items
  | .map _ keys values => allChanges keys ++ allChanges values
  | .ns _ name requires uses => [.declare name requires uses]
  | .const _ _ | .bound _ _ | .var _ _ _ => []

def allChanges : List Node → List Change
  | [] => []
  | node :: nodes => node.changes ++ allChanges nodes

end

theorem arityOf?_bare (x : Node) : Analysis.arityOf? x.bare = Analysis.arityOf? x := by
  cases x with
  | define line space name init => cases init <;> rfl
  | _ => rfl

mutual

theorem changes_bare (x : Node) : x.bare.changes = x.changes := by
  cases x with
  | const | bound | var | ns => rfl
  | define line space name init =>
      cases init with
      | none => rfl
      | some init => simp only [bare, changes, changes_bare init, arityOf?_bare]
  | fn line name self params rest body => simp only [bare, changes, allChanges_bareAll body]
  | cond line test yes no =>
      simp only [bare, changes, changes_bare test, changes_bare yes, changes_bare no]
  | block line body => simp only [bare, changes, allChanges_bareAll body]
  | bind line names inits body =>
      simp only [bare, changes, allChanges_bareAll inits, allChanges_bareAll body]
  | assign line space name value => simp only [bare, changes, changes_bare value]
  | throw line value => simp only [bare, changes, changes_bare value]
  | call line f args => simp only [bare, changes, changes_bare f, allChanges_bareAll args]
  | vector line items => simp only [bare, changes, allChanges_bareAll items]
  | map line keys values =>
      simp only [bare, changes, allChanges_bareAll keys, allChanges_bareAll values]
termination_by sizeOf x

theorem allChanges_bareAll (xs : List Node) : allChanges (bareAll xs) = allChanges xs := by
  cases xs with
  | nil => rfl
  | cons x xs => simp only [bareAll, allChanges, changes_bare x, allChanges_bareAll xs]
termination_by sizeOf xs

end

theorem changes_resembles {x y : Node} (h : x.bare = y.bare) : x.changes = y.changes := by
  rw [← changes_bare x, h, changes_bare]

end Node

def Mark.change? : Mark → Option Change
  | .begins line ns name => some (.begin line ns name)
  | .ends ns name arity => some (.finish ns name arity)
  | .declares ns requires uses => some (.declare ns requires uses)
  | .blank _ _ | .counts _ _ _ _ _ => none

@[simp] theorem Mark.change?_comp_within (ns name : String) (arity : Option Arity) :
    change? ∘ within ns name arity = change? := by
  funext m
  rw [Function.comp_apply]
  unfold within
  split <;> rfl

namespace Node

theorem changes_counted (line : Option Nat) (count : Nat) (f : Node) :
    (f.counted line count).filterMap Mark.change? = [] := by
  cases f <;> rfl

mutual

/-- The changes are among the steps of a node, in the same order. -/
theorem changes_marks (x : Node) : x.marks.filterMap Mark.change? = x.changes := by
  cases x with
  | const | bound | var | ns => rfl
  | define line space name init =>
      cases init with
      | none => rfl
      | some init =>
          simp [marks, changes, changes_marks init, Mark.change?]
  | fn line name self params rest body => simp only [marks, changes, allChanges_allMarks body]
  | cond line test yes no =>
      simp only [marks, changes, List.filterMap_append, changes_marks test, changes_marks yes,
        changes_marks no]
  | block line body => simp only [marks, changes, allChanges_allMarks body]
  | bind line names inits body =>
      simp only [marks, changes, List.filterMap_append, allChanges_allMarks inits,
        allChanges_allMarks body]
  | assign line space name value => simp only [marks, changes, changes_marks value]
  | throw line value => simp only [marks, changes, changes_marks value]
  | call line f args =>
      simp only [marks, changes, List.filterMap_append, changes_marks f, allChanges_allMarks args,
        changes_counted, List.append_nil]
  | vector line items => simp only [marks, changes, allChanges_allMarks items]
  | map line keys values =>
      simp only [marks, changes, List.filterMap_append, allChanges_allMarks keys,
        allChanges_allMarks values]
termination_by sizeOf x

theorem allChanges_allMarks (xs : List Node) :
    (allMarks xs).filterMap Mark.change? = allChanges xs := by
  cases xs with
  | nil => rfl
  | cons x xs =>
      simp only [allMarks, allChanges, List.filterMap_append, changes_marks x, allChanges_allMarks xs]
termination_by sizeOf xs

end

end Node

namespace Analysis

open Node

variable {α β : Type} {env : Env} {P : α → List Change → Prop} {Q : β → List Change → Prop}

def Makes (m : Analysis α) (P : α → List Change → Prop) : Prop :=
  ∀ a : Analyzer, a.Consistent → Leads m a
    (fun x b => b.Consistent ∧ ∃ cs, P x cs ∧ b.ledger = a.ledger.changes cs) (fun _ _ => True)

abbrev Tells (x : Node) (cs : List Change) : Prop := x.changes = cs

/-- From `a` to `b`, the table has changed by these steps. -/
def Enacted (a : Analyzer) (ms : List Mark) (b : Analyzer) : Prop :=
  a.Consistent → b.Consistent ∧ b.ledger = a.ledger.changes (ms.filterMap Mark.change?)

theorem Enacted.of_namespaces {a b : Analyzer} (h : b.namespaces = a.namespaces) {ms : List Mark}
    (hms : ms.filterMap Mark.change? = []) : Enacted a ms b := by
  intro hc
  rw [hms]
  refine ⟨?_, Analyzer.ledger_of_namespaces h⟩
  unfold Analyzer.Consistent
  rwa [h]

theorem Enacted.trans {a b c : Analyzer} {ms ns : List Mark} (h : Enacted a ms b)
    (h' : Enacted b ns c) : Enacted a (ms ++ ns) c := by
  intro ha
  obtain ⟨hb, hms⟩ := h ha
  obtain ⟨hc, hns⟩ := h' hb
  exact ⟨hc, by rw [hns, hms, List.filterMap_append, Ledger.changes_append]⟩

theorem enacted_along : Along Enacted where
  refl _ := .of_namespaces rfl rfl
  trans := .trans
  looks env sym a := by
    apply (leads_lookup env sym a).mono
    · exact fun _ _ h => ⟨[], rfl, .of_namespaces h.2.1 rfl⟩
    · exact fun _ _ h => h.elim
  counts env f count _ := leads_checkArity env f count fun _ hw =>
    ⟨_, rfl, .of_namespaces hw.1 (changes_counted env.line count f)⟩
  begins env sym a := by
    apply (leads_begin env sym a).mono
    · rintro _ b ⟨-, hb, -⟩
      refine ⟨_, rfl, fun hc => ⟨?_, ?_⟩⟩
      · unfold Analyzer.Consistent
        rw [hb]
        exact hc.setNamespace _
      · rw [Analyzer.ledger_of_namespaces hb]
        exact a.ledger_begin hc env.line env.ns sym.name
    · exact fun _ _ _ => trivial
  ends env name init a b c ms hbegin hinit := by
    refine leads_modify.mpr fun hc => ?_
    obtain ⟨hb, hbegin⟩ := hbegin hc
    obtain ⟨hc', hinit⟩ := hinit hb
    refine ⟨hc'.setNamespace _, ?_⟩
    -- whatever the value changes, the definition that was begun stays
    have hdefined : (c.ledger.origin env.ns name).isSome = true := by
      rw [hinit, hbegin]
      apply Ledger.isSome_origin_changes
      simp [Ledger.change, Change.origin, Mark.change?]
    rw [Analyzer.ledger_finish hc' hdefined, hinit, hbegin]
    simp [Ledger.changes_append, Mark.change?]
  blank line ns name a b hbegin := hbegin
  declares env args a := by
    apply (leads_declaration env args a).mono
    · rintro _ _ ⟨name, forms, requires, uses, -, -, rfl, rfl⟩
      exact ⟨_, rfl, fun hc => ⟨hc.setNamespace _, a.ledger_declare hc name requires uses⟩⟩
    · exact fun _ _ _ => trivial

theorem analyze_makes (env : Env) (form : Form) : Makes (analyze env form) Tells := by
  intro a hc
  apply (analyze_takes enacted_along env form a).mono
  · rintro x b ⟨_, rfl, h⟩
    obtain ⟨hb, hledger⟩ := h hc
    exact ⟨hb, _, rfl, by rw [hledger, changes_marks]⟩
  · exact fun _ _ _ => trivial

end Analysis

end Sumi
