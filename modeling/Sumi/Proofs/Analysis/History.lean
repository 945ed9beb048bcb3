import Sumi.Proofs.Analysis.Clauses
import Sumi.Proofs.Analysis.Declares
import Sumi.Proofs.Analysis.Rejection

namespace Sumi

/-- What later symbols depend on. -/
inductive Milestone
  /-- A declaration, with the names that its clauses take from elsewhere, in their order. -/
  | declared (ns : String) (taken : List (String × String))
  /-- The analysis of a definition begins. -/
  | begun (ns name : String)
  deriving DecidableEq

namespace Milestone

/-- The namespace that the latest declaration of `ns` takes a name from, unless a definition of the
name has begun since. -/
def referral? (ns name : String) : List Milestone → Option String
  | [] => none
  | .declared other taken :: past =>
      if other = ns then Table.get? name taken.reverse else referral? ns name past
  | .begun other x :: past => if other = ns ∧ x = name then none else referral? ns name past

def meaning (library : List String) (past : List Milestone) (ns name : String) : String :=
  match referral? ns name past with
  | some other => other
  | none =>
      if .begun ns name ∈ past then ns
      else if name ∈ library ∨ .begun Namespace.core name ∈ past then Namespace.core
      else ns

def begunBy (ns : String) : List Mention → List Milestone
  | [] => []
  | .defines name :: ms => begunBy ns ms ++ [.begun ns name]
  | _ :: ms => begunBy ns ms

variable {ns name other : String} {past since : List Milestone}

theorem referral?_append (hd : ∀ taken, .declared ns taken ∉ since) (hb : .begun ns name ∉ since) :
    referral? ns name (since ++ past) = referral? ns name past := by
  induction since with
  | nil => rfl
  | cons m since ih =>
      simp only [List.mem_cons, not_or] at hd hb
      have hrest := ih (fun taken => (hd taken).2) hb.2
      cases m with
      | declared other taken =>
          have hne : ¬ other = ns := by
            rintro rfl
            exact (hd taken).1 rfl
          rw [List.cons_append, referral?, if_neg hne, hrest]
      | begun other x =>
          have hne : ¬ (other = ns ∧ x = name) := by
            rintro ⟨rfl, rfl⟩
            exact hb.1 rfl
          rw [List.cons_append, referral?, if_neg hne, hrest]

/-- A name is taken from elsewhere as long as the latest declaration says so and it has not been
defined since. -/
theorem referral?_eq_some_iff : referral? ns name past = some other ↔
    ∃ since taken before, past = since ++ .declared ns taken :: before ∧
      (∀ taken, .declared ns taken ∉ since) ∧ .begun ns name ∉ since ∧
      Table.get? name taken.reverse = some other := by
  constructor
  · intro h
    -- the latest milestone comes first, so `since` grows at its head
    induction past with
    | nil => cases h
    | cons m past ih =>
        cases m with
        | declared ns' taken =>
            by_cases hns : ns' = ns
            · subst hns
              rw [referral?, if_pos rfl] at h
              exact ⟨[], taken, past, rfl, by simp, by simp, h⟩
            · rw [referral?, if_neg hns] at h
              obtain ⟨since, taken', before, rfl, hd, hb, hg⟩ := ih h
              refine ⟨.declared ns' taken :: since, taken', before, rfl, fun t => ?_, by simpa, hg⟩
              simp [Ne.symm hns, hd t]
        | begun ns' x =>
            by_cases hx : ns' = ns ∧ x = name
            · rw [referral?, if_pos hx] at h
              cases h
            · rw [referral?, if_neg hx] at h
              obtain ⟨since, taken, before, rfl, hd, hb, hg⟩ := ih h
              refine ⟨.begun ns' x :: since, taken, before, rfl, by simpa, ?_, hg⟩
              rw [List.mem_cons, not_or]
              refine ⟨fun he => hx ?_, hb⟩
              cases he
              exact ⟨rfl, rfl⟩
  · rintro ⟨since, taken, before, rfl, hd, hb, hg⟩
    rw [referral?_append hd hb, referral?, if_pos rfl, hg]

theorem mem_begunBy {m : Milestone} {ms : List Mention} :
    m ∈ begunBy ns ms ↔ ∃ name, m = .begun ns name ∧ .defines name ∈ ms := by
  induction ms with
  | nil => simp [begunBy]
  | cons first ms ih =>
      cases first with
      | defines name =>
          rw [begunBy, List.mem_append, ih, List.mem_singleton]
          constructor
          · rintro (⟨x, rfl, hx⟩ | rfl)
            · exact ⟨x, rfl, List.mem_cons_of_mem _ hx⟩
            · exact ⟨name, rfl, List.mem_cons_self⟩
          · rintro ⟨x, rfl, hx⟩
            rcases List.mem_cons.mp hx with he | hx
            · cases he
              exact .inr rfl
            · exact .inl ⟨x, rfl, hx⟩
      | _ => simp [begunBy, ih]

theorem referral?_begunBy (ms : List Mention) :
    referral? ns name (begunBy ns ms ++ past) =
      if .defines name ∈ ms then none else referral? ns name past := by
  induction ms generalizing past with
  | nil => rfl
  | cons m ms ih =>
      cases m with
      | defines x =>
          rw [begunBy, List.append_assoc, ih]
          by_cases hx : x = name
          · subst hx
            simp [referral?]
          · simp [referral?, hx, Ne.symm hx]
      | _ => simp [begunBy, ih]

end Milestone

open Milestone

namespace Form

def declaration? : Form → Option (String × List Form)
  | .list (head :: .symbol ⟨none, name⟩ :: clauses) _ =>
      if head.isSymbol "ns" then some (name, clauses) else none
  | _ => none

def placeBehind (ns : String) (form : Form) : String := (form.declaration?.map Prod.fst).getD ns

def Flat (form : Form) : Prop := form.isNs = false → ∀ m ∈ form.mentions, m.declared? = none

instance (form : Form) : Decidable form.Flat :=
  inferInstanceAs (Decidable (form.isNs = false → ∀ m ∈ form.mentions, m.declared? = none))

def milestones (ns : String) (form : Form) : List Milestone :=
  match form.declaration? with
  | some (name, clauses) => [.declared name (Analysis.clauseKeys "use" Analysis.useKeys clauses)]
  | none => begunBy ns form.mentions

def history (ns : String) : List Form → List Milestone
  | [] => []
  | form :: forms => history (form.placeBehind ns) forms ++ form.milestones ns

end Form

/-- The table `a` is what a history makes of one that has the library only. -/
structure Analyzer.Recalls (library : List String) (past : List Milestone) (a : Analyzer) : Prop where
  consistent : a.Consistent
  uses : ∀ ns name, (a.namespaceOf ns).uses.get? name = referral? ns name past
  defs : ∀ ns name, (a.namespaceOf ns).defs.has name = true ↔
    .begun ns name ∈ past ∨ ns = Namespace.core ∧ name ∈ library

namespace View

theorem getElem?_resolve (v : View) (ms ms' : List Mention) (m : Mention) :
    (v.resolve (ms ++ m :: ms'))[ms.length]? = some ((v.after ms).image m) := by
  have hlen : (v.resolve ms).length = ms.length := length_resolve
  rw [resolve_append, ← hlen, List.getElem?_append_right (Nat.le_refl _)]
  simp

end View

namespace Analyzer.Recalls

variable {library : List String} {past : List Milestone} {a b : Analyzer} {ns : String}
  {ms : List Mention}

theorem ofLibrary (library : List String) (flags : Flags) :
    (Analyzer.ofLibrary library flags).Recalls library [] := by
  have hcore : (Analyzer.ofLibrary library flags).namespaceOf Namespace.core =
      { name := Namespace.core, defs := library.map fun name => (name, ⟨.library, none⟩) } := rfl
  have hother {ns : String} (h : ns ≠ Namespace.core) :
      (Analyzer.ofLibrary library flags).namespaceOf ns = { name := ns } := by
    simp [Analyzer.ofLibrary, Analyzer.namespaceOf, Table.get?, Ne.symm h]
  refine ⟨Analyzer.ofLibrary_consistent _ _, fun ns name => ?_, fun ns name => ?_⟩
  · by_cases h : ns = Namespace.core
    · rw [h]
      rfl
    · rw [hother h]
      rfl
  · by_cases h : ns = Namespace.core
    · rw [h, hcore, Table.has_iff_mem_keys]
      simp [Table.keys]
    · rw [hother h]
      simp [Table.has, Table.get?, h]

theorem meaning (h : a.Recalls library past) (hm : ∀ m ∈ ms, m.declared? = none) (name : String) :
    ((a.view ns).after ms).meaning ⟨none, name⟩ =
      (Milestone.meaning library (begunBy ns ms ++ past) ns name, name) := by
  have hdeclared : ∀ m ∈ ms, m.declared? ≠ some (a.view ns).ns := fun m hmem => by simp [hm m hmem]
  have hreferral : ((a.view ns).after ms).uses.get? name =
      referral? ns name (begunBy ns ms ++ past) := by
    rw [View.uses_after hdeclared, referral?_begunBy]
    exact congrArg _ (h.uses ns name)
  have hbegun {other : String} : .begun other name ∈ begunBy ns ms ++ past ↔
      other = ns ∧ .defines name ∈ ms ∨ .begun other name ∈ past := by
    rw [List.mem_append, mem_begunBy]
    simp
  have hown : ((a.view ns).after ms).own name = true ↔
      .begun ns name ∈ begunBy ns ms ++ past ∨ ns = Namespace.core ∧ name ∈ library := by
    rw [View.own_after_iff, hbegun, or_assoc, ← h.defs ns name]
    simp [Analyzer.view]
  have hlibrary : ((a.view ns).after ms).library name = true ↔
      name ∈ library ∨ .begun Namespace.core name ∈ begunBy ns ms ++ past := by
    rw [View.library_after_iff, hbegun]
    have := h.defs Namespace.core name
    simp only [Analyzer.view, this]
    tauto
  have hns : ((a.view ns).after ms).ns = ns := View.after_ns
  generalize (a.view ns).after ms = v at hreferral hown hlibrary hns ⊢
  generalize begunBy ns ms ++ past = known at hreferral hown hlibrary ⊢
  unfold View.meaning Milestone.meaning
  simp only [hreferral, hns]
  cases referral? ns name known with
  | some other => rfl
  | none =>
      by_cases hb : .begun ns name ∈ known
      · simp [hown.mpr (.inl hb), hb]
      · by_cases hc : ns = Namespace.core
        · -- all that is in the library is the library's own
          simp [hc]
        · have hno : v.own name = false := by
            rw [← Bool.not_eq_true, hown]
            simp [hb, hc]
          simp only [hno, hb, hlibrary, Bool.false_eq_true, if_false]
          split <;> rfl

theorem entered (h : a.Recalls library past) (ns : String) : (a.enter ns).Recalls library past where
  consistent := h.consistent.enter ns
  uses other name := by rw [Analyzer.namespaceOf_entered, h.uses]
  defs other name := by rw [Analyzer.namespaceOf_entered, h.defs]

theorem behind (h : a.Recalls library past) (hm : ∀ m ∈ ms, m.declared? = none)
    (hb : Behind ns a ms b) : b.Recalls library (begunBy ns ms ++ past) := by
  have hother {other : String} (ho : other ≠ ns) : b.namespaceOf other = a.namespaceOf other := by
    unfold Analyzer.namespaceOf
    rw [hb.elsewhere other ho fun m hmem => by simp [hm m hmem]]
  refine ⟨hb.consistent, fun other name => ?_, fun other name => ?_⟩
  · by_cases ho : other = ns
    · subst ho
      have hu : ((a.view other).after ms).uses.get? name = _ :=
        View.uses_after (fun m hmem => by simp [hm m hmem]) name
      rw [← hb.view] at hu
      rw [referral?_begunBy]
      exact hu.trans (by rw [← h.uses]; rfl)
    · rw [hother ho, h.uses, referral?_append]
      · simp [mem_begunBy]
      · simp [mem_begunBy, ho]
  · rw [List.mem_append, mem_begunBy]
    by_cases ho : other = ns
    · subst ho
      have hown : ((a.view other).after ms).own name = true ↔ _ := View.own_after_iff
      rw [← hb.view] at hown
      refine hown.trans ?_
      rw [or_assoc, ← h.defs other name]
      simp [Analyzer.view]
    · rw [hother ho, h.defs]
      simp [ho]

theorem declare (h : a.Recalls library past) {name : String} {clauses : List Form}
    {requires uses : Table String String} (hc : Analysis.clauses? clauses = some (requires, uses)) :
    ((a.setNamespace { a.namespaceOf name with requires, uses }).note (.declared name)).Recalls
      library (.declared name (Analysis.clauseKeys "use" Analysis.useKeys clauses) :: past) := by
  have hname : ({ a.namespaceOf name with requires, uses } : Namespace).name = name :=
    h.consistent.namespaceOf_name name
  have hown : ((a.setNamespace { a.namespaceOf name with requires, uses }).note
      (.declared name)).namespaceOf name = { a.namespaceOf name with requires, uses } :=
    Analyzer.namespaceOf_setNamespace hname
  have hother {other : String} (ho : other ≠ name) :
      ((a.setNamespace { a.namespaceOf name with requires, uses }).note
        (.declared name)).namespaceOf other = a.namespaceOf other :=
    Analyzer.namespaceOf_setNamespace_of_ne (hname.symm ▸ ho)
  refine ⟨h.consistent.setNamespace _, fun other x => ?_, fun other x => ?_⟩
  · by_cases ho : other = name
    · subst ho
      rw [hown, referral?, if_pos rfl]
      exact (Analysis.shows_clauses hc).2.last x
    · rw [hother ho, referral?, if_neg (Ne.symm ho), h.uses]
  · rw [List.mem_cons]
    simp only [reduceCtorEq, false_or]
    by_cases ho : other = name
    · subst ho
      rw [hown]
      exact h.defs other x
    · rw [hother ho, h.defs]

end Analyzer.Recalls

namespace Analysis

open Form

variable {library : List String} {past : List Milestone} {a b : Analyzer} {ns x : String}
  {form : Form} {forms pre post : List Form} {node : Node} {xs : List Node}

theorem declared_of_topLevel (hns : form.isNs = true)
    (hrun : (topLevel ns form).run.run a = (.ok node, b)) :
    ∃ name clauses requires uses, form.declaration? = some (name, clauses) ∧
      clauses? clauses = some (requires, uses) ∧ node.declares? = some name ∧
      form.mentions = [.declares name requires uses] ∧
      b = ((a.enter ns).setNamespace { (a.enter ns).namespaceOf name with requires, uses }).note
        (.declared name) := by
  obtain ⟨args, line, rfl⟩ := list_of_isNs hns
  obtain ⟨y, hy, rfl⟩ := topLevel_ok_iff.mp hrun
  rw [declares?_settle]
  rw [analyze, analyzeList] at hy
  obtain ⟨name, clauses, requires, uses, rfl, hc, rfl, rfl⟩ :=
    (leads_of_ok hy).mp (leads_declaration _ args (a.enter ns))
  refine ⟨name, clauses, requires, uses, rfl, hc, rfl, ?_, rfl⟩
  simp [Form.mentions, Scope.form, Scope.list, Scope.special?, Special.ofName?, Scope.declaration, hc]

theorem declaration?_of_plain (hns : form.isNs = false) : form.declaration? = none := by
  unfold Form.declaration?
  split
  · rw [if_neg]
    exact ne_true_of_eq_false hns
  · rfl

/-- A form at the top adds its milestones, and moves on to the namespace that it declares. -/
theorem recalls_topLevel (h : a.Recalls library past) (hn : form.isNamed = true) (hf : form.Flat)
    (hrun : (topLevel ns form).run.run a = (.ok node, b)) :
    b.Recalls library (form.milestones ns ++ past) ∧
      node.declares?.getD ns = form.placeBehind ns := by
  cases hns : form.isNs with
  | true =>
      obtain ⟨name, clauses, requires, uses, hd, hc, hnode, -, rfl⟩ := declared_of_topLevel hns hrun
      rw [milestones, placeBehind, hd, hnode]
      exact ⟨(h.entered ns).declare hc, rfl⟩
  | false =>
      rw [milestones, placeBehind, declaration?_of_plain hns, topLevel_plain hns hrun]
      obtain ⟨-, hb⟩ := (leads_of_ok hrun).mp (topLevel_comes ns h.consistent hn)
      exact ⟨(h.entered ns).behind (hf hns) hb, rfl⟩

theorem nodes_cons_ok (hrun : (nodes ns (form :: forms)).run.run a = (.ok xs, b)) :
    ∃ node c rest, (topLevel ns form).run.run a = (.ok node, c) ∧
      (nodes (node.declares?.getD ns) forms).run.run c = (.ok rest, b) ∧ xs = node :: rest := by
  obtain ⟨node, c, hnode, hrun⟩ := bind_ok_inv hrun
  obtain ⟨rest, _, hrest, hrun⟩ := bind_ok_inv hrun
  cases hrun
  exact ⟨node, c, rest, hnode, hrest, rfl⟩

theorem recalls_nodes (h : a.Recalls library past) (hn : ∀ f ∈ forms, f.isNamed = true)
    (hf : ∀ f ∈ forms, f.Flat) (hrun : (nodes ns forms).run.run a = (.ok xs, b)) :
    b.Recalls library (history ns forms ++ past) := by
  induction forms generalizing ns a past xs with
  | nil =>
      cases hrun
      exact h.entered ns
  | cons form forms ih =>
      rw [List.forall_mem_cons] at hn hf
      obtain ⟨node, c, rest, hnode, hrest, rfl⟩ := nodes_cons_ok hrun
      obtain ⟨hc, hplace⟩ := recalls_topLevel h hn.1 hf.1 hnode
      rw [hplace] at hrest
      rw [history, List.append_assoc]
      exact ih hc hn.2 hf.2 hrest

/-- The histories of analyzers that go through sources, one after the other. -/
inductive Past (library : List String) : List Milestone → Analyzer → Prop
  | fresh (flags : Flags) : Past library [] (.ofLibrary library flags)
  | more {past : List Milestone} {a b : Analyzer} {ns : String} {forms : List Form} {xs : List Node}
      (before : Past library past a) (named : ∀ f ∈ forms, f.isNamed = true)
      (flat : ∀ f ∈ forms, f.Flat) (ran : (nodes ns forms).run.run a = (.ok xs, b)) :
      Past library (history ns forms ++ past) b

theorem Past.recalls (h : Past library past a) : a.Recalls library past := by
  induction h with
  | fresh flags => exact .ofLibrary library flags
  | more before named flat ran ih => exact recalls_nodes ih named flat ran

/-- A symbol that is no local, at any depth of any form of a source, means what the history up to it
says. -/
theorem symbol_follows_history {before behind : List Mention} {scope : Scope}
    (hpast : Past library past a) (named : ∀ f ∈ pre ++ form :: post, f.isNamed = true)
    (flat : ∀ f ∈ pre ++ form :: post, f.Flat)
    (hrun : (nodes ns (pre ++ form :: post)).run.run a = (.ok xs, b))
    (hm : form.mentions = before ++ .symbol ⟨none, x⟩ scope :: behind) (hx : x ∉ scope) :
    ∃ node current, xs[pre.length]? = some node ∧ current = pre.foldl placeBehind ns ∧
      (node.mentions [])[before.length]? =
        some (.var (meaning library (begunBy current before ++ history ns pre ++ past) current x) x) := by
  have h := hpast.recalls
  clear hpast
  induction pre generalizing ns a past xs with
  | nil =>
      obtain ⟨node, c, rest, hnode, -, rfl⟩ := nodes_cons_ok hrun
      refine ⟨node, ns, rfl, rfl, ?_⟩
      have hflat : ∀ m ∈ before, m.declared? = none := by
        cases hns : form.isNs with
        | true =>
            obtain ⟨name, clauses, requires, uses, -, -, -, hdeclares, -⟩ :=
              declared_of_topLevel hns hnode
            rw [hdeclares] at hm
            rcases before with _ | ⟨m, before⟩ <;> simp at hm
        | false =>
            intro m hmem
            exact flat form (by simp) hns m (by simp [hm, hmem])
      obtain ⟨hmentions, -⟩ :=
        (leads_of_ok hnode).mp (topLevel_comes ns h.consistent (named form (by simp)))
      rw [hmentions, hm, View.getElem?_resolve]
      simp [View.image, hx, h.meaning hflat, history]
  | cons first pre ih =>
      rw [List.cons_append, List.forall_mem_cons] at named flat
      obtain ⟨node, c, rest, hnode, hrest, rfl⟩ := nodes_cons_ok hrun
      obtain ⟨hc, hplace⟩ := recalls_topLevel h named.1 flat.1 hnode
      rw [hplace] at hrest
      obtain ⟨node', current, hget, hcurrent, hvar⟩ := ih named.2 flat.2 hrest hc
      refine ⟨node', current, hget, hcurrent, ?_⟩
      rw [hvar, history]
      simp only [List.append_assoc]

def taking : Form :=
  .list [.sym "ns", .sym "app", .list [.keyword (.plain "use"),
    .vector [.sym "b", .keyword (.plain "only"), .vector [.sym "inc"] none] none,
    .vector [.sym "c", .keyword (.plain "only"), .vector [.sym "inc"] none] none] none] none

def replacing : Form :=
  .list [.sym "do", .sym "inc", .list [.sym "def", .sym "inc", .sym "inc"] none] none

theorem replacing_follows_history : ∃ xs b node,
    (nodes Namespace.user [taking, replacing]).run.run (.ofLibrary ["inc"] {}) = (.ok xs, b) ∧
      xs[1]? = some node ∧ (node.mentions [])[0]? = some (.var "c" "inc") ∧
      (node.mentions [])[2]? = some (.var "app" "inc") := by
  obtain ⟨xs, b, hrun⟩ := ends_of_isOk (m := nodes Namespace.user [taking, replacing])
    (s := .ofLibrary ["inc"] {}) (by rfl)
  have named : ∀ f ∈ [taking, replacing], f.isNamed = true := by decide
  have flat : ∀ f ∈ [taking, replacing], f.Flat := by decide
  have hinc : replacing.mentions = [] ++ .symbol (.plain "inc") [] ::
      [.defines "inc", .symbol (.plain "inc") []] := by decide
  have hdef : replacing.mentions = [.symbol (.plain "inc") [], .defines "inc"] ++
      .symbol (.plain "inc") [] :: [] := by decide
  have hsplit : [taking, replacing] = [taking] ++ replacing :: [] := rfl
  rw [hsplit] at hrun named flat
  obtain ⟨node, _, hnode, rfl, hfirst⟩ :=
    symbol_follows_history (.fresh {}) named flat hrun hinc List.not_mem_nil
  obtain ⟨node', _, hnode', rfl, hlast⟩ :=
    symbol_follows_history (.fresh {}) named flat hrun hdef List.not_mem_nil
  cases hnode.symm.trans hnode'
  exact ⟨xs, b, node, hrun, hnode, hfirst, hlast⟩

end Analysis

end Sumi
