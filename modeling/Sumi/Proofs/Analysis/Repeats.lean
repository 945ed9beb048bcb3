import Sumi.Proofs.Analysis.Changes
import Sumi.Proofs.Analysis.History
import Sumi.Proofs.Session.Twice

namespace Sumi

namespace Ledger

def defines (l : Ledger) (ns name : String) : Bool := (l.origin ns name).isSome

def Within (l l' : Ledger) : Prop := ∀ ns name, l.defines ns name = true → l'.defines ns name = true

variable {l l' m : Ledger} {cs : List Change}

theorem Within.trans (h : l.Within l') (h' : l'.Within m) : l.Within m :=
  fun ns name hd => h' ns name (h ns name hd)

theorem within_changes (l : Ledger) (cs : List Change) : l.Within (l.changes cs) :=
  fun _ _ h => isSome_origin_changes h cs

theorem defines_changes {ns name : String} : (l.changes cs).defines ns name = true ↔
    l.defines ns name = true ∨ ∃ line, .begin line ns name ∈ cs := by
  induction cs generalizing l with
  | nil => simp
  | cons c cs ih =>
      rw [changes_cons, ih]
      cases c with
      | begin line other x =>
          by_cases h : other = ns ∧ x = name
          · obtain ⟨rfl, rfl⟩ := h
            simp [defines, change, Change.origin]
          · have hno : ∀ line', ¬ Change.begin line' ns name = .begin line other x := by
              rintro line' ⟨⟩
              exact h ⟨rfl, rfl⟩
            simp [defines, change, Change.origin, h, hno]
      | _ => simp [defines, change, Change.origin]

theorem defines_again (h : l'.defines = m.defines) (hm : (l.changes cs).Within m) :
    (l'.changes cs).defines = m.defines := by
  funext ns name
  rw [Bool.eq_iff_iff, defines_changes, h]
  constructor
  · rintro (hd | hd)
    · exact hd
    · exact hm ns name (defines_changes.mpr (.inr hd))
  · exact .inl

theorem clauses_changes {ns : String} (h : l'.clauses ns = l.clauses ns) (cs : List Change) :
    (l'.changes cs).clauses ns = (l.changes cs).clauses ns := by
  induction cs generalizing l l' with
  | nil => exact h
  | cons c cs ih => exact ih (congrArg (c.clauses ns) h)

end Ledger

def Ledger.view (l : Ledger) (ns : String) : View where
  ns := ns
  requires := (l.clauses ns).1
  uses := (l.clauses ns).2
  own := l.defines ns
  library := l.defines Namespace.core

theorem Analyzer.view_ledger (a : Analyzer) (ns : String) : a.ledger.view ns = a.view ns := by
  have hdefines (other : String) : a.ledger.defines other = (a.namespaceOf other).defs.has :=
    funext fun name => a.isSome_origin other name
  rw [Ledger.view, hdefines, hdefines]
  rfl

def View.under (t : Analyzer) (v : View) : View :=
  { v with own := (t.namespaceOf v.ns).defs.has, library := (t.namespaceOf Namespace.core).defs.has }

/-- Every symbol of the forms, analyzed in order from namespace `ns` on, means at its place what it
means with the definitions of `t`. -/
def Lasting (t : Analyzer) (ns : String) : List Form → Analyzer → Prop
  | [], _ => True
  | form :: forms, a => (a.view ns).Agree ((a.view ns).under t) form.mentions ∧
      Lasting t (form.placeBehind ns) forms ((Analysis.topLevel ns form).run.run a).2

instance (v w : View) (ms : List Mention) : Decidable (v.Agree { w with ns := v.ns } ms) :=
  decidable_of_iff _ (View.resolve_eq_iff (w := { w with ns := v.ns }) rfl)

instance decidableLasting (t : Analyzer) (ns : String) (forms : List Form) (a : Analyzer) :
    Decidable (Lasting t ns forms a) :=
  match forms with
  | [] => inferInstanceAs (Decidable True)
  | form :: forms =>
      have := decidableLasting t (form.placeBehind ns) forms ((Analysis.topLevel ns form).run.run a).2
      have : Decidable ((a.view ns).Agree ((a.view ns).under t) form.mentions) :=
        inferInstanceAs (Decidable ((a.view ns).Agree { (a.view ns).under t with ns := (a.view ns).ns } _))
      inferInstanceAs (Decidable (_ ∧ _))

namespace Analysis

open Form

variable {a a' b t : Analyzer} {ns : String} {form : Form} {forms : List Form} {y : Node}
  {xs : List Node}

structure Abreast (a a' b b' : Analyzer) : Prop where
  left : b.Consistent
  right : b'.Consistent
  changes : ∃ cs, b.ledger = a.ledger.changes cs ∧ b'.ledger = a'.ledger.changes cs

theorem Abreast.trans {b' c c' : Analyzer} (h : Abreast a a' b b') (h' : Abreast b b' c c') :
    Abreast a a' c c' := by
  obtain ⟨cs, hb, hb'⟩ := h.changes
  obtain ⟨ds, hc, hc'⟩ := h'.changes
  refine ⟨h'.left, h'.right, cs ++ ds, ?_, ?_⟩
  · rw [hc, hb, Ledger.changes_append]
  · rw [hc', hb', Ledger.changes_append]

theorem Abreast.refl (hc : a.Consistent) (hc' : a'.Consistent) : Abreast a a' a a' :=
  ⟨hc, hc', [], rfl, rfl⟩

theorem Abreast.namespaces {b' c c' : Analyzer} (h : Abreast a a' b b')
    (hc : c.namespaces = b.namespaces) (hc' : c'.namespaces = b'.namespaces) :
    Abreast a a' c c' where
  left := by
    unfold Analyzer.Consistent
    rw [hc]
    exact h.left
  right := by
    unfold Analyzer.Consistent
    rw [hc']
    exact h.right
  changes := by
    rw [Analyzer.ledger_of_namespaces hc, Analyzer.ledger_of_namespaces hc']
    exact h.changes

theorem Abreast.defines (h : Abreast a a' b b') (hd : a'.ledger.defines = a.ledger.defines) :
    b'.ledger.defines = b.ledger.defines := by
  obtain ⟨cs, hcs, hcs'⟩ := h.changes
  funext space name
  rw [hcs, hcs', Bool.eq_iff_iff, Ledger.defines_changes, Ledger.defines_changes, hd]

theorem Abreast.within (h : Abreast a a' b b') : a.ledger.Within b.ledger := by
  obtain ⟨cs, hcs, -⟩ := h.changes
  rw [hcs]
  exact a.ledger.within_changes cs

theorem Abreast.entered (hc : a.Consistent) (hc' : a'.Consistent) (ns : String) :
    Abreast a a' (a.enter ns) (a'.enter ns) :=
  ⟨hc.enter ns, hc'.enter ns, [.enter ns], a.ledger_enter ns, a'.ledger_enter ns⟩

/-- A form at the top that is analyzed from two tables. The nodes are the same where every symbol
means the same. -/
theorem topLevel_repeats (hc : a.Consistent) (hc' : a'.Consistent)
    (hrun : (topLevel ns form).run.run a = (.ok y, b)) :
    ∃ y' b', (topLevel ns form).run.run a' = (.ok y', b') ∧ Abreast a a' b b' ∧
      y'.declares? = y.declares? ∧
      (form.isNamed = true → (a.view ns).Agree (a'.view ns) form.mentions → y' = y) := by
  obtain ⟨x, hx, rfl⟩ := topLevel_ok_iff.mp hrun
  obtain ⟨x', b', hx', hres, hb'⟩ := (analyze_alike (top ns) form).ok (hc.enter ns) (hc'.enter ns) hx
  obtain ⟨hb, _, rfl, hchanges⟩ := (leads_of_ok hx).mp (analyze_makes (top ns) form _ (hc.enter ns))
  obtain ⟨-, _, rfl, hchanges'⟩ :=
    (leads_of_ok hx').mp (analyze_makes (top ns) form _ (hc'.enter ns))
  rw [← Node.changes_resembles hres] at hchanges'
  refine ⟨_, b', topLevel_ok hx', (Abreast.entered hc hc' ns).trans ⟨hb, hb', _, hchanges, hchanges'⟩,
    ?_, fun hn hagree => ?_⟩
  · rw [declares?_settle, declares?_settle]
    exact hres.sameKind.symm
  · obtain ⟨hm, -, hsince⟩ := analyze_comes_top hc hn hx
    obtain ⟨hm', -, hsince'⟩ := analyze_comes_top hc' hn hx'
    have hmentions : x.mentions [] = x'.mentions [] := by
      have hplace : (a.view ns).ns = (a'.view ns).ns := rfl
      rw [hm, hm', (View.resolve_eq_iff hplace).mpr hagree]
    rw [hsince', ← hsince, ← Node.eq_of_bare hres hmentions]
    rfl

theorem ledger_declaration (hc : a.Consistent) (hns : form.isNs = true)
    (hrun : (topLevel ns form).run.run a = (.ok y, b)) :
    ∃ name clauses requires uses, form.declaration? = some (name, clauses) ∧
      clauses? clauses = some (requires, uses) ∧
      b.ledger = a.ledger.changes [.enter ns, .declare name requires uses] := by
  obtain ⟨name, clauses, requires, uses, hd, hclauses, -, -, rfl⟩ := declared_of_topLevel hns hrun
  refine ⟨name, clauses, requires, uses, hd, hclauses, ?_⟩
  exact ((a.enter ns).ledger_declare (hc.enter ns) name requires uses).trans
    (congrArg (Ledger.change · _) (a.ledger_enter ns))

theorem clauses_declared (hc : a.Consistent) (hc' : a'.Consistent) (hns : form.isNs = true)
    (hrun : (topLevel ns form).run.run a = (.ok y, b)) {y' : Node} {b' : Analyzer}
    (hrun' : (topLevel ns form).run.run a' = (.ok y', b')) :
    b'.ledger.clauses (form.placeBehind ns) = b.ledger.clauses (form.placeBehind ns) := by
  obtain ⟨name, clauses, requires, uses, hd, hclauses, hb⟩ := ledger_declaration hc hns hrun
  obtain ⟨_, _, requires', uses', hd', hclauses', hb'⟩ := ledger_declaration hc' hns hrun'
  cases hd.symm.trans hd'
  cases hclauses.symm.trans hclauses'
  have hplace : form.placeBehind ns = name := by rw [placeBehind, hd]; rfl
  have hown (l : Ledger) :
      (l.changes [.enter ns, .declare name requires uses]).clauses name = (requires, uses) := if_pos rfl
  rw [hplace, hb, hb', hown, hown]

theorem defines_declaration (hc : a.Consistent) (hns : form.isNs = true)
    (hrun : (topLevel ns form).run.run a = (.ok y, b)) : b.ledger.defines = a.ledger.defines := by
  obtain ⟨name, clauses, requires, uses, -, -, hb⟩ := ledger_declaration hc hns hrun
  funext space x
  rw [hb, Bool.eq_iff_iff, Ledger.defines_changes]
  simp

/-- The first form says what the namespace of the next one requires and uses, or that is known. -/
def Informed (ns : String) (forms : List Form) (a a' : Analyzer) : Prop :=
  a'.ledger.clauses ns = a.ledger.clauses ns ∨ ∃ first rest, forms = first :: rest ∧ first.isNs = true

theorem view_under (hclauses : a'.ledger.clauses ns = a.ledger.clauses ns)
    (ht : a'.ledger.defines = t.ledger.defines) : a'.view ns = (a.view ns).under t := by
  have hdefs (other : String) : (t.namespaceOf other).defs.has = t.ledger.defines other :=
    funext fun name => (t.isSome_origin other name).symm
  rw [← a'.view_ledger, ← a.view_ledger, View.under, hdefs, hdefs, Ledger.view, Ledger.view, hclauses,
    ht]

theorem agree_declaration (hns : form.isNs = true)
    (hrun : (topLevel ns form).run.run a = (.ok y, b)) (v w : View) : v.Agree w form.mentions := by
  obtain ⟨name, clauses, requires, uses, -, -, -, hm, -⟩ := declared_of_topLevel hns hrun
  rw [hm]
  intro before sym scope behind hsplit
  rcases before with _ | ⟨m, before⟩ <;> simp at hsplit

theorem placeBehind_eq (hrun : (topLevel ns form).run.run a = (.ok y, b)) :
    y.declares?.getD ns = form.placeBehind ns := by
  cases hns : form.isNs with
  | true =>
      obtain ⟨name, clauses, requires, uses, hd, -, hnode, -, -⟩ := declared_of_topLevel hns hrun
      rw [placeBehind, hd, hnode]
      rfl
  | false =>
      rw [placeBehind, declaration?_of_plain hns, topLevel_plain hns hrun]
      rfl

theorem clauses_behind (hc : a.Consistent) (hc' : a'.Consistent)
    (hrun : (topLevel ns form).run.run a = (.ok y, b)) {y' : Node} {b' : Analyzer}
    (hrun' : (topLevel ns form).run.run a' = (.ok y', b')) (habreast : Abreast a a' b b')
    (hi : Informed ns (form :: forms) a a') :
    b'.ledger.clauses (form.placeBehind ns) = b.ledger.clauses (form.placeBehind ns) := by
  cases hns : form.isNs with
  | true => exact clauses_declared hc hc' hns hrun hrun'
  | false =>
      obtain ⟨cs, hcs, hcs'⟩ := habreast.changes
      rcases hi with hi | ⟨first, rest, he, hfirst⟩
      · rw [placeBehind, declaration?_of_plain hns, hcs, hcs']
        exact Ledger.clauses_changes hi cs
      · cases he
        rw [hns] at hfirst
        cases hfirst

theorem nodes_repeats (hc : a.Consistent) (hc' : a'.Consistent)
    (hrun : (nodes ns forms).run.run a = (.ok xs, b)) :
    ∃ xs' b', (nodes ns forms).run.run a' = (.ok xs', b') ∧ Abreast a a' b b' ∧
      ((∀ form ∈ forms, form.isNamed = true) → Informed ns forms a a' →
        a'.ledger.defines = t.ledger.defines → b.ledger.Within t.ledger → Lasting t ns forms a →
        xs' = xs) := by
  induction forms generalizing ns a a' xs with
  | nil =>
      cases hrun
      exact ⟨[], a'.enter ns, rfl, .entered hc hc' ns, fun _ _ _ _ _ => rfl⟩
  | cons form forms ih =>
      obtain ⟨y, c, ys, hy, hys, rfl⟩ := nodes_cons_ok hrun
      obtain ⟨y', c', hy', habreast, hdeclares, hsame⟩ := topLevel_repeats hc hc' hy
      obtain ⟨ys', b', hys', habreast', hsames⟩ := ih habreast.left habreast.right hys
      rw [← hdeclares] at hys'
      refine ⟨y' :: ys', b', bind_ok hy' (bind_ok hys' rfl), habreast.trans habreast', ?_⟩
      intro hn hi ht hb hl
      rw [List.forall_mem_cons] at hn
      rw [Lasting, hy] at hl
      obtain ⟨cs, hcs, hcs'⟩ := habreast.changes
      have hwithin : c.ledger.Within t.ledger := habreast'.within.trans hb
      -- where the namespace is not known yet, the form is its declaration, in which nothing is
      -- resolved
      have hagree : (a.view ns).Agree (a'.view ns) form.mentions := by
        rcases hi with hi | ⟨first, rest, he, hns⟩
        · rw [view_under hi ht]
          exact hl.1
        · cases he
          exact agree_declaration hns hy _ _
      have hplace := placeBehind_eq hy
      rw [hplace] at hsames
      have hnext := clauses_behind hc hc' hy hy' habreast hi
      have hdefines : c'.ledger.defines = t.ledger.defines := by
        rw [hcs']
        exact Ledger.defines_again ht (hcs ▸ hwithin)
      rw [hsame hn.1 hagree, hsames hn.2 (.inl hnext) hdefines hb hl.2]

/-- Of the table that forms are analyzed with, only what it defines counts. -/
theorem lasting_congr (hc : a.Consistent) (hc' : a'.Consistent)
    (hrun : (nodes ns forms).run.run a = (.ok xs, b)) (hi : Informed ns forms a a')
    (hd : a'.ledger.defines = a.ledger.defines) :
    Lasting t ns forms a ↔ Lasting t ns forms a' := by
  induction forms generalizing ns a a' xs with
  | nil => exact Iff.rfl
  | cons form forms ih =>
      obtain ⟨y, c, ys, hy, hys, -⟩ := nodes_cons_ok hrun
      obtain ⟨y', c', hy', habreast, -⟩ := topLevel_repeats hc hc' hy
      have hdefines := habreast.defines hd
      have hview : (a.view ns).Agree ((a.view ns).under t) form.mentions ↔
          (a'.view ns).Agree ((a'.view ns).under t) form.mentions := by
        rcases hi with hi | ⟨first, rest, he, hns⟩
        · rw [← a.view_ledger, ← a'.view_ledger, Ledger.view, Ledger.view, hi, hd]
        · cases he
          exact iff_of_true (agree_declaration hns hy _ _) (agree_declaration hns hy _ _)
      have hnext := clauses_behind hc hc' hy hy' habreast hi
      rw [placeBehind_eq hy] at hys
      rw [Lasting, Lasting, hy, hy', hview, ih habreast.left habreast.right hys (.inl hnext) hdefines]

/-- A source compiles again, with the same changes. Where the table knew by the first time what it
knows now, or where that matters to no symbol, it compiles to the same module. -/
theorem compile_repeats (source : Option String) {m : Module} (hc : a.Consistent)
    (hc' : a'.Consistent) (hrun : (compile source ns forms).run.run a = (.ok m, b)) :
    ∃ m' b', (compile source ns forms).run.run a' = (.ok m', b') ∧ Abreast a a' b b' ∧
      ((∀ form ∈ forms, form.isNamed = true) → Informed ns forms a a' →
        a'.ledger.defines = t.ledger.defines → b.ledger.Within t.ledger → Lasting t ns forms a →
        m' = m) := by
  obtain ⟨xs, c, hxs, hm⟩ := bind_ok_inv hrun
  cases hm
  obtain ⟨xs', b', hxs', habreast, hsame⟩ := nodes_repeats hc hc' hxs
  refine ⟨_, b', bind_ok hxs' rfl, habreast, fun hn hi ht hb hl => ?_⟩
  rw [hsame hn hi ht hb hl]

end Analysis

end Sumi
