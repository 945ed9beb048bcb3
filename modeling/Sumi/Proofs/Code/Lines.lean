import Sumi.Proofs.Analysis.History
import Sumi.Proofs.Form.Named
import Sumi.Proofs.Text.Spares

namespace Sumi

open Text

namespace Code

mutual

/-- The names that stand in the text of a code as they are. -/
def spelled : Code → List String
  | .list items | .vector items | .last items => allSpelled items
  | .map entries => entriesSpelled entries
  | .bound s => [s]
  | .var _ attr => [attr]
  | .define _ _ value | .assign _ _ value | .throw value => value.spelled
  | .lambda params rest body => params ++ rest.toList ++ body.spelled
  | .recursive _ self params rest body => self :: (params ++ rest.toList ++ body.spelled)
  | .bind name init body => name :: (init.spelled ++ body.spelled)
  | .call f args => f.spelled ++ allSpelled args
  | .cond test yes no => test.spelled ++ yes.spelled ++ no.spelled
  | _ => []

def allSpelled : List Code → List String
  | [] => []
  | c :: cs => c.spelled ++ allSpelled cs

def entriesSpelled : List (Code × Code) → List String
  | [] => []
  | (k, v) :: es => k.spelled ++ v.spelled ++ entriesSpelled es

end

theorem commas_spares {parts : List String} (h : ∀ part ∈ parts, Spares lineEnds part) :
    Spares lineEnds (commas parts) :=
  Spares.intercalate (by decide) h

theorem lambdaHead_spares {params : List String} {rest : Option String}
    (h : ∀ s ∈ params ++ rest.toList, Spares lineEnds s) :
    Spares lineEnds (lambdaHead params rest) := by
  have hall : ∀ s ∈ params ++ rest.toList.map ("*" ++ ·), Spares lineEnds s := by
    intro s hs
    rcases List.mem_append.mp hs with hs | hs
    · exact h s (List.mem_append_left _ hs)
    · obtain ⟨t, ht, rfl⟩ := List.mem_map.mp hs
      exact Spares.append (by decide) (h t (List.mem_append_right _ ht))
  unfold lambdaHead
  split
  · decide
  · exact (Spares.append (by decide) (commas_spares hall)).append (by decide)

theorem nameText_spares {helper : String} (hh : Spares lineEnds helper) (n : Name) :
    Spares lineEnds (nameText helper n) := by
  have hns : Spares lineEnds (literalOrNone n.ns) := by
    cases n.ns with
    | none => decide
    | some ns => exact write_spares ns
  exact ((((hh.append (by decide)).append hns).append (by decide)).append
    (write_spares n.name)).append (by decide)

mutual

/-- A code ends no line but in the names it spells. -/
theorem render_spares (c : Code) (h : ∀ s ∈ c.spelled, Spares lineEnds s) :
    Spares lineEnds c.render := by
  have hfigures : ∀ d ∈ numerals, d ∉ lineEnds := List.all_iff_forall_prop.mp (by decide)
  -- besides names there are fixed pieces, figures and literals, and none of those ends a line
  cases c with
  | nil => decide
  | bool b => cases b <;> decide
  | int n => exact fun d hd => hfigures d (toString_numerals n d hd)
  | float x => exact fun d hd => hfigures d (write_numerals x d hd)
  | special text => exact (Spares.append (by decide) (write_spares text)).append (by decide)
  | str s => exact write_spares s
  | keyword n | symbol n => exact nameText_spares (by decide) n
  | list items | vector items | last items =>
      exact (Spares.append (by decide) (commas_spares (renderAll_spares items h))).append
        (by decide)
  | map entries =>
      exact (Spares.append (by decide) (commas_spares (renderEntries_spares entries h))).append
        (by decide)
  | bound s => exact h s List.mem_cons_self
  | var ns attr =>
      exact ((Spares.append (by decide) (write_spares ns)).append (by decide)).append
        (h attr List.mem_cons_self)
  | define ns name value | assign ns name value =>
      have hparts : ∀ part ∈ [Literal.write ns, Literal.write name, value.render],
          Spares lineEnds part := by
        simpa using ⟨write_spares ns, write_spares name, render_spares value h⟩
      exact (Spares.append (by decide) (commas_spares hparts)).append (by decide)
  | provide ns requires =>
      have hparts : ∀ part ∈ requires.map Literal.write, Spares lineEnds part := by
        simpa using fun required _ => write_spares required
      exact (((Spares.append (by decide) (write_spares ns)).append (by decide)).append
        (commas_spares hparts)).append (by decide)
  | throw value => exact (Spares.append (by decide) (render_spares value h)).append (by decide)
  | lambda params rest body =>
      obtain ⟨hhead, hbody⟩ := List.forall_mem_append.mp h
      exact ((Spares.append (by decide) (lambdaHead_spares hhead)).append
        (render_spares body hbody)).append (by decide)
  | recursive label self params rest body =>
      obtain ⟨hself, hall⟩ := List.forall_mem_cons.mp h
      obtain ⟨hhead, hbody⟩ := List.forall_mem_append.mp hall
      exact ((((((Spares.append (by decide) (write_spares label)).append (by decide)).append
        hself).append (by decide)).append (lambdaHead_spares hhead)).append
        (render_spares body hbody)).append (by decide)
  | bind name init body =>
      obtain ⟨hname, hall⟩ := List.forall_mem_cons.mp h
      obtain ⟨hinit, hbody⟩ := List.forall_mem_append.mp hall
      exact (((((Spares.append (by decide) hname).append (by decide)).append
        (render_spares body hbody)).append (by decide)).append (render_spares init hinit)).append
        (by decide)
  | call f args =>
      obtain ⟨hf, hargs⟩ := List.forall_mem_append.mp h
      exact (((Spares.append (by decide) (render_spares f hf)).append (by decide)).append
        (commas_spares (renderAll_spares args hargs))).append (by decide)
  | cond test yes no =>
      obtain ⟨hboth, hno⟩ := List.forall_mem_append.mp h
      obtain ⟨htest, hyes⟩ := List.forall_mem_append.mp hboth
      exact ((((((Spares.append (by decide) (render_spares yes hyes)).append (by decide)).append
        (render_spares test htest)).append (by decide)).append (render_spares no hno)).append
        (by decide))

theorem renderAll_spares (cs : List Code) (h : ∀ s ∈ allSpelled cs, Spares lineEnds s) :
    ∀ text ∈ renderAll cs, Spares lineEnds text := by
  cases cs with
  | nil => exact nofun
  | cons c cs =>
      obtain ⟨hc, hcs⟩ := List.forall_mem_append.mp h
      exact List.forall_mem_cons.mpr ⟨render_spares c hc, renderAll_spares cs hcs⟩

theorem renderEntries_spares (es : List (Code × Code))
    (h : ∀ s ∈ entriesSpelled es, Spares lineEnds s) :
    ∀ text ∈ renderEntries es, Spares lineEnds text := by
  cases es with
  | nil => exact nofun
  | cons e es =>
      obtain ⟨k, v⟩ := e
      obtain ⟨he, hes⟩ := List.forall_mem_append.mp h
      obtain ⟨hk, hv⟩ := List.forall_mem_append.mp he
      refine List.forall_mem_cons.mpr ⟨?_, renderEntries_spares es hes⟩
      exact ((render_spares k hk).append (by decide)).append (render_spares v hv)

end

structure Begins (s : String) : Prop where
  ne_empty : s ≠ ""
  head? : s.toList.head? ≠ some ' '

theorem Begins.append {s : String} (h : Begins s) (t : String) : Begins (s ++ t) where
  ne_empty := by simp [h.ne_empty]
  head? := by
    rw [String.toList_append, List.head?_append_of_ne_nil _ (by simpa using h.ne_empty)]
    exact h.head?

theorem head?_of_spares {s : String} (h : Spares gaps s) : s.toList.head? ≠ some ' ' := fun hs =>
  h ' ' (List.mem_of_mem_head? hs) (by decide)

theorem head?_render (c : Code) (h : ∀ s ∈ c.spelled, Spares gaps s) :
    c.render.toList.head? ≠ some ' ' := by
  have hfigures : ' ' ∉ numerals := by decide
  have hliteral (s : String) : (Literal.write s).toList.head? ≠ some ' ' := by
    rw [Literal.write, String.toList_ofList, Literal.encode]
    rcases Literal.quoteFor_isQuote s.toList with hq | hq <;> rw [hq] <;> rintro ⟨⟩
  cases c with
  | int n => exact fun hn => hfigures (toString_numerals n _ (List.mem_of_mem_head? hn))
  | float x => exact fun hx => hfigures (write_numerals x _ (List.mem_of_mem_head? hx))
  | str s => exact hliteral s
  | bound s => exact head?_of_spares (h s List.mem_cons_self)
  | nil => decide
  | bool b => cases b <;> decide
  | keyword n | symbol n =>
      exact (Begins.append (.append (.append (.append (.append ⟨by decide, by decide⟩ _) _) _) _)
        _).head?
  | special | list | vector | map | define | assign | throw | last =>
      exact (Begins.append (.append ⟨by decide, by decide⟩ _) _).head?
  | var | lambda => exact (Begins.append (.append (.append ⟨by decide, by decide⟩ _) _) _).head?
  | provide | call =>
      exact (Begins.append (.append (.append (.append ⟨by decide, by decide⟩ _) _) _) _).head?
  | recursive =>
      exact (Begins.append (.append (.append (.append (.append (.append (.append
        ⟨by decide, by decide⟩ _) _) _) _) _) _) _).head?
  | bind | cond =>
      exact (Begins.append (.append (.append (.append (.append (.append
        ⟨by decide, by decide⟩ _) _) _) _) _) _).head?

theorem spelled_sequence (cs : List Code) : (sequence cs).spelled ⊆ allSpelled cs := by
  cases cs with
  | nil => exact List.Subset.refl _
  | cons c cs =>
      cases cs with
      | nil => simp [sequence, allSpelled]
      | cons d ds => exact List.Subset.refl _

theorem entriesSpelled_zip (ks vs : List Code) :
    entriesSpelled (ks.zip vs) ⊆ allSpelled ks ++ allSpelled vs := by
  induction ks generalizing vs with
  | nil => exact List.nil_subset _
  | cons k ks ih =>
      cases vs with
      | nil => exact List.nil_subset _
      | cons v vs =>
          intro s hs
          have := @ih vs s
          simp only [List.zip_cons_cons, entriesSpelled, allSpelled, List.mem_append] at hs this ⊢
          tauto

mutual

theorem spelled_ofForm (f : Form) : (ofForm f).spelled = [] := by
  cases f with
  | float x =>
      rw [ofForm]
      split <;> rfl
  | list items line | vector items line => exact allSpelled_ofForms items
  | map items line => exact entriesSpelled_ofPairs items
  | _ => rfl

theorem allSpelled_ofForms (fs : List Form) : allSpelled (ofForms fs) = [] := by
  cases fs with
  | nil => rfl
  | cons f fs => rw [ofForms, allSpelled, spelled_ofForm f, allSpelled_ofForms fs, List.append_nil]

theorem entriesSpelled_ofPairs (fs : List Form) : entriesSpelled (ofPairs fs) = [] := by
  match fs with
  | [] | [_] => rfl
  | k :: v :: rest =>
      rw [ofPairs, entriesSpelled, spelled_ofForm k, spelled_ofForm v, entriesSpelled_ofPairs rest]
      rfl

end

end Code

def Node.Mention.local? : Node.Mention → Option String
  | .binds name | .bound name _ => some name
  | _ => none

namespace Code

def Named (ms : List Node.Mention) (s : String) : Prop :=
  (∃ name, munge name = s) ∨ s ∈ ms.filterMap Node.Mention.local?

theorem Named.mono {ms ms' : List Node.Mention} {s : String} (h : Named ms s) (hm : ms ⊆ ms') :
    Named ms' s :=
  h.imp_right fun hs => (List.filterMap_subset _ hm) hs

theorem Named.left {ms : List Node.Mention} {s : String} (h : Named ms s) (ms' : List Node.Mention) :
    Named (ms ++ ms') s :=
  h.mono (List.subset_append_left ms ms')

theorem Named.right {ms : List Node.Mention} {s : String} (h : Named ms s) (ms' : List Node.Mention) :
    Named (ms' ++ ms) s :=
  h.mono (List.subset_append_right ms' ms)

theorem named_binds {names : List String} {s : String} (h : s ∈ names) :
    Named (names.map .binds) s :=
  .inr (List.mem_filterMap.mpr ⟨.binds s, List.mem_map_of_mem h, rfl⟩)

theorem named_lambda {params : List String} {rest : Option String} {body : List Node}
    {self scope : List String} {s : String}
    (hbody : ∀ s ∈ allSpelled (ofNodes body), Named (Node.allMentions scope body) s)
    (h : s ∈ params ++ rest.toList ++ (sequence (ofNodes body)).spelled) :
    Named ((self ++ (params ++ rest.toList)).map .binds ++ Node.allMentions scope body) s := by
  rcases List.mem_append.mp h with h | h
  · exact (named_binds (List.mem_append_right self h)).left _
  · exact (hbody s (spelled_sequence _ h)).right _

theorem spelled_bindAll (names : List String) (inits : List Code) (body : Code) :
    (bindAll names inits body).spelled ⊆
      (names.take inits.length ++ allSpelled inits) ++ body.spelled := by
  induction names generalizing inits with
  | nil => exact List.subset_append_right _ _
  | cons name names ih =>
      cases inits with
      | nil => exact List.Subset.refl _
      | cons init inits =>
          intro s hs
          have := @ih inits s
          simp only [bindAll, spelled, allSpelled, List.length_cons, List.take_succ_cons,
            List.mem_cons, List.mem_append] at hs this ⊢
          tauto

mutual

theorem ofNode_named (x : Node) (scope : List String) :
    ∀ s ∈ (ofNode x).spelled, Named (x.mentions scope) s := by
  intro s hs
  cases x with
  | const line form =>
      rw [ofNode, spelled_ofForm] at hs
      cases hs
  | bound line name => exact .inr hs
  | var line ns name => exact .inl ⟨name, (List.mem_singleton.mp hs).symm⟩
  | define line ns name init =>
      cases init with
      | none => cases hs
      | some init => exact (ofNode_named init scope s hs).right [_]
  | fn line label self params rest body =>
      have hbody := ofNodes_named body ((params ++ rest.toList).reverse ++ self.toList ++ scope)
      -- a function that calls itself spells its own name in front of its parameters
      unfold ofNode at hs
      split at hs
      · next self _ _ =>
          rcases List.mem_cons.mp hs with rfl | hs
          · exact (named_binds (by simp)).left _
          · exact named_lambda hbody hs
      · exact named_lambda hbody hs
  | cond line test yes no =>
      rcases List.mem_append.mp hs with hs | hs
      · rcases List.mem_append.mp hs with hs | hs
        · exact ((ofNode_named test scope s hs).left _).left _
        · exact ((ofNode_named yes scope s hs).right _).left _
      · exact (ofNode_named no scope s hs).right _
  | block line body => exact ofNodes_named body scope s (spelled_sequence _ hs)
  | bind line names inits body =>
      rcases List.mem_append.mp (spelled_bindAll _ _ _ hs) with hs | hs
      · exact (bindings_named names inits scope s hs).left _
      · exact (ofNodes_named body _ s (spelled_sequence _ hs)).right _
  | assign line ns name value => exact (ofNode_named value scope s hs).right [_]
  | throw line value => exact ofNode_named value scope s hs
  | call line f args =>
      rcases List.mem_append.mp hs with hs | hs
      · exact (ofNode_named f scope s hs).left _
      · exact (ofNodes_named args scope s hs).right _
  | vector line items => exact ofNodes_named items scope s hs
  | map line keys values =>
      rcases List.mem_append.mp (entriesSpelled_zip _ _ hs) with hs | hs
      · exact (ofNodes_named keys scope s hs).left _
      · exact (ofNodes_named values scope s hs).right _
  | ns line name requires uses => cases hs
termination_by sizeOf x

theorem ofNodes_named (xs : List Node) (scope : List String) :
    ∀ s ∈ allSpelled (ofNodes xs), Named (Node.allMentions scope xs) s := by
  intro s hs
  cases xs with
  | nil => cases hs
  | cons x xs =>
      rcases List.mem_append.mp hs with hs | hs
      · exact (ofNode_named x scope s hs).left _
      · exact (ofNodes_named xs scope s hs).right _
termination_by sizeOf xs

theorem bindings_named (names : List String) (inits : List Node) (scope : List String) :
    ∀ s ∈ names.take (ofNodes inits).length ++ allSpelled (ofNodes inits),
      Named (Node.bindingMentions scope names inits) s := by
  intro s hs
  cases inits with
  | nil =>
      rw [ofNodes, List.length_nil, List.take_zero] at hs
      cases hs
  | cons init inits =>
      cases names with
      | nil =>
          rw [List.take_nil, List.nil_append] at hs
          rcases List.mem_append.mp hs with hs | hs
          · exact (ofNode_named init scope s hs).left _
          · exact (bindings_named [] inits scope s (List.mem_append_right _ hs)).right _
      | cons name names =>
          have hrest := bindings_named names inits (name :: scope) s
          simp only [ofNodes, allSpelled, List.length_cons, List.take_succ_cons, List.mem_append,
            List.mem_cons, Node.bindingMentions] at hs hrest ⊢
          rcases hs with (rfl | hs) | hs | hs
          · exact .inr (List.mem_filterMap.mpr ⟨.binds s, by simp, rfl⟩)
          · exact ((hrest (.inl hs)).right [_]).right _
          · exact (ofNode_named init scope s hs).left _
          · exact ((hrest (.inr hs)).right [_]).right _
termination_by sizeOf inits

end

theorem local_resolve {v : View} {ms : List Mention} {s : String}
    (h : s ∈ (v.resolve ms).filterMap Node.Mention.local?) : ∃ name, mungeLocal name = s := by
  induction ms generalizing v with
  | nil => cases h
  | cons m ms ih =>
      rw [View.resolve_cons] at h
      obtain ⟨x, hx, hs⟩ := List.mem_filterMap.mp h
      rcases List.mem_cons.mp hx with rfl | hx
      · cases m with
        | binds name => exact ⟨name, Option.some.inj hs⟩
        | symbol sym scope =>
            rw [View.image] at hs
            split at hs
            · exact ⟨sym.name, Option.some.inj hs⟩
            · cases hs
        | _ => cases hs
      · exact ih (List.mem_filterMap.mpr ⟨x, hx, hs⟩)

/-- Every name that the code of an analyzed form spells is munged. -/
theorem spelled_topLevel {ns : String} {form : Form} {a b : Analyzer} {x : Node}
    (hc : a.Consistent) (hn : form.isNamed = true)
    (h : (Analysis.topLevel ns form).run.run a = (.ok x, b)) :
    ∀ s ∈ (ofNode x).spelled, Spares gaps s := by
  intro s hs
  have hx := ((leads_of_ok h).mp (Analysis.topLevel_comes ns hc hn)).1
  rcases ofNode_named x [] s hs with ⟨name, rfl⟩ | hlocal
  · exact munge_spares name
  · rw [hx] at hlocal
    obtain ⟨name, rfl⟩ := local_resolve hlocal
    exact mungeLocal_spares name

def OneLine (c : Code) : Prop := Spares lineEnds c.render ∧ c.render.toList.head? ≠ some ' '

theorem oneLine_of_spelled {c : Code} (h : ∀ s ∈ c.spelled, Spares gaps s) : c.OneLine :=
  ⟨render_spares c fun s hs => (h s hs).mono (List.subset_cons_self _ _), head?_render c h⟩

end Code

namespace Analysis

theorem nodes_ok {ns : String} {forms : List Form} {a b : Analyzer} {xs : List Node}
    (hc : a.Consistent) (hn : ∀ f ∈ forms, f.isNamed = true)
    (h : (nodes ns forms).run.run a = (.ok xs, b)) :
    List.Forall₂ (fun form x => ∃ ns a b, (topLevel ns form).run.run a = (.ok x, b)) forms xs ∧
      ∀ x ∈ xs, (Code.ofNode x).OneLine := by
  induction forms generalizing ns a xs with
  | nil =>
      cases h
      exact ⟨.nil, nofun⟩
  | cons form forms ih =>
      obtain ⟨hform, hforms⟩ := List.forall_mem_cons.mp hn
      obtain ⟨x, c, rest, hx, hrest, rfl⟩ := nodes_cons_ok h
      have hcons : c.Consistent := by
        have := (topLevel_alike ns form).consistent hc
        rwa [hx] at this
      have hline : (Code.ofNode x).OneLine :=
        Code.oneLine_of_spelled (Code.spelled_topLevel hc hform hx)
      obtain ⟨horder, hlines⟩ := ih hcons hforms hrest
      exact ⟨.cons ⟨ns, a, c, hx⟩ horder, List.forall_mem_cons.mpr ⟨hline, hlines⟩⟩

end Analysis

namespace Module

theorem splitOn_lines {lines : List String} (hne : lines ≠ [])
    (h : ∀ line ∈ lines, '\n' ∉ line.toList) :
    ("\n".intercalate lines ++ "\n").toList.splitOn '\n' = lines.map String.toList ++ [[]] := by
  have hfeed : "\n".toList = ['\n'] := rfl
  have hrow : "\n".intercalate lines ++ "\n" = "\n".intercalate (lines ++ [""]) := by
    rw [String.intercalate_append_of_ne_nil hne (by simp), String.intercalate_singleton,
      String.append_empty]
  rw [hrow, String.toList_intercalate, hfeed, List.splitOn_intercalate]
  · simp
  · intro l hl
    obtain ⟨line, hline, rfl⟩ := List.mem_map.mp hl
    rcases List.mem_append.mp hline with hline | hline
    · exact h line hline
    · rw [List.mem_singleton.mp hline]
      decide
  · simp

def heading (source : Option String) : List String :=
  (source.filter (!·.isEmpty)).toList.map ("# Compiled by sumi from " ++ ·)

theorem heading_line {source : Option String} (h : ∀ s ∈ source, '\n' ∉ s.toList) :
    ∀ line ∈ heading source, '\n' ∉ line.toList := by
  intro line hline hfeed
  obtain ⟨s, hs, rfl⟩ := List.mem_map.mp hline
  have hsource := Option.eq_some_of_filter_eq_some (Option.mem_toList.mp hs)
  rw [String.toList_append] at hfeed
  rcases List.mem_append.mp hfeed with hfeed | hfeed
  · revert hfeed
    decide
  · exact h s hsource hfeed

end Module

namespace Analysis

/-- A source that compiles gives a line for its name, if it has one, and one line for each form, in
order: the text of the code that the form comes to. Where there is neither a name nor a form, there
is a line feed all the same. -/
theorem compile_lines {text ns : String} {forms : List Form} {source : Option String}
    {a b : Analyzer} {m : Module} (hread : Form.readAll text = .ok forms) (hc : a.Consistent)
    (hname : ∀ s ∈ source, '\n' ∉ s.toList)
    (h : (compile source ns forms).run.run a = (.ok m, b)) :
    ∃ xs, (nodes ns forms).run.run a = (.ok xs, b) ∧
      List.Forall₂ (fun form x => ∃ ns a b, (topLevel ns form).run.run a = (.ok x, b)) forms xs ∧
      m.lines = Module.heading source ++ xs.map (fun x => (Code.ofNode x).render) ∧
      (∀ x ∈ xs, (Code.ofNode x).OneLine) ∧
      if m.lines = [] then m.text = "\n"
      else m.text.toList.splitOn '\n' = m.lines.map String.toList ++ [[]] := by
  obtain ⟨xs, c, hxs, hlast⟩ := bind_ok_inv h
  cases hlast
  obtain ⟨horder, hone⟩ := nodes_ok hc (Form.readAll_named hread) hxs
  have hlines : Module.lines ⟨source, xs.map Code.ofNode⟩ =
      Module.heading source ++ xs.map fun x => (Code.ofNode x).render := by
    rw [Module.lines, List.map_map]
    rfl
  refine ⟨xs, hxs, horder, hlines, hone, ?_⟩
  split
  · next hempty =>
      rw [Module.text, hempty]
      rfl
  · next hne =>
      apply Module.splitOn_lines hne
      rw [hlines]
      intro line hline
      rcases List.mem_append.mp hline with hline | hline
      · exact Module.heading_line hname line hline
      · obtain ⟨x, hx, rfl⟩ := List.mem_map.mp hline
        exact fun hfeed => (hone x hx).1 '\n' hfeed (by decide)

def feeding : Form :=
  .list [Form.sym "fn", .vector [Form.sym "a-b"] (some 1), .str "\n"] (some 1)

theorem feeding_lines : Form.readAll "(fn [a-b] \"\\n\")" = .ok [feeding] ∧
    ∃ m b, (compile (some "a.sumi") Namespace.user [feeding]).run.run { namespaces := [] } =
        (.ok m, b) ∧
      m.lines = ["# Compiled by sumi from a.sumi", "(lambda a_b: '\\n')"] ∧
      m.text.toList.splitOn '\n' = m.lines.map String.toList ++ [[]] := by
  have hread : Form.readAll "(fn [a-b] \"\\n\")" = .ok [feeding] := by with_unfolding_all rfl
  have hname : ∀ s ∈ some "a.sumi", '\n' ∉ s.toList := by decide
  obtain ⟨m, b, h⟩ : ∃ m b, (compile (some "a.sumi") Namespace.user [feeding]).run.run
      { namespaces := [] } = (.ok m, b) := ends_of_isOk (by rfl)
  obtain ⟨xs, hxs, -, hlines, -, hsplit⟩ :=
    compile_lines hread Analyzer.empty_consistent hname h
  have htext : m.lines = ["# Compiled by sumi from a.sumi", "(lambda a_b: '\\n')"] := by
    cases hxs
    rw [hlines]
    decide
  rw [if_neg (by rw [htext]; exact List.cons_ne_nil _ _)] at hsplit
  exact ⟨hread, m, b, h, htext, hsplit⟩

/-- No form and no name, and yet a line. -/
theorem nothing_lines : Form.readAll "" = .ok [] ∧
    ∃ b, (compile none Namespace.user []).run.run { namespaces := [] } = (.ok ⟨none, []⟩, b) ∧
      (Module.lines ⟨none, []⟩).map String.toList = [] ∧ Module.text ⟨none, []⟩ = "\n" ∧
      (Module.text ⟨none, []⟩).toList.splitOn '\n' = [[], []] := by
  refine ⟨by with_unfolding_all rfl, _, rfl, rfl, rfl, by decide⟩

end Analysis

end Sumi
