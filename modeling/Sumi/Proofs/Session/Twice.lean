import Sumi.Proofs.Analysis.Course

namespace Sumi

namespace Node

mutual

theorem length_mentions_bare (x : Node) (scope : List String) :
    (x.bare.mentions scope).length = (x.mentions scope).length := by
  cases x with
  | const | bound | var | ns => rfl
  | define line space name init =>
      cases init with
      | none => rfl
      | some init => simp [bare, mentions, length_mentions_bare init]
  | fn line name self params rest body =>
      simp [bare, mentions, length_allMentions_bareAll body]
  | cond line test yes no =>
      simp [bare, mentions, length_mentions_bare test, length_mentions_bare yes,
        length_mentions_bare no]
  | block line body => simp [bare, mentions, length_allMentions_bareAll body]
  | bind line names inits body =>
      simp [bare, mentions, length_bindingMentions_bareAll names inits,
        length_allMentions_bareAll body]
  | assign line space name value => simp [bare, mentions, length_mentions_bare value]
  | throw line value => simp [bare, mentions, length_mentions_bare value]
  | call line f args =>
      simp [bare, mentions, length_mentions_bare f, length_allMentions_bareAll args]
  | vector line items => simp [bare, mentions, length_allMentions_bareAll items]
  | map line keys values =>
      simp [bare, mentions, length_allMentions_bareAll keys, length_allMentions_bareAll values]
termination_by sizeOf x

theorem length_allMentions_bareAll (xs : List Node) (scope : List String) :
    (allMentions scope (bareAll xs)).length = (allMentions scope xs).length := by
  cases xs with
  | nil => rfl
  | cons x xs =>
      simp [bareAll, allMentions, length_mentions_bare x, length_allMentions_bareAll xs]
termination_by sizeOf xs

theorem length_bindingMentions_bareAll (names : List String) (inits : List Node)
    (scope : List String) :
    (bindingMentions scope names (bareAll inits)).length =
      (bindingMentions scope names inits).length := by
  cases inits with
  | nil => cases names <;> rfl
  | cons init inits =>
      cases names with
      | nil =>
          simp [bareAll, bindingMentions, length_mentions_bare init,
            length_bindingMentions_bareAll [] inits]
      | cons name names =>
          simp [bareAll, bindingMentions, length_mentions_bare init,
            length_bindingMentions_bareAll names inits]
termination_by sizeOf inits

end

mutual

theorem settle_bare (events : List Event) (x : Node) :
    x.bare.settle events = ((x.settle events).1.bare, (x.settle events).2) := by
  cases x with
  | const | bound | var | ns => rfl
  | define line space name init =>
      cases init with
      | none => rfl
      | some init => simp [bare, settle, settle_bare events init]
  | fn line name self params rest body => simp [bare, settle, settleAll_bareAll events body]
  | cond line test yes no =>
      simp [bare, settle, settle_bare events test, settle_bare _ yes, settle_bare _ no]
  | block line body => simp [bare, settle, settleAll_bareAll events body]
  | bind line names inits body =>
      simp [bare, settle, settleAll_bareAll events inits, settleAll_bareAll _ body]
  | assign line space name value => simp [bare, settle, settle_bare events value]
  | throw line value => simp [bare, settle, settle_bare events value]
  | call line f args => simp [bare, settle, settle_bare events f, settleAll_bareAll _ args]
  | vector line items => simp [bare, settle, settleAll_bareAll events items]
  | map line keys values =>
      simp [bare, settle, settleAll_bareAll events keys, settleAll_bareAll _ values]
termination_by sizeOf x

theorem settleAll_bareAll (events : List Event) (xs : List Node) :
    settleAll events (bareAll xs) = (bareAll (settleAll events xs).1, (settleAll events xs).2) := by
  cases xs with
  | nil => rfl
  | cons x xs => simp [bareAll, settleAll, settle_bare events x, settleAll_bareAll _ xs]
termination_by sizeOf xs

end

variable {x y : Node} {xs ys : List Node} {names scope : List String}

theorem length_mentions (h : x.bare = y.bare) :
    (x.mentions scope).length = (y.mentions scope).length := by
  rw [← length_mentions_bare x, h, length_mentions_bare]

theorem length_allMentions (h : bareAll xs = bareAll ys) :
    (allMentions scope xs).length = (allMentions scope ys).length := by
  rw [← length_allMentions_bareAll xs, h, length_allMentions_bareAll]

theorem length_bindingMentions (h : bareAll xs = bareAll ys) :
    (bindingMentions scope names xs).length = (bindingMentions scope names ys).length := by
  rw [← length_bindingMentions_bareAll names xs, h, length_bindingMentions_bareAll]

theorem ctorIdx_bare (x : Node) : x.bare.ctorIdx = x.ctorIdx := by
  cases x with
  | define line space name init => cases init <;> rfl
  | _ => rfl

mutual

theorem eq_of_bare {x y : Node} {scope : List String} (h : x.bare = y.bare)
    (hm : x.mentions scope = y.mentions scope) : x = y := by
  have hkind : x.ctorIdx = y.ctorIdx := by rw [← ctorIdx_bare, h, ctorIdx_bare]
  cases x with
  | const line form =>
      cases y with
      | const => exact h
      | _ => cases hkind
  | bound line name =>
      cases y with
      | bound => exact h
      | _ => cases hkind
  | ns line name requires uses =>
      cases y with
      | ns => exact h
      | _ => cases hkind
  | var line space name =>
      cases y with
      | var =>
          cases h
          cases hm
          rfl
      | _ => cases hkind
  | define line space name init =>
      cases init with
      | none =>
          cases y with
          | define _ _ _ init =>
              cases init with
              | none => exact h
              | some => cases h
          | _ => cases hkind
      | some init =>
          cases y with
          | define _ _ _ init' =>
              cases init' with
              | none => cases h
              | some init' =>
                  simp only [bare, define.injEq, Option.some.injEq] at h
                  simp only [mentions, List.cons.injEq] at hm
                  rw [h.1, h.2.1, h.2.2.1, eq_of_bare h.2.2.2 hm.2]
          | _ => cases hkind
  | fn line label self params rest body =>
      cases y with
      | fn =>
          simp only [bare, fn.injEq] at h
          obtain ⟨rfl, rfl, rfl, rfl, rfl, hb⟩ := h
          rw [mentions, mentions, List.append_cancel_left_eq] at hm
          rw [eq_of_bareAll hb hm]
      | _ => cases hkind
  | cond line test yes no =>
      cases y with
      | cond =>
          simp only [bare, cond.injEq] at h
          obtain ⟨rfl, ht, hy, hn⟩ := h
          rw [mentions, mentions] at hm
          obtain ⟨hm, hmn⟩ := List.append_inj hm (by simp [length_mentions ht, length_mentions hy])
          obtain ⟨hmt, hmy⟩ := List.append_inj hm (length_mentions ht)
          rw [eq_of_bare ht hmt, eq_of_bare hy hmy, eq_of_bare hn hmn]
      | _ => cases hkind
  | block line body =>
      cases y with
      | block =>
          simp only [bare, block.injEq] at h
          rw [h.1, eq_of_bareAll h.2 hm]
      | _ => cases hkind
  | bind line names inits body =>
      cases y with
      | bind =>
          simp only [bare, bind.injEq] at h
          obtain ⟨rfl, rfl, hi, hb⟩ := h
          rw [mentions, mentions] at hm
          obtain ⟨hmi, hmb⟩ := List.append_inj hm (length_bindingMentions hi)
          rw [inits_eq_of_bareAll hi hmi, eq_of_bareAll hb hmb]
      | _ => cases hkind
  | assign line space name value =>
      cases y with
      | assign =>
          simp only [bare, assign.injEq, true_and] at h
          obtain ⟨rfl, rfl, hv⟩ := h
          simp only [mentions, List.cons.injEq, Mention.var.injEq, and_true] at hm
          rw [hm.1, eq_of_bare hv hm.2]
      | _ => cases hkind
  | throw line value =>
      cases y with
      | throw =>
          simp only [bare, throw.injEq] at h
          rw [h.1, eq_of_bare h.2 hm]
      | _ => cases hkind
  | call line f args =>
      cases y with
      | call =>
          simp only [bare, call.injEq] at h
          obtain ⟨rfl, hf, ha⟩ := h
          rw [mentions, mentions] at hm
          obtain ⟨hmf, hma⟩ := List.append_inj hm (length_mentions hf)
          rw [eq_of_bare hf hmf, eq_of_bareAll ha hma]
      | _ => cases hkind
  | vector line items =>
      cases y with
      | vector =>
          simp only [bare, vector.injEq] at h
          rw [h.1, eq_of_bareAll h.2 hm]
      | _ => cases hkind
  | map line keys values =>
      cases y with
      | map =>
          simp only [bare, map.injEq] at h
          obtain ⟨rfl, hk, hv⟩ := h
          rw [mentions, mentions] at hm
          obtain ⟨hmk, hmv⟩ := List.append_inj hm (length_allMentions hk)
          rw [eq_of_bareAll hk hmk, eq_of_bareAll hv hmv]
      | _ => cases hkind
termination_by sizeOf x

theorem eq_of_bareAll {xs ys : List Node} {scope : List String} (h : bareAll xs = bareAll ys)
    (hm : allMentions scope xs = allMentions scope ys) : xs = ys := by
  cases xs with
  | nil =>
      cases ys with
      | nil => rfl
      | cons => cases h
  | cons x xs =>
      cases ys with
      | nil => cases h
      | cons y ys =>
          simp only [bareAll, List.cons.injEq] at h
          rw [allMentions, allMentions] at hm
          obtain ⟨hx, hxs⟩ := List.append_inj hm (length_mentions h.1)
          rw [eq_of_bare h.1 hx, eq_of_bareAll h.2 hxs]
termination_by sizeOf xs

theorem inits_eq_of_bareAll {xs ys : List Node} {names scope : List String}
    (h : bareAll xs = bareAll ys)
    (hm : bindingMentions scope names xs = bindingMentions scope names ys) : xs = ys := by
  cases xs with
  | nil =>
      cases ys with
      | nil => rfl
      | cons => cases h
  | cons x xs =>
      cases ys with
      | nil => cases h
      | cons y ys =>
          simp only [bareAll, List.cons.injEq] at h
          cases names with
          | nil =>
              rw [bindingMentions, bindingMentions] at hm
              obtain ⟨hx, hxs⟩ := List.append_inj hm (length_mentions h.1)
              rw [eq_of_bare h.1 hx, inits_eq_of_bareAll h.2 hxs]
          | cons name names =>
              rw [bindingMentions, bindingMentions] at hm
              obtain ⟨hx, hxs⟩ := List.append_inj hm (length_mentions h.1)
              rw [eq_of_bare h.1 hx, inits_eq_of_bareAll h.2 (List.cons.inj hxs).2]
termination_by sizeOf xs

end

end Node

namespace View

def Agree (v w : View) (ms : List Mention) : Prop :=
  ∀ before sym scope behind, ms = before ++ .symbol sym scope :: behind →
    (sym.ns = none → sym.name ∉ scope) →
      (v.after before).meaning sym = (w.after before).meaning sym

variable {v w : View} {ms : List Mention} {m : Mention}

theorem agree_cons : v.Agree w (m :: ms) ↔
    (∀ sym scope, m = .symbol sym scope → (sym.ns = none → sym.name ∉ scope) →
      v.meaning sym = w.meaning sym) ∧ (v.next m).Agree (w.next m) ms := by
  constructor
  · intro h
    refine ⟨fun sym scope hm => ?_, fun before sym scope behind hms => ?_⟩
    · exact h [] sym scope ms (by rw [hm, List.nil_append])
    · exact h (m :: before) sym scope behind (by rw [hms, List.cons_append])
  · rintro ⟨hm, hms⟩ before sym scope behind hsplit
    cases before with
    | nil =>
        obtain ⟨rfl, -⟩ := List.cons.inj hsplit
        exact hm sym scope rfl
    | cons first before =>
        obtain ⟨rfl, hrest⟩ := List.cons.inj hsplit
        exact hms before sym scope behind hrest

theorem image_eq_iff (h : v.ns = w.ns) : v.image m = w.image m ↔
    ∀ sym scope, m = .symbol sym scope → (sym.ns = none → sym.name ∉ scope) →
      v.meaning sym = w.meaning sym := by
  cases m with
  | binds | declares => simp [image]
  | defines name => simp [image, h]
  | symbol sym scope =>
      simp only [image, Mention.symbol.injEq]
      by_cases hb : sym.ns = none ∧ sym.name ∈ scope
      · rw [if_pos hb, if_pos hb]
        simp only [true_iff]
        rintro _ _ ⟨rfl, rfl⟩ hfree
        exact absurd hb.2 (hfree hb.1)
      · rw [if_neg hb, if_neg hb, Node.Mention.var.injEq, ← Prod.ext_iff]
        constructor
        · rintro hm _ _ ⟨rfl, rfl⟩ -
          exact hm
        · exact fun hm => hm sym scope ⟨rfl, rfl⟩ fun hns hmem => hb ⟨hns, hmem⟩

theorem resolve_eq_iff (h : v.ns = w.ns) : v.resolve ms = w.resolve ms ↔ v.Agree w ms := by
  induction ms generalizing v w with
  | nil => simp [Agree]
  | cons m ms ih =>
      rw [resolve_cons, resolve_cons, List.cons.injEq, image_eq_iff h, agree_cons,
        ih (by rw [next_ns, next_ns, h])]

end View

namespace Analysis

variable {α β : Type} {ns : String} {form : Form} {a b : Analyzer} {x : Node}

def Certain (m : Analysis α) (Q : α → Prop) : Prop :=
  ∀ a : Analyzer, a.Consistent → Leads m a (fun x b => Q x ∧ b.Consistent) (fun _ _ => False)

theorem certain_pure {x : α} {Q : α → Prop} (h : Q x) : Certain (pure x) Q :=
  fun _ hc => leads_pure.mpr ⟨h, hc⟩

theorem Certain.bind {m : Analysis α} {k : α → Analysis β} {Q : α → Prop} {S : β → Prop}
    (h : Certain m Q) (hk : ∀ x, Q x → Certain (k x) S) : Certain (m >>= k) S := by
  intro a hc
  apply (h a hc).bind
  · rintro x b ⟨hx, hb⟩
    exact hk x hx b hb
  · exact fun _ _ he => he

theorem Sure.certain {m : Analysis α} (h : Sure m) : Certain m fun _ => True := by
  intro a hc
  obtain ⟨x, b, hm, hb⟩ := h a hc
  exact (leads_of_ok hm).mpr ⟨trivial, hb⟩

theorem resolveVar_certain (env : Env) (sym : Name) :
    Certain (resolveVar env sym) fun r => r.2 = sym.name := by
  intro a hc
  apply ((resolveVar_sure env sym).certain a hc).and (resolveVar_name env sym a) |>.mono
  · exact fun _ _ h => ⟨h.2, h.1.2⟩
  · exact fun _ _ h => h.1

/-- What one analysis of a form comes to, every other one comes to but for its vars. -/
theorem analyze_certain (hc : a.Consistent)
    (h : (analyze (top ns) form).run.run a = (.ok x, b)) :
    Certain (analyze (top ns) form) fun y => Resembles x y := by
  intro a' hc'
  obtain ⟨y, b', hy, hr, hb'⟩ := (analyze_alike (top ns) form).ok hc hc' h
  exact (leads_of_ok hy).mpr ⟨hr, hb'⟩

theorem coreSymbol_certain (env : Env) (name : String) :
    Certain (analyze env (Form.coreSymbol name))
      fun x => ∃ space, x = .var env.line space name := by
  change Certain (analyze env (.symbol ⟨some Namespace.core, name⟩)) _
  rw [analyze]
  apply (resolveVar_certain env ⟨some Namespace.core, name⟩).bind
  rintro ⟨space, _⟩ rfl
  exact certain_pure ⟨space, rfl⟩

theorem printed_certain {Q : Node → Prop} (h : Certain (analyze (top ns) form) Q) :
    Certain (analyze (top ns) form.printed)
      fun x => ∃ space y, x = .call none (.var none space "pr-str") [y] ∧ Q y := by
  unfold Form.printed Form.call
  rw [analyze]
  change Certain (analyzeList (top ns) none [Form.coreSymbol "pr-str", form]) _
  rw [analyzeList]
  change Certain (analyze (top ns) (Form.coreSymbol "pr-str") >>= _) _
  apply (coreSymbol_certain (top ns) "pr-str").bind
  rintro _ ⟨space, rfl⟩
  rw [analyzeAll, analyzeAll]
  simp only [bind_assoc, pure_bind]
  apply h.bind
  intro y hy
  apply (checkArity_sure (top ns) (.var none space "pr-str") 1).certain.bind
  intro _ _
  exact certain_pure ⟨space, y, rfl, hy⟩

theorem all_certain (env : Env) {forms : List Form} {nodes : List Node}
    (h : List.Forall₂ (fun form y => Certain (analyze env form) (Resembles y)) forms nodes) :
    Certain (analyzeAll env forms) (AllResemble nodes) := by
  induction h with
  | nil =>
      rw [analyzeAll]
      exact certain_pure rfl
  | cons hy _ ih =>
      rw [analyzeAll]
      apply hy.bind
      intro x hx
      apply ih.bind
      intro xs hxs
      exact certain_pure (.cons hx hxs)

theorem AllResemble.of_singleton {x : Node} {ys : List Node} (h : AllResemble [x] ys) :
    ∃ y, ys = [y] ∧ Resembles x y := by
  rcases ys with _ | ⟨y, _ | ⟨z, zs⟩⟩
  · cases h
  · exact ⟨y, rfl, (List.cons.inj h).1⟩
  · cases (List.cons.inj h).2

theorem innerSymbol_certain (ns name : String) :
    Certain (analyze (inner ns) (Form.coreSymbol name))
      (Resembles (.var none Namespace.core name)) := by
  intro a hc
  apply (coreSymbol_certain (inner ns) name a hc).mono
  · rintro _ b ⟨⟨space, rfl⟩, hb⟩
    exact ⟨rfl, hb⟩
  · exact fun _ _ he => he

theorem bound_certain (ns : String) :
    Certain (analyze (inner ns) (Form.sym "ret__repl")) (Resembles (.bound none "ret__repl")) := by
  intro a hc
  apply leads_bound.mono
  · rintro _ b ⟨rfl, hb⟩
    refine ⟨rfl, ?_⟩
    unfold Analyzer.Consistent
    rwa [hb.1]
  · exact fun _ _ he => he

theorem keep_certain (ns name : String) {value : Form} {y : Node}
    (h : Certain (analyze (inner ns) value) (Resembles y)) :
    Certain (analyze (inner ns) (Form.call (Form.sym "set!") [Form.coreSymbol name, value]))
      (Resembles (keepNode name y)) := by
  unfold Form.call
  rw [analyze]
  change Certain (analyzeList (inner ns) none [Form.sym "set!", Form.coreSymbol name, value]) _
  rw [analyzeList]
  change Certain (analyzeSet (inner ns) [.symbol ⟨some Namespace.core, name⟩, value]) _
  rw [analyzeSet]
  apply (resolveVar_certain (inner ns) ⟨some Namespace.core, name⟩).bind
  rintro ⟨space, _⟩ rfl
  apply h.bind
  intro x hx
  exact certain_pure (.assign hx)

theorem keeping_certain (ns : String) :
    Certain (analyze (inner ns) (Form.call (Form.sym "do")
        [Form.call (Form.sym "set!") [Form.coreSymbol "*3", Form.coreSymbol "*2"],
          Form.call (Form.sym "set!") [Form.coreSymbol "*2", Form.coreSymbol "*1"],
          Form.call (Form.sym "set!") [Form.coreSymbol "*1", Form.sym "ret__repl"],
          Form.sym "ret__repl"]))
      (Resembles keepingNode) := by
  have hbody := all_certain (inner ns) (.cons (keep_certain ns "*3" (innerSymbol_certain ns "*2"))
    (.cons (keep_certain ns "*2" (innerSymbol_certain ns "*1"))
      (.cons (keep_certain ns "*1" (bound_certain ns)) (.cons (bound_certain ns) .nil))))
  unfold Form.call at *
  rw [analyze]
  change Certain (analyzeList (inner ns) none (Form.sym "do" :: _)) _
  rw [analyzeList]
  change Certain (analyzeAll (inner ns) _ >>= _) _
  apply hbody.bind
  intro xs hxs
  exact certain_pure (congrArg (Node.block _) hxs)

theorem kept_certain {Q : Node → Prop} (h : Certain (analyze (top ns) form) Q) :
    Certain (analyze (top ns) form.kept)
      fun x => ∃ y keeping, x = .bind none ["ret__repl"] [y] [keeping] ∧ Q y ∧
        Resembles keepingNode keeping := by
  have hname : Code.mungeLocal "ret__repl" = "ret__repl" := by decide
  have hend : analyzeBindings (inner ns) [] = pure (inner ns, [], []) := by simp [analyzeBindings]
  unfold Form.kept
  rw [Form.call, analyze]
  change Certain (analyzeList (top ns) none (Form.sym "let" :: _)) _
  rw [analyzeList]
  change Certain (analyzeLet (top ns) _) _
  rw [analyzeLet, if_neg (by simp)]
  change Certain (analyzeBindings (top ns) [.symbol ⟨none, "ret__repl"⟩, form] >>= _) _
  rw [analyzeBindings]
  simp only [bind_assoc]
  apply h.bind
  intro y hy
  change Certain (analyzeBindings (inner ns) [] >>= _) _
  rw [hend, pure_bind]
  apply (all_certain (inner ns) (.cons (keeping_certain ns) .nil)).bind
  intro xs hxs
  obtain ⟨keeping, rfl, hk⟩ := hxs.of_singleton
  refine certain_pure ⟨y, keeping, ?_, hy, hk⟩
  rw [hname]
  rfl

/-- The node of a form at its place in the node of what surrounds it at the prompt. Of the
surroundings, only the namespaces of the vars are left open. -/
inductive Around (form : Form) (x : Node) : Node → Prop
  | alone (declares : form.isNs = true) : Around form x x
  | printed (evaluates : form.isNs = false) (repeats : form.isResult = true) (space : String) :
      Around form x (.call none (.var none space "pr-str") [x])
  | kept (evaluates : form.isNs = false) (counts : form.isResult = false) (space : String)
      {keeping : Node} (keeps : Resembles keepingNode keeping) :
      Around form x
        (.call none (.var none space "pr-str") [.bind none ["ret__repl"] [x] [keeping]])

theorem wrap_certain {Q : Node → Prop} (h : Certain (analyze (top ns) form) Q) :
    Certain (analyze (top ns) form.wrap) fun outer => ∃ y, Around form y outer ∧ Q y := by
  unfold Form.wrap
  cases hns : form.isNs with
  | true =>
      rw [if_pos rfl]
      intro a hc
      apply (h a hc).mono
      · exact fun y b hy => ⟨⟨y, .alone hns, hy.1⟩, hy.2⟩
      · exact fun _ _ he => he
  | false =>
      rw [if_neg nofun]
      cases hr : form.isResult with
      | true =>
          rw [if_pos rfl]
          intro a hc
          apply (printed_certain h a hc).mono
          · rintro _ b ⟨⟨space, y, rfl, hy⟩, hb⟩
            exact ⟨⟨y, .printed hns hr space, hy⟩, hb⟩
          · exact fun _ _ he => he
      | false =>
          rw [if_neg nofun]
          intro a hc
          apply (printed_certain (kept_certain h) a hc).mono
          · rintro _ b ⟨⟨space, _, rfl, y, keeping, rfl, hy, hk⟩, hb⟩
            exact ⟨⟨y, .kept hns hr space hk, hy⟩, hb⟩
          · exact fun _ _ he => he

theorem settle_keeping {keeping : Node} (h : Resembles keepingNode keeping) (events : List Event) :
    Resembles keepingNode (keeping.settle events).1 := by
  have hk := congrArg Prod.fst (Node.settle_bare events keeping)
  rw [← h, Node.settle_bare] at hk
  simpa [keepingNode, keepNode, Node.settle, Node.settleAll] using hk

theorem Around.settle {y outer : Node} (h : Around form y outer) (events : List Event) :
    Around form (y.settle events).1 (outer.settle events).1 := by
  cases h with
  | alone hns => exact .alone hns
  | printed hns hr space => simpa [Node.settle, Node.settleAll] using .printed hns hr space
  | kept hns hr space hk =>
      simpa [Node.settle, Node.settleAll] using .kept hns hr space (settle_keeping hk _)

theorem mentions_printed (form : Form) :
    form.printed.mentions = .symbol (.qualified Namespace.core "pr-str") [] :: form.mentions := by
  simp [Form.printed, Form.call, Form.coreSymbol, Form.mentions, Scope.form, Scope.list,
    Scope.special?, Scope.all, Name.qualified]

theorem mentions_kept (form : Form) : ∃ keeping, (∀ m ∈ keeping, ∀ ns, m.event? ns = none) ∧
    form.kept.mentions = form.mentions ++ keeping := by
  let symbol (sym : Name) : Mention := .symbol sym ["ret__repl"]
  let core (name : String) : Mention := symbol (.qualified Namespace.core name)
  refine ⟨[.binds "ret__repl", core "*3", core "*2", core "*2", core "*1", core "*1",
    symbol (.plain "ret__repl"), symbol (.plain "ret__repl")], by simp [symbol, core, Mention.event?], ?_⟩
  have hlet : Scope.special? [] (.symbol ⟨none, "let"⟩) = some .bind := rfl
  have hdo : Scope.special? ["ret__repl"] (.symbol ⟨none, "do"⟩) = some .block := rfl
  have hset : Scope.special? ["ret__repl"] (.symbol ⟨none, "set!"⟩) = some .assign := rfl
  simp [Form.kept, Form.call, Form.mentions, Scope.form, Scope.list, hlet, hdo, hset, Scope.bind,
    Scope.bindings, Scope.binders, Scope.all, Scope.assign, symbol, core, Form.coreSymbol,
    Form.sym, Name.plain, Name.qualified]

theorem Around.mentions {y outer : Node} (h : Around form y outer) :
    ∃ before behind before' behind', (∀ m ∈ before ++ behind, ∀ ns, m.event? ns = none) ∧
      form.wrap.mentions = before ++ form.mentions ++ behind ∧
      outer.mentions [] = before' ++ y.mentions [] ++ behind' ∧ before'.length = before.length := by
  cases h with
  | alone hns => exact ⟨[], [], [], [], by simp, by simp [Form.wrap, hns], by simp, rfl⟩
  | printed hns hr space =>
      refine ⟨[.symbol (.qualified Namespace.core "pr-str") []], [], [.var space "pr-str"], [],
        by simp [Mention.event?], ?_, ?_, rfl⟩
      · simp [Form.wrap, hns, hr, mentions_printed]
      · simp [Node.mentions, Node.allMentions]
  | @kept hns hr space node hk =>
      obtain ⟨keeping, hidle, hkept⟩ := mentions_kept form
      refine ⟨[.symbol (.qualified Namespace.core "pr-str") []], keeping, [.var space "pr-str"],
        .binds "ret__repl" :: node.mentions ["ret__repl"], ?_, ?_, ?_, rfl⟩
      · simpa [Mention.event?] using hidle
      · simp [Form.wrap, hns, hr, mentions_printed, hkept]
      · simp [Node.mentions, Node.allMentions, Node.bindingMentions]

theorem Around.mentions_mem {y outer : Node} (h : Around form y outer) {m : Node.Mention}
    (hm : m ∈ y.mentions []) : m ∈ outer.mentions [] := by
  obtain ⟨_, _, before, behind, -, -, houter, -⟩ := h.mentions
  rw [houter]
  exact List.mem_append_left _ (List.mem_append_right _ hm)

theorem since_behind {ms : List Mention} (h : Behind ns a ms b) :
    since a b = ms.filterMap (Mention.event? ns) := by
  unfold since
  rw [h.events]
  simp

theorem named_wrap (hn : form.isNamed = true) : form.wrap.isNamed = true := by
  unfold Form.wrap
  split
  · exact hn
  · split
    · simp [Form.printed, Form.call, Form.coreSymbol, Name.qualified, Form.isNamed, Form.allNamed, hn]
    · simp [Form.printed, Form.kept, Form.call, Form.coreSymbol, Form.sym, Name.plain, Name.qualified,
        Form.isNamed, Form.allNamed, hn]

theorem analyze_comes_top (hc : a.Consistent) (hn : form.isNamed = true)
    (h : (analyze (top ns) form).run.run (a.enter ns) = (.ok x, b)) :
    x.mentions [] = (a.view ns).resolve form.mentions ∧
      b.view ns = (a.view ns).after form.mentions ∧
      since (a.enter ns) b = form.mentions.filterMap (Mention.event? ns) := by
  have hs : (top ns).Scoped [] := fun name _ => rfl
  obtain ⟨hx, hb⟩ : x.mentions [] = ((a.enter ns).view ns).resolve form.mentions ∧
      Behind ns (a.enter ns) form.mentions b :=
    (leads_of_ok h).mp (analyze_comes hs hn (a.enter ns) (hc.enter ns))
  rw [Analyzer.view_enter] at hx
  exact ⟨hx, by rw [hb.view, Analyzer.view_enter], since_behind hb⟩

/-- The second analysis gives the node of the form at its place, and this is the node of the first
analysis if and only if every symbol means the same before and after it. -/
theorem topLevel_wrap {b' : Analyzer} (hc : a.Consistent) (hn : form.isNamed = true)
    (h : (topLevel ns form).run.run a = (.ok x, b)) (hb' : b'.namespaces = b.namespaces) :
    ∃ outer c y, (topLevel ns form.wrap).run.run b' = (.ok outer, c) ∧ Around form y outer ∧
      (y = x ↔ (b.view ns).Agree (a.view ns) form.mentions) := by
  obtain ⟨x₀, hx₀, rfl⟩ := topLevel_ok_iff.mp h
  have hbehind : Behind ns (a.enter ns) form.mentions b :=
    ((leads_of_ok h).mp (topLevel_comes ns hc hn)).2
  have hc' : b'.Consistent := by
    unfold Analyzer.Consistent
    rw [hb']
    exact hbehind.consistent
  have hview : b'.view ns = b.view ns := Behind.view_of_namespaces hb' ns
  obtain ⟨outer₀, c, houter, ⟨y₀, haround, hres⟩, -⟩ :=
    (wrap_certain (analyze_certain (hc.enter ns) hx₀) (b'.enter ns) (hc'.enter ns)).ends
  obtain ⟨before, behind, before', behind', hidle, hwrap, houterm, hlen⟩ := haround.mentions
  obtain ⟨hx₀m, -, hsince⟩ := analyze_comes_top hc hn hx₀
  obtain ⟨hm, -, hsince'⟩ := analyze_comes_top hc' (named_wrap hn) houter
  have hbefore (m : Mention) (hm : m ∈ before) : m.event? ns = none :=
    hidle m (List.mem_append_left _ hm) ns
  have hbehind' (m : Mention) (hm : m ∈ behind) : m.event? ns = none :=
    hidle m (List.mem_append_right _ hm) ns
  have hevents : since (b'.enter ns) c = since (a.enter ns) b := by
    rw [hsince, hsince', hwrap, List.filterMap_append, List.filterMap_append,
      List.filterMap_eq_nil_iff.mpr hbefore, List.filterMap_eq_nil_iff.mpr hbehind',
      List.nil_append, List.append_nil]
  have hy₀m : y₀.mentions [] = (b.view ns).resolve form.mentions := by
    rw [houterm, hwrap, View.resolve_append, View.resolve_append, View.after_still hbefore, hview]
      at hm
    have hlength : (y₀.mentions []).length = ((b.view ns).resolve form.mentions).length := by
      rw [View.length_resolve, ← Node.length_mentions hres, hx₀m, View.length_resolve]
    obtain ⟨hfirst, -⟩ := List.append_inj hm (by simp [hlen, hlength, View.length_resolve])
    exact (List.append_inj hfirst (by rw [hlen, View.length_resolve])).2
  refine ⟨_, c, _, topLevel_ok houter, haround.settle _, ?_⟩
  rw [hevents, ← View.resolve_eq_iff (by rw [hbehind.view, View.after_ns, Analyzer.view_enter])]
  constructor
  · intro hy
    have hm := congrArg (Node.mentions []) hy
    rwa [Node.mentions_settle, Node.mentions_settle, hy₀m, hx₀m] at hm
  · intro hv
    rw [← Node.eq_of_bare hres (by rw [hx₀m, hy₀m, hv])]
    rfl

def unreached : Form :=
  .list [.sym "if", .bool true, .list [.sym "inc", .int 1] (some 1),
    .list [.sym "def", .sym "inc", .int 5] (some 1)] (some 1)

theorem unreached_wrap : ∃ x b,
    (topLevel Namespace.user unreached).run.run (.ofLibrary ["inc", "pr-str"] {}) = (.ok x, b) ∧
      ∃ outer c y, (topLevel Namespace.user unreached.wrap).run.run { b with flags := .silent } =
        (.ok outer, c) ∧ Around unreached y outer ∧
          (y = x ↔ (b.view Namespace.user).Agree
            ((Analyzer.ofLibrary ["inc", "pr-str"] {}).view Namespace.user) unreached.mentions) :=
  ⟨_, _, rfl, topLevel_wrap (Analyzer.ofLibrary_consistent _ _) (by decide) rfl rfl⟩

/-- What runs is not always what is shown. -/
theorem unreached_changes_code : ∃ x b outer c,
    (topLevel Namespace.user unreached).run.run (.ofLibrary ["inc", "pr-str"] {}) = (.ok x, b) ∧
      (topLevel Namespace.user unreached.wrap).run.run { b with flags := .silent } =
        (.ok outer, c) ∧ ¬Around unreached x outer := by
  refine ⟨_, _, _, _, rfl, rfl, fun h => ?_⟩
  have hshown : .var Namespace.core "inc" ∈ Node.mentions [] _ := h.mentions_mem (by decide +kernel)
  revert hshown
  decide +kernel

end Analysis

end Sumi
