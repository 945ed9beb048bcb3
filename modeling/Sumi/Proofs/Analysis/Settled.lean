import Sumi.Proofs.Analysis.Changes

namespace Sumi

def Change.event? : Change → Option Event
  | .begin _ ns name => some (.defined ns name)
  | .declare ns _ _ => some (.declared ns)
  | _ => none

def Change.events (cs : List Change) : List Event := cs.filterMap Change.event?

theorem Change.events_append (cs ds : List Change) : events (cs ++ ds) = events cs ++ events ds :=
  List.filterMap_append

def Node.Mention.event? : Node.Mention → Option Event
  | .defines space name => some (.defined space name)
  | .declares space => some (.declared space)
  | _ => none

theorem View.events_resolve (v : View) (ms : List Mention) :
    (v.resolve ms).filterMap Node.Mention.event? = ms.filterMap (Mention.event? v.ns) := by
  induction ms generalizing v with
  | nil => rfl
  | cons m ms ih =>
      have himage : (v.image m).event? = m.event? v.ns := by
        cases m with
        | symbol sym scope =>
            rw [image]
            split <;> rfl
        | _ => rfl
      rw [resolve_cons, List.filterMap_cons, List.filterMap_cons, himage, ih, next_ns]

def Event.isDefined : Event → Bool
  | .defined _ _ => true
  | .declared _ => false

namespace Node

theorem events_binds (names : List String) :
    (names.map Mention.binds).filterMap Mention.event? = [] := by
  simp [Mention.event?]

mutual

theorem events_mentions (x : Node) (scope : List String) :
    (x.mentions scope).filterMap Mention.event? = Change.events x.changes := by
  cases x with
  | const | bound | var | ns => rfl
  | define line space name init =>
      cases init with
      | none => rfl
      | some init =>
          have hinit := events_mentions init scope
          simp only [mentions, changes, Change.events, List.filterMap_cons, List.filterMap_append,
            List.filterMap_nil, Mention.event?, Change.event?, List.append_nil] at hinit ⊢
          rw [hinit]
  | fn line name self params rest body =>
      rw [mentions, List.filterMap_append, events_binds, List.nil_append, events_allMentions body]
      rfl
  | cond line test yes no =>
      simp only [mentions, changes, List.filterMap_append, Change.events_append, List.append_assoc,
        events_mentions test, events_mentions yes, events_mentions no]
  | block line body => exact events_allMentions body scope
  | bind line names inits body =>
      rw [mentions, changes, List.filterMap_append, Change.events_append,
        events_bindingMentions names inits, events_allMentions body]
  | assign line space name value => exact events_mentions value scope
  | throw line value => exact events_mentions value scope
  | call line f args =>
      rw [mentions, changes, List.filterMap_append, Change.events_append, events_mentions f,
        events_allMentions args]
  | vector line items => exact events_allMentions items scope
  | map line keys values =>
      rw [mentions, changes, List.filterMap_append, Change.events_append, events_allMentions keys,
        events_allMentions values]
termination_by sizeOf x

theorem events_allMentions (xs : List Node) (scope : List String) :
    (allMentions scope xs).filterMap Mention.event? = Change.events (allChanges xs) := by
  cases xs with
  | nil => rfl
  | cons x xs =>
      rw [allMentions, allChanges, List.filterMap_append, Change.events_append, events_mentions x,
        events_allMentions xs]
termination_by sizeOf xs

theorem events_bindingMentions (names : List String) (inits : List Node) (scope : List String) :
    (bindingMentions scope names inits).filterMap Mention.event? =
      Change.events (allChanges inits) := by
  cases inits with
  | nil => cases names <;> rfl
  | cons init inits =>
      cases names with
      | nil =>
          rw [bindingMentions, allChanges, List.filterMap_append, Change.events_append,
            events_mentions init, events_bindingMentions [] inits]
      | cons name names =>
          rw [bindingMentions, allChanges, List.filterMap_append, Change.events_append,
            events_mentions init, ← events_bindingMentions names inits (name :: scope)]
          rfl
termination_by sizeOf inits

end

def left (ns : String) (later : List Event) (uses : Table String String) : Table String String :=
  uses.filter fun e => !(takenOver ns later).contains e.1

mutual

def behind (later : List Event) : Node → Node
  | .ns line name requires uses => .ns line name requires (left name later uses)
  | .define line space name (some init) => .define line space name (some (behind later init))
  | .fn line name self params rest body => .fn line name self params rest (allBehind later body)
  | .cond line test yes no =>
      .cond line (behind (Change.events (yes.changes ++ no.changes) ++ later) test)
        (behind (Change.events no.changes ++ later) yes) (behind later no)
  | .block line body => .block line (allBehind later body)
  | .bind line names inits body =>
      .bind line names (allBehind (Change.events (allChanges body) ++ later) inits)
        (allBehind later body)
  | .assign line space name value => .assign line space name (behind later value)
  | .throw line value => .throw line (behind later value)
  | .call line f args =>
      .call line (behind (Change.events (allChanges args) ++ later) f) (allBehind later args)
  | .vector line items => .vector line (allBehind later items)
  | .map line keys values =>
      .map line (allBehind (Change.events (allChanges values) ++ later) keys) (allBehind later values)
  | node => node

def allBehind (later : List Event) : List Node → List Node
  | [] => []
  | node :: nodes =>
      behind (Change.events (allChanges nodes) ++ later) node :: allBehind later nodes

end

theorem afterDeclared_defined {before : List Event} (hb : ∀ e ∈ before, e.isDefined = true)
    (ns : String) (rest : List Event) : afterDeclared ns (before ++ .declared ns :: rest) = rest := by
  induction before with
  | nil => exact if_pos rfl
  | cons e before ih =>
      rw [List.forall_mem_cons] at hb
      cases e with
      | declared other => cases hb.1
      | defined other name => exact ih hb.2

mutual

theorem settle_eq_behind {before : List Event} (hb : ∀ e ∈ before, e.isDefined = true)
    (later : List Event) (x : Node) : ∃ pending, (∀ e ∈ pending, e.isDefined = true) ∧
      x.settle (before ++ (Change.events x.changes ++ later)) = (x.behind later, pending ++ later) := by
  -- what is defined behind the last declaration of a part is handed on to the next part, and the
  -- changes of the parts to its right count as later
  cases x with
  | const | bound | var => exact ⟨before, hb, rfl⟩
  | ns line name requires uses =>
      refine ⟨[], nofun, ?_⟩
      have hlater := afterDeclared_defined hb name later
      change afterDeclared name (before ++ (Change.events [.declare name requires uses] ++ later)) = _
        at hlater
      rw [settle, changes, hlater]
      rfl
  | define line space name init =>
      have hdefined : ∀ e ∈ before ++ [.defined space name], e.isDefined = true :=
        List.forall_mem_append.mpr ⟨hb, by simp [Event.isDefined]⟩
      cases init with
      | none => exact ⟨_, hdefined, by rw [List.append_assoc]; rfl⟩
      | some init =>
          obtain ⟨pending, hp, hinit⟩ := settle_eq_behind hdefined later init
          refine ⟨pending, hp, ?_⟩
          have hlog : before ++ (Change.events (Node.changes (.define line space name (some init))) ++
              later) = before ++ [.defined space name] ++ (Change.events init.changes ++ later) := by
            rw [changes, ← List.singleton_append, Change.events_append, Change.events_append]
            simp [Change.events, Change.event?]
          rw [hlog, settle, hinit, behind]
  | fn line name self params rest body =>
      obtain ⟨pending, hp, hbody⟩ := settleAll_eq_behind hb later body
      exact ⟨pending, hp, by rw [changes, settle, hbody, behind]⟩
  | cond line test yes no =>
      obtain ⟨_, ht, htest⟩ := settle_eq_behind hb
        (Change.events yes.changes ++ (Change.events no.changes ++ later)) test
      obtain ⟨_, hy, hyes⟩ := settle_eq_behind ht (Change.events no.changes ++ later) yes
      obtain ⟨pending, hp, hno⟩ := settle_eq_behind hy later no
      refine ⟨pending, hp, ?_⟩
      simp only [changes, Change.events_append, List.append_assoc, settle, htest, hyes, hno, behind]
  | block line body =>
      obtain ⟨pending, hp, hbody⟩ := settleAll_eq_behind hb later body
      exact ⟨pending, hp, by rw [changes, settle, hbody, behind]⟩
  | bind line names inits body =>
      obtain ⟨_, hi, hinits⟩ := settleAll_eq_behind hb (Change.events (allChanges body) ++ later) inits
      obtain ⟨pending, hp, hbody⟩ := settleAll_eq_behind hi later body
      refine ⟨pending, hp, ?_⟩
      simp only [changes, Change.events_append, List.append_assoc, settle, hinits, hbody, behind]
  | assign line space name value =>
      obtain ⟨pending, hp, hvalue⟩ := settle_eq_behind hb later value
      exact ⟨pending, hp, by rw [changes, settle, hvalue, behind]⟩
  | throw line value =>
      obtain ⟨pending, hp, hvalue⟩ := settle_eq_behind hb later value
      exact ⟨pending, hp, by rw [changes, settle, hvalue, behind]⟩
  | call line f args =>
      obtain ⟨_, hf, hcalled⟩ := settle_eq_behind hb (Change.events (allChanges args) ++ later) f
      obtain ⟨pending, hp, hargs⟩ := settleAll_eq_behind hf later args
      refine ⟨pending, hp, ?_⟩
      simp only [changes, Change.events_append, List.append_assoc, settle, hcalled, hargs, behind]
  | vector line items =>
      obtain ⟨pending, hp, hitems⟩ := settleAll_eq_behind hb later items
      exact ⟨pending, hp, by rw [changes, settle, hitems, behind]⟩
  | map line keys values =>
      obtain ⟨_, hk, hkeys⟩ := settleAll_eq_behind hb (Change.events (allChanges values) ++ later) keys
      obtain ⟨pending, hp, hvalues⟩ := settleAll_eq_behind hk later values
      refine ⟨pending, hp, ?_⟩
      simp only [changes, Change.events_append, List.append_assoc, settle, hkeys, hvalues, behind]
termination_by sizeOf x

theorem settleAll_eq_behind {before : List Event} (hb : ∀ e ∈ before, e.isDefined = true)
    (later : List Event) (xs : List Node) : ∃ pending, (∀ e ∈ pending, e.isDefined = true) ∧
      settleAll (before ++ (Change.events (allChanges xs) ++ later)) xs =
        (allBehind later xs, pending ++ later) := by
  cases xs with
  | nil => exact ⟨before, hb, rfl⟩
  | cons x xs =>
      obtain ⟨_, hx, hsettle⟩ := settle_eq_behind hb (Change.events (allChanges xs) ++ later) x
      obtain ⟨pending, hp, hall⟩ := settleAll_eq_behind hx later xs
      refine ⟨pending, hp, ?_⟩
      simp only [allChanges, Change.events_append, List.append_assoc, settleAll, hsettle, hall,
        allBehind]
termination_by sizeOf xs

end

/-- The nodes of a source that are settled against the events of their own. -/
theorem settleAll_own (xs : List Node) :
    (settleAll (Change.events (allChanges xs)) xs).1 = allBehind [] xs := by
  have hnone : ∀ e ∈ ([] : List Event), e.isDefined = true := nofun
  obtain ⟨_, -, h⟩ := settleAll_eq_behind hnone [] xs
  rw [List.append_nil, List.nil_append] at h
  rw [h]

theorem allBehind_append (later : List Event) (xs ys : List Node) :
    allBehind later (xs ++ ys) =
      allBehind (Change.events (allChanges ys) ++ later) xs ++ allBehind later ys := by
  have hall (xs : List Node) : allChanges (xs ++ ys) = allChanges xs ++ allChanges ys := by
    induction xs with
    | nil => rfl
    | cons x xs ih => rw [List.cons_append, allChanges, allChanges, ih, List.append_assoc]
  induction xs with
  | nil => rfl
  | cons x xs ih =>
      rw [List.cons_append, allBehind, allBehind, ih, hall, Change.events_append, List.append_assoc,
        List.cons_append]

theorem length_allBehind (later : List Event) (xs : List Node) :
    (allBehind later xs).length = xs.length := by
  induction xs with
  | nil => rfl
  | cons x xs ih => rw [allBehind, List.length_cons, List.length_cons, ih]

end Node

namespace Change

open Node

/-- Each declaration among some changes has clauses of which `P` says what is left: of what it
requires, of what it uses, and of what is left of that when the changes behind it and `later` have
happened. -/
def Leaves (P : Table String String → Table String String → Table String String → Prop)
    (later : List Event) : List Change → Prop
  | [] => True
  | .declare space requires uses :: cs =>
      P requires uses (left space (events cs ++ later) uses) ∧ Leaves P later cs
  | _ :: cs => Leaves P later cs

variable {P : Table String String → Table String String → Table String String → Prop}
  {later : List Event} {cs ds : List Change}

theorem leaves_append :
    Leaves P later (cs ++ ds) ↔ Leaves P (events ds ++ later) cs ∧ Leaves P later ds := by
  induction cs with
  | nil => simp [Leaves]
  | cons c cs ih =>
      cases c with
      | declare space requires uses =>
          rw [List.cons_append, Leaves, Leaves, ih, events_append, List.append_assoc, and_assoc]
      | _ => exact ih

theorem leaves_define {line : Option Nat} {space name : String} {init : Node} :
    Leaves P later (Node.define line space name (some init)).changes ↔
      Leaves P later init.changes := by
  rw [changes]
  change Leaves P later (init.changes ++ [.finish space name _]) ↔ _
  rw [leaves_append]
  exact and_iff_left trivial

end Change

namespace Node

open Change

mutual

/-- A node stays what it is if and only if no declaration in it uses a name that is taken over. -/
theorem behind_eq_iff (later : List Event) (x : Node) :
    x.behind later = x ↔ Leaves (fun _ uses left => left = uses) later x.changes := by
  cases x with
  | const | bound | var => exact iff_of_true rfl trivial
  | ns line name requires uses => simp [behind, changes, Leaves, events]
  | define line space name init =>
      cases init with
      | none => exact iff_of_true rfl trivial
      | some init =>
          rw [leaves_define]
          simp [behind, behind_eq_iff later init]
  | fn line name self params rest body =>
      simp [behind, changes, allBehind_eq_iff later body]
  | cond line test yes no =>
      simp [behind, changes, leaves_append, behind_eq_iff _ test, behind_eq_iff _ yes,
        behind_eq_iff _ no, events_append]
  | block line body => simp [behind, changes, allBehind_eq_iff later body]
  | bind line names inits body =>
      simp [behind, changes, leaves_append, allBehind_eq_iff _ inits, allBehind_eq_iff _ body]
  | assign line space name value => simp [behind, changes, behind_eq_iff later value]
  | throw line value => simp [behind, changes, behind_eq_iff later value]
  | call line f args =>
      simp [behind, changes, leaves_append, behind_eq_iff _ f, allBehind_eq_iff _ args]
  | vector line items => simp [behind, changes, allBehind_eq_iff later items]
  | map line keys values =>
      simp [behind, changes, leaves_append, allBehind_eq_iff _ keys, allBehind_eq_iff _ values]
termination_by sizeOf x

theorem allBehind_eq_iff (later : List Event) (xs : List Node) :
    allBehind later xs = xs ↔ Leaves (fun _ uses left => left = uses) later (allChanges xs) := by
  cases xs with
  | nil => exact iff_of_true rfl trivial
  | cons x xs =>
      simp [allBehind, allChanges, leaves_append, behind_eq_iff _ x, allBehind_eq_iff _ xs]
termination_by sizeOf xs

end

abbrev Demanding (requires uses left : Table String String) : Prop :=
  demands requires left = demands requires uses

mutual

/-- A node has the same code as long as every declaration in it demands the same namespaces. -/
theorem ofNode_behind {later : List Event} (x : Node) (h : Leaves Demanding later x.changes) :
    Code.ofNode (x.behind later) = Code.ofNode x := by
  cases x with
  | const | bound | var => rfl
  | ns line name requires uses => exact congrArg (Code.provide name) h.1
  | define line space name init =>
      cases init with
      | none => rfl
      | some init =>
          rw [leaves_define] at h
          rw [behind, Code.ofNode, Code.ofNode, ofNode_behind init h]
  | fn line name self params rest body =>
      unfold behind Code.ofNode
      rw [ofNodes_behind body h]
  | cond line test yes no =>
      rw [changes, leaves_append, leaves_append] at h
      obtain ⟨htest, hyes, hno⟩ := h
      rw [behind, Code.ofNode, Code.ofNode, ofNode_behind test htest, ofNode_behind yes hyes,
        ofNode_behind no hno]
  | block line body => rw [behind, Code.ofNode, Code.ofNode, ofNodes_behind body h]
  | bind line names inits body =>
      obtain ⟨hinits, hbody⟩ := leaves_append.mp h
      rw [behind, Code.ofNode, Code.ofNode, ofNodes_behind inits hinits, ofNodes_behind body hbody]
  | assign line space name value => rw [behind, Code.ofNode, Code.ofNode, ofNode_behind value h]
  | throw line value => rw [behind, Code.ofNode, Code.ofNode, ofNode_behind value h]
  | call line f args =>
      obtain ⟨hf, hargs⟩ := leaves_append.mp h
      rw [behind, Code.ofNode, Code.ofNode, ofNode_behind f hf, ofNodes_behind args hargs]
  | vector line items => rw [behind, Code.ofNode, Code.ofNode, ofNodes_behind items h]
  | map line keys values =>
      obtain ⟨hkeys, hvalues⟩ := leaves_append.mp h
      rw [behind, Code.ofNode, Code.ofNode, ofNodes_behind keys hkeys, ofNodes_behind values hvalues]
termination_by sizeOf x

theorem ofNodes_behind {later : List Event} (xs : List Node)
    (h : Leaves Demanding later (allChanges xs)) :
    Code.ofNodes (allBehind later xs) = Code.ofNodes xs := by
  cases xs with
  | nil => rfl
  | cons x xs =>
      obtain ⟨hx, hxs⟩ := leaves_append.mp h
      rw [allBehind, Code.ofNodes, Code.ofNodes, ofNode_behind x hx, ofNodes_behind xs hxs]
termination_by sizeOf xs

end

end Node

end Sumi
