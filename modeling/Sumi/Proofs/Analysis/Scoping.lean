import Mathlib.Data.List.Forall2
import Sumi.Proofs.Analysis.Course
import Sumi.Proofs.Code.Names
import Sumi.Code.OfNode
import Sumi.Code.Render
import Sumi.Code.Valid
import Sumi.Machine.Eval

namespace Sumi

namespace Mention

def Bound (scope : Scope) (ms : List Mention) : Prop :=
  ∀ sym inside, .symbol sym inside ∈ ms → ∀ name ∈ inside, name ∈ scope ∨ .binds name ∈ ms

variable {scope : Scope} {ms ms' : List Mention} {names : List String}

theorem bound_nil : Bound scope [] := by simp [Bound]

theorem bound_symbol (sym : Name) : Bound scope [.symbol sym scope] := by
  rintro _ _ hm name hn
  obtain ⟨rfl, rfl⟩ : _ = sym ∧ _ = scope := by simpa using hm
  exact .inl hn

theorem Bound.append (h : Bound scope ms) (h' : Bound scope ms') : Bound scope (ms ++ ms') := by
  intro sym inside hm name hn
  rcases List.mem_append.mp hm with hm | hm
  · exact (h sym inside hm name hn).imp_right (List.mem_append_left _)
  · exact (h' sym inside hm name hn).imp_right (List.mem_append_right _)

theorem Bound.behind (h : Bound scope ms) (h' : Bound (names ++ scope) ms')
    (hn : ∀ name ∈ names, .binds name ∈ ms) : Bound scope (ms ++ ms') := by
  intro sym inside hm name hi
  rcases List.mem_append.mp hm with hm | hm
  · exact (h sym inside hm name hi).imp_right (List.mem_append_left _)
  · rcases h' sym inside hm name hi with ho | hb
    · rcases List.mem_append.mp ho with ho | ho
      · exact .inr (List.mem_append_left _ (hn name ho))
      · exact .inl ho
    · exact .inr (List.mem_append_right _ hb)

theorem bound_binds (names : List String) : Bound scope (names.map .binds) := by
  rintro sym inside hm
  simp at hm

theorem bound_defines (h : Bound scope ms) (name : String) : Bound scope (.defines name :: ms) := by
  have hone : Bound scope [.defines name] := by simp [Bound]
  exact hone.append h

end Mention

namespace Scope

open Mention Analysis

theorem binders_bound (scope : Scope) (forms : List Form) :
    ∀ name ∈ binders forms, .binds name ∈ scope.bindings forms := by
  intro name hm
  induction forms using binders.induct generalizing scope with
  | case1 first init rest ih =>
      rw [binders, List.mem_append, List.mem_singleton] at hm
      rw [bindings]
      rcases hm with hm | rfl
      · exact List.mem_append_right _ (List.mem_cons_of_mem _ (ih (first :: scope) hm))
      · exact List.mem_append_right _ List.mem_cons_self
  | case2 forms h =>
      rw [binders.eq_2 _ h] at hm
      cases hm

theorem declaration_bound (scope : Scope) (forms : List Form) : Bound scope (declaration forms) := by
  unfold declaration
  split
  · split
    · simp [Bound]
    · exact bound_nil
  · exact bound_nil

mutual

theorem form_bound (scope : Scope) (f : Form) : Bound scope (scope.form f) := by
  cases f with
  | symbol sym =>
      rw [form]
      exact bound_symbol sym
  | list items line =>
      rw [form]
      exact list_bound scope items
  | vector items line =>
      rw [form]
      exact all_bound scope items
  | map items line =>
      rw [form]
      exact (every_bound true scope items).append (every_bound false scope items)
  | nil | bool | int | float | str | keyword => exact bound_nil
termination_by sizeOf f

theorem all_bound (scope : Scope) (forms : List Form) : Bound scope (scope.all forms) := by
  cases forms with
  | nil => exact bound_nil
  | cons f forms =>
      rw [all]
      exact (form_bound scope f).append (all_bound scope forms)
termination_by sizeOf forms

theorem every_bound (first : Bool) (scope : Scope) (forms : List Form) :
    Bound scope (scope.every first forms) := by
  cases forms with
  | nil => exact bound_nil
  | cons f forms =>
      rw [every]
      split
      · exact (form_bound scope f).append (every_bound false scope forms)
      · exact every_bound true scope forms
termination_by sizeOf forms

theorem list_bound (scope : Scope) (forms : List Form) : Bound scope (scope.list forms) := by
  cases forms with
  | nil => exact bound_nil
  | cons head args =>
      rw [list]
      cases scope.special? head with
      | none => exact (form_bound scope head).append (all_bound scope args)
      | some special =>
          cases special with
          | define => exact define_bound scope args
          | defineFn => exact defineFn_bound scope args
          | fn => exact fn_bound scope .bare args
          | cond => exact cond_bound scope args
          | block => exact all_bound scope args
          | bind => exact bind_bound scope args
          | quote => exact bound_nil
          | assign => exact assign_bound scope args
          | throw => exact throw_bound scope args
          | ns => exact declaration_bound scope args
termination_by sizeOf forms

theorem define_bound (scope : Scope) (args : List Form) : Bound scope (scope.define args) := by
  unfold define
  split
  · exact bound_defines bound_nil _
  · next init => exact bound_defines (form_bound scope init) _
  · exact bound_nil
termination_by sizeOf args

theorem defineFn_bound (scope : Scope) (args : List Form) : Bound scope (scope.defineFn args) := by
  unfold defineFn
  split
  · next sym rest =>
      split
      · exact bound_nil
      · apply bound_defines
        split
        · exact (bound_symbol _).append ((bound_symbol _).append (parts_bound scope rest))
        · exact fn_bound scope _ rest
  · exact bound_nil
termination_by sizeOf args

theorem parts_bound (scope : Scope) (forms : List Form) : Bound scope (scope.parts forms) := by
  unfold parts
  split
  · exact bound_nil
  · next forms => exact all_bound scope forms
  · next f forms _ => exact (form_bound scope f).append (all_bound scope forms)
termination_by sizeOf forms

theorem fn_bound (scope : Scope) (before : Heading) (forms : List Form) :
    Bound scope (scope.fn before forms) := by
  unfold fn
  split
  · next params _ body =>
      split
      · next ps _ =>
          have hall := all_bound (inside scope before ps) body
          exact (bound_binds _).behind hall (by simp [or_comm])
      · exact bound_nil
  · next sym rest =>
      cases before with
      | bare => exact fn_bound scope (.named sym.name) rest
      | named | defined => exact bound_nil
  · next rest =>
      cases before with
      | defined self => exact fn_bound scope (.named self) rest
      | bare | named => exact bound_nil
  · exact bound_nil
termination_by sizeOf forms

theorem cond_bound (scope : Scope) (args : List Form) : Bound scope (scope.cond args) := by
  unfold cond
  split
  · next test yes => exact (form_bound scope test).append (form_bound scope yes)
  · next test yes no =>
      exact ((form_bound scope test).append (form_bound scope yes)).append (form_bound scope no)
  · exact bound_nil
termination_by sizeOf args

theorem bind_bound (scope : Scope) (args : List Form) : Bound scope (scope.bind args) := by
  unfold bind
  split
  · next bindings _ body =>
      split
      · exact bound_nil
      · exact (bindings_bound scope bindings).behind (all_bound (binders bindings ++ scope) body)
          (binders_bound scope bindings)
  · exact bound_nil
termination_by sizeOf args

theorem bindings_bound (scope : Scope) (forms : List Form) : Bound scope (scope.bindings forms) := by
  unfold bindings
  split
  · next name init rest =>
      apply (form_bound scope init).append
      have hrest : Bound ([name] ++ scope) (bindings (name :: scope) rest) :=
        bindings_bound (name :: scope) rest
      exact (bound_binds [name]).behind hrest (by simp)
  · exact bound_nil
termination_by sizeOf forms

theorem assign_bound (scope : Scope) (args : List Form) : Bound scope (scope.assign args) := by
  unfold assign
  split
  · next sym value =>
      split
      · exact bound_nil
      · exact (bound_symbol sym).append (form_bound scope value)
  · exact bound_nil
termination_by sizeOf args

theorem throw_bound (scope : Scope) (args : List Form) : Bound scope (scope.throw args) := by
  unfold throw
  split
  · next value => exact form_bound scope value
  · exact bound_nil
termination_by sizeOf args

end

end Scope

def Mention.binder? : Mention → Option String
  | .binds name => some name
  | _ => none

def Form.locals (f : Form) : List String := f.mentions.filterMap Mention.binder?

namespace Code

end Code

namespace Analysis

open Text.Compatibility

def hidden : Form :=
  .list [.sym "let", .vector [.sym "x", .int 1] none,
    .list [.sym "fn", .sym "f-1", .vector [.sym "x", .sym "&", .sym "xs"] none,
      .list [.sym "f-1", .sym "x", .sym "y"] none] none] none

example : hidden.mentions =
    [.binds "x", .binds "f-1", .binds "x", .binds "xs",
      .symbol (.plain "f-1") ["xs", "x", "f-1", "x"], .symbol (.plain "x") ["xs", "x", "f-1", "x"],
      .symbol (.plain "y") ["xs", "x", "f-1", "x"]] := by
  decide

end Analysis

end Sumi
