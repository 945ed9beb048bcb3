import Sumi.Analysis.Analyze

namespace Sumi

/-- What analysis comes upon in a form. -/
inductive Mention
  /-- A `let` or a function gives a local this name. -/
  | binds (name : String)
  /-- A symbol to be evaluated, with the names bound around it, innermost first. -/
  | symbol (sym : Name) (scope : List String)
  | defines (name : String)
  | declares (ns : String) (requires uses : Table String String)
  deriving DecidableEq

inductive Node.Mention
  | binds (name : String)
  | bound (name : String) (scope : List String)
  | var (ns name : String)
  | defines (ns name : String)
  | declares (ns : String)
  deriving DecidableEq

namespace Form

mutual

def isNamed : Form → Bool
  | .symbol ⟨none, name⟩ => !name.isEmpty
  | .list items _ | .vector items _ | .map items _ => allNamed items
  | _ => true

def allNamed : List Form → Bool
  | [] => true
  | form :: forms => form.isNamed && allNamed forms

end

end Form

namespace Analysis

def Parameters.of? : List Form → Option Parameters
  | [] => some ⟨[], none⟩
  | .symbol ⟨none, name⟩ :: forms =>
      if name = "&" then
        match forms with
        | [.symbol rest] => some ⟨[], if rest.name.isEmpty then none else some rest.name⟩
        | _ => none
      else (Parameters.of? forms).map fun more => ⟨name :: more.fixed, more.rest⟩
  | _ => none

def Parameters.names (ps : Parameters) : List String := ps.fixed ++ ps.rest.toList

def clauses? (forms : List Form) : Option (Table String String × Table String String) :=
  ((clauses { ns := Namespace.user } [] [] forms).run.run { namespaces := [] }).1.toOption

end Analysis

open Analysis

abbrev Scope := List String

namespace Scope

def special? (scope : Scope) : Form → Option Special
  | .symbol ⟨none, name⟩ => if name ∈ scope then none else Special.ofName? name
  | _ => none

def binders : List Form → List String
  | .symbol ⟨none, name⟩ :: _ :: rest => binders rest ++ [name]
  | _ => []

def self? (before : Heading) : Option String := before.self?.filter (!·.isEmpty)

def inside (scope : Scope) (before : Heading) (ps : Parameters) : Scope :=
  ps.names.reverse ++ (self? before).toList ++ scope

mutual

def form (scope : Scope) : Form → List Mention
  | .symbol sym => [.symbol sym scope]
  | .list items _ => scope.list items
  | .vector items _ => scope.all items
  | .map items _ => scope.every true items ++ scope.every false items
  | _ => []

def all (scope : Scope) : List Form → List Mention
  | [] => []
  | form :: forms => scope.form form ++ scope.all forms

def every (first : Bool) (scope : Scope) : List Form → List Mention
  | [] => []
  | form :: forms =>
      if first then scope.form form ++ every false scope forms else every true scope forms

def list (scope : Scope) : List Form → List Mention
  | [] => []
  | head :: args =>
      match scope.special? head with
      | some .define => scope.define args
      | some .defineFn => scope.defineFn args
      | some .fn => scope.fn .bare args
      | some .cond => scope.cond args
      | some .block => scope.all args
      | some .bind => scope.bind args
      | some .quote => []
      | some .assign => scope.assign args
      | some .throw => scope.throw args
      | some .ns => declaration args
      | none => scope.form head ++ scope.all args

def define (scope : Scope) : List Form → List Mention
  | [.symbol sym] => [.defines sym.name]
  | [.symbol sym, init] => .defines sym.name :: scope.form init
  | _ => []

def defineFn (scope : Scope) : List Form → List Mention
  | .symbol sym :: rest =>
      if rest.isEmpty then []
      else .defines sym.name ::
        if "fn" ∈ scope then
          .symbol (.plain "fn") scope :: .symbol sym scope :: scope.parts rest
        else scope.fn (.defined sym.name) rest
  | _ => []

def parts (scope : Scope) : List Form → List Mention
  | [] => []
  | .str _ :: forms => scope.all forms
  | form :: forms => scope.form form ++ scope.all forms

def fn (scope : Scope) (before : Heading) : List Form → List Mention
  | .vector params _ :: body =>
      match Parameters.of? params with
      | some ps =>
          ((self? before).toList ++ ps.names).map .binds ++ (inside scope before ps).all body
      | none => []
  | .symbol sym :: rest =>
      match before with
      | .bare => scope.fn (.named sym.name) rest
      | _ => []
  | .str _ :: rest =>
      match before with
      | .defined self => scope.fn (.named self) rest
      | _ => []
  | _ => []

def cond (scope : Scope) : List Form → List Mention
  | [test, yes] => scope.form test ++ scope.form yes
  | [test, yes, no] => scope.form test ++ scope.form yes ++ scope.form no
  | _ => []

def bind (scope : Scope) : List Form → List Mention
  | .vector bindings _ :: body =>
      if bindings.length % 2 ≠ 0 then []
      else scope.bindings bindings ++ all (binders bindings ++ scope) body
  | _ => []

def bindings (scope : Scope) : List Form → List Mention
  | .symbol ⟨none, name⟩ :: init :: rest =>
      scope.form init ++ .binds name :: bindings (name :: scope) rest
  | _ => []

def assign (scope : Scope) : List Form → List Mention
  | [.symbol sym, value] =>
      if sym.ns = none ∧ sym.name ∈ scope then [] else .symbol sym scope :: scope.form value
  | _ => []

def throw (scope : Scope) : List Form → List Mention
  | [value] => scope.form value
  | _ => []

def declaration : List Form → List Mention
  | .symbol ⟨none, name⟩ :: forms =>
      match clauses? forms with
      | some (requires, uses) => [.declares name requires uses]
      | none => []
  | _ => []

end

end Scope

def Form.mentions (f : Form) : List Mention := Scope.form [] f

namespace Node

mutual

/-- What a node mentions that stands where `scope` is bound, innermost first, by the names of the
generated code. -/
def mentions (scope : List String) : Node → List Node.Mention
  | .const _ _ => []
  | .bound _ name => [.bound name scope]
  | .var _ space name => [.var space name]
  | .define _ space name none => [.defines space name]
  | .define _ space name (some init) => .defines space name :: init.mentions scope
  | .fn _ _ self params rest body =>
      (self.toList ++ (params ++ rest.toList)).map .binds ++
        allMentions ((params ++ rest.toList).reverse ++ self.toList ++ scope) body
  | .cond _ test yes no => test.mentions scope ++ yes.mentions scope ++ no.mentions scope
  | .block _ body => allMentions scope body
  | .bind _ names inits body =>
      bindingMentions scope names inits ++ allMentions (names.reverse ++ scope) body
  | .assign _ space name value => .var space name :: value.mentions scope
  | .throw _ value => value.mentions scope
  | .call _ f args => f.mentions scope ++ allMentions scope args
  | .vector _ items => allMentions scope items
  | .map _ keys values => allMentions scope keys ++ allMentions scope values
  | .ns _ name _ _ => [.declares name]

def allMentions (scope : List String) : List Node → List Node.Mention
  | [] => []
  | node :: nodes => node.mentions scope ++ allMentions scope nodes

def bindingMentions (scope : List String) : List String → List Node → List Node.Mention
  | name :: names, init :: inits =>
      init.mentions scope ++ .binds name :: bindingMentions (name :: scope) names inits
  | [], init :: inits => init.mentions scope ++ bindingMentions scope [] inits
  | _, [] => []

end

end Node

structure View where
  ns : String
  requires : Table String String
  uses : Table String String
  own : String → Bool
  library : String → Bool

def Analyzer.view (a : Analyzer) (ns : String) : View where
  ns := ns
  requires := (a.namespaceOf ns).requires
  uses := (a.namespaceOf ns).uses
  own := (a.namespaceOf ns).defs.has
  library := (a.namespaceOf Namespace.core).defs.has

namespace View

def meaning (v : View) (sym : Name) : String × String :=
  match sym.ns with
  | some short => ((v.requires.get? short).getD short, sym.name)
  | none =>
      match v.uses.get? sym.name with
      | some other => (other, sym.name)
      | none =>
          if v.own sym.name then (v.ns, sym.name)
          else if v.library sym.name then (Namespace.core, sym.name)
          else (v.ns, sym.name)

def define (v : View) (name : String) : View :=
  { v with
    uses := v.uses.erase name
    own := fun x => x == name || v.own x
    library := fun x => v.ns == Namespace.core && x == name || v.library x }

def next (v : View) : Mention → View
  | .defines name => v.define name
  | .declares ns requires uses => if ns = v.ns then { v with requires, uses } else v
  | _ => v

def after (v : View) (ms : List Mention) : View := ms.foldl next v

/-- What a mention comes to in the node. -/
def image (v : View) : Mention → Node.Mention
  | .binds name => .binds (Code.mungeLocal name)
  | .symbol sym scope =>
      if sym.ns = none ∧ sym.name ∈ scope then
        .bound (Code.mungeLocal sym.name) (scope.map Code.mungeLocal)
      else .var (v.meaning sym).1 (v.meaning sym).2
  | .defines name => .defines v.ns name
  | .declares ns _ _ => .declares ns

def resolve (v : View) : List Mention → List Node.Mention
  | [] => []
  | m :: ms => v.image m :: (v.next m).resolve ms

variable {v : View} {m : Mention} {ms ms' : List Mention} {name : String}

@[simp] theorem after_nil : v.after [] = v := rfl

@[simp] theorem after_cons : v.after (m :: ms) = (v.next m).after ms := rfl

theorem after_append : v.after (ms ++ ms') = (v.after ms).after ms' := List.foldl_append

@[simp] theorem resolve_nil : v.resolve [] = [] := rfl

@[simp] theorem resolve_cons : v.resolve (m :: ms) = v.image m :: (v.next m).resolve ms := rfl

theorem resolve_append : v.resolve (ms ++ ms') = v.resolve ms ++ (v.after ms).resolve ms' := by
  induction ms generalizing v with
  | nil => rfl
  | cons m ms ih => simp [ih]

theorem after_binds (v : View) (names : List String) : v.after (names.map .binds) = v := by
  induction names with
  | nil => rfl
  | cons name names ih => exact ih

theorem resolve_binds (v : View) (names : List String) :
    v.resolve (names.map .binds) = (names.map Code.mungeLocal).map .binds := by
  induction names with
  | nil => rfl
  | cons name names ih => exact congrArg (_ :: ·) ih

theorem length_resolve : (v.resolve ms).length = ms.length := by
  induction ms generalizing v with
  | nil => rfl
  | cons m ms ih => simp [ih]

@[simp] theorem next_ns : (v.next m).ns = v.ns := by
  cases m with
  | declares ns requires uses =>
      rw [next]
      split <;> rfl
  | _ => rfl

@[simp] theorem after_ns : (v.after ms).ns = v.ns := by
  induction ms generalizing v with
  | nil => rfl
  | cons m ms ih => simp [ih]

/-- A namespace has what was defined in it, before or on the way. -/
theorem own_after_iff : (v.after ms).own name = true ↔ .defines name ∈ ms ∨ v.own name = true := by
  induction ms generalizing v with
  | nil => simp
  | cons m ms ih =>
      rw [after_cons, ih]
      cases m with
      | defines x =>
          simp only [next, define, Bool.or_eq_true, beq_iff_eq, List.mem_cons,
            Mention.defines.injEq]
          rw [or_left_comm, or_assoc]
      | declares =>
          simp only [next, List.mem_cons, reduceCtorEq, false_or]
          split <;> rfl
      | _ => simp [next]

theorem library_after_iff : (v.after ms).library name = true ↔
    v.ns = Namespace.core ∧ .defines name ∈ ms ∨ v.library name = true := by
  induction ms generalizing v with
  | nil => simp
  | cons m ms ih =>
      rw [after_cons, ih, next_ns]
      cases m with
      | defines x =>
          simp only [next, define, Bool.or_eq_true, Bool.and_eq_true, beq_iff_eq, List.mem_cons,
            Mention.defines.injEq]
          rw [and_or_left, or_left_comm, or_assoc]
      | declares =>
          simp only [next, List.mem_cons, reduceCtorEq, false_or]
          split <;> rfl
      | _ => simp [next]

end View

end Sumi
