import Sumi.Machine.Primitive
import Sumi.Proofs.Machine.Results

namespace Sumi

variable {ε σ α : Type} {R : σ → σ → Prop}

theorem moves_modifyGet {f : σ → α × σ} (h : ∀ s, R s (f s).2) :
    Moves R (modifyGet f : ExceptT ε (StateM σ) α) :=
  fun s => leads_iff.mpr (h s)

theorem leads_filterM_none {f : α → ExceptT ε (StateM σ) Bool} {xs : List α} {s : σ}
    (h : ∀ x ∈ xs, (f x).run.run s = (.ok false, s)) {E : ε → σ → Prop} :
    Leads (xs.filterM f) s (fun kept s' => kept = [] ∧ s' = s) E := by
  have haux : ∀ acc, Leads (xs.filterAuxM f acc) s (fun kept s' => kept = acc ∧ s' = s) E := by
    induction xs with
    | nil => exact fun acc => leads_pure.mpr ⟨rfl, rfl⟩
    | cons x xs ih =>
        intro acc
        unfold List.filterAuxM
        apply leads_bind.mpr
        apply (leads_of_ok (h x List.mem_cons_self)).mpr
        exact ih (fun y hy => h y (List.mem_cons_of_mem x hy)) acc
  unfold List.filterM
  apply (haux []).bind
  · rintro _ _ ⟨rfl, rfl⟩
    exact leads_pure.mpr ⟨rfl, rfl⟩
  · exact fun _ _ he => he

namespace Machine

open Run Library

/-- All that is declared in one state is declared in the other, and a number that a symbol got is not
given out again. -/
structure Grows (m m' : Machine) : Prop where
  provided : m.provided ⊆ m'.provided
  symbols : m.nextSymbol ≤ m'.nextSymbol

instance : IsPreorder Machine Grows where
  refl m := ⟨List.Subset.refl m.provided, Nat.le_refl m.nextSymbol⟩
  trans _ _ _ h h' := ⟨List.Subset.trans h.provided h'.provided, Nat.le_trans h.symbols h'.symbols⟩

variable {m m' : Machine}

theorem Grows.of_eq (hprovided : m'.provided = m.provided) (hsymbols : m'.nextSymbol = m.nextSymbol) :
    Grows m m' where
  provided := by rw [hprovided]; exact List.Subset.refl _
  symbols := Nat.le_of_eq hsymbols.symm

theorem looks_grows {α : Type} {c : Run α} (h : Moves Eq c) : Moves Grows c := by
  intro m
  apply (h m).mono
  · rintro _ _ rfl
    exact refl_of Grows m
  · rintro _ _ rfl
    exact refl_of Grows m

theorem fault_grows {α : Type} (f : Fault) : Moves Grows (fault f : Run α) := moves_throw _

theorem fail_grows {α : Type} (f : Failure) : Moves Grows (fail f : Run α) := moves_throw _

theorem result_grows {α : Type} (r : Result α) : Moves Grows (ofResult r) := by
  cases r with
  | ok a => exact moves_pure a
  | error f => exact moves_throw f

theorem setEntry_grows (m : Machine) (map : Live) (key value : Value) :
    Grows m (m.setEntry map key value) := by
  unfold setEntry
  split
  · split
    · exact Grows.of_eq rfl rfl
    · exact refl_of Grows m
  · exact Grows.of_eq rfl rfl

theorem freshId_grows : Moves Grows freshId := moves_modifyGet fun _ => Grows.of_eq rfl rfl

theorem print_grows (v : Value) (readably : Bool) : Moves Grows (print v readably) :=
  moves_get.bind fun _ => result_grows _

theorem plain_grows (v : Value) : Moves Grows (plain v) := looks_grows (plain_looks v)

theorem printAll_grows (readably : Bool) (vs : List Value) : Moves Grows (printAll readably vs) :=
  (moves_mapM (fun v => print_grows v readably) vs).bind fun _ => moves_pure _

theorem emit_grows (s : String) : Moves Grows (emit s) := by
  apply moves_get.bind
  intro m
  split
  · exact moves_modify fun _ => Grows.of_eq rfl rfl
  · exact fault_grows _

theorem list_grows (items : List Value) : Moves Grows (Run.list items) :=
  freshId_grows.bind fun _ => moves_pure _

theorem absent_grows {α : Type} (place : Place) (attr : String) :
    Moves Grows (absent place attr : Run α) := by
  unfold absent
  split
  · exact fault_grows _
  · exact moves_get.bind fun _ => (result_grows _).bind fun _ => fail_grows _

theorem member_grows (place : Place) (attr : String) : Moves Grows (member place attr) := by
  apply moves_get.bind
  intro m
  split
  · exact moves_pure _
  · exact absent_grows _ _

theorem attributeOf_grows (attr : String) (v : Value) : Moves Grows (attributeOf attr v) := by
  unfold attributeOf
  split
  · exact member_grows _ _
  · exact fault_grows _

theorem start_grows (place : Place) (name : Value) : Moves Grows (start place name) :=
  freshId_grows.bind fun _ => moves_modify fun _ => Grows.of_eq rfl rfl

theorem placeOf_grows (name : Value) : Moves Grows (placeOf name) := by
  unfold placeOf
  split
  · exact moves_pure _
  · apply (result_grows _).bind
    intro name
    apply moves_get.bind
    intro m
    split
    · exact moves_pure _
    · apply freshId_grows.bind
      intro id
      apply Moves.bind
      · exact moves_modify fun _ => Grows.of_eq rfl rfl
      · exact fun _ => (start_grows _ _).bind fun _ => moves_pure _

theorem munged_grows (name : Value) : Moves Grows (munged name) := by
  have hpart (part : Value) : Moves Grows (munged.mungedPart part) := by
    apply (result_grows _).bind
    intro v
    split
    · next s =>
      cases Code.mungePart? s.toList with
      | none => exact fault_grows _
      | some cs => exact moves_pure cs
    · exact (member_grows _ _).bind fun _ => fault_grows _
    · exact fault_grows _
  unfold munged
  split
  · exact moves_pure _
  · apply moves_get.bind
    intro m
    split
    · exact fault_grows _
    · exact (moves_mapM hpart _).bind fun _ => moves_pure _

theorem put_grows (place : Place) (attr : String) (value : Value) :
    Moves Grows (put place attr value) := by
  unfold put
  split
  · split
    · exact moves_pure _
    · exact fault_grows _
  · split
    · apply moves_get.bind
      intro m
      split
      · exact moves_modify fun _ => Grows.of_eq rfl rfl
      · exact fault_grows _
    · split
      · exact fault_grows _
      · split
        · split
          · exact freshId_grows.bind fun _ => moves_modify fun _ => Grows.of_eq rfl rfl
          · exact moves_modify fun _ => Grows.of_eq rfl rfl
        · exact moves_modify fun _ => Grows.of_eq rfl rfl

theorem note_grows (place : Place) (name : Value) : Moves Grows (note place name) := by
  apply moves_get.bind
  intro m
  split
  · exact fault_grows _
  · apply (result_grows _).bind
    exact fun _ => moves_modify fun _ => setEntry_grows _ _ _ _
  · exact fault_grows _

theorem bindVar_grows (ns name value : Value) : Moves Grows (bindVar ns name value) :=
  (placeOf_grows ns).bind fun _ => (munged_grows name).bind fun _ =>
    (put_grows _ _ _).bind fun _ => note_grows _ _

theorem giveLabel_grows (ns name value : Value) : Moves Grows (giveLabel ns name value) := by
  apply moves_modify
  intro m
  split
  · exact Grows.of_eq rfl rfl
  · exact refl_of Grows m

theorem define_grows (ns name value : Value) : Moves Grows (define ns name value) :=
  (bindVar_grows _ _ _).bind fun _ => (giveLabel_grows _ _ _).bind fun _ =>
    freshId_grows.bind fun _ => moves_pure _

theorem assign_grows (ns name value : Value) : Moves Grows (assign ns name value) :=
  (bindVar_grows _ _ _).bind fun _ => moves_pure _

theorem provide_grows (ns requires : Value) : Moves Grows (provide ns requires) := by
  have hmissing (name : Value) : Moves Grows (do return !(← isProvided name)) :=
    (looks_grows (isProvided_looks name)).bind fun _ => moves_pure _
  unfold provide
  apply (looks_grows (isProvided_looks ns)).bind
  intro known
  cases known with
  | true =>
      apply (plain_grows ns).bind
      exact fun _ m => leads_bind.mpr (leads_throw.mpr (refl_of Grows m))
  | false =>
      apply moves_get.bind
      intro m
      split
      · exact fault_grows _
      · next names _ =>
        apply (moves_filterM hmissing names).bind
        intro missing
        split
        · apply Moves.bind
          · apply moves_modify
            intro m
            cases ns with
            | str s => exact ⟨List.subset_append_left _ _, Nat.le_refl _⟩
            | _ => exact Grows.of_eq rfl rfl
          · exact fun _ => (placeOf_grows _).bind fun _ => moves_pure _
        · apply (plain_grows _).bind
          intro shown
          exact (moves_mapM (fun v => looks_grows (textOf_looks v)) _).bind fun _ => fail_grows _

theorem throwValue_grows {α : Type} (v : Value) : Moves Grows (throwValue v : Run α) := by
  unfold throwValue
  split
  · exact fail_grows _
  · exact (print_grows _ _).bind fun _ => fail_grows _

theorem hold_grows (h : Holder) (v : Value) : Moves Grows (hold h v) :=
  moves_modify fun _ => Grows.of_eq rfl rfl

theorem make_grows (rule : Rule) : Moves Grows (make rule) :=
  freshId_grows.bind fun _ => moves_pure _

theorem modulo_grows (a b : Value) : Moves Grows (modulo a b) := by
  unfold modulo
  split
  · exact moves_get.bind fun _ => (result_grows _).bind fun _ => moves_pure _
  · exact result_grows _

theorem seqOf_grows (items : List Value) : Moves Grows (seqOf items) := by
  unfold seqOf
  split
  · exact moves_pure _
  · exact list_grows _

theorem conj_grows (coll : Value) (xs : List Value) : Moves Grows (conj coll xs) := by
  have hone (coll x : Value) : Moves Grows (conjOne coll x) := by
    unfold conjOne
    split
    · apply moves_get.bind
      intro m
      split
      · exact (result_grows _).bind fun _ => moves_pure _
      · exact (result_grows _).bind fun _ => (result_grows _).bind fun _ =>
          (result_grows _).bind fun _ => moves_pure _
    · exact moves_pure _
    · exact (result_grows _).bind fun _ => moves_pure _
    · split
      · exact list_grows _
      · exact fault_grows _
  unfold conj
  split
  · exact (list_grows _).bind fun start => moves_foldlM hone start xs
  · exact (moves_pure _).bind fun start => moves_foldlM hone start xs

theorem makeNamespace_grows (args : List Value) : Moves Grows (makeNamespace args) := by
  unfold makeNamespace
  split
  · exact freshId_grows.bind fun _ => (start_grows _ _).bind fun _ => moves_pure _
  · exact fault_grows _

theorem erase_grows (place : Place) (attr : String) : Moves Grows (erase place attr) := by
  unfold erase
  split
  · exact fault_grows _
  · split
    · exact moves_modify fun _ => Grows.of_eq rfl rfl
    · apply moves_get.bind
      intro m
      dsimp only
      split
      · exact moves_modify fun _ => Grows.of_eq rfl rfl
      · exact fault_grows _

theorem ofNamespace_grows (place : Place) (op : Method) (args : List Value) :
    Moves Grows (ofNamespace place op args) := by
  unfold ofNamespace
  -- Most methods answer without a look at the machine.
  split <;> try exact moves_pure _
  · exact (start_grows _ _).bind fun _ => moves_pure _
  · exact absent_grows _ _
  · exact fault_grows _
  · exact (plain_grows _).bind fun _ => moves_pure _
  · exact (plain_grows _).bind fun _ => moves_pure _
  · exact (plain_grows _).bind fun _ => moves_pure _
  · apply freshId_grows.bind
    intro id
    apply Moves.bind
    · exact moves_modify fun _ => Grows.of_eq rfl rfl
    · exact fun _ => moves_pure _
  · apply moves_get.bind
    intro m
    split
    · exact moves_pure _
    · exact fault_grows _
  · exact (put_grows _ _ _).bind fun _ => moves_pure _
  · exact (erase_grows _ _).bind fun _ => moves_pure _
  · exact moves_get.bind fun _ => moves_pure _
  · exact moves_get.bind fun _ => moves_pure _
  · exact fault_grows _

theorem nameOf_grows (v : Value) : Moves Grows (nameOf v) := by
  unfold nameOf
  split
  · exact moves_pure _
  · exact moves_pure _
  · exact (plain_grows _).bind fun _ => moves_pure _

theorem namespaceOf_grows (v : Value) : Moves Grows (namespaceOf v) := by
  unfold namespaceOf
  split
  · exact moves_pure _
  · exact moves_pure _
  · exact moves_pure _
  · exact member_grows _ _
  · exact fault_grows _

theorem gensym_grows (start : Value) : Moves Grows (gensym start) := by
  apply (plain_grows start).bind
  intro text
  apply Moves.bind
  · exact moves_modifyGet fun m => ⟨List.Subset.refl m.provided, Nat.le_succ m.nextSymbol⟩
  · exact fun _ => moves_pure _

theorem str_grows (vs : List Value) : Moves Grows (Library.str vs) := by
  unfold Library.str
  refine (moves_mapM (fun v => ?_) vs).bind fun _ => moves_pure _
  split
  · exact moves_pure _
  · exact print_grows _ _

theorem atom_grows (v : Value) : Moves Grows (atom v) :=
  freshId_grows.bind fun _ => (hold_grows _ _).bind fun _ => moves_pure _

theorem heldBy_grows (v : Value) : Moves Grows (heldBy v) := by
  unfold heldBy
  split
  · exact member_grows _ _
  · apply moves_get.bind
    intro m
    split
    · exact moves_pure _
    · exact fault_grows _

theorem deref_grows (v : Value) : Moves Grows (deref v) := by
  unfold deref
  split
  · exact (placeOf_grows _).bind fun _ => (munged_grows _).bind fun _ => member_grows _ _
  · exact heldBy_grows _

theorem reset_grows (v value : Value) : Moves Grows (reset v value) := by
  unfold reset
  split
  · exact (put_grows _ _ _).bind fun _ => moves_pure _
  · split
    · exact (hold_grows _ _).bind fun _ => moves_pure _
    · exact (fault_grows _).bind fun _ => moves_pure _

section Calls

variable {call : Call} (hcall : ∀ f args, Moves Grows (call f args))
include hcall

theorem foldOver_grows (f start : Value) (items : List Value) :
    Moves Grows (foldOver call f start items) :=
  moves_foldlM (fun _ _ => hcall _ _) start items

theorem mapOver_grows (f : Value) (colls : List Value) : Moves Grows (mapOver call f colls) := by
  unfold mapOver
  split
  · exact (fault_grows _).bind fun _ => (result_grows _).bind fun _ =>
      (moves_mapM (hcall f) _).bind fun _ => list_grows _
  · exact (result_grows _).bind fun _ => (moves_mapM (hcall f) _).bind fun _ => list_grows _

theorem filterBy_grows (keep : Bool) (f coll : Value) :
    Moves Grows (filterBy call keep f coll) := by
  have hkeep (x : Value) : Moves Grows (do return (← call f [x]).isTruthy == keep) :=
    (hcall f [x]).bind fun _ => moves_pure _
  exact (result_grows _).bind fun items => (moves_filterM hkeep items).bind fun _ => list_grows _

theorem reduce_grows (f : Value) (args : List Value) : Moves Grows (reduce call f args) := by
  unfold reduce
  split
  · apply (result_grows _).bind
    intro items
    split
    · exact hcall _ _
    · exact foldOver_grows hcall _ _ _
  · exact (result_grows _).bind fun _ => foldOver_grows hcall _ _ _
  · exact fault_grows _

theorem applyTo_grows (f : Value) (args : List Value) : Moves Grows (applyTo call f args) := by
  unfold applyTo
  split
  · exact hcall _ _
  · exact (result_grows _).bind fun _ => hcall _ _

theorem someOf_grows (f : Value) (items : List Value) : Moves Grows (someOf call f items) := by
  induction items with
  | nil => exact moves_pure _
  | cons x xs ih =>
      apply (hcall f [x]).bind
      intro answer
      split
      · exact moves_pure _
      · exact ih

theorem everyOf_grows (f : Value) (items : List Value) : Moves Grows (everyOf call f items) := by
  induction items with
  | nil => exact moves_pure _
  | cons x xs ih =>
      apply (hcall f [x]).bind
      intro answer
      split
      · exact ih
      · exact moves_pure _

theorem sortBy_grows (f coll : Value) : Moves Grows (sortBy call f coll) := by
  unfold sortBy
  refine (result_grows _).bind fun items => (moves_mapM (fun x => ?_) items).bind fun _ =>
    (result_grows _).bind fun _ => list_grows _
  split
  · exact moves_pure _
  · exact (hcall _ _).bind fun _ => moves_pure _

theorem ask_grows (place : Place) (word : String) : Moves Grows (ask call place word) := by
  apply (member_grows place word).bind
  intro f
  apply (hcall f []).bind
  intro answer
  apply moves_get.bind
  intro m
  split
  · exact moves_pure _
  · exact fault_grows _

theorem partOf_grows (part : Value × Value → Value) (word : String) (coll : Value) :
    Moves Grows (partOf call part word coll) := by
  unfold partOf
  split
  · exact (ask_grows hcall _ _).bind fun _ => list_grows _
  · exact list_grows _
  · split
    · exact fault_grows _
    · exact moves_pure _

theorem dissoc_grows (coll : Value) (keys : List Value) :
    Moves Grows (dissoc call coll keys) := by
  unfold dissoc
  split
  · exact moves_pure _
  · exact moves_pure _
  · exact (ask_grows hcall _ _).bind fun _ =>
      (moves_mapM (fun v => result_grows (pairOf v)) _).bind fun _ => result_grows _
  · exact fault_grows _

theorem swap_grows (v f : Value) (args : List Value) : Moves Grows (swap call v f args) :=
  (heldBy_grows v).bind fun _ => (hcall _ _).bind fun _ => (reset_grows _ _).bind fun _ =>
    heldBy_grows v

omit hcall in
theorem say_grows (readably : Bool) (ending : String) (vs : List Value) :
    Moves Grows (say readably ending vs) :=
  (printAll_grows _ _).bind fun _ => (emit_grows _).bind fun _ => moves_pure _

end Calls

theorem unary_grows {f : Value → Run Value} (h : ∀ x, Moves Grows (f x)) (args : List Value) :
    Moves Grows (unary f args) := by
  unfold unary
  split
  · exact h _
  · exact fault_grows _

theorem binary_grows {f : Value → Value → Run Value} (h : ∀ x y, Moves Grows (f x y))
    (args : List Value) : Moves Grows (binary f args) := by
  unfold binary
  split
  · exact h _ _
  · exact fault_grows _

theorem leading_grows {f : Value → List Value → Run Value} (h : ∀ x xs, Moves Grows (f x xs))
    (args : List Value) : Moves Grows (leading f args) := by
  unfold leading
  split
  · exact h _ _
  · exact fault_grows _

theorem optional_grows {default : Value} {f : Value → Value → Value → Run Value}
    (h : ∀ x y z, Moves Grows (f x y z)) (args : List Value) :
    Moves Grows (Library.optional default f args) := by
  unfold Library.optional
  split
  · exact h _ _ _
  · exact h _ _ _
  · exact fault_grows _

/-- No function of the library takes anything back, as long as those that it calls do not. -/
theorem run_grows {call : Call} (hcall : ∀ f args, Moves Grows (call f args)) (op : Builtin)
    (args : List Value) : Moves Grows (Library.run call op args) := by
  have hlist (r : Result (List Value)) : Moves Grows (do Run.list (← ofResult r)) :=
    (result_grows r).bind fun _ => list_grows _
  unfold Library.run
  -- most functions come to a result and do nothing else; of the others each has a lemma for what it
  -- does besides
  cases op with
  | add | mul | merge | keyword | symbol => exact result_grows _
  | inc | dec | abs | count | first | second | last =>
      exact unary_grows (fun _ => result_grows _) _
  | negation | identity | isNil | isSome | isTrue | isFalse | isZero | isNumber | isInteger
  | isString | isKeyword | isSymbol | isFn | isList | isVector | isMap | isColl =>
      exact unary_grows (fun _ => moves_pure _) _
  | isPos | isNeg | isEmpty =>
      exact unary_grows (fun _ => (result_grows _).bind fun _ => moves_pure _) _
  | isEven | isOdd =>
      exact unary_grows (fun _ => (modulo_grows _ _).bind fun _ => moves_pure _) _
  | quot | rem | zipmap => exact binary_grows (fun _ _ => result_grows _) _
  | mod => exact binary_grows modulo_grows _
  | greatest | least => exact leading_grows (fun _ _ => result_grows _) _
  | eq | notEq => exact leading_grows (fun _ _ => moves_pure _) _
  | lt | gt | le | ge => exact (result_grows _).bind fun _ => moves_pure _
  | get | subs => exact optional_grows (fun _ _ _ => result_grows _) _
  | getIn =>
      exact optional_grows (fun _ _ _ => (result_grows _).bind fun _ => result_grows _) _
  | contains => exact binary_grows (fun _ _ => (result_grows _).bind fun _ => moves_pure _) _
  | list => exact list_grows _
  | vector => exact moves_pure _
  | concat | range => exact hlist _
  | rest | reverse => exact unary_grows (fun _ => (result_grows _).bind fun _ => list_grows _) _
  | seq | next => exact unary_grows (fun _ => (result_grows _).bind fun _ => seqOf_grows _) _
  | cons => exact binary_grows (fun _ _ => (result_grows _).bind fun _ => list_grows _) _
  | take | drop =>
      exact binary_grows (fun _ _ => (result_grows _).bind fun _ => hlist _) _
  | conj => exact leading_grows conj_grows _
  | into => exact binary_grows (fun _ _ => (result_grows _).bind fun _ => conj_grows _ _) _
  | sort => exact unary_grows (fun _ => (result_grows _).bind fun _ => hlist _) _
  | sortBy => exact binary_grows (sortBy_grows hcall) _
  | map => exact leading_grows (mapOver_grows hcall) _
  | filter => exact binary_grows (filterBy_grows hcall _) _
  | remove => exact binary_grows (filterBy_grows hcall _) _
  | reduce => exact leading_grows (reduce_grows hcall) _
  | apply => exact leading_grows (applyTo_grows hcall) _
  | anyOf =>
      exact binary_grows (fun _ _ => (result_grows _).bind fun _ => someOf_grows hcall _ _) _
  | every =>
      exact binary_grows (fun _ _ => (result_grows _).bind fun _ =>
        (everyOf_grows hcall _ _).bind fun _ => moves_pure _) _
  | dissoc => exact leading_grows (dissoc_grows hcall) _
  | keys | vals => exact unary_grows (partOf_grows hcall _ _) _
  | constantly => exact unary_grows (fun _ => make_grows _) _
  | str => exact str_grows _
  | nameOf => exact unary_grows nameOf_grows _
  | namespaceOf => exact unary_grows namespaceOf_grows _
  | prStr => exact (printAll_grows _ _).bind fun _ => moves_pure _
  | prn | print | println => exact say_grows _ _ _
  | atom => exact unary_grows atom_grows _
  | deref => exact unary_grows deref_grows _
  | reset => exact binary_grows reset_grows _
  | exMessage => exact unary_grows (fun _ => (plain_grows _).bind fun _ => moves_pure _) _
  | sub =>
      apply leading_grows
      intro x xs
      split
      · exact result_grows _
      · exact result_grows _
  | div =>
      apply leading_grows
      intro x xs
      split
      · exact result_grows _
      · exact result_grows _
  | hashMap =>
      dsimp only
      split
      · exact result_grows _
      · exact fail_grows _
  | nth =>
      apply leading_grows
      intro coll args
      apply (result_grows _).bind
      intro items
      split
      · exact fault_grows _
      · apply (result_grows _).bind
        intro found
        split
        · exact moves_pure _
        · exact moves_pure _
        · exact (plain_grows _).bind fun _ => fail_grows _
  | assoc =>
      apply leading_grows
      intro coll args
      split
      · exact (fault_grows _).bind fun _ => result_grows _
      · exact result_grows _
  | repeated =>
      apply binary_grows
      intro n x
      split
      · exact hlist _
      · exact fault_grows _
  | comp =>
      dsimp only
      split
      · exact moves_pure _
      · exact make_grows _
  | partially =>
      apply leading_grows
      intro f args
      split
      · exact make_grows _
      · exact fault_grows _
  | gensym =>
      dsimp only
      split
      · exact gensym_grows _
      · exact gensym_grows _
      · exact fault_grows _
  | swap =>
      apply leading_grows
      intro v args
      split
      · exact swap_grows hcall _ _ _
      · exact fault_grows _

theorem assist_grows {call : Call} (hcall : ∀ f args, Moves Grows (call f args)) (env : Locals)
    (helper : String) (args : List Value) {own : Run Value} (h : Moves Grows own) :
    Moves Grows (assist call env helper args own) := by
  unfold assist
  split
  · exact hcall _ _
  · exact h

theorem holds_grows {call : Call} (hcall : ∀ f args, Moves Grows (call f args)) (env : Locals)
    (v : Value) : Moves Grows (holds call env v) := by
  unfold holds
  split
  · exact moves_get.bind fun _ => (hcall _ _).bind fun _ => moves_pure _
  · exact moves_pure _

mutual

theorem eval_grows {call : Call} (hcall : ∀ f args, Moves Grows (call f args)) (env : Locals)
    (c : Code) : Moves Grows (eval call env c) := by
  cases c with
  | nil | bool | int | float | str =>
      unfold eval
      exact moves_pure _
  | special | keyword | symbol =>
      unfold eval
      exact assist_grows hcall _ _ _ (moves_pure _)
  | list items =>
      unfold eval
      exact (evalAll_grows hcall env items).bind fun _ =>
        assist_grows hcall _ _ _ (list_grows _)
  | vector items =>
      unfold eval
      exact (evalAll_grows hcall env items).bind fun _ => moves_pure _
  | map entries =>
      unfold eval
      exact evalMap_grows hcall env _ _ _ entries
  | bound s =>
      unfold eval
      cases env.lookup (Text.Compatibility.normalize s) with
      | none => exact fault_grows _
      | some v => exact moves_pure v
  | var ns attr =>
      unfold eval
      exact (assist_grows hcall _ _ _ (moves_pure _)).bind fun _ => attributeOf_grows _ _
  | define ns name value =>
      unfold eval
      exact (eval_grows hcall env value).bind fun _ =>
        assist_grows hcall _ _ _ (define_grows _ _ _)
  | assign ns name value =>
      unfold eval
      exact (eval_grows hcall env value).bind fun _ =>
        assist_grows hcall _ _ _ (assign_grows _ _ _)
  | provide ns requires =>
      unfold eval
      exact assist_grows hcall _ _ _ (provide_grows _ _)
  | throw value =>
      unfold eval
      exact (eval_grows hcall env value).bind fun _ =>
        assist_grows hcall _ _ _ (throwValue_grows _)
  | lambda =>
      unfold eval
      exact make_grows _
  | recursive =>
      unfold eval
      split
      · exact (make_grows _).bind fun _ => hcall _ _
      · exact make_grows _
  | bind name init body =>
      unfold eval
      exact (eval_grows hcall env init).bind fun _ => eval_grows hcall _ body
  | call f args =>
      unfold eval
      exact (eval_grows hcall env f).bind fun _ =>
        (evalAll_grows hcall env args).bind fun _ => hcall _ _
  | cond test yes no =>
      unfold eval
      apply (eval_grows hcall env test).bind
      intro v
      apply (holds_grows hcall env v).bind
      intro b
      split
      · exact eval_grows hcall env yes
      · exact eval_grows hcall env no
  | last items =>
      unfold eval
      exact (evalAll_grows hcall env items).bind fun _ => moves_pure _

theorem evalAll_grows {call : Call} (hcall : ∀ f args, Moves Grows (call f args)) (env : Locals)
    (cs : List Code) : Moves Grows (evalAll call env cs) := by
  cases cs with
  | nil =>
      unfold evalAll
      exact moves_pure _
  | cons c cs =>
      unfold evalAll
      exact (eval_grows hcall env c).bind fun _ =>
        (evalAll_grows hcall env cs).bind fun _ => moves_pure _

theorem evalMap_grows {call : Call} (hcall : ∀ f args, Moves Grows (call f args)) (env : Locals)
    (soon : Nat) (made waiting : List (Value × Value)) (es : List (Code × Code)) :
    Moves Grows (evalMap call env soon made waiting es) := by
  cases es with
  | nil =>
      unfold evalMap
      exact (result_grows _).bind fun _ => moves_pure _
  | cons e es =>
      cases e with
      | mk k v =>
          unfold evalMap
          apply (eval_grows hcall env k).bind
          intro key
          apply (eval_grows hcall env v).bind
          intro value
          cases soon with
          | zero => exact evalMap_grows hcall env 0 made _ es
          | succ soon =>
              exact (result_grows _).bind fun made => evalMap_grows hcall env soon made waiting es

end

theorem apply_grows (depth : Nat) (f : Value) (args : List Value) :
    Moves Grows (apply depth f args) := by
  -- whatever is called inside has one level less
  induction depth generalizing f args with
  | zero => exact fault_grows _
  | succ depth ih =>
      unfold apply
      split
      · exact moves_get.bind fun _ => run_grows ih _ _
      · apply moves_get.bind
        intro m
        unfold keywordCall
        split
        · exact result_grows _
        · exact result_grows _
        · exact moves_pure _
        · exact moves_pure _
        · exact fault_grows _
      · exact makeNamespace_grows _
      · exact ofNamespace_grows _ _ _
      · split
        · split
          · exact eval_grows ih _ _
          · exact fault_grows _
        · split
          · exact eval_grows ih _ _
          · exact fault_grows _
        · exact ih _ _
        · split
          · exact fault_grows _
          · exact (ih _ _).bind fun value => moves_foldlM (fun v g => ih g [v]) value _
        · exact moves_pure _
        · apply moves_get.bind
          intro m
          split
          · exact ih _ _
          · exact fault_grows _
      · exact fault_grows _

theorem evaluate_grows (c : Code) : Moves Grows (evaluate c) := eval_grows (apply_grows depth) [] c

theorem execute_grows (cs : List Code) : Moves Grows (execute cs) := by
  induction cs with
  | nil => exact moves_pure _
  | cons c cs ih => exact (evaluate_grows c).bind fun _ => ih

theorem leads_provide_again {ns : String} (h : ns ∈ m.provided) (requires : Value) :
    Leads (provide (.str ns) requires) m (fun _ _ => False)
      (fun f m' => f = .thrown ("Namespace \"" ++ ns ++ "\" already declared.") ∧ m' = m) := by
  have hknown : (isProvided (.str ns)).run.run m = (.ok true, m) := by
    have hrun : (isProvided (.str ns)).run.run m = (.ok (m.provided.contains ns), m) := rfl
    rw [hrun, List.contains_iff_mem.mpr h]
  unfold provide
  apply leads_bind.mpr
  apply (leads_of_ok hknown).mpr
  dsimp only
  apply leads_bind.mpr
  exact leads_iff.mpr (leads_bind.mpr (leads_throw.mpr ⟨rfl, rfl⟩))

theorem leads_provide_new {ns : String} {requires : List String} (h : ns ∉ m.provided)
    (hrequires : ∀ name ∈ requires, name ∈ m.provided) :
    Leads (provide (.str ns) (.vector (requires.map .str))) m
      (fun _ m' => m' = { m with provided := m.provided ++ [ns] }) (fun _ _ => False) := by
  have hknown (name : String) :
      (isProvided (.str name)).run.run m = (.ok (m.provided.contains name), m) := rfl
  have hmissing : Leads ((requires.map Value.str).filterM fun name => do
      return !(← isProvided name)) m (fun missing m' => missing = [] ∧ m' = m) (fun _ _ => False) := by
    apply leads_filterM_none
    intro v hv
    obtain ⟨name, hname, rfl⟩ := List.mem_map.mp hv
    simp only [ExceptT.run_bind, StateT.run_bind, hknown,
      List.contains_eq_mem, decide_eq_true (hrequires name hname)]
    rfl
  unfold provide
  apply leads_bind.mpr
  apply (leads_of_ok (hknown ns)).mpr
  rw [List.contains_eq_mem, decide_eq_false h]
  dsimp only
  apply leads_bind.mpr
  apply leads_get.mpr
  change Leads (do
    let missing ← (requires.map Value.str).filterM fun name => do return !(← isProvided name)
    _) m _ _
  apply hmissing.bind
  · rintro _ _ ⟨rfl, rfl⟩
    apply leads_bind.mpr
    apply leads_modify.mpr
    apply leads_bind.mpr
    exact leads_pure.mpr (leads_pure.mpr rfl)
  · exact fun _ _ hf => hf

def Declares (cs : List Code) (ns : String) : Prop := ∃ requires, Code.provide ns requires ∈ cs

/-- A program that runs to its end has made its declarations. -/
theorem execute_declares {cs : List Code} {ns : String} (h : Declares cs ns) (m : Machine) :
    Leads (execute cs) m (fun _ m' => ns ∈ m'.provided) (fun _ _ => True) := by
  obtain ⟨requires, hmem⟩ := h
  induction cs generalizing m with
  | nil => cases hmem
  | cons c cs ih =>
      unfold execute
      rcases List.mem_cons.mp hmem with rfl | hmem
      · unfold evaluate
        rw [clear_nil.provide]
        apply (leads_provide ns _).bind
        · rintro _ _ rfl
          apply (execute_grows cs _).mono
          · intro _ m' hm
            exact hm.provided (List.mem_append_right _ (List.mem_singleton_self ns))
          · exact fun _ _ _ => trivial
        · exact fun _ _ _ => trivial
      · exact leads_then fun _ m' => ih m' hmem

end Machine

end Sumi
