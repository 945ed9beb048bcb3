import Sumi.Proofs.Machine.Constant
import Sumi.Proofs.Machine.Tally

namespace Sumi.Machine

open Library Text.Compatibility

variable {α β : Type} {m m' : Machine} {call : Call} {env : Locals} {c : Code} {cs : List Code}
  {f v w coll : Value} {vs args items : List Value} {op : Builtin} {ops : List Builtin}

/-- Each of these functions is the value of its var. -/
def Equipped (ops : List Builtin) (m : Machine) : Prop :=
  ∀ op ∈ ops, m.member? home op.attr = some (.builtin op)

theorem Equipped.counted (h : Equipped ops m) (hm : Counted m m') : Equipped ops m' := by
  obtain ⟨n, rfl⟩ := hm
  exact h

/-- Wherever these functions are in place, the computation comes to `a`, and does nothing else but
give identities. -/
def ComesTo (ops : List Builtin) (c : Run α) (a : α) : Prop :=
  ∀ m, Equipped ops m → Leads c m (fun v m' => v = a ∧ Counted m m') fun _ _ => False

theorem comesTo_pure (a : α) : ComesTo ops (pure a) a :=
  fun m _ => leads_pure.mpr ⟨rfl, .refl m⟩

theorem ComesTo.bind {c : Run α} {k : α → Run β} {a : α} {b : β} (h : ComesTo ops c a)
    (hk : ComesTo ops (k a) b) : ComesTo ops (c >>= k) b := by
  intro m hm
  apply (h m hm).bind
  · rintro _ m' ⟨rfl, hm'⟩
    exact (hk m' (hm.counted hm')).mono (fun _ _ h => ⟨h.1, hm'.trans h.2⟩) fun _ _ he => he
  · exact fun _ _ he => he

theorem comesTo_make {rule : Rule} {k : Value → Run β} {b : β}
    (hk : ∀ id, ComesTo ops (k (.fn id rule)) b) : ComesTo ops (make rule >>= k) b := by
  intro m hm
  have hmake : (make rule).run.run m =
      (.ok (.fn m.nextId rule), { m with nextId := m.nextId + 1 }) := rfl
  have hm' : Counted m { m with nextId := m.nextId + 1 } := ⟨_, rfl⟩
  apply leads_bind.mpr
  apply (leads_of_ok hmake).mpr
  exact (hk m.nextId _ (hm.counted hm')).mono (fun _ _ h => ⟨h.1, hm'.trans h.2⟩) fun _ _ he => he

theorem Gives.comesTo (h : Gives op args v) (depth : Nat) :
    ComesTo ops (apply (depth + 1) (.builtin op) args) v :=
  fun m _ => (leads_of_ok (h depth m)).mpr ⟨rfl, .refl m⟩

theorem comesTo_bound {s : String} (h : env.lookup (normalize s) = some v) :
    ComesTo ops (eval call env (.bound s)) v := by
  rw [eval, h]
  exact comesTo_pure v

theorem comesTo_var (hc : Clear env) (hop : op ∈ ops) :
    ComesTo ops (eval call env (.var Namespace.core op.attr)) (.builtin op) := by
  intro m hm
  rw [hc.var, Run.lookupVar, Run.attributeOf, normalize_attr, Run.member, leads_bind, leads_get,
    hm op hop]
  exact leads_pure.mpr ⟨rfl, .refl m⟩

theorem comesTo_evalAll (h : List.Forall₂ (fun c v => ComesTo ops (eval call env c) v) cs vs) :
    ComesTo ops (evalAll call env cs) vs := by
  induction h with
  | nil => exact comesTo_pure []
  | cons hc _ ih =>
      rw [evalAll]
      exact hc.bind (ih.bind (comesTo_pure _))

def libraryCall (op : Builtin) (args : List Code) : Code := .call (.var Namespace.core op.attr) args

theorem comesTo_libraryCall (hc : Clear env) (hop : op ∈ ops)
    (hargs : ComesTo ops (evalAll call env cs) args)
    (h : ComesTo ops (call (.builtin op) args) v) :
    ComesTo ops (eval call env (libraryCall op cs)) v := by
  rw [libraryCall, eval]
  exact (comesTo_var hc hop).bind (hargs.bind h)

/-- A function is handed on before anything is known of its identity. -/
theorem comesTo_libraryCall_lambda {params : List String} {rest : Option String} {body : Code}
    (hc : Clear env) (hop : op ∈ ops) (hargs : ComesTo ops (evalAll call env cs) args)
    (h : ∀ id, ComesTo ops (call (.builtin op) (.fn id (.lambda params rest body env) :: args)) v) :
    ComesTo ops (eval call env (libraryCall op (.lambda params rest body :: cs))) v := by
  rw [libraryCall, eval]
  apply (comesTo_var hc hop).bind
  rw [evalAll, eval.eq_def call env (.lambda _ _ _), bind_assoc]
  apply comesTo_make
  intro id
  rw [bind_assoc]
  exact hargs.bind (h id)

theorem comesTo_cond {test yes no : Code} (hc : Clear env)
    (htest : ComesTo ops (eval call env test) w)
    (hyes : w.isTruthy = true → ComesTo ops (eval call env yes) v)
    (hno : w.isTruthy = false → ComesTo ops (eval call env no) v) :
    ComesTo ops (eval call env (.cond test yes no)) v := by
  rw [hc.cond]
  apply htest.bind
  cases hw : w.isTruthy
  · exact hno hw
  · exact hyes hw

theorem comesTo_lambda {id depth : Nat} {params : List String} {rest : Option String} {body : Code}
    {locals : Locals} (hlocals : bindParams params rest args = some locals)
    (h : ComesTo ops (eval (apply depth) (locals ++ env) body) v) :
    ComesTo ops (apply (depth + 1) (.fn id (.lambda params rest body env)) args) v := by
  simp only [apply, hlocals]
  exact h

theorem comesTo_recursive {id depth : Nat} {label self : String} {params : List String}
    {rest : Option String} {body : Code} {locals : Locals}
    (hlocals : bindParams params rest args = some locals)
    (h : ∀ this, ComesTo ops (eval (apply depth) (locals ++ (normalize self, this) :: env) body) v) :
    ComesTo ops (apply (depth + 1) (.fn id (.recursive label self params rest body env)) args)
      v := by
  simp only [apply, hlocals]
  exact h _

/-- Where every round goes from what stands for the items so far to what stands for one more, the
loop comes to what stands for all. -/
theorem comesTo_foldOver {state : List Value → Value}
    (hstep : ∀ xs x, (∀ y ∈ xs ++ [x], y ∈ items) →
      ComesTo ops (call f [state xs, x]) (state (xs ++ [x]))) :
    ComesTo ops (foldOver call f (state []) items) (state items) := by
  suffices h : ∀ rest xs, xs ++ rest = items →
      ComesTo ops (foldOver call f (state xs) rest) (state items) from h items [] rfl
  intro rest
  induction rest with
  | nil =>
      intro xs hxs
      rw [List.append_nil] at hxs
      exact hxs ▸ comesTo_pure _
  | cons x rest ih =>
      intro xs hxs
      rw [List.append_cons] at hxs
      have hmem : ∀ y ∈ xs ++ [x], y ∈ items := fun y hy => hxs ▸ List.mem_append_left rest hy
      rw [foldOver, List.foldlM_cons]
      exact (hstep xs x hmem).bind (ih _ hxs)

/-- Whatever is folded over a list or a vector, the loop goes over its items. -/
theorem comesTo_reduce {start : Value} {depth : Nat} (hcoll : coll.sequence? = some items)
    (h : ComesTo ops (foldOver (apply depth) f start items) v) :
    ComesTo ops (apply (depth + 1) (.builtin .reduce) [f, start, coll]) v := by
  have hitems : coll.items? = some items := by
    cases coll <;> first | exact hcoll | cases hcoll
  intro m hm
  have hreduce : reduce (apply depth) f [start, m.settled coll] =
      foldOver (apply depth) f start items := by
    rw [settled_items hitems, reduce, itemsOf_eq hitems]
    rfl
  have hrun : (apply (depth + 1) (.builtin .reduce) [f, start, coll]).run.run m =
      (reduce (apply depth) f [start, m.settled coll]).run.run m := rfl
  rw [leads_iff, hrun, hreduce, ← leads_iff]
  exact h m hm

theorem comesTo_someOf {p : Value → Bool}
    (h : ∀ x ∈ items, ComesTo ops (call f [x]) (.bool (p x))) :
    ComesTo ops (someOf call f items) (if items.any p then .bool true else .nil) := by
  induction items with
  | nil => exact comesTo_pure _
  | cons x items ih =>
      rw [List.forall_mem_cons] at h
      rw [someOf, List.any_cons]
      apply h.1.bind
      cases p x
      · exact ih h.2
      · exact comesTo_pure _

theorem comesTo_anyOf {p : Value → Bool} {id depth : Nat} {rule : Rule}
    (h : ∀ x ∈ items, ComesTo ops (apply depth (.fn id rule) [x]) (.bool (p x))) :
    ComesTo ops (apply (depth + 1) (.builtin .anyOf) [.fn id rule, .vector items])
      (if items.any p then .bool true else .nil) :=
  comesTo_someOf h

end Sumi.Machine
