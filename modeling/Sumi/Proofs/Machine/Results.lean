import Sumi.Code.Valid
import Sumi.Machine.Eval
import Sumi.Proofs.Leads
import Sumi.Proofs.Machine.Library
import Sumi.Proofs.Machine.Scope

namespace Sumi.Machine

open Run Text.Compatibility

variable {m m' : Machine} {v : Value} {values : List Value}

abbrev home : Place := .named Namespace.core

def core? (m : Machine) (attr : String) : Option Value := (m.space home).get? attr

theorem space_setSpace (m : Machine) (place : Place) (s : Space) :
    (m.setSpace place s).space place = s := by
  unfold space setSpace
  rw [Table.get?_put_self]
  rfl

theorem core_setVar (m : Machine) (attr : String) (v : Value) (other : String) :
    core? (m.setVar home attr v) other = if other = attr then some v else core? m other := by
  unfold core? setVar
  rw [space_setSpace]
  by_cases h : other = attr
  · subst h
    rw [Table.get?_put_self, if_pos rfl]
  · rw [Table.get?_put_of_ne h, if_neg h]

theorem core_setEntry (m : Machine) (place : Place) (key value : Value) (other : String) :
    core? (m.setEntry (.names place) key value) other = core? m other := rfl

def slots : List String := ["_STAR_1", "_STAR_2", "_STAR_3", "pr_str", Space.varsKey]

def Kept (m m' : Machine) : Prop := ∀ attr ∈ slots, core? m' attr = core? m attr

theorem Kept.refl (m : Machine) : Kept m m := fun _ _ => rfl

theorem Kept.trans {m'' : Machine} (h : Kept m m') (h' : Kept m' m'') : Kept m m'' :=
  fun attr ha => (h' attr ha).trans (h attr ha)

/-- The last results are `values`, latest first, and all else is in place that keeping needs. -/
structure Holds (m : Machine) (values : List Value) : Prop where
  latest : core? m "_STAR_1" = some (values.getD 0 .nil)
  second : core? m "_STAR_2" = some (values.getD 1 .nil)
  third : core? m "_STAR_3" = some (values.getD 2 .nil)
  printer : core? m "pr_str" = some (.builtin .prStr)
  names : core? m Space.varsKey = some (.live (.names home))

theorem Holds.kept (h : Holds m values) (hk : Kept m m') : Holds m' values where
  latest := (hk _ (by simp [slots])).trans h.latest
  second := (hk _ (by simp [slots])).trans h.second
  third := (hk _ (by simp [slots])).trans h.third
  printer := (hk _ (by simp [slots])).trans h.printer
  names := (hk _ (by simp [slots])).trans h.names

def alike : Option Value → Option Value → Bool
  | some .nil, some .nil => true
  | some (.int n), some (.int n') => n == n'
  | some (.builtin op), some (.builtin op') => op == op'
  | some (.live (.names place)), some (.live (.names place')) => place == place'
  | _, _ => false

theorem eq_of_alike {v v' : Option Value} (h : alike v v' = true) : v' = v := by
  unfold alike at h
  split at h
  · rfl
  · rw [eq_of_beq h]
  · rw [eq_of_beq h]
  · rw [eq_of_beq h]
  · cases h

theorem initial_alike : alike (some (.builtin .prStr)) (core? initial "pr_str") = true ∧
    ∀ attr ∈ ["_STAR_1", "_STAR_2", "_STAR_3"],
      alike (some .nil) (core? initial attr) = true := by
  rw [initial_eq_spelled]
  decide +kernel

theorem initial_holds : Holds initial [] where
  latest := eq_of_alike (initial_alike.2 _ (by simp))
  second := eq_of_alike (initial_alike.2 _ (by simp))
  third := eq_of_alike (initial_alike.2 _ (by simp))
  printer := eq_of_alike initial_alike.1
  names := rfl

def Common (attr : String) : Prop :=
  attr ≠ Space.kindKey ∧ attr ≠ Space.contentsKey ∧ attr ≠ Space.referenceKey

instance (attr : String) : Decidable (Common attr) := instDecidableAnd

theorem member_home {attr : String} (ha : Common attr) (h : core? m attr = some v) :
    m.member? home attr = some v := by
  unfold member?
  rw [if_neg ha.1, if_neg ha.2.1, if_neg ha.2.2]
  unfold core? at h
  rw [h]

theorem leads_var {call : Library.Call} {env : Locals} {attr : String} (hc : Clear env)
    (hn : isAscii attr = true) (ha : Common attr) (h : core? m attr = some v)
    {Q : Value → Machine → Prop} {E : Failure → Machine → Prop} :
    Leads (eval call env (.var Namespace.core attr)) m Q E ↔ Q v m := by
  rw [hc.var, lookupVar, attributeOf, normalize_ascii hn]
  unfold member
  rw [leads_bind, leads_get]
  have hm : m.member? (.named Namespace.core) attr = some v := member_home ha h
  rw [hm, leads_pure]

def given (m : Machine) (name : String) (v : Value) : Machine :=
  (m.setVar home (Code.munge name) v).setEntry (.names home) (.str name) (.bool true)

theorem core_given (m : Machine) (name : String) (v : Value) (other : String) :
    core? (m.given name v) other = if other = Code.munge name then some v else core? m other := by
  unfold given
  rw [core_setEntry, core_setVar]

theorem member?_setVar_self {place : Place} {attr : String} (ha : Common attr) :
    (m.setVar place attr v).member? place attr = some v := by
  rw [member?, if_neg ha.1, if_neg ha.2.1, if_neg ha.2.2, setVar, space_setSpace,
    Table.get?_put_self]

theorem space_setVar_of_ne {place place' : Place} (h : place' ≠ place) (attr : String) (v : Value) :
    (m.setVar place attr v).space place' = m.space place' := by
  unfold space setVar setSpace
  rw [Table.get?_put_of_ne h]

theorem member?_setVar_of_ne {place place' : Place} {attr attr' : String}
    (h : ¬ (place' = place ∧ attr' = attr)) :
    (m.setVar place attr v).member? place' attr' = m.member? place' attr' := by
  have hspace : ((m.setVar place attr v).space place').get? attr' = (m.space place').get? attr' := by
    by_cases hp : place' = place
    · subst hp
      rw [setVar, space_setSpace, Table.get?_put_of_ne fun ha => h ⟨rfl, ha⟩]
    · rw [space_setVar_of_ne hp]
  rw [member?, hspace]
  rfl

theorem leads_put {place : Place} {attr : String} (ha : Common attr) (hv : attr ≠ Space.varsKey)
    {Q : Unit → Machine → Prop} {E : Failure → Machine → Prop} :
    Leads (put place attr v) m Q E ↔ Q () (m.setVar place attr v) := by
  unfold put
  rw [if_neg ha.1, if_neg ha.2.1, if_neg ha.2.2]
  cases v with
  | map entries =>
      dsimp only
      rw [if_neg hv, leads_modify]
  | _ => rw [leads_modify]

theorem leads_bindVar {ns name : String} {map : Live} (ha : Common (Code.munge name))
    (hv : Code.munge name ≠ Space.varsKey)
    (hn : m.member? (.named ns) Space.varsKey = some (.live map))
    {Q : Unit → Machine → Prop} {E : Failure → Machine → Prop} :
    Leads (bindVar (.str ns) (.str name) v) m Q E ↔
      Q () ((m.setVar (.named ns) (Code.munge name) v).setEntry map (.str name) (.bool true)) := by
  have hmember : (m.setVar (.named ns) (Code.munge name) v).member? (.named ns) Space.varsKey =
      some (.live map) := by
    rw [member?_setVar_of_ne fun h => hv h.2.symm, hn]
  unfold bindVar note
  rw [leads_bind]
  unfold placeOf
  rw [leads_pure]
  unfold munged
  rw [leads_bind, leads_pure, leads_bind]
  refine (leads_put ha hv).trans ?_
  rw [leads_bind, leads_get, hmember, leads_iff]
  rfl

theorem leads_assign {name : String} (ha : Common (Code.munge name))
    (hv : Code.munge name ≠ Space.varsKey)
    (hn : core? m Space.varsKey = some (.live (.names home)))
    {Q : Value → Machine → Prop} {E : Failure → Machine → Prop} :
    Leads (assign (.str Namespace.core) (.str name) v) m Q E ↔ Q v (m.given name v) := by
  have hmember : m.member? home Space.varsKey = some (.live (.names home)) :=
    member_home (by decide) hn
  unfold assign
  rw [leads_bind, leads_bindVar ha hv hmember, leads_pure]
  rfl

def result (m : Machine) (name : String) : Value := (core? m (Code.munge name)).getD .nil

def push (m : Machine) (v : Value) : Machine :=
  ((((m.given "*3" (m.result "*2")).given "*2" (m.result "*1"))).given "*1" v)

theorem munge_latest : Code.munge "*1" = "_STAR_1" := by decide

theorem munge_second : Code.munge "*2" = "_STAR_2" := by decide

theorem munge_third : Code.munge "*3" = "_STAR_3" := by decide

theorem core_push (m : Machine) (v : Value) (attr : String) :
    core? (m.push v) attr =
      if attr = "_STAR_1" then some v
      else if attr = "_STAR_2" then some (m.result "*1")
      else if attr = "_STAR_3" then some (m.result "*2")
      else core? m attr := by
  unfold push
  rw [core_given, core_given, core_given, munge_latest, munge_second, munge_third]

theorem Holds.push (h : Holds m values) (v : Value) : Holds (m.push v) (v :: values) := by
  have hlatest : m.result "*1" = values.getD 0 .nil := by
    rw [result, munge_latest, h.latest, Option.getD_some]
  have hsecond : m.result "*2" = values.getD 1 .nil := by
    rw [result, munge_second, h.second, Option.getD_some]
  constructor
  · rw [core_push, if_pos rfl]
    rfl
  · rw [core_push, if_neg (by decide), if_pos rfl, hlatest]
    rfl
  · rw [core_push, if_neg (by decide), if_neg (by decide), if_pos rfl, hsecond]
    rfl
  · rw [core_push, if_neg (by decide), if_neg (by decide), if_neg (by decide)]
    exact h.printer
  · rw [core_push, if_neg (by decide), if_neg (by decide), if_neg (by decide)]
    exact h.names

def printedCode (c : Code) : Code := .call (.var Namespace.core "pr_str") [c]

def keptCode (c : Code) : Code :=
  .bind "ret__repl" c
    (.last
      [.assign Namespace.core "*3" (.var Namespace.core "_STAR_2"),
        .assign Namespace.core "*2" (.var Namespace.core "_STAR_1"),
        .assign Namespace.core "*1" (.bound "ret__repl"), .bound "ret__repl"])

variable {c : Code} {Q : Value → Machine → Prop} {E : Failure → Machine → Prop}

theorem leads_text (v : Value) {Q : String → Machine → Prop} :
    Leads (print v true) m Q E ↔
      match m.text true v with
      | .ok t => Q t m
      | .error f => E f m := by
  unfold print
  rw [leads_bind, leads_get]
  cases m.text true v with
  | ok t => exact leads_pure
  | error f => exact leads_throw

theorem leads_print (v : Value) :
    Leads (apply depth (.builtin .prStr) [v]) m Q E ↔
      match m.text true v with
      | .ok t => Q (.str t) m
      | .error f => E f m := by
  have hrun : apply depth (.builtin .prStr) [v] = (do return .str (← printAll true [v])) := rfl
  have hall : printAll true [v] = (do return " ".intercalate [← print v true]) := by
    unfold printAll
    simp only [List.mapM_cons, List.mapM_nil, bind_assoc, pure_bind]
  rw [hrun, hall]
  simp only [leads_bind, leads_pure]
  rw [leads_text]
  rfl

theorem leads_printed (hp : core? m "pr_str" = some (.builtin .prStr))
    (h : Leads (evaluate c) m (fun v m' => Leads (apply depth (.builtin .prStr) [v]) m' Q E) E) :
    Leads (evaluate (printedCode c)) m Q E := by
  unfold evaluate printedCode
  rw [eval, leads_bind, leads_var clear_nil (by decide) (by decide) hp]
  simp only [evalAll, bind_assoc, pure_bind]
  apply leads_bind.mpr
  exact h

theorem common_results : ∀ name ∈ ["*1", "*2", "*3"],
    Common (Code.munge name) ∧ Code.munge name ≠ Space.varsKey := by
  decide

theorem leads_move {call : Library.Call} {env : Locals} {name attr : String}
    (henv : Clear env) (hname : name ∈ ["*1", "*2", "*3"]) (hascii : isAscii attr = true)
    (ha : Common attr)
    (hn : core? m Space.varsKey = some (.live (.names home))) (hv : core? m attr = some v) :
    Leads (eval call env (.assign Namespace.core name (.var Namespace.core attr))) m Q E ↔
      Q v (m.given name v) := by
  obtain ⟨hc, hk⟩ := common_results name hname
  rw [henv.assign, leads_bind, leads_var henv hascii ha hv, leads_assign hc hk hn]

theorem leads_evalAll {call : Library.Call} {env : Locals} {cs : List Code}
    {Q : List Value → Machine → Prop} :
    Leads (evalAll call env (c :: cs)) m Q E ↔
      Leads (eval call env c) m
        (fun v m' => Leads (evalAll call env cs) m' (fun vs => Q (v :: vs)) E) E := by
  rw [evalAll]
  simp only [leads_bind, leads_pure]

theorem leads_kept (h : Leads (evaluate c) m
      (fun v m' => (∃ values, Holds m' values) ∧ Q v (m'.push v)) E) :
    Leads (evaluate (keptCode c)) m Q E := by
  unfold evaluate keptCode
  rw [eval]
  apply h.bind
  · rintro v m' ⟨⟨values, hm⟩, hq⟩
    have hsecond : core? m' "_STAR_2" = some (m'.result "*2") := by
      rw [result, munge_second, hm.second, Option.getD_some]
    have hlatest : core? (m'.given "*3" (m'.result "*2")) "_STAR_1" = some (m'.result "*1") := by
      rw [core_given, munge_third, if_neg (by decide), result, munge_latest, hm.latest,
        Option.getD_some]
    obtain ⟨hc, hk⟩ := common_results "*1" (by simp)
    have hself : normalize "ret__repl" = "ret__repl" := normalize_ascii (by decide)
    have hbound : (List.lookup "ret__repl" [("ret__repl", v)]).elim (fault .noName) pure =
        (pure v : Run Value) := rfl
    have hclear : Clear [("ret__repl", v)] := clear_of rfl
    have hn₃ : core? (m'.given "*3" (m'.result "*2")) Space.varsKey =
        some (.live (.names home)) := by
      rw [core_given, munge_third, if_neg (by decide), hm.names]
    have hn₂ : core? ((m'.given "*3" (m'.result "*2")).given "*2" (m'.result "*1")) Space.varsKey =
        some (.live (.names home)) := by
      rw [core_given, munge_second, if_neg (by decide), hn₃]
    rw [hself, eval, leads_bind, leads_evalAll,
      leads_move hclear (by simp) (by decide) (by decide) hm.names hsecond, leads_evalAll,
      leads_move hclear (by simp) (by decide) (by decide) hn₃ hlatest, leads_evalAll,
      hclear.assign, leads_bind, eval, hself, hbound, leads_pure, leads_assign hc hk hn₂,
      leads_evalAll, eval, hself, hbound, leads_pure, evalAll, leads_pure, leads_pure]
    exact hq
  · exact fun _ _ he => he

theorem printedCode_compiles (c : Code) : (printedCode c).compiles = c.compiles := by
  have hname : Code.isName "pr_str" = true := by decide +kernel
  simp [printedCode, Code.compiles, Code.compileAll, hname]

theorem keptCode_compiles (c : Code) : (keptCode c).compiles = c.compiles := by
  have hbind : Code.isBindable "ret__repl" = true := by decide +kernel
  have hlatest : Code.isName "_STAR_1" = true := by decide +kernel
  have hsecond : Code.isName "_STAR_2" = true := by decide +kernel
  simp [keptCode, Code.compiles, Code.compileAll, hbind, hlatest, hsecond]

theorem isProvided_looks (name : Value) : Moves Eq (isProvided name) := by
  unfold isProvided
  apply Moves.bind
  · cases name.hashed with
    | ok v => exact moves_pure v
    | error f => exact moves_throw f
  · intro v
    split
    · exact moves_get.bind fun _ => moves_pure _
    · exact moves_get.bind fun _ => moves_pure _

theorem textOf_looks (v : Value) : Moves Eq (textOf v) := by
  unfold textOf
  split
  · exact moves_pure _
  · exact moves_throw _

theorem plain_looks (v : Value) : Moves Eq (plain v) := by
  apply moves_get.bind
  intro m
  cases v.plain (m.lookup depth) with
  | ok t => exact moves_pure t
  | error f => exact moves_throw f

theorem leads_provide (ns : String) (requires : Value) :
    Leads (provide (.str ns) requires) m
      (fun _ m' => m' = { m with provided := m.provided ++ [ns] }) (fun _ m' => m' = m) := by
  unfold provide
  refine leads_past (isProvided_looks _) (fun known => ?_) fun _ => rfl
  cases known with
  | true =>
      refine leads_past (plain_looks _) (fun _ => ?_) fun _ => rfl
      exact leads_bind.mpr (leads_throw.mpr rfl)
  | false =>
      apply leads_bind.mpr
      apply leads_get.mpr
      dsimp only
      cases (m.settled requires).members? with
      | none => exact leads_throw.mpr rfl
      | some names =>
          have hlook (name : Value) : Moves Eq (do return !(← isProvided name)) :=
            (isProvided_looks name).bind fun _ => moves_pure _
          refine leads_past (moves_filterM hlook names) (fun missing => ?_) fun _ => rfl
          cases missing with
          | nil =>
              apply leads_bind.mpr
              apply leads_modify.mpr
              apply leads_bind.mpr
              exact leads_pure.mpr (leads_pure.mpr rfl)
          | cons name missing =>
              refine leads_past (plain_looks _) (fun _ => ?_) fun _ => rfl
              refine leads_past (moves_mapM textOf_looks _) (fun _ => ?_) fun _ => rfl
              exact leads_throw.mpr rfl

end Sumi.Machine
