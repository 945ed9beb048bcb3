import Sumi.Proofs.Machine.Results

namespace Sumi.Machine

open Run Text.Compatibility

variable {m m' : Machine} {ns ns' name name' attr text : String} {v : Value}

def ownKeys : List String :=
  [Space.kindKey, Space.contentsKey, Space.referenceKey, Space.nameKey, Space.varsKey]

/-- The name under which the generated code reads a var. -/
def cell (name : String) : String := normalize (Code.munge name)

/-- A source name that generated code can refer to as it is, and that means nothing to a namespace. -/
structure Ordinary (name : String) : Prop where
  isName : Code.isName (Code.munge name) = true
  free : Code.munge name ∉ ownKeys
  kept : cell name = Code.munge name

theorem Ordinary.common (h : Ordinary name) : Common (Code.munge name) := by
  have hfree := h.free
  simp only [ownKeys, List.mem_cons, List.not_mem_nil, or_false, not_or] at hfree
  exact ⟨hfree.1, hfree.2.1, hfree.2.2.1⟩

theorem Ordinary.ne (h : Ordinary name) (hattr : attr ∈ ownKeys) : Code.munge name ≠ attr := by
  rintro rfl
  exact h.free hattr

def sight (m : Machine) (ns name : String) : Except Failure Value :=
  ((evaluate (.var ns (Code.munge name))).run.run m).1

def lacking (text attr : String) : Failure :=
  if Space.isReserved attr then .fault .noAttribute else .unbound text attr

theorem leads_sight (h : m.member? (.named ns) Space.nameKey = some (.str text)) (attr : String) :
    Leads (evaluate (.var ns attr)) m
      (fun v m' => m.member? (.named ns) (normalize attr) = some v ∧ m' = m)
      (fun e m' => m.member? (.named ns) (normalize attr) = none ∧
        e = lacking text (normalize attr) ∧ m' = m) := by
  rw [evaluate, clear_nil.var, lookupVar, attributeOf, member, leads_bind, leads_get]
  generalize normalize attr = attr
  cases hm : m.member? (.named ns) attr with
  | some v => exact leads_pure.mpr ⟨rfl, rfl⟩
  | none =>
      dsimp only
      rw [absent]
      split
      · next hr => exact leads_throw.mpr ⟨rfl, by rw [lacking, if_pos hr], rfl⟩
      · next hr =>
          have hspace : (m.lookup depth).space (.named ns) = .ok text := by
            rw [depth, lookup]
            dsimp only
            rw [h]
            rfl
          rw [leads_bind, leads_get, hspace]
          exact leads_throw.mpr ⟨rfl, by rw [lacking, if_neg hr], rfl⟩

theorem sight_eq (h : m.member? (.named ns) Space.nameKey = some (.str text)) (name : String) :
    sight m ns name =
      (m.member? (.named ns) (cell name)).elim (.error (lacking text (cell name))) .ok := by
  have hl := leads_sight h (Code.munge name)
  rw [sight, cell]
  generalize evaluate (.var ns (Code.munge name)) = c at hl ⊢
  rw [leads_iff] at hl
  rcases hrun : c.run.run m with ⟨e | v, m'⟩ <;> rw [hrun] at hl
  · rw [hl.1, hl.2.1]
    rfl
  · rw [hl.1]
    rfl

structure Intact (m : Machine) (ns : String) : Prop where
  name : ∃ text, m.member? (.named ns) Space.nameKey = some (.str text)
  vars : ∃ map, m.member? (.named ns) Space.varsKey = some (.live map) ∧
    ∀ place, map ≠ .contents place

theorem fresh_intact (h : m.spaces.get? (.named ns) = none) : Intact m ns := by
  have hspace : m.space (.named ns) = Space.fresh (.named ns) (.str ns) := by
    unfold space
    rw [h]
    rfl
  refine ⟨⟨ns, ?_⟩, .names (.named ns), ?_, nofun⟩
  · rw [member?, hspace]
    rfl
  · rw [member?, hspace]
    rfl

theorem initial_intact (ns : String) : Intact initial ns := by
  by_cases h : ns = Namespace.core
  · subst h
    exact ⟨⟨Namespace.core, rfl⟩, .names home, rfl, nofun⟩
  · apply fresh_intact
    simp [initial, Table.get?, Ne.symm h]

def Puts (ns attr : String) (v : Value) (m m' : Machine) : Prop :=
  ∀ ns' attr', m'.member? (.named ns') attr' =
    if ns' = ns ∧ attr' = attr then some v else m.member? (.named ns') attr'

/-- What namespaces have does not depend on notes, labels and numbers. -/
theorem member?_congr (hs : m'.spaces = m.spaces) (hh : m'.held = m.held)
    (hp : m'.program = m.program) (place : Place) (attr : String) :
    m'.member? place attr = m.member? place attr := by
  have hspace : m'.space place = m.space place := by
    unfold space
    rw [hs]
  rw [member?, hspace, hh, hp]
  rfl

theorem Puts.congr {m'' : Machine} (h : Puts ns attr v m m') (hs : m''.spaces = m'.spaces)
    (hh : m''.held = m'.held) (hp : m''.program = m'.program) : Puts ns attr v m m'' :=
  fun ns' attr' => (member?_congr hs hh hp _ _).trans (h ns' attr')

theorem setVar_puts (ha : Common attr) : Puts ns attr v m (m.setVar (.named ns) attr v) := by
  intro ns' attr'
  by_cases h : ns' = ns ∧ attr' = attr
  · rw [if_pos h, h.1, h.2, member?_setVar_self ha]
  · rw [if_neg h]
    apply member?_setVar_of_ne
    rwa [Place.named.injEq]

theorem leads_note (ho : Ordinary name) (hi : Intact m ns) :
    Leads (bindVar (.str ns) (.str name) v) m
      (fun _ => Puts ns (Code.munge name) v m) (fun _ _ => False) := by
  obtain ⟨map, hmap, hown⟩ := hi.vars
  rw [leads_bindVar ho.common (ho.ne (by simp [ownKeys])) hmap]
  have hputs : Puts ns (Code.munge name) v m (m.setVar (.named ns) (Code.munge name) v) :=
    setVar_puts ho.common
  cases map with
  | contents other => exact (hown other rfl).elim
  | names | made => exact hputs.congr rfl rfl rfl

section Puts

variable (hp : Puts ns (Code.munge name) v m m') (ho : Ordinary name)
include hp

theorem Puts.sight (hi : Intact m ns') (ho : Ordinary name) :
    sight m' ns' name' =
      if ns = ns' ∧ Code.munge name = cell name' then .ok v else sight m ns' name' := by
  obtain ⟨text, htext⟩ := hi.name
  have htext' : m'.member? (.named ns') Space.nameKey = some (.str text) := by
    rw [hp, if_neg fun h => ho.ne (by simp [ownKeys]) h.2.symm, htext]
  rw [sight_eq htext', sight_eq htext, hp]
  by_cases h : ns = ns' ∧ Code.munge name = cell name'
  · rw [if_pos h, if_pos ⟨h.1.symm, h.2.symm⟩]
    rfl
  · rw [if_neg h, if_neg fun h' => h ⟨h'.1.symm, h'.2.symm⟩]

include ho

theorem Puts.intact (hi : Intact m ns') : Intact m' ns' := by
  have hown (attr : String) (hattr : attr ∈ ownKeys) :
      m'.member? (.named ns') attr = m.member? (.named ns') attr := by
    rw [hp, if_neg fun h => ho.ne hattr h.2.symm]
  constructor
  · rw [hown _ (by simp [ownKeys])]
    exact hi.name
  · rw [hown _ (by simp [ownKeys])]
    exact hi.vars

end Puts

theorem leads_label (ns name value : Value) :
    Leads (do giveLabel ns name value; return .var (← freshId) ns name : Run Value) m
      (fun _ m' => m'.spaces = m.spaces ∧ m'.held = m.held ∧ m'.program = m.program)
      (fun _ _ => False) := by
  rw [giveLabel, leads_bind, leads_modify]
  split
  · exact leads_iff.mpr ⟨rfl, rfl, rfl⟩
  · exact leads_iff.mpr ⟨rfl, rfl, rfl⟩

/-- A value on its way into a var, by a definition or by an assignment. -/
structure Write where
  ns : String
  name : String
  value : Value
  defines : Bool

namespace Write

variable {w : Write} {ws : List Write}

def run (w : Write) : Run Value :=
  if w.defines then define (.str w.ns) (.str w.name) w.value
  else assign (.str w.ns) (.str w.name) w.value

def runAll : List Write → Run Unit
  | [] => return ()
  | w :: ws => do
      let _ ← w.run
      runAll ws

def Hits (w : Write) (ns name : String) : Prop := w.ns = ns ∧ Code.munge w.name = cell name

instance (w : Write) (ns name : String) : Decidable (w.Hits ns name) := instDecidableAnd

def seen (ns name : String) (old : Except Failure Value) (ws : List Write) : Except Failure Value :=
  ws.foldl (fun old w => if w.Hits ns name then .ok w.value else old) old

theorem seen_cons (old : Except Failure Value) : seen ns name old (w :: ws) =
    seen ns name (if w.Hits ns name then .ok w.value else old) ws := rfl

/-- A write succeeds, and puts its value into its var. -/
theorem leads (ho : Ordinary w.name) (hi : Intact m w.ns) :
    Leads w.run m (fun _ => Puts w.ns (Code.munge w.name) w.value m) (fun _ _ => False) := by
  rw [run]
  split
  · apply (leads_note ho hi).bind
    · intro _ m' hp
      exact (leads_label _ _ _).mono (fun _ _ h => hp.congr h.1 h.2.1 h.2.2) fun _ _ h => h
    · exact fun _ _ h => h
  · apply (leads_note ho hi).bind
    · exact fun _ _ hp => leads_pure.mpr hp
    · exact fun _ _ h => h

/-- Any row of writes succeeds, and every var yields what was last put into it, if anything was. -/
theorem leads_all (h : ∀ w ∈ ws, Ordinary w.name ∧ Intact m w.ns) :
    Leads (runAll ws) m
      (fun _ m' => ∀ ns, Intact m ns → Intact m' ns ∧
        ∀ name, sight m' ns name = seen ns name (sight m ns name) ws)
      (fun _ _ => False) := by
  induction ws generalizing m with
  | nil => exact leads_pure.mpr fun ns hi => ⟨hi, fun _ => rfl⟩
  | cons w ws ih =>
      rw [List.forall_mem_cons] at h
      obtain ⟨⟨ho, hi⟩, hws⟩ := h
      apply (leads ho hi).bind
      · intro _ m' hp
        apply (ih fun w' hw' => ⟨(hws w' hw').1, hp.intact ho (hws w' hw').2⟩).mono
        · intro _ m'' hlast ns' hi'
          obtain ⟨hi'', hsight⟩ := hlast ns' (hp.intact ho hi')
          refine ⟨hi'', fun name' => ?_⟩
          rw [hsight, hp.sight hi' ho, seen_cons]
          rfl
        · exact fun _ _ h => h
      · exact fun _ _ h => h

end Write

def later : List Write :=
  [⟨"app", "best-of?", .str "x", true⟩, ⟨Namespace.core, "inc", .int 5, false⟩]

def after (m : Machine) (codes : List Code) : Machine := ((execute codes).run.run m).2

end Sumi.Machine
