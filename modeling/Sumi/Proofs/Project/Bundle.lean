import Sumi.Code.Module
import Sumi.Project.Bundled
import Sumi.Proofs.Machine.Cell
import Sumi.Proofs.Machine.Provided
import Sumi.Proofs.Machine.Sequence

namespace Sumi

namespace Code

mutual

def agrees : Code → Code → Bool
  | .nil, .nil => true
  | .int n, .int n' => n == n'
  | .bound s, .bound s' => s == s'
  | .var ns attr, .var ns' attr' => ns == ns' && attr == attr'
  | .vector items, .vector items' => agreeAll items items'
  | .map [], .map [] => true
  | .define ns name value, .define ns' name' value' =>
      ns == ns' && name == name' && agrees value value'
  | .provide ns requires, .provide ns' requires' => ns == ns' && requires == requires'
  | .lambda params rest body, .lambda params' rest' body' =>
      params == params' && rest == rest' && agrees body body'
  | .recursive label self params rest body, .recursive label' self' params' rest' body' =>
      label == label' && self == self' && params == params' && rest == rest' && agrees body body'
  | .call f args, .call f' args' => agrees f f' && agreeAll args args'
  | .cond test yes no, .cond test' yes' no' =>
      agrees test test' && agrees yes yes' && agrees no no'
  | _, _ => false

def agreeAll : List Code → List Code → Bool
  | [], [] => true
  | c :: cs, c' :: cs' => agrees c c' && agreeAll cs cs'
  | _, _ => false

end

mutual

theorem eq_of_agrees {a b : Code} (h : agrees a b = true) : a = b := by
  unfold agrees at h
  split at h <;> try simp only [Bool.and_eq_true, beq_iff_eq] at h
  case h_1 | h_6 => rfl
  case h_2 | h_3 => rw [h]
  case h_4 | h_8 => rw [h.1, h.2]
  case h_5 => rw [eq_of_agreeAll h]
  case h_7 | h_9 => rw [h.1.1, h.1.2, eq_of_agrees h.2]
  case h_10 => rw [h.1.1.1.1, h.1.1.1.2, h.1.1.2, h.1.2, eq_of_agrees h.2]
  case h_11 => rw [eq_of_agrees h.1, eq_of_agreeAll h.2]
  case h_12 => rw [eq_of_agrees h.1.1, eq_of_agrees h.1.2, eq_of_agrees h.2]
  case h_13 => cases h

theorem eq_of_agreeAll {as bs : List Code} (h : agreeAll as bs = true) : as = bs := by
  unfold agreeAll at h
  split at h
  · rfl
  · rw [Bool.and_eq_true] at h
    rw [eq_of_agrees h.1, eq_of_agreeAll h.2]
  · cases h

end

end Code

namespace Machine

open Run

variable {m : Machine} {ns name : String} {r : Routine} {rs : List Routine} {v : Value}

def defining (ns : String) (rs : List Routine) : List Code :=
  .provide ns [] :: rs.map (Routine.code ns)

theorem leads_code (ho : Ordinary r.name) (hi : Intact m ns) :
    Leads (evaluate (r.code ns)) m
      (fun _ m' => ∃ id, Puts ns (Code.munge r.name) (.fn id r.rule) m m') (fun _ _ => False) := by
  have hmake : (evaluate (.recursive r.name (Code.munge r.name) r.params none r.body)).run.run m =
      (.ok (.fn m.nextId r.rule), { m with nextId := m.nextId + 1 }) := by
    rw [evaluate, clear_nil.recursive]
    rfl
  have hi' : Intact { m with nextId := m.nextId + 1 } ns := ⟨hi.name, hi.vars⟩
  have hput := Write.leads (w := ⟨ns, r.name, .fn m.nextId r.rule, true⟩) ho hi'
  rw [evaluate, Routine.code, clear_nil.define, leads_bind, ← evaluate, leads_of_ok hmake]
  exact hput.mono (fun _ _ hp => ⟨_, hp⟩) fun _ _ he => he

/-- What is in place behind definitions: each var has its function, and all else is as it was. -/
structure Defined (ns : String) (rs : List Routine) (m m' : Machine) : Prop where
  intact : Intact m' ns
  has : ∀ r ∈ rs, ∃ id, m'.member? (.named ns) (Code.munge r.name) = some (.fn id r.rule)
  keeps : ∀ ns' attr, (ns' = ns → attr ∉ rs.map fun r => Code.munge r.name) →
    m'.member? (.named ns') attr = m.member? (.named ns') attr

theorem leads_codes (ho : ∀ r ∈ rs, Ordinary r.name)
    (hd : (rs.map fun r => Code.munge r.name).Nodup) (hi : Intact m ns) :
    Leads (execute (rs.map (Routine.code ns))) m (fun _ => Defined ns rs m) (fun _ _ => False) := by
  induction rs generalizing m with
  | nil => exact leads_pure.mpr ⟨hi, nofun, fun _ _ _ => rfl⟩
  | cons r rs ih =>
      rw [List.forall_mem_cons] at ho
      rw [List.map_cons, List.nodup_cons] at hd
      rw [List.map_cons, execute]
      apply (leads_code ho.1 hi).bind
      · rintro _ m₁ ⟨id, hp⟩
        apply (ih ho.2 hd.2 (hp.intact ho.1 hi)).mono
        · intro _ m' h
          refine ⟨h.intact, List.forall_mem_cons.mpr ⟨⟨id, ?_⟩, h.has⟩, fun ns' attr hother => ?_⟩
          · rw [h.keeps _ _ fun _ => hd.1, hp, if_pos ⟨rfl, rfl⟩]
          · rw [List.map_cons] at hother
            have hne : ¬(ns' = ns ∧ attr = Code.munge r.name) :=
              fun h => hother h.1 (h.2 ▸ List.mem_cons_self)
            rw [h.keeps ns' attr fun h hmem => hother h (List.mem_cons_of_mem _ hmem), hp,
              if_neg hne]
        · exact fun _ _ he => he
      · exact fun _ _ he => he

/-- A module that was not declared runs to its end. -/
theorem leads_defining (ho : ∀ r ∈ rs, Ordinary r.name)
    (hd : (rs.map fun r => Code.munge r.name).Nodup) (hi : Intact m ns) (hnew : ns ∉ m.provided) :
    Leads (execute (defining ns rs)) m (fun _ => Defined ns rs m) (fun _ _ => False) := by
  rw [defining, execute, evaluate, clear_nil.provide]
  apply (leads_provide_new hnew (List.forall_mem_nil _)).bind
  · rintro _ _ rfl
    have hdefined := leads_codes ho hd (m := { m with provided := m.provided ++ [ns] })
      ⟨hi.name, hi.vars⟩
    exact hdefined.mono (fun _ _ h => ⟨h.intact, h.has, h.keeps⟩) fun _ _ he => he
  · exact fun _ _ he => he

theorem Intact.sight_of_member (hi : Intact m ns) (ho : Ordinary name)
    (h : m.member? (.named ns) (Code.munge name) = some v) : sight m ns name = .ok v := by
  obtain ⟨text, htext⟩ := hi.name
  rw [sight_eq htext, ho.kept, h]
  rfl

end Machine

namespace Project

open Machine

def programOf? (forms : Except Form.ReadError (List Form)) : Option (List Code) := do
  let forms ← forms.toOption
  let m ← ((Analysis.compile none Namespace.user forms).run.run
    (.ofLibrary libraryNames {})).1.toOption
  m.program?

def compiled? (source : String) : Option (List Code) := programOf? (Form.readAll source)

def sequenceRoutines : List Routine := [summing, mean, frequencies, distinctItems]

def sequencePieces : List String := [
  "; Small sequence helpers bundled with every Sumi installation.\n\n",
  "(defn sum\n  \"Sum of the numbers in coll.\"\n  [coll]\n  (reduce + 0 coll))\n\n",
  "(defn mean\n  \"Arithmetic mean of coll, nil when coll is empty.\"\n  [coll]\n",
  "  (if (empty? coll)\n    nil\n    (/ (sum coll) (count coll))))\n\n",
  "(defn frequencies\n",
  "  \"Map from each distinct item of coll to the number of times it appears.\"\n  [coll]\n",
  "  (reduce (fn [m x] (assoc m x (inc (get m x 0)))) \x7b\x7d coll))\n\n",
  "(defn distinct-items\n  \"Items of coll without repeats, in first-seen order.\"\n  [coll]\n",
  "  (reduce (fn [acc x] (if (some (fn [y] (= x y)) acc) acc (conj acc x))) [] coll))\n"]

theorem toList_foldl_append (s : String) (pieces : List String) :
    (pieces.foldl (· ++ ·) s).toList = s.toList ++ pieces.flatMap String.toList := by
  induction pieces generalizing s with
  | nil => simp
  | cons p pieces ih =>
      rw [List.foldl_cons, ih, String.toList_append, List.flatMap_cons, List.append_assoc]

theorem compiled_sequence :
    compiled? sequenceSource = some (defining sequenceName sequenceRoutines) := by
  have hagree : ∃ cs, sequenceSource.toList = cs ∧ (programOf? (Form.readChars 1 cs)).any
      (Code.agreeAll · (defining sequenceName sequenceRoutines)) = true := by
    -- to take the characters out of the bytes of a text would be slow
    have hchars := toList_foldl_append "(ns sumi.seq)\n\n" sequencePieces
    rw [sequencePieces] at hchars
    simp only [List.flatMap_cons, List.flatMap_nil] at hchars
    iterate 10 rw [String.toList_ofList] at hchars
    exact ⟨_, hchars, by decide +kernel⟩
  obtain ⟨cs, hcs, hagree⟩ := hagree
  obtain ⟨codes, hcodes, h⟩ := (Option.any_eq_true _ _).mp hagree
  rw [compiled?, Form.readAll, hcs, hcodes, Code.eq_of_agreeAll h]

theorem sequence_ordinary : ∀ r ∈ sequenceRoutines, Ordinary r.name := by
  have h : ∀ r ∈ sequenceRoutines,
      Code.isName (Code.munge r.name) = true ∧ Code.munge r.name ∉ ownKeys ∧
        cell r.name = Code.munge r.name := by
    simp only [sequenceRoutines, List.forall_mem_cons]
    decide +kernel
  exact fun r hr => ⟨(h r hr).1, (h r hr).2.1, (h r hr).2.2⟩

/-- Once the module that comes with the library has run, two of its vars have functions that take
every list or vector of items, wherever what they use of the library is in place. The one counts the
items, and the other has the keys of the count, in order. -/
theorem bundled_counts {m : Machine} (hm : Equipped stock m) (hi : Intact m sequenceName)
    (hnew : sequenceName ∉ m.provided) :
    ∃ codes m' f g, compiled? sequenceSource = some codes ∧
      (execute codes).run.run m = (.ok (), m') ∧ Equipped stock m' ∧
      sight m' sequenceName "frequencies" = .ok f ∧
      sight m' sequenceName "distinct-items" = .ok g ∧
      ∀ coll items, coll.sequence? = some items → (∀ x ∈ items, x.Item) →
        ∃ t, Counts coll items t ∧ ∀ depth,
          ComesTo stock (apply (depth + 6) f [coll]) (.map t) ∧
            ComesTo stock (apply (depth + 6) g [coll]) (.vector t.keys) := by
  have hd : (sequenceRoutines.map fun r => Code.munge r.name).Nodup := by decide +kernel
  obtain ⟨_, m', hrun, h⟩ := (leads_defining sequence_ordinary hd hi hnew).ends
  obtain ⟨i, hf⟩ := h.has frequencies (by simp [sequenceRoutines])
  obtain ⟨j, hg⟩ := h.has distinctItems (by simp [sequenceRoutines])
  have hother : Namespace.core ≠ sequenceName := by decide
  have hm' : Equipped stock m' := fun op hop => by rw [h.keeps _ _ (absurd · hother), hm op hop]
  refine ⟨_, m', .fn i frequencies.rule, .fn j distinctItems.rule, compiled_sequence, hrun, hm',
    h.intact.sight_of_member (sequence_ordinary frequencies (by simp [sequenceRoutines])) hf,
    h.intact.sight_of_member (sequence_ordinary distinctItems (by simp [sequenceRoutines])) hg, fun coll items hcoll hitems => ?_⟩
  refine ⟨_, tally_counts hcoll hitems, fun depth => ⟨comesTo_frequencies hcoll hitems, ?_⟩⟩
  rw [(tally_tallies hitems).keys]
  exact comesTo_distinctItems hcoll hitems

theorem initial_equipped : Equipped stock initial := by
  have h : ∀ op ∈ stock,
      Common op.attr ∧ alike (some (.builtin op)) (core? initial op.attr) = true := by
    rw [initial_eq_spelled]
    decide +kernel
  exact fun op hop => member_home (h op hop).1 (eq_of_alike (h op hop).2)

def repeating : List Value := [.int 1, .row [.int 1], .str "a", .int 1, .list 3 [.int 1]]

theorem repeating_items : ∀ x ∈ repeating, x.Item := by
  have hone : ∀ x ∈ [Value.int 1], x.Item := List.forall_mem_singleton.mpr (.int 1)
  simp only [repeating, List.forall_mem_cons]
  exact ⟨.int 1, .listed rfl hone, .str "a", .int 1, .listed rfl hone, List.forall_mem_nil _⟩

theorem firstSeen_repeating : firstSeen repeating = [.int 1, .row [.int 1], .str "a"] := by
  with_unfolding_all rfl

/-- What comes again is counted where it came first. -/
theorem bundled_counts_repeating : ∃ codes m' f g t, compiled? sequenceSource = some codes ∧
    (execute codes).run.run initial = (.ok (), m') ∧
    sight m' sequenceName "frequencies" = .ok f ∧ sight m' sequenceName "distinct-items" = .ok g ∧
    Counts (.vector repeating) repeating t ∧
    (∃ m'', (apply depth f [.vector repeating]).run.run m' = (.ok (.map t), m'')) ∧
    ∃ m'', (apply depth g [.vector repeating]).run.run m' =
      (.ok (.vector [.int 1, .row [.int 1], .str "a"]), m'') := by
  obtain ⟨codes, m', f, g, hcodes, hrun, hm', hf, hg, hall⟩ :=
    bundled_counts initial_equipped (initial_intact sequenceName) (by decide)
  obtain ⟨t, ht, hcalls⟩ := hall (.vector repeating) repeating rfl repeating_items
  obtain ⟨hcount, hkeep⟩ := hcalls 994
  obtain ⟨_, m₁, hcount, rfl, -⟩ := (hcount m' hm').ends
  obtain ⟨_, m₂, hkeep, rfl, -⟩ := (hkeep m' hm').ends
  rw [ht.keys, firstSeen_repeating] at hkeep
  exact ⟨codes, m', f, g, t, hcodes, hrun, hf, hg, ht, ⟨m₁, hcount⟩, m₂, hkeep⟩

end Project

end Sumi
