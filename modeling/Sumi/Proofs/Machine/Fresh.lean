import Sumi.Proofs.Machine.Provided

namespace Sumi.Machine

open Run Library

/-- What a machine is made to do: evaluate an expression, be it a part of a larger one, call a
function, or make a symbol with a prefix or the usual one. -/
inductive Act
  | evaluate (depth : Nat) (env : Locals) (code : Code)
  | call (depth : Nat) (f : Value) (args : List Value)
  | generate (depth : Nat) (start : Option String)

structure Generated where
  start : String
  /-- What the machine had counted up to. -/
  number : Nat
  result : Except Failure Value

namespace Act

def generation (depth : Nat) (start : Option String) : Run Value :=
  apply (depth + 1) (.builtin .gensym) (start.toList.map .str)

def after (m : Machine) : Act → Machine
  | evaluate depth env code => ((eval (apply depth) env code).run.run m).2
  | call depth f args => ((apply depth f args).run.run m).2
  | generate depth start => ((generation depth start).run.run m).2

def generated? (m : Machine) : Act → Option Generated
  | generate depth start =>
      some ⟨start.getD "G__", m.nextSymbol, ((generation depth start).run.run m).1⟩
  | _ => none

end Act

def generated (m : Machine) : List Act → List Generated
  | [] => []
  | act :: acts => (act.generated? m).toList ++ generated (act.after m) acts

variable {m : Machine}

theorem generation_run (m : Machine) (depth : Nat) (start : Option String) :
    (Act.generation depth start).run.run m =
      (.ok (.symbol .nil (.str (start.getD "G__" ++ toString m.nextSymbol))),
        { m with nextSymbol := m.nextSymbol + 1 }) := by
  cases start with
  | none => rfl
  | some start => rfl

theorem moves_run {α : Type} {c : Run α} (h : Moves Grows c) (m : Machine) :
    Grows m (c.run.run m).2 := by
  have hm := leads_iff.mp (h m)
  rcases hc : c.run.run m with ⟨_ | _, m'⟩ <;> rw [hc] at hm <;> exact hm

namespace Act

theorem grows (m : Machine) (act : Act) : Grows m (act.after m) := by
  cases act with
  | evaluate depth env code => exact moves_run (eval_grows (apply_grows depth) env code) m
  | call depth f args => exact moves_run (apply_grows depth f args) m
  | generate depth start =>
      rw [after, generation_run]
      exact ⟨List.Subset.refl _, Nat.le_succ _⟩

/-- Only what goes on counting makes a symbol. -/
theorem counts {act : Act} {g : Generated} (h : act.generated? m = some g) :
    g.number = m.nextSymbol ∧ (act.after m).nextSymbol = m.nextSymbol + 1 ∧
      g.result = .ok (.symbol .nil (.str (g.start ++ toString g.number))) := by
  cases act with
  | generate depth start =>
      cases h
      rw [after, generation_run]
      exact ⟨rfl, rfl, rfl⟩
  | evaluate | call => cases h

end Act

theorem number_of_mem {acts : List Act} {g : Generated} (h : g ∈ generated m acts) :
    m.nextSymbol ≤ g.number ∧
      g.result = .ok (.symbol .nil (.str (g.start ++ toString g.number))) := by
  induction acts generalizing m with
  | nil => cases h
  | cons act acts ih =>
      rw [generated, List.mem_append, Option.mem_toList] at h
      rcases h with h | h
      · obtain ⟨hnumber, -, hresult⟩ := Act.counts h
        exact ⟨Nat.le_of_eq hnumber.symm, hresult⟩
      · obtain ⟨hnumber, hresult⟩ := ih h
        exact ⟨Nat.le_trans (act.grows m).symbols hnumber, hresult⟩

/-- Numbers are given out in order. -/
theorem generated_ordered (m : Machine) (acts : List Act) :
    (generated m acts).Pairwise fun a b => a.number < b.number := by
  induction acts generalizing m with
  | nil => exact .nil
  | cons act acts ih =>
      rw [generated, List.pairwise_append]
      refine ⟨?_, ih _, fun a ha b hb => ?_⟩
      · cases act.generated? m with
        | none => exact .nil
        | some g => exact List.pairwise_singleton _ g
      · obtain ⟨ha, hafter, -⟩ := Act.counts (Option.mem_toList.mp ha)
        have hb := (number_of_mem hb).1
        omega

theorem eq_of_toString_eq {n k : Nat} (h : toString n = toString k) : n = k := by
  have hvalue := congrArg (fun s => Nat.ofDigitChars 10 s.toList 0) h
  simpa [Nat.toString_eq_ofList_toDigits] using hvalue

theorem length_toDigits_le {n k : Nat} (h : n ≤ k) :
    (Nat.toDigits 10 n).length ≤ (Nat.toDigits 10 k).length := by
  have hpos : 0 < (Nat.toDigits 10 k).length := List.length_pos_iff.mpr Nat.toDigits_ne_nil
  have hk : k < 10 ^ (Nat.toDigits 10 k).length :=
    (Nat.length_toDigits_le_iff (by decide) hpos).mp (Nat.le_refl _)
  exact (Nat.length_toDigits_le_iff (by decide) hpos).mpr (Nat.lt_of_le_of_lt h hk)

theorem numbered_eq_iff {p q : String} {n k : Nat} (h : n < k) :
    p ++ toString n = q ++ toString k ↔
      ∃ digits, p = q ++ digits ∧ toString k = digits ++ toString n := by
  constructor
  · intro heq
    have hlist := congrArg String.toList heq
    rw [String.toList_append, String.toList_append, Nat.toString_eq_ofList_toDigits,
      Nat.toString_eq_ofList_toDigits, String.toList_ofList, String.toList_ofList,
      List.append_eq_append_iff] at hlist
    rcases hlist with ⟨ds, -, hn⟩ | ⟨ds, hp, hk⟩
    · -- The greater number has at least as many digits, so nothing is left for `ds`.
      have hlength := congrArg List.length hn
      rw [List.length_append] at hlength
      have hle := length_toDigits_le (Nat.le_of_lt h)
      obtain rfl : ds = [] := List.length_eq_zero_iff.mp (by omega)
      have hsame : n = k := eq_of_toString_eq <| by
        rw [Nat.toString_eq_ofList_toDigits, hn, List.nil_append, ← Nat.toString_eq_ofList_toDigits]
      omega
    · refine ⟨String.ofList ds, ?_, ?_⟩
      · rw [← String.toList_inj, String.toList_append, hp, String.toList_ofList]
      · rw [Nat.toString_eq_ofList_toDigits, Nat.toString_eq_ofList_toDigits, hk, String.ofList_append]
  · rintro ⟨digits, rfl, hk⟩
    rw [hk, String.append_assoc]

variable {acts : List Act} {a b : Generated}

theorem result_eq_iff (ha : a ∈ generated m acts) (hb : b ∈ generated m acts)
    (h : a.number < b.number) : a.result = b.result ↔
      ∃ digits, a.start = b.start ++ digits ∧ toString b.number = digits ++ toString a.number := by
  rw [(number_of_mem ha).2, (number_of_mem hb).2, ← numbered_eq_iff h]
  simp

/-- Symbols differ if no prefix goes on from another with digits. -/
theorem generated_apart
    (h : ∀ a ∈ generated m acts, ∀ b ∈ generated m acts, ∀ digits, digits ≠ "" →
      (∀ c ∈ digits.toList, c.isDigit = true) → a.start ≠ b.start ++ digits) :
    (generated m acts).Pairwise fun a b => a.result ≠ b.result := by
  apply (generated_ordered m acts).imp_of_mem
  intro a b ha hb hlt heq
  obtain ⟨digits, hstart, hnumber⟩ := (result_eq_iff ha hb hlt).mp heq
  refine h a ha b hb digits ?_ ?_ hstart
  · rintro rfl
    rw [String.empty_append] at hnumber
    have hsame : b.number = a.number := eq_of_toString_eq hnumber
    omega
  · intro c hc
    have hmem : c ∈ (toString b.number).toList := by
      rw [hnumber, String.toList_append]
      exact List.mem_append_left _ hc
    rw [Nat.toString_eq_ofList_toDigits, String.toList_ofList] at hmem
    exact Nat.isDigit_of_mem_toDigits (by decide) (by decide) hmem

/-- Every call makes a symbol, with a number above all earlier ones. It is an earlier symbol exactly if
the prefix of that one is the prefix of this one and the first digits of its number, and the number of
that one is the rest. -/
theorem generated_alike (m : Machine) (acts : List Act) :
    (∀ g ∈ generated m acts,
      g.result = .ok (.symbol .nil (.str (g.start ++ toString g.number)))) ∧
    (generated m acts).Pairwise fun a b => a.number < b.number ∧
      (a.result = b.result ↔ ∃ digits, a.start = b.start ++ digits ∧
        toString b.number = digits ++ toString a.number) := by
  refine ⟨fun g hg => (number_of_mem hg).2, ?_⟩
  apply (generated_ordered m acts).imp_of_mem
  exact fun ha hb hlt => ⟨hlt, result_eq_iff ha hb hlt⟩

/-- The first symbol has the number 1, and the last one the number 11. -/
def colliding : List Act :=
  .generate 0 (some "a1") :: List.replicate 9 (.generate 0 none) ++ [.generate 0 (some "a")]

theorem colliding_alike :
    ¬ (generated initial colliding).Pairwise fun a b => a.result ≠ b.result := by
  intro h
  have hdiffer := List.pairwise_iff_getElem.mp h 0 10 (by decide +kernel) (by decide +kernel) (by decide)
  exact hdiffer rfl

end Sumi.Machine
