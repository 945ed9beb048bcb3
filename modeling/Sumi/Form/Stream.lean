import Sumi.Form.Boundary

namespace Sumi.Form

open Text

structure Stream where
  /-- The lines not yet taken, each with its line feed. -/
  lines : List (List Char)
  buffer : List Char := []
  /-- Forms read already, next one first. -/
  pending : List Form := []
  /-- The line number of the first character of the buffer. -/
  bufferLine : Nat := 1
  taken : Nat := 0

namespace Stream

def ofText (s : String) : Stream := ⟨Lines.pieces s.toList, [], [], 1, 0⟩

def reset (s : Stream) : Stream :=
  { s with buffer := [], pending := [], bufferLine := s.taken + 1 }

/-- Puts the next line behind the buffer, or in place of a buffer that holds nothing. -/
def take (s : Stream) (line : List Char) (rest : List (List Char)) : Stream :=
  if Boundary.isVacant s.buffer then
    { s with lines := rest, taken := s.taken + 1, bufferLine := s.taken + 1, buffer := line }
  else { s with lines := rest, taken := s.taken + 1, buffer := s.buffer ++ line }

def weight (s : Stream) : Nat := s.buffer.length + s.lines.flatten.length

theorem weight_take (s : Stream) (line : List Char) (rest : List (List Char))
    (h : s.lines = line :: rest) : (s.take line rest).weight ≤ s.weight := by
  unfold take weight
  split
  · simp [h]
  · simp [h, Nat.add_assoc]

def advance (s : Stream) (n : Nat) : Stream × Except ReadError (List Form) :=
  let text := s.buffer.take n
  ({ s with buffer := s.buffer.drop n, bufferLine := s.bufferLine + text.count '\n' },
    readChars s.bufferLine text)

theorem weight_advance {s : Stream} {n : Nat} (h : Boundary.complete s.buffer = .ok (n + 1)) :
    (s.advance (n + 1)).1.weight < s.weight := by
  have := Boundary.complete_le h
  simp only [advance, weight, List.length_drop]
  omega

/-- The next form, or an error, and the stream behind it; nothing at the end. An error drops the
buffer. -/
def next? (s : Stream) : Option (Except ReadError Form × Stream) :=
  match s.pending with
  | form :: rest => some (.ok form, { s with pending := rest })
  | [] =>
      match _hc : Boundary.complete s.buffer with
      | .error e => some (.error e, s.reset)
      | .ok 0 =>
          match _hl : s.lines with
          | line :: rest => (s.take line rest).next?
          | [] =>
              if Boundary.isVacant s.buffer then none
              else some (.error ⟨.endOfInput, none, none⟩, s.reset)
      | .ok (n + 1) =>
          match _ha : s.advance (n + 1) with
          | (s', .ok forms) => { s' with pending := forms }.next?
          | (s', .error e) => some (.error e, s'.reset)
termination_by (s.weight, s.lines.length)
decreasing_by
  · have := weight_take s line rest _hl
    have hl : (s.take line rest).lines = rest := by unfold take; split <;> rfl
    rw [hl, _hl]
    rcases Nat.lt_or_eq_of_le this with h | h
    · exact .left _ _ h
    · rw [h]
      exact .right _ (by simp)
  · have := weight_advance _hc
    rw [_ha] at this
    exact .left _ _ this

def Shorter (t s : Stream) : Prop :=
  t.weight < s.weight ∨ t.weight = s.weight ∧ t.pending.length < s.pending.length

theorem weight_reset (s : Stream) : s.reset.weight + s.buffer.length = s.weight := by
  simp [reset, weight]
  omega

theorem weight_reset_lt {s : Stream} (h : s.buffer ≠ []) : s.reset.weight < s.weight := by
  have := weight_reset s
  have := List.length_pos_iff.mpr h
  omega

theorem next?_shorter {s t : Stream} {r : Except ReadError Form} (h : s.next? = some (r, t)) :
    t.Shorter s := by
  -- a reading takes characters, or it hands out a form that was waiting
  fun_induction next? s with
  | case1 s form rest hp =>
      obtain ⟨_, rfl⟩ := by simpa using h
      exact .inr ⟨rfl, by simp [hp]⟩
  | case2 s hp e hc =>
      obtain ⟨_, rfl⟩ := by simpa using h
      refine .inl (weight_reset_lt ?_)
      intro hb
      rw [hb, Boundary.complete_nil] at hc
      cases hc
  | case3 s hp hc line rest hl ih =>
      have hw := weight_take s line rest hl
      have hq : (s.take line rest).pending = [] := by unfold take; split <;> exact hp
      rcases ih h with hlt | ⟨_, hlt⟩
      · exact .inl (by omega)
      · simp [hq] at hlt
  | case4 => simp at h
  | case5 s hp hc hl hv =>
      obtain ⟨_, rfl⟩ := by simpa using h
      refine .inl (weight_reset_lt ?_)
      intro hb
      rw [hb] at hv
      exact hv rfl
  | case6 s hp n hc s' forms ha ih =>
      have hw := weight_advance hc
      rw [ha] at hw
      have hw : ({ s' with pending := forms } : Stream).weight < s.weight := hw
      rcases ih h with hlt | ⟨heq, _⟩
      · exact .inl (Nat.lt_trans hlt hw)
      · exact .inl (heq ▸ hw)
  | case7 s hp n hc s' e ha =>
      obtain ⟨_, rfl⟩ := by simpa using h
      have hw := weight_advance hc
      rw [ha] at hw
      have := weight_reset s'
      exact .inl (by simp only at hw; omega)

theorem Shorter.reset {t s : Stream} (h : t.Shorter s) : t.reset.Shorter s := by
  have hw := t.weight_reset
  have hp : t.reset.pending.length = 0 := rfl
  unfold Shorter at h ⊢
  omega

/-- So a reading can stand in a recursion on what is left. -/
theorem Shorter.lex {t s : Stream} (h : t.Shorter s) :
    Prod.Lex (· < ·) (· < ·) (t.weight, t.pending.length) (s.weight, s.pending.length) := by
  rcases h with h | ⟨he, h⟩
  · exact .left _ _ h
  · rw [he]
    exact .right _ h

end Stream

end Sumi.Form
