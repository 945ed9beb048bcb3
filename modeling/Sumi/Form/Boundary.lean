import Sumi.Form.Reader

namespace Sumi.Form.Boundary

open Text Token

inductive Mode
  | between
  | word
  | comment
  | string
  | escape
  deriving DecidableEq, Repr

/-- The state after `seen` characters: how many brackets are open, and where the last complete form
ended, which is zero if there is none. -/
structure Scan where
  mode : Mode := .between
  depth : Nat := 0
  seen : Nat := 0
  last : Nat := 0
  deriving DecidableEq, Repr

namespace Scan

def moveTo (s : Scan) (mode : Mode) : Scan := { s with mode := mode, seen := s.seen + 1 }

def mark (s : Scan) : Scan := if s.depth = 0 then { s with last := s.seen } else s

/-- A character outside strings, comments and words. A closing bracket too many ends the scan: at
the last complete form, or in an error if there is none. -/
def outside (s : Scan) (c : Char) : Except (Except ReadError Nat) Scan :=
  if c = '"' then .ok (s.moveTo .string)
  else if c = ';' then .ok (s.moveTo .comment)
  else if ['(', '[', '\x7b'].contains c then .ok ({ s with depth := s.depth + 1 }.moveTo .between)
  else if [')', ']', '\x7d'].contains c then
    match s.depth with
    | 0 => .error (if s.last = 0 then .error ⟨.strayBracket c, none, none⟩ else .ok s.last)
    | depth + 1 => .ok (mark ({ s with depth := depth }.moveTo .between))
  else if c = '\'' ∨ c = '@' ∨ isSeparator c then .ok (s.moveTo .between)
  else .ok (s.moveTo .word)

def step (s : Scan) (c : Char) : Except (Except ReadError Nat) Scan :=
  match s.mode with
  | .between => s.outside c
  | .word => if isDelimiter c then s.mark.outside c else .ok (s.moveTo .word)
  | .comment => if c = '\n' then s.outside c else .ok (s.moveTo .comment)
  | .string =>
      if c = '"' then .ok (s.moveTo .between).mark
      else .ok (s.moveTo (if c = '\\' then .escape else .string))
  | .escape => .ok (s.moveTo .string)

def finish (s : Scan) : Nat := if s.mode = .word then s.mark.last else s.last

def Sound (s : Scan) : Prop := s.last ≤ s.seen

theorem mark_sound {s : Scan} (h : s.Sound) : s.mark.Sound ∧ s.mark.seen = s.seen := by
  unfold mark
  split <;> simp_all [Sound]

def Follows (s : Scan) : Except (Except ReadError Nat) Scan → Prop
  | .ok s' => s'.Sound ∧ s'.seen = s.seen + 1
  | .error (.ok n) => n ≤ s.seen
  | .error (.error _) => True

theorem outside_follows {s : Scan} (h : s.Sound) (c : Char) : s.Follows (s.outside c) := by
  unfold Sound at h
  have mark_moveTo (t : Scan) (m : Mode) (ht : t.last ≤ t.seen) :
      (t.moveTo m).mark.Sound ∧ (t.moveTo m).mark.seen = t.seen + 1 := by
    have := mark_sound (s := t.moveTo m) (by simp [Sound, moveTo]; omega)
    simpa [moveTo] using this
  unfold outside
  split
  · simp [Follows, Sound, moveTo]; omega
  · split
    · simp [Follows, Sound, moveTo]; omega
    · split
      · simp [Follows, Sound, moveTo]; omega
      · split
        · split
          · split <;> simp [Follows]; omega
          · exact mark_moveTo { s with depth := _ } .between h
        · split <;> simp [Follows, Sound, moveTo] <;> omega

theorem step_follows {s : Scan} (h : s.Sound) (c : Char) : s.Follows (s.step c) := by
  have h' := h
  unfold Sound at h'
  unfold step
  split
  · exact outside_follows h c
  · split
    · have hm := mark_sound h
      have ho := outside_follows hm.1 c
      revert ho
      cases s.mark.outside c with
      | ok t => simp only [Follows, hm.2]; exact id
      | error e => cases e <;> simp [Follows, hm.2]
    · simp [Follows, Sound, moveTo]; omega
  · split
    · exact outside_follows h c
    · simp [Follows, Sound, moveTo]; omega
  · split
    · have := mark_sound (s := s.moveTo .between) (by simp [Sound, moveTo]; omega)
      simpa [Follows, moveTo] using this
    · simp [Follows, Sound, moveTo]; omega
  · simp [Follows, Sound, moveTo]; omega

theorem finish_le {s : Scan} (h : s.Sound) : s.finish ≤ s.seen := by
  unfold finish
  split
  · exact (mark_sound h).2 ▸ (mark_sound h).1
  · exact h

theorem foldlM_le (cs : List Char) {s : Scan} (h : s.Sound) :
    match cs.foldlM step s with
    | .ok t => t.finish ≤ s.seen + cs.length
    | .error (.ok n) => n ≤ s.seen + cs.length
    | .error (.error _) => True := by
  induction cs generalizing s with
  | nil => exact finish_le h
  | cons c cs ih =>
      have hf := step_follows h c
      rw [List.foldlM_cons]
      cases hs : s.step c with
      | ok t =>
          rw [hs] at hf
          have := ih hf.1
          rw [hf.2] at this
          simp only [List.length_cons]
          rw [show s.seen + (cs.length + 1) = s.seen + 1 + cs.length by omega]
          exact this
      | error e =>
          rw [hs] at hf
          cases e with
          | ok n =>
              have : n ≤ s.seen := hf
              show n ≤ s.seen + (cs.length + 1)
              omega
          | error e => trivial

end Scan

/-- The length of the longest beginning of `cs` that holds complete forms only, an unreadable one
counting as complete. -/
def complete (cs : List Char) : Except ReadError Nat :=
  match cs.foldlM Scan.step {} with
  | .ok s => .ok s.finish
  | .error answer => answer

theorem complete_le {cs : List Char} {n : Nat} (h : complete cs = .ok n) : n ≤ cs.length := by
  have := Scan.foldlM_le cs (s := {}) (Nat.le_refl 0)
  revert this h
  unfold complete
  rcases cs.foldlM Scan.step {} with (e | n) | s <;> simp <;> omega

theorem complete_nil : complete [] = .ok 0 := rfl

def isVacant (cs : List Char) : Bool :=
  (Lines.split cs).all (fun line => (line.takeWhile (· != ';')).all isSeparator)

end Sumi.Form.Boundary
