import Mathlib.Data.List.TakeDrop
import Sumi.Proofs.Form.Incremental

namespace Sumi.Form

open Text Text.Lines

variable {α β : Type} (k : Nat)

def Place.down (p : Place) : Place := ⟨p.line + k, p.column⟩

def Item.down : Item → Item
  | .token t => .token { t with place := t.place.down k }
  | .stray c place => .stray c (place.down k)

namespace Tree

mutual

def down : Tree → Tree
  | .leaf t => .leaf { t with place := t.place.down k }
  | .mark m line child => .mark m (line + k) child.down
  | .node b line children => .node b (line + k) (downAll children)

def downAll : List Tree → List Tree
  | [] => []
  | t :: ts => t.down :: downAll ts

end

def Frame.down : Frame → Frame
  | .bracket b line children => .bracket b (line + k) (downAll k children)
  | .mark m line => .mark m (line + k)

def Nest.down (s : Nest) : Nest := ⟨s.frames.map (Frame.down k), downAll k s.top⟩

end Tree

mutual

def down : Form → Form
  | .list items line => .list (downAll items) (line.map (· + k))
  | .vector items line => .vector (downAll items) (line.map (· + k))
  | .map items line => .map (downAll items) (line.map (· + k))
  | form => form

def downAll : List Form → List Form
  | [] => []
  | form :: forms => form.down :: downAll forms

end

/-- The context is text, and the places in the words about a string are places in the string. -/
def ReadError.down (e : ReadError) : ReadError := { e with place := e.place.map (Place.down k) }

def moved (f : α → β) : Except ReadError α → Except ReadError β
  | .ok a => .ok (f a)
  | .error e => .error (e.down k)

theorem Place.down_advance (p : Place) (cs : List Char) :
    (p.down k).advance cs = (p.advance cs).down k := by
  induction cs generalizing p with
  | nil => rfl
  | cons c cs ih =>
      have hstep : (p.down k).step c = (p.step c).down k := by
        unfold step
        split
        · simp [down, Nat.add_right_comm]
        · rfl
      calc (p.down k).advance (c :: cs) = ((p.down k).step c).advance cs := rfl
        _ = ((p.step c).advance cs).down k := by rw [hstep, ih]

theorem Place.down_step (p : Place) (c : Char) : (p.down k).step c = (p.step c).down k :=
  down_advance k p [c]

theorem Token.items_down (place : Place) (cs : List Char) :
    items (place.down k) cs = (items place cs).map (Item.down k) := by
  induction place, cs using items.induct with
  | case1 place => simp [items]
  | case2 place c rest hs ih => simp [items, hs, Place.down_step, ih]
  | case3 place rest hs ih => simp [items, hs, Place.down_advance, ih]
  | case4 place c rest hs hc hl => simp [items, hs, hc, hl, Item.down]
  | case5 place c rest hs hc kind n hl text ih =>
      simp only [items, hs, hc, hl, Bool.false_eq_true, if_false, List.map_cons, Item.down]
      rw [Place.down_advance, ih]

namespace Tree

variable {k}

theorem downAll_eq (ts : List Tree) : downAll k ts = ts.map (down k) := by
  induction ts with
  | nil => rfl
  | cons t ts ih => rw [downAll, ih, List.map_cons]

theorem put_down (t : Tree) (top : List Tree) (frames : List Frame) :
    Nest.put (t.down k) (downAll k top) (frames.map (Frame.down k)) =
      (Nest.put t top frames).down k := by
  induction frames generalizing t with
  | nil => rfl
  | cons frame frames ih =>
      cases frame with
      | bracket b line children => rfl
      | mark m line => exact ih (.mark m line t)

theorem step_down (s : Nest) (t : Token) :
    (s.down k).step { t with place := t.place.down k } = moved k (Nest.down k) (s.step t) := by
  obtain ⟨frames, top⟩ := s
  obtain ⟨kind, text, place⟩ := t
  have hput (tree : Tree) (frames : List Frame) : Except.ok (ε := ReadError)
      (Nest.put (tree.down k) (downAll k top) (frames.map (Frame.down k))) =
        .ok ((Nest.put tree top frames).down k) := congrArg _ (put_down tree top frames)
  cases kind with
  | closing b =>
      match frames with
      | [] | .mark _ _ :: _ => rfl
      | .bracket b' line children :: frames =>
          by_cases hb : b = b'
          · have := hput (.node b line children.reverse) frames
            simpa [Nest.step, Nest.down, Frame.down, moved, hb, down, downAll_eq] using this
          · simp [Nest.step, Nest.down, Frame.down, moved, hb, ReadError.down]
  | opening b | mark m => rfl
  | string | number | keyword | symbol => exact hput (.leaf _) frames

theorem nest_down (s : Nest) (last : Place) (items : List Item) :
    nest (s.down k) (last.down k) (items.map (Item.down k)) =
      moved k (downAll k) (nest s last items) := by
  induction items generalizing s last with
  | nil =>
      by_cases hf : s.frames.isEmpty
      · simp [nest, Nest.down, moved, hf, downAll_eq]
      · simp [nest, Nest.down, moved, hf, ReadError.down]
  | cons item items ih =>
      cases item with
      | stray c place => rfl
      | token t =>
          simp only [List.map_cons, Item.down, nest, step_down]
          cases s.step t with
          | ok s => exact ih s t.place
          | error e => rfl

theorem leafForm_down (t : Token) :
    leafForm { t with place := t.place.down k } = moved k (Form.down k) (leafForm t) := by
  obtain ⟨kind, text, place⟩ := t
  cases kind with
  | string =>
      simp only [leafForm]
      cases Quoted.decode 1 text.tail.dropLast <;> rfl
  | number =>
      simp only [leafForm, numberForm]
      cases Numeral.read? text with
      | none => rfl
      | some n =>
          cases hl : n.isTooLong with
          | true => simp [moved, hl, ReadError.down]
          | false => cases hn : n.isWhole <;> simp [moved, hl, Numeral.toForm, hn, Form.down]
  | keyword => rfl
  | opening b | closing b | mark m | symbol =>
      simp only [leafForm, symbolForm, moved]
      split_ifs <;> rfl

theorem length_downAll (forms : List Form) : (Form.downAll k forms).length = forms.length := by
  induction forms with
  | nil => rfl
  | cons form forms ih => rw [Form.downAll, List.length_cons, ih, List.length_cons]

theorem nodeForm_down (b : Bracket) (line : Nat) (forms : List Form) :
    nodeForm b (line + k) (Form.downAll k forms) = moved k (Form.down k) (nodeForm b line forms) := by
  cases b with
  | round | square => rfl
  | curly =>
      simp only [nodeForm, length_downAll]
      split <;> rfl

mutual

theorem toForm_down (t : Tree) : (t.down k).toForm = moved k (Form.down k) t.toForm := by
  cases t with
  | leaf t => exact leafForm_down t
  | mark m line child =>
      rw [down, toForm, toForm, toForm_down child]
      cases child.toForm <;> rfl
  | node b line children =>
      rw [down, toForm, toForm, toForms_down children]
      cases toForms children with
      | error e => rfl
      | ok forms => exact nodeForm_down b line forms

theorem toForms_down (ts : List Tree) :
    toForms (downAll k ts) = moved k (Form.downAll k) (toForms ts) := by
  cases ts with
  | nil => rfl
  | cons t ts =>
      rw [downAll, toForms, toForms, toForm_down t, toForms_down ts]
      cases t.toForm with
      | error e => rfl
      | ok form => cases toForms ts <;> rfl

end

end Tree

/-- A text that begins `k` lines further down reads as its forms, or as its error, `k` lines further
down. -/
theorem readChars_down {n : Nat} (h : 1 ≤ n) (cs : List Char) :
    readChars (n + k) cs = moved k (downAll k) (readChars n cs) := by
  have hn : max n 1 = n := Nat.max_eq_left h
  have hk : max (n + k) 1 = n + k := Nat.max_eq_left (Nat.le_add_right_of_le h)
  unfold readChars
  simp only [hn, hk]
  have hi : Token.items ⟨n + k, 1⟩ cs = (Token.items ⟨n, 1⟩ cs).map (Item.down k) :=
    Token.items_down k ⟨n, 1⟩ cs
  have hf := Tree.nest_down (k := k) {} ⟨n, 1⟩ (Token.items ⟨n, 1⟩ cs)
  rw [hi]
  change Tree.nest {} ⟨n + k, 1⟩ _ = _ at hf
  rw [hf]
  cases Tree.nest {} ⟨n, 1⟩ (Token.items ⟨n, 1⟩ cs) with
  | ok trees => exact Tree.toForms_down trees
  | error e =>
      -- the line of a context counts from the beginning of the text
      cases hp : e.place with
      | none => simp [moved, ReadError.down, hp]
      | some p =>
          have hline : p.line + k + 1 - (n + k) = p.line + 1 - n := by omega
          simp [moved, ReadError.down, hp, Place.down, hline]

theorem Boundary.complete_error {cs : List Char} {e : ReadError} (h : complete cs = .error e) :
    ∃ c, e = ⟨.strayBracket c, none, none⟩ := by
  unfold complete at h
  cases hf : cs.foldlM Scan.step {} with
  | ok t =>
      rw [hf] at h
      cases h
  | error x =>
      rw [hf] at h
      obtain ⟨pre, c, post, m, -, -, hs⟩ := Scan.stops hf
      obtain ⟨-, -, -, hx⟩ := Scan.step_error hs
      subst hx
      by_cases hl : m.rested.last = 0
      · simp only [hl, if_true] at h
        exact ⟨c, (Except.error.inj h).symm⟩
      · simp [hl] at h

namespace Stream

variable {k}

def down (k : Nat) (s : Stream) : Stream :=
  { s with
    pending := downAll k s.pending, bufferLine := s.bufferLine + k, taken := s.taken + k }

theorem next?_eq (s : Stream) : s.next? =
    match s.pending with
    | form :: rest => some (.ok form, { s with pending := rest })
    | [] =>
        match Boundary.complete s.buffer with
        | .error e => some (.error e, s.reset)
        | .ok 0 =>
            match s.lines with
            | line :: rest => (s.take line rest).next?
            | [] =>
                if Boundary.isVacant s.buffer then none
                else some (.error ⟨.endOfInput, none, none⟩, s.reset)
        | .ok (n + 1) =>
            match s.advance (n + 1) with
            | (s', .ok forms) => { s' with pending := forms }.next?
            | (s', .error e) => some (.error e, s'.reset) := by
  rw [next?]
  cases s.pending with
  | cons form rest => rfl
  | nil =>
      dsimp only
      split <;> simp only [*]
      · split <;> simp only [*]
      · split <;> simp only [*]

theorem reset_down (s : Stream) : (s.down k).reset = s.reset.down k := by
  simp [reset, down, downAll, Nat.add_right_comm]

theorem take_down (s : Stream) (line : List Char) (rest : List (List Char)) :
    (s.down k).take line rest = (s.take line rest).down k := by
  by_cases hv : Boundary.isVacant s.buffer
  · simp [take, down, hv, Nat.add_right_comm]
  · simp [take, down, hv, Nat.add_right_comm]

theorem advance_down {s : Stream} (h : 1 ≤ s.bufferLine) (n : Nat) :
    (s.down k).advance n = ((s.advance n).1.down k, moved k (downAll k) (s.advance n).2) := by
  simp [advance, down, readChars_down k h, Nat.add_right_comm]

/-- Reading never looks at a line number. -/
theorem next?_down {s : Stream} (h : 1 ≤ s.bufferLine) :
    (s.down k).next? = s.next?.map fun r => (moved k (Form.down k) r.1, r.2.down k) := by
  have hnone {s : Stream} (hp : s.pending = []) : (s.down k).pending = [] := by
    simp [down, hp, downAll]
  have hbuffer (s : Stream) : (s.down k).buffer = s.buffer := rfl
  have hlines (s : Stream) : (s.down k).lines = s.lines := rfl
  -- line numbers are carried along and never looked at, so both readings go through the same case
  fun_induction next? s with
  | case1 s form rest hp =>
      rw [next?_eq]
      simp [down, hp, downAll, moved]
  | case2 s hp e hc =>
      obtain ⟨c, rfl⟩ := Boundary.complete_error hc
      rw [next?_eq, hnone hp]
      simp only [hbuffer, hc, reset_down]
      rfl
  | case3 s hp hc line rest hl ih =>
      have ht : 1 ≤ (s.take line rest).bufferLine := by
        unfold take
        split
        · exact Nat.le_add_left 1 _
        · exact h
      rw [next?_eq, hnone hp]
      simp only [hbuffer, hlines, hc, hl, take_down, ih ht]
  | case4 s hp hc hl hv =>
      rw [next?_eq, hnone hp]
      simp only [hbuffer, hlines, hc, hl, hv, if_true, Option.map_none]
  | case5 s hp hc hl hv =>
      rw [next?_eq, hnone hp]
      simp only [hbuffer, hlines, hc, hl, hv, reset_down]
      rfl
  | case6 s hp n hc s' fs ha ih =>
      have hs : 1 ≤ s'.bufferLine := by
        have := congrArg (·.1.bufferLine) ha
        exact this ▸ Nat.le_add_right_of_le h
      rw [next?_eq, hnone hp]
      simp only [hbuffer, hc, advance_down h, ha]
      exact ih hs
  | case7 s hp n hc s' e ha =>
      rw [next?_eq, hnone hp]
      simp only [hbuffer, hc, advance_down h, ha, moved, reset_down, Option.map_some]

def spent (s : Stream) : Stream :=
  reset { s with lines := [], taken := s.taken + s.lines.length }

def read (s : Stream) : Option (Except ReadError Form) × Stream :=
  match s.next? with
  | some (answer, t) => (some answer, t)
  | none => (none, s.spent)

inductive Use
  | read
  | reset

def run : List Use → Stream → List (Option (Except ReadError Form)) × Stream
  | [], s => ([], s)
  | .reset :: uses, s => run uses s.reset
  | .read :: uses, s =>
      let (answers, t) := run uses s.read.2
      (s.read.1 :: answers, t)

theorem spent_down (s : Stream) : (s.down k).spent = s.spent.down k := by
  simp [spent, reset, down, downAll, Nat.add_right_comm]

theorem read_down {s : Stream} (h : 1 ≤ s.bufferLine) :
    (s.down k).read = (s.read.1.map (moved k (Form.down k)), s.read.2.down k) := by
  unfold read
  rw [next?_down h]
  cases s.next? with
  | none => simp [spent_down]
  | some answer => rfl

structure Behind (s t : Stream) : Prop where
  taken : ∃ gone, s.lines = gone ++ t.lines ∧ t.taken = s.taken + gone.length
  positive : 1 ≤ s.bufferLine → 1 ≤ t.bufferLine

theorem Behind.refl (s : Stream) : s.Behind s := ⟨⟨[], rfl, rfl⟩, id⟩

theorem Behind.trans {s t u : Stream} (h : s.Behind t) (h' : t.Behind u) : s.Behind u := by
  obtain ⟨gone, hl, ht⟩ := h.taken
  obtain ⟨more, hl', ht'⟩ := h'.taken
  refine ⟨⟨gone ++ more, by rw [hl, hl', List.append_assoc], ?_⟩, fun hs => h'.positive (h.positive hs)⟩
  rw [ht', ht, List.length_append, Nat.add_assoc]

theorem reset_behind (s : Stream) : s.Behind s.reset :=
  ⟨⟨[], rfl, rfl⟩, fun _ => Nat.le_add_left 1 _⟩

theorem spent_behind (s : Stream) : s.Behind s.spent :=
  ⟨⟨s.lines, (List.append_nil _).symm, rfl⟩, fun _ => Nat.le_add_left 1 _⟩

theorem take_behind {s : Stream} {line : List Char} {rest : List (List Char)}
    (hl : s.lines = line :: rest) : s.Behind (s.take line rest) := by
  unfold take
  split
  · exact ⟨⟨[line], hl, rfl⟩, fun _ => Nat.le_add_left 1 _⟩
  · exact ⟨⟨[line], hl, rfl⟩, id⟩

theorem advance_behind (s : Stream) (n : Nat) : s.Behind (s.advance n).1 :=
  ⟨⟨[], rfl, rfl⟩, Nat.le_add_right_of_le⟩

theorem next?_behind {s t : Stream} {answer : Except ReadError Form}
    (h : s.next? = some (answer, t)) : s.Behind t := by
  fun_induction next? s with
  | case1 s form rest hp =>
      cases h
      exact ⟨⟨[], rfl, rfl⟩, id⟩
  | case2 s hp e hc =>
      cases h
      exact reset_behind s
  | case3 s hp hc line rest hl ih => exact (take_behind hl).trans (ih h)
  | case4 => cases h
  | case5 s hp hc hl hv =>
      cases h
      exact reset_behind s
  | case6 s hp n hc s' forms ha ih =>
      have hs : s.Behind s' := by simpa [ha] using advance_behind s (n + 1)
      have hp : s.Behind { s' with pending := forms } := ⟨hs.taken, hs.positive⟩
      exact hp.trans (ih h)
  | case7 s hp n hc s' e ha =>
      cases h
      have hs : s.Behind s' := by simpa [ha] using advance_behind s (n + 1)
      exact hs.trans (reset_behind s')

theorem read_behind (s : Stream) : s.Behind s.read.2 := by
  unfold read
  cases hn : s.next? with
  | none => exact spent_behind s
  | some answer => exact next?_behind hn

theorem run_behind (uses : List Use) (s : Stream) : s.Behind (run uses s).2 := by
  induction uses generalizing s with
  | nil => exact .refl s
  | cons use uses ih =>
      cases use with
      | read => exact (read_behind s).trans (ih _)
      | reset => exact (reset_behind s).trans (ih _)

theorem run_down {s : Stream} (h : 1 ≤ s.bufferLine) (uses : List Use) :
    run uses (s.down k) =
      ((run uses s).1.map (Option.map (moved k (Form.down k))), (run uses s).2.down k) := by
  induction uses generalizing s with
  | nil => rfl
  | cons use uses ih =>
      cases use with
      | read =>
          have := ih ((read_behind s).positive h)
          simp only [run, read_down h, this, List.map_cons]
      | reset =>
          rw [run, reset_down, ih ((reset_behind s).positive h)]
          rfl

theorem reset_of_error {s t : Stream} {e : ReadError} (h : s.next? = some (.error e, t)) :
    t.reset = t := by
  fun_induction next? s with
  | case1 => cases h
  | case2 | case5 | case7 =>
      cases h
      rfl
  | case3 s hp hc line rest hl ih => exact ih h
  | case4 => cases h
  | case6 s hp n hc s' forms ha ih => exact ih h

def fresh (lines : List (List Char)) : Stream := { lines }

/-- A reset stream is a new one over the lines to come, but for their numbers. -/
theorem eq_fresh_of_reset {t : Stream} (h : t.reset = t) : t = (fresh t.lines).down t.taken := by
  rw [← h]
  simp [fresh, reset, down, downAll, Nat.add_comm]

theorem drain_of_reset {t : Stream} (h : t.reset = t)
    (whole : ∀ line ∈ t.lines.dropLast, Whole line) (forms : List Form) :
    t.drain = .ok forms ↔ readChars (t.taken + 1) t.lines.flatten = .ok forms := by
  have hb : t.buffer = [] := (congrArg Stream.buffer h).symm
  have hp : t.pending = [] := (congrArg Stream.pending h).symm
  have hl : t.bufferLine = t.taken + 1 := (congrArg Stream.bufferLine h).symm
  have tidy : t.Tidy := ⟨whole, by omega, fun _ => .inl hb, fun _ => by simp [hb, hl]⟩
  rw [drain_yields tidy, readChars_ok_iff, Nat.max_eq_left (Nat.le_add_left 1 _)]
  simp [Yields, rest, hb, hp, hl]

/-- However a stream has been used, behind a reset or a failed reading it is used like a new stream
over the lines that were not taken, all line numbers being greater by the number of those that were;
and if these lines read as a whole, it gives their forms, and then it is at its end. -/
theorem recovers {text : String} {uses : List Use} {s t : Stream}
    (used : (run uses (ofText text)).2 = s)
    (clear : t = s.reset ∨ ∃ e, s.read = (some (.error e), t)) :
    ∃ gone, pieces text.toList = gone ++ t.lines ∧ gone.length = t.taken ∧
      (∀ more, (run more t).1 =
        (run more (fresh t.lines)).1.map (Option.map (moved t.taken (Form.down t.taken)))) ∧
      ∀ forms, t.drain = .ok forms ↔
        readChars (t.taken + 1) t.lines.flatten = .ok forms := by
  have hst : s.Behind t ∧ t.reset = t := by
    rcases clear with rfl | ⟨e, he⟩
    · exact ⟨reset_behind s, rfl⟩
    · refine ⟨by simpa [he] using read_behind s, ?_⟩
      unfold read at he
      cases hn : s.next? with
      | none => simp [hn] at he
      | some answer =>
          obtain ⟨ha, rfl⟩ := by simpa [hn] using he
          exact reset_of_error (hn.trans (by rw [← ha]))
  obtain ⟨hst, hreset⟩ := hst
  obtain ⟨gone, hl, ht⟩ := (used ▸ run_behind uses (ofText text)).trans hst |>.taken
  have hl : pieces text.toList = gone ++ t.lines := hl
  refine ⟨gone, hl, (ht.trans (Nat.zero_add _)).symm, fun more => ?_, drain_of_reset hreset ?_⟩
  · conv_lhs => rw [eq_fresh_of_reset hreset]
    rw [run_down (Nat.le_refl 1)]
  · intro line hm
    refine pieces_whole text.toList line ?_
    rw [hl, List.dropLast_append_of_ne_nil (by rintro he; simp [he] at hm)]
    exact List.mem_append_right _ hm

/-- Behind a bracket that closes nothing, the next line is read under its own number. -/
theorem bracket_recovers :
    let t : Stream := ⟨["(a)\n".toList], [], [], 2, 1⟩
    (ofText ")\n(a)\n").read = (some (.error ⟨.strayBracket ')', none, none⟩), t) ∧
      t.drain = .ok [.list [.sym "a"] (some 2)] := by
  intro t
  have hread : (ofText ")\n(a)\n").read =
      (some (.error ⟨.strayBracket ')', none, none⟩), t) := by cbv
  have hused : (run [] (ofText ")\n(a)\n")).2 = ofText ")\n(a)\n" := rfl
  obtain ⟨-, -, -, -, hd⟩ := recovers hused (.inr ⟨_, hread⟩)
  exact ⟨hread, (hd _).mpr (by cbv)⟩

end Stream

end Sumi.Form
