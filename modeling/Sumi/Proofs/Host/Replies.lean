import Sumi.Proofs.Machine.Library
import Sumi.Worker

namespace Sumi.Worker

variable {π : Type} {p : Foreign π} {s last : State π} {r : Request} {f : Fault} {o : Outcome}
  {line : Line} {lines : List Line}

def operations : List String := ["evaluate", "load", "ping"]

/-- A request is not answered, but fails the engine itself: the source cannot stand where it is said
to, its value has no text, or what others wrote raised what no program may fail with. -/
inductive Failing (p : Foreign π) (s : State π) (r : Request) : Fault → Prop
  | misplaced {f : Machine.Fault} (op : r.op = "evaluate")
      (site : (Site.mk r.filename r.line).fault? = some f) : Failing p s r (.failure (.fault f))
  | unshown {c : Code} {v : Machine.Value} {m m' : Machine} {f : Machine.Failure}
      (op : r.op = "evaluate") (site : (Site.mk r.filename r.line).fault? = none)
      (source : r.source = .code [c]) (compiles : c.compiles = true)
      (value : (Machine.evaluate c).run s.engine.machine = (.ok v, m))
      (text : (Engine.display v).run m = (.error f, m')) : Failing p s r (.failure f)
  | escaped {text : String} {f : Machine.Failure} (op : r.op = "evaluate")
      (site : (Site.mk r.filename r.line).fault? = none) (source : r.source = .text text)
      (course : (p.evaluate text (s.engine.machine, s.rest)).1 = .escaped f) :
      Failing p s r (.failure f)
  | abandoned {text : String} {f : Machine.Failure} (op : r.op = "load")
      (source : r.source = .text text) (due : s.isDue r.provides r.moduleName text = true)
      (course : (p.execute text (s.engine.machine, s.rest)).1 = .escaped f) :
      Failing p s r (.failure f)

inductive Unanswerable (p : Foreign π) (s : State π) (r : Request) : Fault → Prop
  | failing {f : Fault} (fails : Failing p s r f) : Unanswerable p s r f
  | unwritable {o : Outcome} (answer : (handle p s r).result = .ok o)
      (text : isWritable o = false) : Unanswerable p s r notWritable

inductive Handled (p : Foreign π) : State π → List (Request × Outcome) → State π → Prop
  | done (s : State π) : Handled p s [] s
  | next {s last : State π} {r : Request} {o : Outcome} {rest : List (Request × Outcome)}
      (answer : (handle p s r).result = .ok o) (more : Handled p (handle p s r).state rest last) :
      Handled p s ((r, o) :: rest) last

namespace Line

def known? : Line → Option Request
  | .request r => if r.op ∈ operations then some r else none
  | _ => none

def isBlank : Line → Bool
  | .blank => true
  | _ => false

def isQuit : Line → Bool
  | .request r => r.op == "quit"
  | _ => false

end Line

def asking (lines : List Line) : List Line :=
  (lines.takeWhile (!·.isQuit)).filter (!·.isBlank)

theorem asking_cons (hblank : line.isBlank = false) (hquit : line.isQuit = false)
    (lines : List Line) : asking (line :: lines) = line :: asking lines := by
  simp [asking, hblank, hquit]

def answered? (x : Line × Outcome) : Option (Request × Outcome) :=
  x.1.known?.map fun r => (r, x.2)

/-- How a worker in state `s` dealt with its lines: `answers` are the lines that it answered, each
with its reply, and `last` is the state behind them. -/
structure Served (p : Foreign π) (s : State π) (lines : List Line) (e : Ending π)
    (answers : List (Line × Outcome)) (last : State π) : Prop where
  replies : e.replies = answers.map Prod.snd
  unknown : ∀ x ∈ answers, x.1.known? = none → x.2.status = .exception
  /-- The other answers are those to the known requests alone. -/
  known : Handled p s (answers.filterMap answered?) last
  whole : e.fault = none → asking lines = answers.map Prod.fst ∧ e.state = last
  /-- The replies end before their time only at a request without an answer. -/
  cut : ∀ f, e.fault = some f → ∃ r rest,
    asking lines = answers.map Prod.fst ++ .request r :: rest ∧ Unanswerable p last r f ∧
      e.state = (handle p last r).state

namespace Served

variable {e : Ending π} {answers : List (Line × Outcome)}

theorem blank (h : Served p s lines e answers last) :
    Served p s (.blank :: lines) e answers last :=
  ⟨h.replies, h.unknown, h.known, h.whole, h.cut⟩

/-- A line that is answered, in front of lines that are served from where its answer leads. -/
theorem answered {t : State π} (h : Served p t lines e answers last) (hblank : line.isBlank = false)
    (hquit : line.isQuit = false) (hunknown : line.known? = none → o.status = .exception)
    (hknown : Handled p s (((line, o) :: answers).filterMap answered?) last) (printed : String) :
    Served p s (line :: lines) (e.after o printed) ((line, o) :: answers) last where
  replies := congrArg (o :: ·) h.replies
  unknown x hx := by
    rcases List.mem_cons.mp hx with rfl | hx
    · exact hunknown
    · exact h.unknown x hx
  known := hknown
  whole hf := by
    rw [asking_cons hblank hquit, (h.whole hf).1]
    exact ⟨rfl, (h.whole hf).2⟩
  cut f hf := by
    obtain ⟨r, rest, ha, hr⟩ := h.cut f hf
    exact ⟨r, rest, by rw [asking_cons hblank hquit, ha]; rfl, hr⟩

theorem refused (h : Served p s lines e answers last) (hline : line.known? = none)
    (ho : o.status = .exception) (hblank : line.isBlank = false) (hquit : line.isQuit = false)
    (printed : String) :
    Served p s (line :: lines) (e.after o printed) ((line, o) :: answers) last := by
  apply h.answered hblank hquit fun _ => ho
  rw [List.filterMap_cons_none (by simp [answered?, hline])]
  exact h.known

end Served

/-- A keyword that has a vector for its name has no text. -/
def unshown : Code := .call (.var Namespace.core "keyword") [.vector []]

end Sumi.Worker
