import Sumi.Session.Command

namespace Sumi.Session

open Project

variable {σ : Type}

def quit : Form := .keyword (.qualified "sumi" "quit")

def isQuit : Form → Bool
  | .keyword n => n == .qualified "sumi" "quit"
  | _ => false

/-- Deals with one form. It fails if the answer cannot be shown. -/
def dispatch (h : Host σ) (cs : Commands) (form : Form) (s : Session σ) : Ending × Session σ :=
  match command? cs form with
  | some (handler, args) =>
      match run h handler args s with
      | (.done, s) => (.done, s.tell (·.say ""))
      | (.failed f, s) => (.done, s.tell (fun c => (c.complain f.brief).say ""))
      | (.interrupted, s) => (.interrupted, s.tell (·.say "\nInterrupted"))
  | none =>
      let (text, s) := evaluateAndKeep h form s
      match s.output Console.say text with
      | (.ok (), s) => (.done, s)
      | (.error f, s) => (.failed f, s)

inductive Round (σ : Type)
  | ends (result : Except Fault Unit) (s : Session σ)
  | next (rest : Form.Stream) (s : Session σ)

/-- Prompts for a form and deals with it. An interruption drops what was read ahead. -/
def round (h : Host σ) (cs : Commands) (stream : Form.Stream) (s : Session σ) : Round σ :=
  match s.output Console.print s.prompt with
  | (.error f, s) => .ends (.error f) s
  | (.ok (), s) =>
      match stream.next? with
      | none => .ends (.ok ()) s
      | some (.error e, rest) =>
          match s.output Console.say e.text with
          | (.error f, s) => .ends (.error f) s
          | (.ok (), s) => .next rest s
      | some (.ok form, rest) =>
          if isQuit form then .ends (.ok ()) s
          else
            match dispatch h cs form s with
            | (.done, s) => .next rest s
            | (.interrupted, s) => .next rest.reset s
            | (.failed f, s) => .ends (.error f) s

theorem round_shorter {h : Host σ} {cs : Commands} {stream rest : Form.Stream} {s t : Session σ}
    (hr : round h cs stream s = .next rest t) : rest.Shorter stream := by
  unfold round at hr
  split at hr
  · cases hr
  · split at hr
    · cases hr
    · next hn =>
      split at hr <;> cases hr
      exact Form.Stream.next?_shorter hn
    · next hn =>
      split at hr
      · cases hr
      · split at hr <;> cases hr
        · exact Form.Stream.next?_shorter hn
        · exact (Form.Stream.next?_shorter hn).reset

def loop (h : Host σ) (cs : Commands) (stream : Form.Stream) (s : Session σ) :
    Except Fault Unit × Session σ :=
  match _hr : round h cs stream s with
  | .ends result s => (result, s)
  | .next rest s => loop h cs rest s
termination_by (stream.weight, stream.pending.length)
decreasing_by exact (round_shorter _hr).lex

def begin (h : Host σ) (analyzePath : Option String) : Action σ Unit := do
  Action.ask h.setup
  match analyzePath with
  | some path => if !path.isEmpty then Action.work (analyzeSources path)
  | none => return

/-- Runs a session over its input. The host is torn down however it ends. -/
def repl (h : Host σ) (options : Options) (others : Commands) (input : String) (s : Session σ) :
    Except Fault Unit × Session σ :=
  let s := s.tell (fun c => { c with verbose := options.verbose }.say
    ("Type: " ++ quit.print ++ " to quit"))
  let (result, s) :=
    match (begin h options.analyzePath).run s with
    | (.ok (), s) => loop h (commands others) (.ofText input) s
    | (.error f, s) => (.error f, s)
  (result, { s with host := h.tearDown s.host })

end Sumi.Session
