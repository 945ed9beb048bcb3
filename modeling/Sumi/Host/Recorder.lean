import Sumi.Code.Render
import Sumi.Host.Basic

namespace Sumi.Host

inductive Call
  | setup
  | evaluate (filename : String) (line : Nat) (source : String)
  | load (provides : List String) (url : String)
  | tearDown
  deriving DecidableEq, Repr

structure Recorder where
  /-- Latest first. -/
  calls : List Call := []
  /-- The answers to evaluations still to come. Behind the last one, all succeed. -/
  outcomes : List Outcome := []
  failSetup : Option String := none
  failEvaluate : Option String := none
  failLoad : Option String := none

namespace Recorder

def note (r : Recorder) (c : Call) : Recorder := { r with calls := c :: r.calls }

def failing (message : Option String) : Except Fault Unit :=
  match message with
  | some message => .error (.host (.failed message))
  | none => .ok ()

end Recorder

def recording : Host Recorder where
  setup r := ⟨Recorder.failing r.failSetup, r.note .setup, ""⟩
  evaluate filename line code r :=
    let r := r.note (.evaluate filename line code.render)
    match r.failEvaluate, r.outcomes with
    | some message, _ => ⟨.error (.host (.failed message)), r, ""⟩
    | none, outcome :: rest => ⟨.ok outcome, { r with outcomes := rest }, ""⟩
    | none, [] => ⟨.ok ⟨.success, "nil", none⟩, r, ""⟩
  load _ provides url r := ⟨Recorder.failing r.failLoad, r.note (.load provides url), ""⟩
  tearDown r := r.note .tearDown

end Sumi.Host
