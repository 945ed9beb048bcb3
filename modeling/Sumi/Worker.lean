import Sumi.Check
import Sumi.Host.Engine

namespace Sumi.Worker

open Text.CodePoint

/-- What a worker is sent to run: generated code, or a text that others wrote. -/
inductive Source
  | code (cs : List Code)
  | text (s : String)

structure Request where
  op : String
  filename : String := "<sumi repl>"
  line : Int := 1
  source : Source := .text ""
  provides : List String := []
  url : Option String := none

inductive Line
  | blank
  | malformed
  | request (r : Request)

open Check in
/-- The request of an object. All fields but the operation may be missing. This and the reading of a
line stand for the library that the worker leaves them to; nothing is proved of them. -/
def Request.ofMembers (members : List (String × Json)) : Checked Request :=
  let request := Except.ok Request.mk
  let request := both request (field members "op" (broken .missing) string)
  let request := both request (field members "filename" (.ok "<sumi repl>") string)
  let request := both request (field members "line" (.ok 1) int)
  let request := both request
    (field members "source" (.ok (.text "")) (fun j => (string j).map .text))
  let request := both request (field members "provides" (.ok []) (list string))
  both request (field members "url" (.ok none) (optional string))

namespace Line

def ofJson (j : Json) : Line :=
  match j with
  | .obj members =>
      match Request.ofMembers members with
      | .ok r => .request r
      | .error _ => .malformed
  | _ => .malformed

def depth : Nat := 200

def ofText (s : String) : Line :=
  if s.toList.all Text.Blank.isBlank then .blank
  else ((Json.read? s).filter fun j => j.nesting ≤ depth && j.isEncodable).elim .malformed ofJson

def withSource (source : Source) : Line → Line
  | .request r => .request { r with source := source }
  | line => line

end Line

/-- What comes of a text that others wrote. -/
inductive Course (α : Type)
  /-- It is not in the language of the generated code. -/
  | refused
  | done (a : α)
  | raised (f : Machine.Failure)
  /-- What was raised is none of what a program may fail with, such as a request to exit, or it was
  raised where the value was to be shown. -/
  | escaped (f : Machine.Failure)

/-- How texts run that others wrote: an expression comes to the text that its value is shown as.
What they leave behind is in the machine or, as far as it is none of ours, in `π`. -/
structure Foreign (π : Type) where
  evaluate : String → Machine × π → Course String × Machine × π
  execute : String → Machine × π → Course Unit × Machine × π

def Foreign.none {π : Type} : Foreign π where
  evaluate _ x := (.refused, x)
  execute _ x := (.refused, x)

structure State (π : Type) where
  engine : Engine
  rest : π

variable {π : Type}

namespace State

def fresh : State Unit := ⟨.fresh, ()⟩

def aside (s : State π) : State π :=
  { s with engine := { s.engine with machine := { s.engine.machine with lenient := true } } }

def lift (rest : π) (r : Reply Engine Outcome) : Reply (State π) Outcome :=
  ⟨r.result, ⟨r.state, rest⟩, r.printed⟩

def leave (s : State π) (result : Except Fault Outcome) (m : Machine) (rest : π) :
    Reply (State π) Outcome :=
  let (m, printed) := Engine.drain m
  ⟨result, ⟨{ s.engine with machine := m }, rest⟩, printed⟩

def evaluateText (p : Foreign π) (s : State π) (site : Site) (text : String) :
    Reply (State π) Outcome :=
  match site.fault? with
  | some f => ⟨.error (.failure (.fault f)), s, ""⟩
  | none =>
      match p.evaluate text (s.engine.machine, s.rest) with
      | (.refused, _) => ⟨.ok (Engine.refuse text), s, ""⟩
      | (.done t, m, rest) => s.leave (.ok ⟨.success, t, none⟩) m rest
      | (.raised f, m, rest) => s.leave (.ok (Engine.classify f)) m rest
      | (.escaped f, m, rest) => s.leave (.error (.failure f)) m rest

def isDue (s : State π) (provides : List String) (filename text : String) : Bool :=
  !s.engine.has provides && Site.isNamed { filename := filename } &&
    !Project.Content.isEmptyProgram text.toList

def loadText (p : Foreign π) (s : State π) (provides : List String) (filename text : String) :
    Reply (State π) Outcome :=
  if s.isDue provides filename text then
    match p.execute text (s.engine.machine, s.rest) with
    | (.refused, _) => lift s.rest (s.engine.load provides filename none)
    | (.done (), m, rest) => lift rest (s.engine.finish provides (.ok (), m))
    | (.raised f, m, rest) => lift rest (s.engine.finish provides (.error f, m))
    | (.escaped f, m, rest) => s.leave (.error (.failure f)) m rest
  else lift s.rest (s.engine.load provides filename (some []))

def evaluate (p : Foreign π) (s : State π) (site : Site) : Source → Reply (State π) Outcome
  | .code cs => lift s.rest (s.engine.evaluate site cs)
  | .text text => s.evaluateText p site text

def program? (cs : List Code) : Option (List Code) := if Code.compileAll cs then some cs else none

def load (p : Foreign π) (s : State π) (provides : List String) (filename : String) :
    Source → Reply (State π) Outcome
  | .code cs => lift s.rest (s.engine.load provides filename (program? cs))
  | .text text => s.loadText p provides filename text

end State

def Request.moduleName (r : Request) : String :=
  match r.url with
  | none | some "" => r.filename
  | some url => url

def handle (p : Foreign π) (s : State π) (r : Request) : Reply (State π) Outcome :=
  if r.op = "evaluate" then s.evaluate p ⟨r.filename, r.line⟩ r.source
  else if r.op = "load" then s.load p r.provides r.moduleName r.source
  else if r.op = "ping" then ⟨.ok ⟨.success, "pong", none⟩, s, ""⟩
  else ⟨.ok ⟨.exception, "Unknown request: " ++ r.op, none⟩, s, ""⟩

def isWritable (o : Outcome) : Bool := isEncodable o.value && o.stacktrace.all isEncodable

def notWritable : Fault := .failure (.fault (.other "PydanticSerializationError"))

/-- How a worker ended: its replies, the text that programs printed, and what stopped it, if that
was not the end of its input. -/
structure Ending (π : Type) where
  replies : List Outcome := []
  printed : String := ""
  fault : Option Fault := none
  state : State π

def Ending.after (outcome : Outcome) (printed : String) (e : Ending π) : Ending π :=
  { e with replies := outcome :: e.replies, printed := printed ++ e.printed }

def answer (p : Foreign π) (s : State π) : List Line → Ending π
  | [] => { state := s }
  | .blank :: lines => answer p s lines
  | .malformed :: lines =>
      (answer p s lines).after ⟨.exception, "Malformed request", none⟩ ""
  | .request r :: lines =>
      if r.op = "quit" then { state := s }
      else
        let reply := handle p s r
        match reply.result with
        | .ok outcome =>
            if isWritable outcome then (answer p reply.state lines).after outcome reply.printed
            else { state := reply.state, printed := reply.printed, fault := some notWritable }
        | .error f => { state := reply.state, printed := reply.printed, fault := some f }

def serve (s : State π) (lines : List Line) (p : Foreign π := .none) : Ending π :=
  answer p s.aside lines

end Sumi.Worker
