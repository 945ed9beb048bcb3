import Sumi.Host.Kind
import Sumi.Form.Numeral

namespace Sumi.CommandLine

/-- An option: the names it goes by, whether it takes a value, and which values, if not all. -/
structure Flag where
  short : Option String := none
  long : String
  takesValue : Bool := false
  choices : List String := []

inductive Refusal
  /-- They ask what arguments there are. -/
  | help
  | senseless
  deriving DecidableEq, Repr

structure Parsed where
  flags : List (String × String) := []
  rest : List String := []

def Parsed.value? (p : Parsed) (long : String) : Option String :=
  (p.flags.reverse.find? (·.1 == long)).map Prod.snd

def Parsed.has (p : Parsed) (long : String) : Bool := (p.value? long).isSome

def isNumeric (cs : List Char) : Bool :=
  let cs := if cs.getLast? == some '\n' then cs.dropLast else cs
  let whole := cs.dropWhile Text.Digit.isDecimal
  (!cs.isEmpty && whole.isEmpty) ||
    match whole with
    | '.' :: part => !part.isEmpty && part.all Text.Digit.isDecimal
    | _ => false

def named (known : List Flag) (s : String) : List (Flag × Option String) :=
  let (name, value) := match s.toList.span (· != '=') with
    | (name, _ :: value) => (String.ofList name, some (String.ofList value))
    | (_, []) => (s, none)
  let goesBy (name : String) (f : Flag) : Bool := f.long == name || f.short == some name
  match known.find? (goesBy s), known.find? (goesBy name) with
  | some f, _ => [(f, none)]
  | none, some f => [(f, value)]
  | none, none =>
      if "--".toList.isPrefixOf s.toList then
        (known.filter (fun f => name.toList.isPrefixOf f.long.toList)).map (fun f => (f, value))
      else
        (known.filter (fun f => f.short == some (String.ofList (s.toList.take 2)))).map
          (fun f => (f, some (String.ofList (s.toList.drop 2))))

/-- An argument by itself: a value, or an option, which may be an unknown one. -/
inductive Word
  | value
  | option (flag : Flag) (joined : Option String)
  | ambiguous
  | unknown

def word (known : List Flag) (s : String) : Word :=
  match s.toList with
  | '-' :: c :: cs =>
      match named known s with
      | [(f, joined)] => .option f joined
      | [] => if isNumeric (c :: cs) || (c :: cs).contains ' ' then .value else .unknown
      | _ => .ambiguous
  | _ => .value

def isValue (known : List Flag) (s : String) : Bool :=
  match word known s with
  | .value => true
  | _ => false

/-- Whether an argument in front of two dashes may name more than one option, wherever it stands. -/
def isAmbiguous (known : List Flag) (args : List String) : Bool :=
  (args.takeWhile (· != "--")).any fun s =>
    match word known s with
    | .ambiguous => true
    | _ => false

def valueOf (known : List Flag) (f : Flag) (joined : Option String) (rest : List String) :
    Option (String × List String) :=
  match f.takesValue, joined, rest with
  | true, some value, rest => some (value, rest)
  | true, none, value :: rest => if isValue known value then some (value, rest) else none
  | true, none, [] => none
  | false, some _, _ => none
  | false, none, rest => some ("", rest)

theorem length_valueOf {known : List Flag} {f : Flag} {joined : Option String}
    {rest more : List String} {value : String}
    (h : valueOf known f joined rest = some (value, more)) : more.length ≤ rest.length := by
  unfold valueOf at h
  split at h
  · simp_all
  · split at h
    · simp only [Option.some.injEq, Prod.mk.injEq] at h
      simp [← h.2]
    · cases h
  · cases h
  · cases h
  · simp_all

def helpFlag : Flag := { short := some "-h", long := "--help" }

def option (known : List Flag) (f : Flag) (joined : Option String) (rest : List String) :
    Except Refusal ((String × String) × { more : List String // more.length ≤ rest.length }) :=
  match h : valueOf known f joined rest with
  | none => .error .senseless
  | some (value, more) =>
      if f.long = helpFlag.long then .error .help
      else if f.choices.isEmpty || f.choices.contains value then
        .ok ((f.long, value), ⟨more, length_valueOf h⟩)
      else .error .senseless

def sortFrom (known : List Flag) : List String → Except Refusal Parsed
  | [] => .ok {}
  | s :: rest =>
      if s = "--" then
        if rest.isEmpty then .error .senseless else .ok { rest := rest }
      else
        match word known s with
        | .value =>
            (if rest = ["--"] then .ok {} else sortFrom known rest).map
              fun p => { p with rest := s :: p.rest }
        | .ambiguous | .unknown => .error .senseless
        | .option f joined => do
            let (flag, more) ← option known f joined rest
            (sortFrom known more.val).map fun p => { p with flags := flag :: p.flags }
termination_by args => args.length
decreasing_by
  · simp
  · have := more.property
    simp only [List.length_cons]
    omega

def sort (known : List Flag) (args : List String) : Except Refusal Parsed :=
  if isAmbiguous known args then .error .senseless else sortFrom known args

def leading (known : List Flag) : List String → Except Refusal (Parsed × List String)
  | [] => .ok ({}, [])
  | s :: rest =>
      match word known s with
      | .value => .ok ({}, s :: rest)
      | .ambiguous | .unknown => .error .senseless
      | .option f joined => do
          let (flag, more) ← option known f joined rest
          (leading known more.val).map fun (p, more) =>
            ({ p with flags := flag :: p.flags }, more)
termination_by args => args.length
decreasing_by
  have := more.property
  simp only [List.length_cons]
  omega

inductive Command
  | repl (host url analyzePath : Option String) (warnOnUndeclared : Bool)
  | run (file : String) (args : List String)
  | compile (file : String) (output : Option String)
  | serve (bind : String) (port : Int)
  | init
  deriving DecidableEq, Repr

structure Invocation where
  verbose : Bool
  config : Option String
  command : Command
  deriving DecidableEq, Repr

def globalFlags : List Flag :=
  [helpFlag, { long := "--verbose" }, { long := "--config", takesValue := true }]

def replFlags : List Flag :=
  [helpFlag, { long := "--host", takesValue := true, choices := Host.Kind.names },
   { long := "--url", takesValue := true }, { long := "--analyze-path", takesValue := true },
   { long := "--warn-on-undeclared" }]

def compileFlags : List Flag :=
  [helpFlag, { short := some "-o", long := "--output", takesValue := true }]

def serveFlags : List Flag :=
  [helpFlag, { long := "--bind", takesValue := true }, { long := "--port", takesValue := true }]

def port? (s : String) : Option Int :=
  ((Form.Numeral.read? s.toList).filter fun n => n.isWhole && !n.isTooLong).map Form.Numeral.toInt

/-- The command of the arguments from its name on. What stands behind the file of a program that is
to run is for the program, two dashes right behind the file apart. -/
def command : List String → Except Refusal Command
  | [] => .error .help
  | "repl" :: args => do
      let p ← sort replFlags args
      if p.rest.isEmpty then
        return .repl (p.value? "--host") (p.value? "--url") (p.value? "--analyze-path")
          (p.has "--warn-on-undeclared")
      else throw .senseless
  | "run" :: "--" :: file :: args => .ok (.run file args)
  | "run" :: args => do
      match args with
      | file :: args =>
          if isValue [helpFlag] file then
            match args with
            | "--" :: args => return .run file args
            | args => return .run file args
          else
            let _ ← sort [helpFlag] [file]
            throw .senseless
      | [] => throw .senseless
  | "compile" :: args => do
      let p ← sort compileFlags args
      match p.rest with
      | [file] => return .compile file (p.value? "--output")
      | _ => throw .senseless
  | "serve" :: args => do
      let p ← sort serveFlags args
      match p.rest, (p.value? "--port").elim (some 9630) port? with
      | [], some port => return .serve ((p.value? "--bind").getD "127.0.0.1") port
      | _, _ => throw .senseless
  | "init" :: args => do
      let p ← sort [helpFlag] args
      if p.rest.isEmpty then return .init else throw .senseless
  | _ => .error .senseless

def parse (args : List String) : Except Refusal Invocation := do
  if isAmbiguous globalFlags args then throw .senseless
  let (p, rest) ← leading globalFlags args
  let command ← command rest
  return ⟨p.has "--verbose", p.value? "--config", command⟩

def usage : String :=
  "usage: sumi [--verbose] [--config FILE] COMMAND\n\n" ++
  "commands:\n" ++
  "  repl [--host HOST] [--url URL] [--analyze-path PATH] [--warn-on-undeclared]\n" ++
  "  run FILE [ARGUMENT ...]\n" ++
  "  compile FILE [--output FILE]\n" ++
  "  serve [--bind HOST] [--port PORT]\n" ++
  "  init\n"

end Sumi.CommandLine
