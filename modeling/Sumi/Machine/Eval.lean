import Sumi.Machine.Library

namespace Sumi.Machine

open Library Text.Compatibility

def bindParams : List String → Option String → List Value → Option Locals
  | [], none, [] => some []
  | [], none, _ :: _ => none
  | [], some rest, args => some [(normalize rest, .row args)]
  | _ :: _, _, [] => none
  | p :: ps, rest, arg :: args => (bindParams ps rest args).map ((normalize p, arg) :: ·)

/-- How many entries of a literal map are put into it one by one: as many as make up rows of
seventeen, and with them a rest of sixteen. -/
def steady (size : Nat) : Nat := if size % 17 = 16 then size else size - size % 17

def specialFloat (text : String) : Float :=
  if text = "nan" then Decimal.Binary.nan
  else if text = "-inf" then -Decimal.Binary.infinity
  else Decimal.Binary.infinity

/-- Calls what the generated code calls by a name of its own: what a local of this name holds, if
there is one. -/
def assist (call : Call) (env : Locals) (helper : String) (args : List Value)
    (own : Run Value) : Run Value :=
  match env.lookup helper with
  | some f => call f args
  | none => own

def holds (call : Call) (env : Locals) (v : Value) : Run Bool :=
  match env.lookup "sumi_truthy" with
  | some f => do return ((← get).settled (← call f [v])).isSolid
  | none => return v.isTruthy

mutual

def eval (call : Call) (env : Locals) : Code → Run Value
  | .nil => return .nil
  | .bool b => return .bool b
  | .int n => return .int n
  | .float x => return .float x
  | .special text => assist call env "float" [.str text] (return .float (specialFloat text))
  | .str s => return .str s
  | .keyword n =>
      let (ns, name) := Value.ofName n
      assist call env "sumi_keyword" [ns, name] (return .keyword ns name)
  | .symbol n =>
      let (ns, name) := Value.ofName n
      assist call env "sumi_symbol" [ns, name] (return .symbol ns name)
  | .list items => do
      let values ← evalAll call env items
      assist call env "sumi_list" values (Run.list values)
  | .vector items => do return .vector (← evalAll call env items)
  | .map entries => evalMap call env (steady entries.length) [] [] entries
  | .bound s => (env.lookup (normalize s)).elim (Run.fault .noName) pure
  | .var ns attr => do
      Run.attributeOf attr (← assist call env "sumi_ns" [.str ns] (return .namespace (.named ns)))
  | .define ns name value => do
      let value ← eval call env value
      assist call env "sumi_def" [.str ns, .str name, value]
        (Run.define (.str ns) (.str name) value)
  | .assign ns name value => do
      let value ← eval call env value
      assist call env "sumi_set" [.str ns, .str name, value]
        (Run.assign (.str ns) (.str name) value)
  | .provide ns requires =>
      let names := .vector (requires.map .str)
      assist call env "sumi_provide" [.str ns, names] (Run.provide (.str ns) names)
  | .throw value => do
      let value ← eval call env value
      assist call env "sumi_throw" [value] (Run.throwValue value)
  | .lambda params rest body => make (.lambda params rest body env)
  | .recursive label self params rest body =>
      match env.lookup "sumi_named_fn" with
      | some f => do call f [.str label, ← make (.lambda [self] none (.lambda params rest body) env)]
      | none => make (.recursive label self params rest body env)
  | .bind name init body => do
      let value ← eval call env init
      eval call ((normalize name, value) :: env) body
  | .call f args => do
      let f ← eval call env f
      let args ← evalAll call env args
      call f args
  | .cond test yes no => do
      if ← holds call env (← eval call env test) then eval call env yes else eval call env no
  | .last items => do return (← evalAll call env items).getLast?.getD .nil

def evalAll (call : Call) (env : Locals) : List Code → Run (List Value)
  | [] => return []
  | c :: cs => do
      let value ← eval call env c
      let values ← evalAll call env cs
      return value :: values

/-- A map in the making: so many entries are put into it as soon as they are evaluated, the others
wait until all are. -/
def evalMap (call : Call) (env : Locals) (soon : Nat) (made waiting : List (Value × Value)) :
    List (Code × Code) → Run Value
  | [] => do return .map (← putAll made waiting.reverse)
  | (k, v) :: es => do
      let key ← eval call env k
      let value ← eval call env v
      match soon with
      | 0 => evalMap call env 0 made ((key, value) :: waiting) es
      | soon + 1 => evalMap call env soon (← putAll made [(key, value)]) waiting es

end

def keywordCall (key : Value) : List Value → Run Value
  | [.map entries] => lookUp (.map entries) key .nil
  | [.map entries, default] => lookUp (.map entries) key default
  | [_] => return .nil
  | [_, default] => return default
  | _ => Run.fault .wrongType

def apply : Nat → Call
  | 0, _, _ => Run.fault .tooDeep
  | depth + 1, f, args =>
      match f with
      | .builtin op => do
          run (apply depth) op ((reach op).settle (← get) args)
      | .keyword ns name => do keywordCall (.keyword ns name) (args.map (← get).settled)
      | .kind => makeNamespace args
      | .method place op => ofNamespace place op args
      | .fn id rule =>
          match rule with
          | .lambda params rest body env =>
              match bindParams params rest args with
              | some locals => eval (apply depth) (locals ++ env) body
              | none => Run.fault .wrongType
          | .recursive _ self params rest body env =>
              match bindParams params rest args with
              | some locals => eval (apply depth) (locals ++ (normalize self, f) :: env) body
              | none => Run.fault .wrongType
          | .bound g first => apply depth g (first ++ args)
          | .composed fs =>
              match fs.reverse with
              | [] => Run.fault .wrongType
              | g :: gs => do
                  let value ← apply depth g args
                  gs.foldlM (fun value g => apply depth g [value]) value
          | .constant value => return value
          | .forward => do
              match (← get).forwards.get? id with
              | some g => apply depth g args
              | none => Run.fault .noName
      | _ => Run.fault .wrongType

def evaluate (c : Code) : Run Value := eval (apply depth) [] c

def execute : List Code → Run Unit
  | [] => return ()
  | c :: cs => do
      let _ ← evaluate c
      execute cs

end Sumi.Machine
