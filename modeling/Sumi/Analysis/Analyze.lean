import Sumi.Analysis.Declaration
import Sumi.Analysis.Definition
import Sumi.Analysis.Parameters
import Sumi.Analysis.Settle

namespace Sumi.Analysis

inductive Special
  | define
  | defineFn
  | fn
  | cond
  | block
  | bind
  | quote
  | assign
  | throw
  | ns
  deriving DecidableEq, Repr

def Special.ofName? : String → Option Special
  | "def" => some .define
  | "defn" => some .defineFn
  | "fn" => some .fn
  | "if" => some .cond
  | "do" => some .block
  | "let" => some .bind
  | "quote" => some .quote
  | "set!" => some .assign
  | "throw" => some .throw
  | "ns" => some .ns
  | _ => none

def special? (env : Env) : Form → Option Special
  | .symbol ⟨none, name⟩ => if (env.local? name).isSome then none else Special.ofName? name
  | _ => none

def checkArity (env : Env) (f : Node) (count : Nat) : Analysis Unit :=
  modify fun a =>
    match f with
    | .var _ ns name =>
        let arity := ((a.namespaces.get? ns).bind (·.defs.get? name)).bind (·.arity)
        if a.flags.arity && arity.any (fun arity => !arity.accepts count) then
          a.warn (.argumentCount count ns name env.line)
        else a
    | _ => a

/-- What stands before the parameters of a function: nothing yet, its name, or the name it is
defined by, behind which a text may describe it. -/
inductive Heading
  | bare
  | named (self : String)
  | defined (self : String)
  deriving DecidableEq, Repr

def Heading.self? : Heading → Option String
  | .bare => none
  | .named self | .defined self => some self

/-- The value of a function definition: the function, or, where `fn` is a local, the call of that
local with what would have been the parts of the function. -/
def function (env : Env) (sym : Name) (fn : Analysis Node) (parts : Analysis (List Node)) :
    Analysis Node :=
  match env.local? "fn" with
  | none => fn
  | some f => do
      let self ← symbol env sym
      let parts ← parts
      return .call env.line (.bound env.line f) (self :: parts)

def quotation (env : Env) : List Form → Analysis Node
  | [form] => return .const env.line form
  | _ => fail env .quoteCount

mutual

def analyze (env : Env) : Form → Analysis Node
  | .symbol n => symbol env n
  | .list items line => analyzeList (env.within line) line items
  | .vector items line => do
      let items ← analyzeAll (env.within line) items
      return .vector (env.within line).line items
  | .map items line => do
      let keys ← analyzeEvery true (env.within line) items
      let values ← analyzeEvery false (env.within line) items
      return .map (env.within line).line keys values
  | form => return .const env.line form

def analyzeAll (env : Env) : List Form → Analysis (List Node)
  | [] => return []
  | form :: forms => do
      let node ← analyze env form
      let nodes ← analyzeAll env forms
      return node :: nodes

def analyzeEvery (first : Bool) (env : Env) : List Form → Analysis (List Node)
  | [] => return []
  | form :: forms => do
      if first then
        let node ← analyze env form
        let nodes ← analyzeEvery false env forms
        return node :: nodes
      else analyzeEvery true env forms

def analyzeList (env : Env) (line : Option Nat) : List Form → Analysis Node
  | [] => return .const env.line (.list [] line)
  | head :: args =>
      match special? env head with
      | some .define => analyzeDef env args
      | some .defineFn => analyzeDefn env args
      | some .fn => analyzeFn env .bare args
      | some .cond => analyzeIf env args
      | some .block => do
          let body ← analyzeAll env args
          return .block env.line body
      | some .bind => analyzeLet env args
      | some .quote => quotation env args
      | some .assign => analyzeSet env args
      | some .throw => analyzeThrow env args
      | some .ns => declaration env args
      | none => do
          let f ← analyze env head
          let args ← analyzeAll env args
          checkArity env f args.length
          return .call env.line f args

def analyzeDef (env : Env) : List Form → Analysis Node
  | [.symbol sym] => definition env sym none
  | [.symbol sym, init] => definition env sym (some (analyze env init))
  | [_] | [_, _] => fail env .defTarget
  | args => fail env (.defCount args.length)

def analyzeDefn (env : Env) : List Form → Analysis Node
  | .symbol sym :: rest =>
      if rest.isEmpty then fail env .defnShape
      else
        definition env sym
          (some (function env sym (analyzeFn env (.defined sym.name) rest) (analyzeParts env rest)))
  | _ => fail env .defnShape

def analyzeParts (env : Env) : List Form → Analysis (List Node)
  | [] => return []
  | .str _ :: forms => analyzeAll env forms
  | form :: forms => do
      let node ← analyze env form
      let nodes ← analyzeAll env forms
      return node :: nodes

/-- A function from its parameters and body. A name or a description may stand before them, as far
as `before` admits one. -/
def analyzeFn (env : Env) (before : Heading) : List Form → Analysis Node
  | .vector params _ :: body => do
      let self := before.self?
      let ps ← parameters env params
      let body ← analyzeAll (bodyEnv env self ps) body
      return .fn env.line self ((self.filter (!·.isEmpty)).map Code.mungeLocal)
        (ps.fixed.map Code.mungeLocal) (ps.rest.map Code.mungeLocal) body
  | .symbol n :: rest =>
      match before with
      | .bare => analyzeFn env (.named n.name) rest
      | _ => fail env .fnParameters
  | .str _ :: rest =>
      match before with
      | .defined self => analyzeFn env (.named self) rest
      | _ => fail env .fnParameters
  | .list _ _ :: _ => fail env .fnManyArities
  | _ => fail env .fnParameters

def analyzeIf (env : Env) : List Form → Analysis Node
  | [test, yes] => do
      let test ← analyze env test
      let yes ← analyze env yes
      return .cond env.line test yes (.const env.line .nil)
  | [test, yes, no] => do
      let test ← analyze env test
      let yes ← analyze env yes
      let no ← analyze env no
      return .cond env.line test yes no
  | [] | [_] => fail env .ifFew
  | _ => fail env .ifMany

def analyzeLet (env : Env) : List Form → Analysis Node
  | .vector bindings _ :: body => do
      if bindings.length % 2 ≠ 0 then fail env .letOdd
      let (inner, names, inits) ← analyzeBindings env bindings
      let body ← analyzeAll inner body
      return .bind env.line names inits body
  | _ => fail env .letVector

def analyzeBindings (env : Env) : List Form → Analysis (Env × List String × List Node)
  | .symbol ⟨none, name⟩ :: init :: rest => do
      let init ← analyze env init
      let (inner, names, inits) ← analyzeBindings (env.bind name) rest
      return (inner, Code.mungeLocal name :: names, init :: inits)
  | form :: _ :: _ => fail env (.letName form)
  | _ => return (env, [], [])

def analyzeSet (env : Env) : List Form → Analysis Node
  | [.symbol sym, value] =>
      match localOf? env sym with
      | some _ => fail env (.setBound sym)
      | none => do
          let (ns, name) ← resolveVar env sym
          let value ← analyze env value
          return .assign env.line ns name value
  | _ => fail env .setShape

def analyzeThrow (env : Env) : List Form → Analysis Node
  | [form] => do
      let value ← analyze env form
      return .throw env.line value
  | _ => fail env .throwCount

end

/-- Analyzes a form at the top of a text in namespace `ns`. -/
def topLevel (ns : String) (form : Form) : Analysis Node := do
  modify (·.enter ns)
  settling Node.settle (analyze { ns := ns } form)

end Sumi.Analysis
