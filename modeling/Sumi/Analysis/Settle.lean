import Sumi.Analysis.State

namespace Sumi.Node

def takenOver (ns : String) : List Event → List String
  | [] => []
  | .declared other :: events => if other = ns then [] else takenOver ns events
  | .defined other name :: events =>
      if other = ns then name :: takenOver ns events else takenOver ns events

def afterDeclared (ns : String) : List Event → List Event
  | [] => []
  | .declared other :: events => if other = ns then events else afterDeclared ns events
  | .defined _ _ :: events => afterDeclared ns events

mutual

/-- Settles a node against the events since its analysis began, and gives the events behind those
of the node's own declarations. -/
def settle (events : List Event) : Node → Node × List Event
  | .ns line name requires uses =>
      let later := afterDeclared name events
      (.ns line name requires (uses.filter (fun e => !(takenOver name later).contains e.1)), later)
  | .define line space name (some init) =>
      let (init, events) := settle events init
      (.define line space name (some init), events)
  | .fn line name self params rest body =>
      let (body, events) := settleAll events body
      (.fn line name self params rest body, events)
  | .cond line test yes no =>
      let (test, events) := settle events test
      let (yes, events) := settle events yes
      let (no, events) := settle events no
      (.cond line test yes no, events)
  | .block line body =>
      let (body, events) := settleAll events body
      (.block line body, events)
  | .bind line names inits body =>
      let (inits, events) := settleAll events inits
      let (body, events) := settleAll events body
      (.bind line names inits body, events)
  | .assign line space name value =>
      let (value, events) := settle events value
      (.assign line space name value, events)
  | .throw line value =>
      let (value, events) := settle events value
      (.throw line value, events)
  | .call line f args =>
      let (f, events) := settle events f
      let (args, events) := settleAll events args
      (.call line f args, events)
  | .vector line items =>
      let (items, events) := settleAll events items
      (.vector line items, events)
  | .map line keys values =>
      let (keys, events) := settleAll events keys
      let (values, events) := settleAll events values
      (.map line keys values, events)
  | node => (node, events)

def settleAll (events : List Event) : List Node → List Node × List Event
  | [] => ([], events)
  | node :: nodes =>
      let (node, events) := settle events node
      let (nodes, events) := settleAll events nodes
      (node :: nodes, events)

end

end Sumi.Node

namespace Sumi.Analysis

/-- Analyzes, and settles the result against all that happened meanwhile. -/
def settling {α : Type} (settle : List Event → α → α × List Event) (m : Analysis α) :
    Analysis α := do
  let before := (← get).events.length
  let result ← m
  let events := (← get).events
  return (settle (events.take (events.length - before)).reverse result).1

end Sumi.Analysis
