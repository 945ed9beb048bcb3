import Sumi.Analysis.State
import Sumi.Text.Literal

namespace Sumi

structure Console where
  out : String := ""
  err : String := ""
  /-- Whether to show the course of events. -/
  verbose : Bool := false
  deriving DecidableEq, Repr

namespace Console

def print (c : Console) (s : String) : Console := { c with out := c.out ++ s }

def say (c : Console) (s : String) : Console := c.print (s ++ "\n")

def complain (c : Console) (s : String) : Console :=
  { c with err := c.err ++ Text.Literal.spellHalves s ++ "\n" }

def log (c : Console) (s : String) : Console :=
  c.complain ("\x1b[92m\x1b[1mINFO:\x1b[0m " ++ s)

def warn (c : Console) (w : Warning) : Console :=
  c.complain ("\x1b[93mWARNING:\x1b[0m " ++ w.message)

def debug (c : Console) (s : String) : Console :=
  if c.verbose then c.complain ("\x1b[94mDEBUG:\x1b[0m " ++ s) else c

end Console

end Sumi
