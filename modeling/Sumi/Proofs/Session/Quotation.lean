import Sumi.Proofs.Machine.Constant
import Sumi.Proofs.Session.Shown
import Sumi.Session.Loop

namespace Sumi.Session

open Project Analysis Machine Text.CodePoint

variable {s : Session (Option Engine)} {e : Engine} {f : Form} {line : Option Nat} {c : Code}

def quoted (f : Form) (line : Option Nat) : Form := .list [.sym "quote", f] line

/-- A session in which nothing was typed yet. -/
structure Fresh (s : Session (Option Engine)) : Prop where
  host : s.host = some .fresh
  history : s.history = []
  ns : s.ns = Namespace.user
  quiet : s.verbose = false
  analyzer : ∃ names flags, s.workspace.analyzer = .ofLibrary names flags

theorem Fresh.unaliased (hs : Fresh s) : Unaliased s.ns s.workspace.analyzer := by
  obtain ⟨names, flags, ha⟩ := hs.analyzer
  rw [ha, hs.ns]
  rfl

end Sumi.Session
