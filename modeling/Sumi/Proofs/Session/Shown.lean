import Sumi.Proofs.Machine.Texts
import Sumi.Proofs.Session.Lockstep

namespace Sumi.Session

open Project Machine Form Text.CodePoint

variable {σ : Type} {h : Host σ} {form f : Form} {fs : List Form} {s s' : Session σ} {text : String}

def named : Value :=
  .vector [.keyword .nil (.str "a"), .symbol (.str "b") (.str "c")]

end Sumi.Session
