import Sumi.Host.Recorder
import Sumi.Proofs.Form.Recovery
import Sumi.Proofs.Session.Quotation
import Sumi.Proofs.Session.Tandem

namespace Sumi

open Project Text.CodePoint

variable {σ : Type}

namespace Host

def Call.isWork : Call → Bool
  | .evaluate _ _ _ | .load _ _ => true
  | .setup | .tearDown => false

def Worked (calls : List Call) (x : σ) (y : σ × List Call) : Prop :=
  ∃ work, y = (x, calls ++ work) ∧ ∀ c ∈ work, c.isWork = true

theorem Worked.more {calls : List Call} {x : σ} {y : σ × List Call} (h : Worked calls x y)
    (x' : σ) {c : Call} (hc : c.isWork = true) : Worked calls x' (x', y.2 ++ [c]) := by
  obtain ⟨work, rfl, hwork⟩ := h
  refine ⟨work ++ [c], by rw [List.append_assoc], ?_⟩
  exact List.forall_mem_append.mpr ⟨hwork, List.forall_mem_singleton.mpr hc⟩

theorem Worked.state {calls : List Call} {x : σ} {y : σ × List Call} (h : Worked calls x y) :
    y.1 = x := by
  obtain ⟨work, rfl, -⟩ := h
  rfl

end Host

open Host

namespace Session

def announced (options : Options) (s : Session σ) : Session σ :=
  s.tell (fun c => { c with verbose := options.verbose }.say ("Type: " ++ quit.print ++ " to quit"))

def opened (h : Host σ) (options : Options) (s : Session σ) : Session σ :=
  ((begin h options.analyzePath).run.run (announced options s)).2

end Session

end Sumi
