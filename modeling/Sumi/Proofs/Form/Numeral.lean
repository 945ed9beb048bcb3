import Mathlib.Algebra.Order.Ring.Nat
import Sumi.Form.Reader

namespace Sumi

theorem Text.Digit.bound_eq : Text.Digit.bound = 10 ^ Text.Digit.limit := by
  have hlimit : Text.Digit.limit = 100 * 43 := rfl
  rw [hlimit, pow_mul, Text.Digit.bound, Nat.pow_eq, Nat.pow_eq]

theorem Text.Digit.value?_lt {c : Char} {d : Nat} (h : Text.Digit.value? c = some d) : d < 10 := by
  unfold value? at h
  dsimp only at h
  split at h
  · split at h
    · next hc =>
        cases h
        have hle : c.toNat ≤ '9'.toNat := hc.2
        have hlast : '9'.toNat = '0'.toNat + 9 := by decide
        omega
    · cases h
  · split at h
    · cases h
      omega
    · cases h

namespace Form

open Text

namespace Numeral

variable {cs rest : List Char} {ds : List Nat} {n : Numeral}

theorem valueOf_lt (h : ∀ d ∈ ds, d < 10) : valueOf ds < 10 ^ ds.length := by
  have hfold (m : Nat) : ds.foldl (fun n d => 10 * n + d) m < (m + 1) * 10 ^ ds.length := by
    induction ds generalizing m with
    | nil => simp
    | cons d ds ih =>
        obtain ⟨hd, hds⟩ := List.forall_mem_cons.mp h
        calc (d :: ds).foldl (fun n d => 10 * n + d) m
            < (10 * m + d + 1) * 10 ^ ds.length := ih hds _
          _ ≤ ((m + 1) * 10) * 10 ^ ds.length := Nat.mul_le_mul_right _ (by omega)
          _ = (m + 1) * 10 ^ (d :: ds).length := by rw [List.length_cons, pow_succ', mul_assoc]
  simpa [valueOf] using hfold 0

theorem digits?_lt (h : digits? cs = some (ds, rest)) : ∀ d ∈ ds, d < 10 := by
  unfold digits? at h
  split at h
  · cases h
  · next hds =>
      cases h
      intro d hd
      obtain ⟨c, -, hc⟩ := List.mem_filterMap.mp hd
      exact Digit.value?_lt hc

theorem read?_lt (h : read? cs = some n) : ∀ d ∈ n.whole, d < 10 := by
  simp only [read?, Option.bind_eq_bind, Option.bind_eq_some_iff] at h
  obtain ⟨⟨whole, rest⟩, hwhole, ⟨fraction, _⟩, -, ⟨exponent, _⟩, -, hn⟩ := h
  split at hn
  · cases hn
    exact digits?_lt hwhole
  · cases hn

theorem fits_toInt (h : read? cs = some n) (hw : n.isWhole = true) (hlong : n.isTooLong = false) :
    Digit.fits n.toInt = true := by
  have hlength : n.whole.length ≤ Digit.limit := by simpa [isTooLong, hw] using hlong
  have hlt : valueOf n.whole < Digit.bound := by
    rw [Digit.bound_eq]
    exact (valueOf_lt (read?_lt h)).trans_le (Nat.pow_le_pow_right (by decide) hlength)
  unfold Digit.fits toInt
  split <;> simpa using hlt

end Numeral

namespace Tree

/-- The form of a number: a whole one has digits that can be written again. -/
theorem numberForm_cases {cs : List Char} {f : Form} (h : numberForm cs = .ok f) :
    f = .nil ∨ (∃ x, f = .float x) ∨ ∃ n, f = .int n ∧ Digit.fits n = true := by
  unfold numberForm at h
  split at h
  · cases h
    exact .inl rfl
  · next n hr =>
      split at h
      · cases h
      · next hlong =>
          cases h
          unfold Numeral.toForm
          split
          · next hw => exact .inr (.inr ⟨_, rfl, n.fits_toInt hr hw (by simpa using hlong)⟩)
          · exact .inr (.inl ⟨_, rfl⟩)

end Tree

end Form

end Sumi
