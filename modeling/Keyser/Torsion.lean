import Mathlib.Algebra.Module.NatInt
import Mathlib.Data.Nat.Prime.Int
import Mathlib.RingTheory.Int.Basic
import Mathlib.Tactic.Abel
import Mathlib.Tactic.LinearCombination

namespace Keyser.Torsion

-- Elements that a prime n takes to nothing: their multiples count modulo n, and can be divided.
variable {M : Type*} [AddCommGroup M] {n : Nat} {P Q : M} {a b : Int}

theorem smul_congr (killed : n • P = 0) (same : (n : Int) ∣ a - b) : a • P = b • P := by
  obtain ⟨k,split⟩ := same
  have zero : (a - b) • P = 0 := by
    rw [split,mul_comm,mul_smul,natCast_zsmul,killed,smul_zero]
  rwa [sub_smul,sub_eq_zero] at zero

theorem inverse (prime : n.Prime) (unit : ¬ (n : Int) ∣ a) : ∃ d : Int, (n : Int) ∣ d*a - 1 := by
  obtain ⟨k,d,sum⟩ := ((Nat.prime_iff_prime_int.mp prime).coprime_iff_not_dvd (n := a)).mpr unit
  exact ⟨d,-k,by linear_combination sum⟩

-- Two ways to write one element of P and Q solve for Q.
theorem solve (killed : n • Q = 0) (inverse : (n : Int) ∣ d*(b - b') - 1)
    (same : a • P + b • Q = a' • P + b' • Q) : Q = (d*(a' - a)) • P := by
  have moved : (b - b') • Q = (a' - a) • P := by
    rw [sub_smul,sub_smul,sub_eq_sub_iff_add_eq_add,add_comm (b • Q),add_comm (a' • P),same]
    abel
  calc Q = (1 : Int) • Q := (one_smul _ Q).symm
    _ = (d*(b - b')) • Q := (smul_congr killed inverse).symm
    _ = (d*(a' - a)) • P := by rw [mul_smul,moved,← mul_smul]

end Keyser.Torsion
