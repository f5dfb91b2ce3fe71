import Mathlib.Algebra.Group.Int.Defs
import Mathlib.Algebra.Group.Nat.Defs
import Mathlib.Data.Nat.Basic

/-! # Words of 32 bits: signed, unsigned, and in 64 bits -/

namespace OpenALRenderer.Foundation

theorem toInt_toInt32 (x : UInt32) :
    x.toInt32.toInt = if x.toNat < 2 ^ 31 then (x.toNat : ℤ) else x.toNat - 2 ^ 32 := by
  change x.toInt32.toBitVec.toInt = _
  rw [BitVec.toInt_eq_toNat_cond]
  change (if 2 * x.toNat < 2 ^ 32 then (x.toNat : ℤ) else x.toNat - ((2 ^ 32 : ℕ) : ℤ)) = _
  split <;> split <;> omega

theorem toNat_toUInt32 (x : Int32) : (x.toUInt32.toNat : ℤ) = x.toInt % 2 ^ 32 := by
  change (x.toBitVec.toNat : ℤ) = x.toBitVec.toInt % _
  have hx := x.toBitVec.isLt
  rw [BitVec.toInt_eq_toNat_cond]
  split <;> omega

theorem toInt_toUInt64_toInt64 (x : UInt32) : x.toUInt64.toInt64.toInt = x.toNat := by
  have hx := x.toNat_lt
  change x.toUInt64.toInt64.toBitVec.toInt = _
  rw [UInt64.toBitVec_toInt64, BitVec.toInt_eq_toNat_bmod]
  change Int.bmod x.toUInt64.toNat _ = _
  rw [UInt32.toNat_toUInt64]
  exact Int.bmod_eq_of_le (by omega) (by omega)

/-- A number read as 64 signed bits does not grow. -/
theorem toInt_ofNat_le (n : ℕ) : (Int64.ofNat n).toInt ≤ n := by
  rw [Int64.toInt_ofNat', Int.bmod_def]
  have hsize : Int64.size = 2 ^ 64 := rfl
  rw [hsize]
  split <;> omega

theorem toInt_ofNat_eq_iff {n : ℕ} : (Int64.ofNat n).toInt = n ↔ n < 2 ^ 63 := by
  refine ⟨fun h => ?_, Int64.toInt_ofNat_of_lt⟩
  have hlt := Int64.toInt_lt (Int64.ofNat n)
  omega

/-- A word that has wrapped around has a smaller quotient. -/
theorem mod_div_eq_iff {n w f : ℕ} (hf : 0 < f) (hfw : f ≤ w) : n % w / f = n / f ↔ n < w := by
  refine ⟨fun h => ?_, fun h => by rw [Nat.mod_eq_of_lt h]⟩
  by_contra hge
  have hle : n % w + f ≤ n := by
    have hsplit := Nat.mod_add_div n w
    have hone : w * 1 ≤ w * (n / w) := Nat.mul_le_mul_left w (Nat.div_pos (by omega) (by omega))
    omega
  have hlt : n % w / f + 1 ≤ n / f := by
    rw [← Nat.add_div_right _ hf]
    exact Nat.div_le_div_right hle
  omega

end OpenALRenderer.Foundation
