import Mathlib.Algebra.Order.Ring.Nat
import Mathlib.Data.Nat.Basic

/-! # Natural numbers rounded to a significand of so many bits -/

namespace OpenALRenderer.Foundation

/-- The multiple of `2 ^ e` that is nearest to `n`; of two that are, the even one. -/
def roundAt (e n : ℕ) : ℕ :=
  if 2 ^ e < 2 * (n % 2 ^ e) ∨ 2 * (n % 2 ^ e) = 2 ^ e ∧ n / 2 ^ e % 2 = 1 then
    (n / 2 ^ e + 1) * 2 ^ e
  else n / 2 ^ e * 2 ^ e

/-- The bits of `n` for which a significand of `p` bits has no room. -/
def excess (p n : ℕ) : ℕ := n.log2 + 1 - p

/-- `n` as a significand of `p` bits times a power of two, rounded to the nearest, ties to even. -/
def roundTo (p n : ℕ) : ℕ := roundAt (excess p n) n

variable {e p m n : ℕ}

/-! ## Multiples of one power -/

theorem dvd_roundAt (e n : ℕ) : 2 ^ e ∣ roundAt e n := by
  unfold roundAt
  split <;> exact Nat.dvd_mul_left _ _

theorem le_roundAt (e n : ℕ) : n / 2 ^ e * 2 ^ e ≤ roundAt e n := by
  unfold roundAt
  split
  · exact Nat.mul_le_mul_right _ (Nat.le_succ _)
  · exact le_rfl

theorem roundAt_le (e n : ℕ) : roundAt e n ≤ (n / 2 ^ e + 1) * 2 ^ e := by
  unfold roundAt
  split
  · exact le_rfl
  · exact Nat.mul_le_mul_right _ (Nat.le_succ _)

theorem roundAt_of_dvd (h : 2 ^ e ∣ n) : roundAt e n = n := by
  have hpos : 0 < 2 ^ e := Nat.two_pow_pos e
  have hmod : n % 2 ^ e = 0 := Nat.mod_eq_zero_of_dvd h
  unfold roundAt
  rw [hmod, if_neg (by omega), Nat.div_mul_cancel h]

theorem roundAt_mono (h : m ≤ n) : roundAt e m ≤ roundAt e n := by
  rcases Nat.lt_or_eq_of_le (Nat.div_le_div_right (c := 2 ^ e) h) with hlt | heq
  · calc roundAt e m
        ≤ (m / 2 ^ e + 1) * 2 ^ e := roundAt_le e m
      _ ≤ n / 2 ^ e * 2 ^ e := Nat.mul_le_mul_right _ hlt
      _ ≤ roundAt e n := le_roundAt e n
  · have hm := Nat.div_add_mod' m (2 ^ e)
    have hn := Nat.div_add_mod' n (2 ^ e)
    rw [heq] at hm
    have hmod : m % 2 ^ e ≤ n % 2 ^ e := by omega
    unfold roundAt
    rw [heq]
    split <;> split
    · exact le_rfl
    · omega
    · exact Nat.mul_le_mul_right _ (Nat.le_succ _)
    · exact le_rfl

/-! ## The power that the number asks for -/

theorem roundTo_of_lt (h : n < 2 ^ p) : roundTo p n = n := by
  rcases Nat.eq_zero_or_pos n with rfl | hpos
  · exact roundAt_of_dvd (Nat.dvd_zero _)
  · have hlog : n.log2 < p := (Nat.log2_lt (Nat.ne_of_gt hpos)).mpr h
    have hzero : excess p n = 0 := by
      unfold excess
      omega
    rw [roundTo, hzero]
    exact roundAt_of_dvd (Nat.one_dvd n)

theorem lt_two_pow_excess (p n : ℕ) : n < 2 ^ (excess p n + p) := by
  have hle : n.log2 + 1 ≤ excess p n + p := by
    unfold excess
    omega
  exact lt_of_lt_of_le Nat.lt_log2_self (Nat.pow_le_pow_right Nat.two_pos hle)

theorem roundTo_mono (hp : 0 < p) (h : m ≤ n) : roundTo p m ≤ roundTo p n := by
  rcases Nat.lt_or_ge (excess p m) (excess p n) with hlt | hge
  · -- The power of two that starts the binade of `n` lies between them.
    have hlog : excess p n + p = n.log2 + 1 := by
      unfold excess at hlt ⊢
      omega
    have hn : n ≠ 0 := by
      rintro rfl
      simp only [excess, Nat.log2_zero] at hlt
      omega
    have hbelow : m ≤ 2 ^ n.log2 := by
      refine le_of_lt (lt_of_lt_of_le (lt_two_pow_excess p m) ?_)
      exact Nat.pow_le_pow_right Nat.two_pos (by omega)
    have hdvd : ∀ k, k ≤ excess p n → 2 ^ k ∣ 2 ^ n.log2 :=
      fun k hk => Nat.pow_dvd_pow 2 (by omega)
    calc roundTo p m
        ≤ roundAt (excess p m) (2 ^ n.log2) := roundAt_mono hbelow
      _ = 2 ^ n.log2 := roundAt_of_dvd (hdvd _ (Nat.le_of_lt hlt))
      _ = roundAt (excess p n) (2 ^ n.log2) := (roundAt_of_dvd (hdvd _ le_rfl)).symm
      _ ≤ roundTo p n := roundAt_mono (Nat.log2_self_le hn)
  · have hlog : excess p m ≤ excess p n := by
      rcases Nat.eq_zero_or_pos m with rfl | hpos
      · simp only [excess, Nat.log2_zero]
        omega
      · have hmono : m.log2 ≤ n.log2 := by
          rw [Nat.le_log2 (by omega)]
          exact (Nat.log2_self_le (Nat.ne_of_gt hpos)).trans h
        unfold excess
        omega
    rw [roundTo, roundTo, Nat.le_antisymm hlog hge]
    exact roundAt_mono h

/-- What has been rounded is not rounded again. -/
theorem roundTo_roundTo (hp : 0 < p) (n : ℕ) : roundTo p (roundTo p n) = roundTo p n := by
  have hdvd : 2 ^ excess p n ∣ roundTo p n := dvd_roundAt _ _
  have hle : roundTo p n ≤ 2 ^ (excess p n + p) := by
    rw [roundTo, ← roundAt_of_dvd (e := excess p n) (Nat.pow_dvd_pow 2 (Nat.le_add_right _ p))]
    exact roundAt_mono (Nat.le_of_lt (lt_two_pow_excess p n))
  rcases Nat.lt_or_eq_of_le hle with hlt | heq
  · refine roundAt_of_dvd (Nat.dvd_trans (Nat.pow_dvd_pow 2 ?_) hdvd)
    rcases Nat.eq_zero_or_pos (roundTo p n) with hzero | hpos
    · simp only [hzero, excess, Nat.log2_zero]
      omega
    · have hlog := (Nat.log2_lt (Nat.ne_of_gt hpos)).mpr hlt
      simp only [excess] at hlog ⊢
      omega
  · refine roundAt_of_dvd ?_
    rw [heq]
    refine Nat.pow_dvd_pow 2 ?_
    simp only [excess, Nat.log2_two_pow]
    omega

/-- A number that needs no rounding is below another exactly when it is below that number rounded,
unless the rounding is downwards. -/
theorem lt_roundTo_iff (hp : 0 < p) (hm : roundTo p m = m) (hn : n ≤ roundTo p n) :
    m < roundTo p n ↔ m < n := by
  refine ⟨fun h => ?_, fun h => lt_of_lt_of_le h hn⟩
  by_contra hge
  have hmono := roundTo_mono hp (Nat.le_of_not_lt hge)
  omega

end OpenALRenderer.Foundation
