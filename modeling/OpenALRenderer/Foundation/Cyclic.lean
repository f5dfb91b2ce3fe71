import Mathlib.Algebra.Group.Nat.Defs
import Mathlib.Data.Nat.Basic

/-! # Readings of a counter of 32 bits that wraps around -/

namespace OpenALRenderer.Foundation

/-- The counter passes `x` on its way from `a` to `b`. -/
def Between (a x b : UInt32) : Prop := x - a ≤ b - a

instance (a x b : UInt32) : Decidable (Between a x b) := inferInstanceAs (Decidable (_ ≤ _))

/-- Two readings differ by at most `d`, one way or the other. -/
def Near (d x y : UInt32) : Prop := x - y ≤ d ∨ y - x ≤ d

instance (d x y : UInt32) : Decidable (Near d x y) := inferInstanceAs (Decidable (_ ∨ _))

theorem between_iff {a x b : UInt32} : Between a x b ↔
    (2 ^ 32 - a.toNat + x.toNat) % 2 ^ 32 ≤ (2 ^ 32 - a.toNat + b.toNat) % 2 ^ 32 := by
  rw [Between, UInt32.le_iff_toNat_le, UInt32.toNat_sub, UInt32.toNat_sub]

/-- Half of the wrapped sum of two readings lies between them when the sum wraps just if the
counter does, or when the counter is one short of a whole turn. -/
theorem between_half_sum_iff {a b : UInt32} : Between a ((a + b) / 2) b ↔
    (a ≤ b ∧ a.toNat + b.toNat < 2 ^ 32) ∨ (b < a ∧ 2 ^ 32 ≤ a.toNat + b.toNat) ∨
      a.toNat = b.toNat + 1 := by
  have ha := a.toNat_lt
  have hb := b.toNat_lt
  rw [between_iff, UInt32.toNat_div, UInt32.toNat_add, UInt32.le_iff_toNat_le,
    UInt32.lt_iff_toNat_lt]
  change (2 ^ 32 - a.toNat + (a.toNat + b.toNat) % 2 ^ 32 / 2) % 2 ^ 32 ≤ _ ↔ _
  omega

/-- Two numbers that differ by at most one are added to the same reading. -/
theorem near_add {x : UInt32} {m n : ℕ} (hle : m ≤ n) (hlt : n ≤ m + 1) :
    Near 1 (x + m.toUInt32) (x + n.toUInt32) := by
  refine .inr ?_
  rw [UInt32.le_iff_toNat_le, UInt32.toNat_sub, UInt32.toNat_add, UInt32.toNat_add]
  simp only [Nat.toUInt32, UInt32.toNat_ofNat', UInt32.toNat_one]
  have hx := x.toNat_lt
  omega

/-- The way from `a` to `c` by `b`, when it takes less than a turn. -/
theorem toNat_sub_trans {a b c : UInt32}
    (h : (b - a).toNat + (c - b).toNat < 2 ^ 32) :
    (c - a).toNat = (b - a).toNat + (c - b).toNat := by
  have ha := a.toNat_lt
  have hb := b.toNat_lt
  have hc := c.toNat_lt
  simp only [UInt32.toNat_sub] at h ⊢
  omega

end OpenALRenderer.Foundation
