import Mathlib.Data.List.Basic
import Mathlib.Data.Nat.Basic

/-! # Whole-frame prefixes of a list -/

namespace OpenALRenderer.Foundation

variable {α : Type*}

/-- The longest prefix of `xs` whose length is a multiple of `frame`. -/
def wholeFrames (frame : ℕ) (xs : List α) : List α := xs.take (xs.length / frame * frame)

@[simp] theorem length_wholeFrames (frame : ℕ) (xs : List α) :
    (wholeFrames frame xs).length = xs.length / frame * frame := by
  simp [wholeFrames, Nat.div_mul_le_self]

theorem dvd_length_wholeFrames (frame : ℕ) (xs : List α) :
    frame ∣ (wholeFrames frame xs).length := by
  rw [length_wholeFrames]
  exact Nat.dvd_mul_left _ _

theorem take_sub_mod_eq_wholeFrames (frame : ℕ) (xs : List α) :
    xs.take (xs.length - xs.length % frame) = wholeFrames frame xs := by
  have h := Nat.div_add_mod' xs.length frame
  have hlen : xs.length - xs.length % frame = xs.length / frame * frame := by omega
  rw [wholeFrames, hlen]

end OpenALRenderer.Foundation
