import Mathlib.Data.List.Nodup
import Mathlib.Data.List.Range
import Mathlib.Data.Nat.ModEq

/-! # Consecutive slots of a ring -/

namespace OpenALRenderer.Foundation

variable {α : Type*} (slot : ℕ → α) (n : ℕ)

/-- The contents of `len` slots of a ring of `n`, from `start` on. -/
def segment (start len : ℕ) : List α := (List.range len).map fun i => slot ((start + i) % n)

theorem segment_succ (start len : ℕ) :
    segment slot n start (len + 1) = segment slot n start len ++ [slot ((start + len) % n)] := by
  simp [segment, List.range_succ]

/-- A segment depends on where it starts only up to the size of the ring. -/
theorem segment_congr {start start' : ℕ} (h : start % n = start' % n) (len : ℕ) :
    segment slot n start len = segment slot n start' len := by
  unfold segment
  refine List.map_congr_left fun i _ => ?_
  rw [Nat.add_mod, h, ← Nat.add_mod]

theorem drop_segment (start len k : ℕ) :
    (segment slot n start len).drop k = segment slot n (start + k) (len - k) := by
  unfold segment
  rw [← List.map_drop, List.range_eq_range', List.drop_range', List.range_eq_range']
  simp only [Nat.zero_add, Nat.mul_one]
  rw [List.range'_eq_map_range, List.map_map, ← List.range_eq_range']
  refine List.map_congr_left fun i _ => ?_
  simp [Nat.add_assoc]

variable {slot n}

theorem mod_add_ne {start i j : ℕ} (hij : i < j) (hj : j < i + n) :
    (start + i) % n ≠ (start + j) % n := by
  intro h
  have hmod : i ≡ j [MOD n] := Nat.ModEq.add_left_cancel' start h
  have hdvd : n ∣ j - i := (Nat.modEq_iff_dvd' hij.le).mp hmod
  exact absurd (Nat.le_of_dvd (by omega) hdvd) (by omega)

/-- With room left, the slot after a segment is not in it. -/
theorem next_not_mem_segment (hinj : ∀ i j, i < n → j < n → slot i = slot j → i = j)
    {start len : ℕ} (hlen : len < n) :
    slot ((start + len) % n) ∉ segment slot n start len := by
  intro h
  obtain ⟨i, hi, heq⟩ := List.mem_map.mp h
  rw [List.mem_range] at hi
  have hpos : 0 < n := by omega
  have := hinj _ _ (Nat.mod_lt _ hpos) (Nat.mod_lt _ hpos) heq
  exact mod_add_ne hi (by omega) this

theorem nodup_segment (hinj : ∀ i j, i < n → j < n → slot i = slot j → i = j)
    {start : ℕ} : ∀ {len : ℕ}, len ≤ n → (segment slot n start len).Nodup := by
  intro len
  induction len with
  | zero => intro _; exact List.nodup_nil
  | succ len ih =>
      intro hlen
      rw [segment_succ, List.nodup_append]
      refine ⟨ih (by omega), List.nodup_singleton _, ?_⟩
      intro a ha b hb hab
      rw [List.mem_singleton] at hb
      exact next_not_mem_segment hinj (by omega) (hb ▸ hab ▸ ha)

end OpenALRenderer.Foundation
