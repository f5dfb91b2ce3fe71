import Mathlib.Algebra.Order.BigOperators.Group.Finset

/-! # Numbered slots, and what they hold added up -/

namespace OpenALRenderer.Foundation

variable {α β : Type*}

/-- Slots that are numbered in the order in which they are given out. A slot that is given back stays
empty. -/
structure Slots (α : Type*) where
  get : ℕ → Option α
  size : ℕ
  beyond : ∀ i, size ≤ i → get i = none

namespace Slots

@[ext] theorem ext {s t : Slots α} (hget : ∀ i, s.get i = t.get i) (hsize : s.size = t.size) :
    s = t := by
  cases s
  cases t
  simp only [mk.injEq]
  exact ⟨funext hget, hsize⟩

def empty : Slots α := ⟨fun _ => none, 0, fun _ _ => rfl⟩

instance : Inhabited (Slots α) := ⟨empty⟩

/-- A slot is given out. -/
def push (a : α) (s : Slots α) : Slots α where
  get i := if i = s.size then some a else s.get i
  size := s.size + 1
  beyond i hi := by
    rw [if_neg (by omega)]
    exact s.beyond i (by omega)

/-- What is in a slot is replaced, or the slot is given back. -/
def set (i : ℕ) (x : Option α) (s : Slots α) : Slots α where
  get j := if j = i ∧ j < s.size then x else s.get j
  size := s.size
  beyond j hj := by
    rw [if_neg (by omega)]
    exact s.beyond j hj

/-- What is in each slot is looked at in the same way. -/
def map (f : α → β) (s : Slots α) : Slots β where
  get i := (s.get i).map f
  size := s.size
  beyond i hi := by rw [s.beyond i hi, Option.map_none]

variable {s : Slots α} {i j : ℕ} {a b : α} {x : Option α}

theorem lt_of_get (h : s.get i = some a) : i < s.size := by
  by_contra hge
  cases (s.beyond i (not_lt.mp hge)).symm.trans h

@[simp] theorem get_empty (i : ℕ) : (empty : Slots α).get i = none := rfl

@[simp] theorem size_push (a : α) (s : Slots α) : (s.push a).size = s.size + 1 := rfl

@[simp] theorem size_set (i : ℕ) (x : Option α) (s : Slots α) : (s.set i x).size = s.size := rfl

@[simp] theorem get_push_self (a : α) (s : Slots α) : (s.push a).get s.size = some a := if_pos rfl

theorem get_push_of_ne (h : i ≠ s.size) : (s.push a).get i = s.get i := if_neg h

theorem get_set_self (h : s.get i = some a) : (s.set i x).get i = x := if_pos ⟨rfl, lt_of_get h⟩

/-- What is in the slot that was given out last is replaced. -/
theorem set_push (a b : α) (s : Slots α) : (s.push a).set s.size (some b) = s.push b := by
  refine Slots.ext (fun i => ?_) rfl
  by_cases hi : i = s.size
  · simp [set, push, hi]
  · simp [set, push, hi]

theorem get_set_of_ne (h : j ≠ i) : (s.set i x).get j = s.get j := if_neg fun hj => h hj.1

@[simp] theorem get_map (f : α → β) (s : Slots α) (i : ℕ) : (s.map f).get i = (s.get i).map f :=
  rfl

@[simp] theorem size_map (f : α → β) (s : Slots α) : (s.map f).size = s.size := rfl

/-- A slot is given out; the others may be looked at in another way if it makes no difference. -/
theorem map_push_eq {f g : α → β} (h : ∀ i b, s.get i = some b → g b = f b) :
    (s.push a).map g = (s.map f).push (g a) := by
  refine Slots.ext (fun i => ?_) rfl
  by_cases hi : i = s.size
  · subst hi
    simp [push]
  · cases hb : s.get i with
    | none => simp [push, hi, hb]
    | some b => simp [push, hi, hb, h i b hb]

theorem map_set_eq {f g : α → β} (h : ∀ j b, j ≠ i → s.get j = some b → g b = f b) :
    (s.set i x).map g = (s.map f).set i (x.map g) := by
  refine Slots.ext (fun j => ?_) rfl
  by_cases hj : j = i
  · subst hj
    by_cases hlt : j < s.size
    · simp [set, hlt]
    · simp [set, hlt, s.beyond j (not_lt.mp hlt)]
  · cases hb : s.get j with
    | none => simp [set, hj, hb]
    | some b => simp [set, hj, hb, h j b hj hb]

/-! ## Adding up -/

/-- What all slots hold. -/
def total (c : α → ℕ) (s : Slots α) : ℕ := ∑ i ∈ Finset.range s.size, ((s.get i).map c).getD 0

variable {c : α → ℕ}

@[simp] theorem total_empty (c : α → ℕ) : total c (empty : Slots α) = 0 := rfl

theorem total_push (c : α → ℕ) (a : α) (s : Slots α) : total c (s.push a) = total c s + c a := by
  have hold : ∀ i ∈ Finset.range s.size,
      (((s.push a).get i).map c).getD 0 = ((s.get i).map c).getD 0 := fun i hi => by
    rw [get_push_of_ne (Finset.mem_range.mp hi).ne]
  rw [total, size_push, Finset.sum_range_succ, Finset.sum_congr rfl hold, get_push_self]
  rfl

/-- A slot that is replaced changes the total by what it held and what it holds. -/
theorem total_set (h : s.get i = some a) :
    total c (s.set i x) + c a = total c s + (x.map c).getD 0 := by
  have hi : i ∈ Finset.range s.size := Finset.mem_range.mpr (lt_of_get h)
  have hrest : ∀ j ∈ (Finset.range s.size).erase i,
      (((s.set i x).get j).map c).getD 0 = ((s.get j).map c).getD 0 := fun j hj => by
    rw [get_set_of_ne (Finset.ne_of_mem_erase hj)]
  rw [total, total, size_set, ← Finset.add_sum_erase _ _ hi, ← Finset.add_sum_erase _ _ hi,
    Finset.sum_congr rfl hrest, get_set_self h, h]
  simp only [Option.map_some, Option.getD_some]
  omega

theorem le_total (h : s.get i = some a) : c a ≤ total c s := by
  have hset := total_set (c := c) (x := none) h
  simp only [Option.map_none, Option.getD_none] at hset
  omega

theorem total_le_size (h : ∀ a, c a ≤ 1) : total c s ≤ s.size := by
  have hle : ∀ i ∈ Finset.range s.size, ((s.get i).map c).getD 0 ≤ 1 := fun i _ => by
    cases s.get i with
    | none => exact Nat.zero_le _
    | some a => exact h a
  exact (Finset.sum_le_card_nsmul _ _ 1 hle).trans_eq (by simp)

/-- Two slots hold no more than all of them. -/
theorem add_le_total (hij : i ≠ j) (hi : s.get i = some a) (hj : s.get j = some b) :
    c a + c b ≤ total c s := by
  have hset := total_set (c := c) (x := none) hi
  have hle := le_total (c := c) ((get_set_of_ne (x := none) hij.symm).trans hj)
  simp only [Option.map_none, Option.getD_none] at hset
  omega

/-- What is in the total is in a slot. -/
theorem exists_of_total_pos (h : 0 < total c s) : ∃ i a, s.get i = some a ∧ 0 < c a := by
  obtain ⟨i, -, hi⟩ := Finset.exists_ne_zero_of_sum_ne_zero h.ne'
  cases ha : s.get i with
  | none => simp [ha] at hi
  | some a => exact ⟨i, a, ha, Nat.pos_of_ne_zero (by simpa [ha] using hi)⟩

/-- Counting what is there gives nothing when every slot is empty. -/
theorem total_one_eq_zero : total (fun _ => 1) s = 0 ↔ ∀ i, s.get i = none := by
  constructor
  · intro hzero i
    cases ha : s.get i with
    | none => rfl
    | some a =>
        have hle := le_total (c := fun _ => 1) ha
        omega
  · intro hnone
    by_contra hne
    obtain ⟨i, a, ha, -⟩ := exists_of_total_pos (Nat.pos_of_ne_zero hne)
    cases (hnone i).symm.trans ha

end Slots

end OpenALRenderer.Foundation
