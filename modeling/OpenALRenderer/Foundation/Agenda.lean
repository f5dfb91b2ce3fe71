import Mathlib.Algebra.BigOperators.Group.List.Basic
import Mathlib.Data.List.Sort
import Mathlib.Data.Int.Basic
import Mathlib.Algebra.Order.Group.Int
import Mathlib.Tactic.Ring

/-! # Agendas: entries in the order of the times they are due

An entry is due once, or again and again after a period. Firing what is due up to a time is a
relation; what it comes to is counted for each entry on its own. -/

namespace OpenALRenderer.Foundation

variable {ι : Type*}

/-- Something that is due at a time. -/
structure Entry (ι : Type*) where
  item : ι
  time : ℤ
  period : Option ℤ := none
  deriving DecidableEq

namespace Entry

/-! ## One entry -/

/-- How often it is due up to `T`. -/
def dueCount (T : ℤ) (e : Entry ι) : ℕ :=
  if T < e.time then 0
  else match e.period with
    | none => 1
    | some p => ((T - e.time) / p).toNat + 1

/-- The times up to `T` at which it is due. -/
def due (T : ℤ) (e : Entry ι) : List ℤ :=
  (List.range (e.dueCount T)).map fun k : ℕ => e.time + k * e.period.getD 0

/-- What is left of it once it has been due up to `T`. -/
def after (T : ℤ) (e : Entry ι) : Option (Entry ι) :=
  if T < e.time then some e
  else e.period.map fun p => { e with time := e.time + e.dueCount T * p }

/-- It is due one period later. -/
def later (p : ℤ) (e : Entry ι) : Entry ι := { e with time := e.time + p }

@[simp] theorem later_item (p : ℤ) (e : Entry ι) : (e.later p).item = e.item := rfl

@[simp] theorem later_period (p : ℤ) (e : Entry ι) : (e.later p).period = e.period := rfl

@[simp] theorem later_time (p : ℤ) (e : Entry ι) : (e.later p).time = e.time + p := rfl

/-- Its period, if it has one, is a length of time. -/
def Regular (e : Entry ι) : Prop := ∀ p, e.period = some p → 0 < p

theorem Regular.later {e : Entry ι} (h : e.Regular) (p : ℤ) : (e.later p).Regular := h

variable {e : Entry ι} {S T p : ℤ}

theorem dueCount_of_lt (h : T < e.time) : e.dueCount T = 0 := if_pos h

theorem due_of_lt (h : T < e.time) : e.due T = [] := by
  rw [due, dueCount_of_lt h]
  rfl

theorem after_of_lt (h : T < e.time) : e.after T = some e := if_pos h

theorem due_once (h : e.time ≤ T) (hp : e.period = none) : e.due T = [e.time] := by
  have hcount : e.dueCount T = 1 := by
    rw [dueCount, if_neg (not_lt.mpr h), hp]
  simp [due, hcount]

theorem after_once (h : e.time ≤ T) (hp : e.period = none) : e.after T = none := by
  rw [after, if_neg (not_lt.mpr h), hp]
  rfl

theorem dueCount_of_period (h : e.time ≤ T) (hp : e.period = some p) :
    e.dueCount T = ((T - e.time) / p).toNat + 1 := by
  rw [dueCount, if_neg (not_lt.mpr h), hp]

theorem dueCount_again (h : e.time ≤ T) (hp : e.period = some p) (hpos : 0 < p) :
    e.dueCount T = (e.later p).dueCount T + 1 := by
  rw [dueCount_of_period h hp]
  by_cases hlt : T < (e.later p).time
  · have hzero : (T - e.time) / p = 0 :=
      Int.ediv_eq_zero_of_lt (by omega) (by rw [later_time] at hlt; omega)
    rw [hzero, dueCount_of_lt hlt]
    rfl
  · have hle : (e.later p).time ≤ T := not_lt.mp hlt
    have hshift : T - e.time = T - (e.later p).time + 1 * p := by
      rw [later_time]
      ring
    have hnonneg : 0 ≤ (T - (e.later p).time) / p := Int.ediv_nonneg (by omega) hpos.le
    rw [dueCount_of_period hle hp, hshift, Int.add_mul_ediv_right _ _ hpos.ne']
    omega

/-- Due now, and then as often as what is left of it. -/
theorem due_again (h : e.time ≤ T) (hp : e.period = some p) (hpos : 0 < p) :
    e.due T = e.time :: (e.later p).due T := by
  rw [due, dueCount_again h hp hpos, List.range_succ_eq_map, List.map_cons, List.map_map, due]
  simp only [hp, later_time, later_period, Option.getD_some, Nat.cast_zero, zero_mul, add_zero]
  refine congrArg _ (List.map_congr_left fun k _ => ?_)
  simp only [Function.comp_apply, Nat.cast_succ]
  ring

theorem after_again (h : e.time ≤ T) (hp : e.period = some p) (hpos : 0 < p) :
    e.after T = (e.later p).after T := by
  have hcount := dueCount_again h hp hpos
  rw [after, if_neg (not_lt.mpr h), hp, Option.map_some, hcount]
  by_cases hlt : T < (e.later p).time
  · rw [after_of_lt hlt, dueCount_of_lt hlt]
    simp [later, hp]
  · rw [after, if_neg hlt, later_period, hp, Option.map_some]
    simp only [later, Option.some.injEq, mk.injEq, true_and, and_true]
    push_cast
    ring

/-- The rule for an entry: it is not due yet, or due for the only time, or due and again a period
later. -/
theorem dueInduction {P : Entry ι → Prop} (T : ℤ) (e : Entry ι) (he : e.Regular)
    (hlt : ∀ e, T < e.time → P e) (honce : ∀ e, e.time ≤ T → e.period = none → P e)
    (hagain : ∀ e p, e.time ≤ T → e.period = some p → 0 < p → P (e.later p) → P e) : P e := by
  induction hn : e.dueCount T generalizing e with
  | zero =>
      refine hlt e (not_le.mp fun hle => ?_)
      rw [dueCount, if_neg (not_lt.mpr hle)] at hn
      split at hn <;> cases hn
  | succ n ih =>
      have hle : e.time ≤ T := not_lt.mp fun hlt => by
        rw [dueCount_of_lt hlt] at hn
        cases hn
      cases hp : e.period with
      | none => exact honce e hle hp
      | some p =>
          have hcount := dueCount_again hle hp (he p hp)
          exact hagain e p hle hp (he p hp) (ih (e.later p) (he.later p) (by omega))

/-- What is left of an entry is due later. -/
theorem lt_of_after (he : e.Regular) :
    ∀ e', e.after T = some e' → T < e'.time ∧ e'.item = e.item ∧ e'.period = e.period := by
  refine dueInduction (P := fun e => ∀ e', e.after T = some e' →
    T < e'.time ∧ e'.item = e.item ∧ e'.period = e.period) T e he ?_ ?_ ?_
  · intro e hlt e' h
    obtain rfl := Option.some.inj ((after_of_lt hlt).symm.trans h)
    exact ⟨hlt, rfl, rfl⟩
  · intro e hle hp e' h
    cases (after_once hle hp).symm.trans h
  · intro e p hle hp hpos ih e' h
    exact ih e' ((after_again hle hp hpos).symm.trans h)

/-- What is due up to `T` is what was due up to `S`, and then what is due of the rest. -/
theorem due_append (he : e.Regular) (hST : S ≤ T) :
    e.due T = e.due S ++ ((e.after S).map (due T)).getD [] := by
  refine dueInduction (P := fun e => e.due T = e.due S ++ ((e.after S).map (due T)).getD [])
    S e he ?_ ?_ ?_
  · intro e hlt
    rw [due_of_lt hlt, after_of_lt hlt]
    rfl
  · intro e hle hp
    rw [due_once (hle.trans hST) hp, due_once hle hp, after_once hle hp]
    rfl
  · intro e p hle hp hpos ih
    rw [due_again (hle.trans hST) hp hpos, due_again hle hp hpos, after_again hle hp hpos, ih]
    rfl

/-- What is left up to `T` is what is left of the rest. -/
theorem after_after (he : e.Regular) (hST : S ≤ T) :
    (e.after S).bind (after T) = e.after T := by
  refine dueInduction (P := fun e => (e.after S).bind (after T) = e.after T) S e he ?_ ?_ ?_
  · intro e hlt
    rw [after_of_lt hlt]
    rfl
  · intro e hle hp
    rw [after_once hle hp, after_once (hle.trans hST) hp]
    rfl
  · intro e p hle hp hpos ih
    rw [after_again hle hp hpos, ih, after_again (hle.trans hST) hp hpos]

end Entry

/-! ## Agendas -/

namespace Agenda

open Entry

variable {e : Entry ι} {l l' : List (Entry ι)} {fs : List (ι × ℤ)} {S T : ℤ}

def Sorted (l : List (Entry ι)) : Prop := l.Pairwise fun a b => a.time ≤ b.time

/-- Before the entries of the same time. -/
def insert (e : Entry ι) (l : List (Entry ι)) : List (Entry ι) :=
  l.orderedInsert (fun a b => a.time ≤ b.time) e

/-- Behind the entries of the same time. -/
def requeue (e : Entry ι) (l : List (Entry ι)) : List (Entry ι) :=
  l.orderedInsert (fun a b => a.time < b.time) e

theorem insert_perm (e : Entry ι) (l : List (Entry ι)) : (insert e l).Perm (e :: l) :=
  List.perm_orderedInsert _ e l

theorem requeue_perm (e : Entry ι) (l : List (Entry ι)) : (requeue e l).Perm (e :: l) :=
  List.perm_orderedInsert _ e l

theorem orderedInsert_append {r : Entry ι → Entry ι → Prop} [DecidableRel r]
    {l l' : List (Entry ι)} (hpass : ∀ b ∈ l, ¬ r e b) (hstop : ∀ b ∈ l'.head?, r e b) :
    (l ++ l').orderedInsert r e = l ++ e :: l' := by
  induction l with
  | nil =>
      cases l' with
      | nil => rfl
      | cons b l' => exact List.orderedInsert_cons_of_le r l' (hstop b rfl)
  | cons b l ih =>
      rw [List.cons_append, List.orderedInsert_of_not_le r _ (hpass b (by simp)),
        ih fun c hc => hpass c (by simp [hc])]
      rfl

theorem Sorted.orderedInsert {r : Entry ι → Entry ι → Prop} [DecidableRel r] (h : Sorted l)
    (hle : ∀ b, r e b → e.time ≤ b.time) (hge : ∀ b, ¬ r e b → b.time ≤ e.time) :
    Sorted (l.orderedInsert r e) := by
  induction l with
  | nil => exact List.pairwise_singleton _ e
  | cons b l ih =>
      obtain ⟨hb, hl⟩ := List.pairwise_cons.mp h
      by_cases hr : r e b
      · rw [List.orderedInsert_cons_of_le r l hr]
        refine List.pairwise_cons.mpr ⟨fun c hc => ?_, h⟩
        rcases List.mem_cons.mp hc with rfl | hc
        · exact hle c hr
        · exact (hle b hr).trans (hb c hc)
      · rw [List.orderedInsert_of_not_le r l hr]
        refine List.pairwise_cons.mpr ⟨fun c hc => ?_, ih hl⟩
        rcases (List.mem_orderedInsert r).mp hc with rfl | hc
        · exact hge b hr
        · exact hb c hc

theorem Sorted.insert (h : Sorted l) (e : Entry ι) : Sorted (insert e l) :=
  h.orderedInsert (fun _ hr => hr) fun _ hr => (not_le.mp hr).le

theorem Sorted.requeue (h : Sorted l) (e : Entry ι) : Sorted (requeue e l) :=
  h.orderedInsert (fun _ hr => hr.le) fun _ hr => not_lt.mp hr

/-! ## Firing -/

/-- The entries due up to `T` are fired from the head of the agenda, and each that has a period
goes back to its place. -/
inductive Fires (T : ℤ) : List (Entry ι) → List (ι × ℤ) → List (Entry ι) → Prop where
  | idle (l : List (Entry ι)) (h : ∀ e ∈ l.head?, T < e.time) : Fires T l [] l
  | once {e : Entry ι} {l fs l'} (hdue : e.time ≤ T) (hp : e.period = none)
      (h : Fires T l fs l') : Fires T (e :: l) ((e.item, e.time) :: fs) l'
  | again {e : Entry ι} {p l fs l'} (hdue : e.time ≤ T) (hp : e.period = some p)
      (h : Fires T (requeue (e.later p) l) fs l') :
      Fires T (e :: l) ((e.item, e.time) :: fs) l'

/-- Every period is a length of time. -/
def Regular (l : List (Entry ι)) : Prop := ∀ e ∈ l, e.Regular

theorem Regular.tail (h : Regular (e :: l)) : Regular l := fun a ha => h a (by simp [ha])

theorem Regular.requeue {p : ℤ} (h : Regular (e :: l)) : Regular (requeue (e.later p) l) := by
  intro a ha
  rcases List.mem_cons.mp ((requeue_perm _ l).mem_iff.mp ha) with rfl | ha
  · exact (h e (by simp)).later p
  · exact h a (by simp [ha])

theorem Sorted.tail (h : Sorted (e :: l)) : Sorted l := (List.pairwise_cons.mp h).2

theorem Sorted.lt_of_head (h : Sorted l) (hhead : ∀ e ∈ l.head?, T < e.time) :
    ∀ e ∈ l, T < e.time := by
  cases l with
  | nil => exact nofun
  | cons a l =>
      have ha : T < a.time := hhead a rfl
      exact List.forall_mem_cons.mpr
        ⟨ha, fun e he => ha.trans_le ((List.pairwise_cons.mp h).1 e he)⟩

/-- Firing comes to an end: every time an entry is fired there is one time fewer at which it is
due. -/
theorem exists_fires (T : ℤ) (l : List (Entry ι)) (h : Regular l) : ∃ fs l', Fires T l fs l' := by
  induction hn : (l.map (dueCount T)).sum using Nat.strong_induction_on generalizing l with
  | _ n ih =>
      cases l with
      | nil => exact ⟨[], [], .idle [] nofun⟩
      | cons e l =>
          rw [List.map_cons, List.sum_cons] at hn
          by_cases hlt : T < e.time
          · exact ⟨[], e :: l, .idle _ (by simpa using hlt)⟩
          have hdue := not_lt.mp hlt
          cases hp : e.period with
          | none =>
              have hcount : e.dueCount T = 1 := by rw [dueCount, if_neg hlt, hp]
              obtain ⟨fs, l', hfires⟩ := ih _ (by omega) l h.tail rfl
              exact ⟨_, l', .once hdue hp hfires⟩
          | some p =>
              have hcount := dueCount_again hdue hp (h e (by simp) p hp)
              have hsum := ((requeue_perm (e.later p) l).map (dueCount T)).sum_eq
              rw [List.map_cons, List.sum_cons] at hsum
              obtain ⟨fs, l', hfires⟩ := ih _ (by omega) _ h.requeue hsum
              exact ⟨_, l', .again hdue hp hfires⟩

theorem Fires.sorted (h : Fires T l fs l') (hl : Sorted l) : Sorted l' := by
  induction h with
  | idle => exact hl
  | once _ _ _ ih => exact ih hl.tail
  | again _ _ _ ih => exact ih (hl.tail.requeue _)

/-- Nothing that is due is left. -/
theorem Fires.lt (h : Fires T l fs l') (hl : Sorted l) : ∀ e ∈ l', T < e.time := by
  induction h with
  | idle l h => exact hl.lt_of_head h
  | once _ _ _ ih => exact ih hl.tail
  | again _ _ _ ih => exact ih (hl.tail.requeue _)

/-- What is left is what is left of each entry. -/
theorem Fires.left (h : Fires T l fs l') (hl : Sorted l) (hreg : Regular l) :
    l'.Perm (l.filterMap (after T)) := by
  induction h with
  | idle l h =>
      rw [List.filterMap_congr (g := some) fun e he => after_of_lt (hl.lt_of_head h e he),
        List.filterMap_some]
  | once hdue hp _ ih =>
      rw [List.filterMap_cons_none (after_once hdue hp)]
      exact ih hl.tail hreg.tail
  | @again e p l fs l' hdue hp _ ih =>
      have hpos := hreg e (by simp) p hp
      refine (ih (hl.tail.requeue _) hreg.requeue).trans ?_
      refine ((requeue_perm _ l).filterMap _).trans ?_
      rw [List.filterMap_cons, List.filterMap_cons, after_again hdue hp hpos]

/-- What is left has the items it had. -/
theorem map_item_after_sublist (hreg : Regular l) (T : ℤ) :
    ((l.filterMap (after T)).map item).Sublist (l.map item) := by
  induction l with
  | nil => exact .slnil
  | cons e l ih =>
      cases hafter : e.after T with
      | none =>
          rw [List.filterMap_cons_none hafter]
          exact (ih hreg.tail).cons _
      | some a =>
          have hitem := (lt_of_after (hreg e (by simp)) a hafter).2.1
          rw [List.filterMap_cons_some hafter, List.map_cons, List.map_cons, hitem]
          exact (ih hreg.tail).cons_cons _

/-- The times at which an item has been fired. -/
def firings [DecidableEq ι] (i : ι) (fs : List (ι × ℤ)) : List ℤ :=
  (fs.filter fun f => f.1 = i).map Prod.snd

section Firings

variable [DecidableEq ι] {i : ι} {t : ℤ}

@[simp] theorem firings_nil : firings i [] = [] := rfl

theorem firings_cons_self : firings i ((i, t) :: fs) = t :: firings i fs := by simp [firings]

theorem firings_cons_ne {j : ι} (h : j ≠ i) : firings i ((j, t) :: fs) = firings i fs := by
  simp [firings, h]

@[simp] theorem firings_append (fs' : List (ι × ℤ)) :
    firings i (fs ++ fs') = firings i fs ++ firings i fs' := by simp [firings]

/-- Nothing is fired but what is on the agenda. -/
theorem Fires.firings_of_notMem (h : Fires T l fs l') (hi : i ∉ l.map item) :
    firings i fs = [] := by
  induction h with
  | idle => rfl
  | once _ _ _ ih =>
      rw [List.map_cons, List.mem_cons, not_or] at hi
      rw [firings_cons_ne (Ne.symm hi.1), ih hi.2]
  | @again e p l _ _ _ _ _ ih =>
      have hperm := (requeue_perm (e.later p) l).map item
      rw [List.map_cons] at hi hperm
      rw [firings_cons_ne (fun heq => hi (by simp [heq])), ih (fun hmem => hi ?_)]
      exact hperm.mem_iff.mp hmem

theorem Fires.item_mem {f : ι × ℤ} (h : Fires T l fs l') (hf : f ∈ fs) : f.1 ∈ l.map item := by
  by_contra hnot
  have hnone := h.firings_of_notMem hnot
  rw [firings, List.map_eq_nil_iff, List.filter_eq_nil_iff] at hnone
  exact hnone f hf (by simp)

/-- What is on the agenda is fired exactly when it is due. -/
theorem Fires.firings_of_mem (h : Fires T l fs l') (hl : Sorted l) (hreg : Regular l)
    (hnodup : (l.map item).Nodup) (he : e ∈ l) : firings e.item fs = e.due T := by
  induction h generalizing e with
  | idle l h => rw [due_of_lt (hl.lt_of_head h e he), firings_nil]
  | @once a l fs l' hdue hp h ih =>
      obtain ⟨ha, hrest⟩ := List.nodup_cons.mp hnodup
      rcases List.mem_cons.mp he with rfl | he
      · rw [firings_cons_self, h.firings_of_notMem ha, due_once hdue hp]
      · have hne : a.item ≠ e.item := fun heq => ha (heq ▸ List.mem_map_of_mem he)
        rw [firings_cons_ne hne, ih hl.tail hreg.tail hrest he]
  | @again a p l fs l' hdue hp h ih =>
      have hperm := requeue_perm (a.later p) l
      have hrest : ((requeue (a.later p) l).map item).Nodup :=
        (hperm.map item).nodup_iff.mpr hnodup
      have htail : ∀ b ∈ requeue (a.later p) l, firings b.item fs = b.due T := fun b hb =>
        ih (hl.tail.requeue _) hreg.requeue hrest hb
      rcases List.mem_cons.mp he with rfl | he
      · have hlater := htail (e.later p) (hperm.mem_iff.mpr (by simp))
        rw [later_item] at hlater
        rw [firings_cons_self, hlater, due_again hdue hp (hreg e (by simp) p hp)]
      · have hne : a.item ≠ e.item := fun heq =>
          (List.nodup_cons.mp hnodup).1 (heq ▸ List.mem_map_of_mem he)
        rw [firings_cons_ne hne, htail e (hperm.mem_iff.mpr (by simp [he]))]

end Firings

/-- Nothing is fired before the first entry is due, nor what is due later. -/
theorem Fires.bounds {t : ℤ} (h : Fires T l fs l') (hreg : Regular l)
    (ht : ∀ e ∈ l, t ≤ e.time) : ∀ f ∈ fs, t ≤ f.2 ∧ f.2 ≤ T := by
  induction h with
  | idle => exact nofun
  | @once e l _ _ hdue _ _ ih =>
      exact List.forall_mem_cons.mpr
        ⟨⟨ht e (by simp), hdue⟩, ih hreg.tail fun a ha => ht a (by simp [ha])⟩
  | @again e p l _ _ hdue hp _ ih =>
      refine List.forall_mem_cons.mpr ⟨⟨ht e (by simp), hdue⟩, ih hreg.requeue fun a ha => ?_⟩
      rcases List.mem_cons.mp ((requeue_perm _ l).mem_iff.mp ha) with rfl | ha
      · have hle := ht e (by simp)
        have hpos := hreg e (by simp) p hp
        rw [later_time]
        omega
      · exact ht a (by simp [ha])

/-- Entries are fired in the order of the times they are due. -/
theorem Fires.ordered (h : Fires T l fs l') (hl : Sorted l) (hreg : Regular l) :
    fs.Pairwise fun a b => a.2 ≤ b.2 := by
  induction h with
  | idle => exact .nil
  | once _ _ h ih =>
      have hle := (List.pairwise_cons.mp hl).1
      exact .cons (fun f hf => (h.bounds hreg.tail hle f hf).1) (ih hl.tail hreg.tail)
  | @again e p l _ _ _ hp h ih =>
      refine .cons (fun f hf => (h.bounds hreg.requeue (fun a ha => ?_) f hf).1)
        (ih (hl.tail.requeue _) hreg.requeue)
      rcases List.mem_cons.mp ((requeue_perm _ l).mem_iff.mp ha) with rfl | ha
      · have hpos := hreg e (by simp) p hp
        rw [later_time]
        dsimp only
        omega
      · exact (List.pairwise_cons.mp hl).1 a ha

end Agenda

end OpenALRenderer.Foundation
