import Mathlib.Data.List.Nodup
import Mathlib.Logic.Function.Basic

/-! # Singly linked lists in memory

A pointer is an `Option`, and `none` is null. An operation that would follow a null pointer, or one
to a cell that is not allocated, has no value. -/

namespace OpenALRenderer.Foundation

universe u

variable {α π : Type u}

/-- A cell of a linked list. -/
structure Cell (α π : Type u) where
  next : Option α
  content : π

/-- What is allocated at each location. -/
abbrev Heap (α π : Type u) := α → Option (Cell α π)

namespace Heap

/-! ## Contents -/

def content (h : Heap α π) (a : α) : Option π := (h a).map Cell.content

theorem content_eq_some {h : Heap α π} {a : α} {x : π} (hx : h.content a = some x) :
    ∃ q, h a = some ⟨q, x⟩ := by
  obtain ⟨⟨q, _⟩, hc, rfl⟩ := Option.map_eq_some_iff.mp hx
  exact ⟨q, hc⟩

/-! ## Paths -/

/-- Following the pointers one comes from `p` through `l` to `q`. -/
inductive Path (h : Heap α π) : Option α → List α → Option α → Prop where
  | nil (p) : Path h p [] p
  | cons {a c l q} (ha : h a = some c) (hl : Path h c.next l q) : Path h (some a) (a :: l) q

variable {h h' : Heap α π} {a b : α} {p q r s : Option α} {l l' : List α}

@[simp] theorem path_nil : h.Path p [] q ↔ p = q := by
  constructor
  · rintro ⟨⟩
    rfl
  · rintro rfl
    exact .nil p

@[simp] theorem path_cons :
    h.Path p (a :: l) q ↔ p = some a ∧ ∃ c, h a = some c ∧ h.Path c.next l q := by
  constructor
  · rintro (_ | ⟨ha, hl⟩)
    exact ⟨rfl, _, ha, hl⟩
  · rintro ⟨rfl, c, ha, hl⟩
    exact .cons ha hl

theorem path_append : h.Path p (l ++ l') r ↔ ∃ q, h.Path p l q ∧ h.Path q l' r := by
  induction l generalizing p with
  | nil => simp
  | cons a l ih =>
      simp only [List.cons_append, path_cons, ih]
      constructor
      · rintro ⟨hp, c, ha, q, hq, hr⟩
        exact ⟨q, ⟨hp, c, ha, hq⟩, hr⟩
      · rintro ⟨q, ⟨hp, c, ha, hq⟩, hr⟩
        exact ⟨hp, c, ha, q, hq, hr⟩

theorem Path.append (hl : h.Path p l q) (hl' : h.Path q l' r) : h.Path p (l ++ l') r :=
  path_append.mpr ⟨q, hl, hl'⟩

theorem Path.tail (hl : h.Path p (a :: b :: l) q) : h.Path (some b) (b :: l) q := by
  obtain ⟨-, c, -, hl⟩ := path_cons.mp hl
  exact (path_cons.mp hl).1 ▸ hl

theorem Path.last (hl : h.Path p (l ++ [a]) q) : ∃ c, h a = some c ∧ c.next = q := by
  obtain ⟨_, -, hback⟩ := path_append.mp hl
  obtain ⟨-, c, hc, hl⟩ := path_cons.mp hback
  exact ⟨c, hc, path_nil.mp hl⟩

/-- A cell of a path that is not its last has a successor. -/
theorem Path.next_isSome (hl : h.Path p (l ++ b :: l') q) (ha : a ∈ l) {c : Cell α π}
    (hc : h a = some c) : c.next.isSome := by
  obtain ⟨l₁, l₂, rfl⟩ := List.append_of_mem ha
  rw [List.append_assoc, List.cons_append, path_append] at hl
  obtain ⟨_, -, hback⟩ := hl
  obtain ⟨-, d, hd, hl⟩ := path_cons.mp hback
  obtain rfl := Option.some.inj (hc.symm.trans hd)
  cases l₂ <;> exact (path_cons.mp hl).1 ▸ rfl

theorem Path.allocated (hl : h.Path p l q) (ha : a ∈ l) : (h a).isSome := by
  obtain ⟨l₁, l₂, rfl⟩ := List.append_of_mem ha
  obtain ⟨_, -, hback⟩ := path_append.mp hl
  obtain ⟨-, c, hc, -⟩ := path_cons.mp hback
  simp [hc]

/-- Only the successors in the cells of a path matter to it. -/
theorem Path.congr (hl : h.Path p l q)
    (hsame : ∀ a ∈ l, (h' a).map Cell.next = (h a).map Cell.next) : h'.Path p l q := by
  induction hl with
  | nil p => exact .nil p
  | @cons a c l q ha hl ih =>
      have hnext : (h' a).map Cell.next = some c.next := by rw [hsame a (by simp), ha]; rfl
      obtain ⟨c', hc', heq⟩ := Option.map_eq_some_iff.mp hnext
      exact .cons hc' (heq ▸ ih fun b hb => hsame b (by simp [hb]))

/-- Cells outside a path do not matter to it. -/
theorem Path.frame (hl : h.Path p l q) (hsame : ∀ a ∈ l, h' a = h a) : h'.Path p l q :=
  hl.congr fun a ha => congrArg _ (hsame a ha)

/-! ## Writing -/

section Writing

variable [DecidableEq α]

/-- `a->content = x`. -/
def write (h : Heap α π) (a : α) (x : π) : Option (Heap α π) :=
  (h a).map fun c => Function.update h a (some { c with content := x })

/-- `delete a`. -/
def free (h : Heap α π) (a : α) : Option (Heap α π) :=
  (h a).map fun _ => Function.update h a none

/-- `a->next = q`. -/
def relink (h : Heap α π) (a : α) (q : Option α) : Option (Heap α π) :=
  (h a).map fun c => Function.update h a (some { c with next := q })

/-- `x->next = a->next; a->next = x`. -/
def insertAfter (h : Heap α π) (a x : α) : Option (Heap α π) := do
  let c ← h a
  let h ← h.relink x c.next
  h.relink a (some x)

/-- `b = a->next; a->next = b->next; return b`. -/
def removeNext (h : Heap α π) (a : α) : Option (α × Heap α π) := do
  let b ← (← h a).next
  let h ← h.relink a (← h b).next
  some (b, h)

/-- Writing leaves every path as it is. -/
theorem exists_write (ha : (h a).isSome) (x : π) : ∃ h', h.write a x = some h' ∧
    (∀ p l q, h.Path p l q → h'.Path p l q) ∧ h'.content a = some x ∧
      (∀ b, b ≠ a → h'.content b = h.content b) ∧
      ∀ b, (h'.content b).isSome = (h.content b).isSome := by
  obtain ⟨c, hc⟩ := Option.isSome_iff_exists.mp ha
  have hframe : ∀ b, b ≠ a → Function.update h a (some { c with content := x }) b = h b :=
    fun b hb => Function.update_of_ne hb _ _
  refine ⟨_, by rw [write, hc, Option.map_some], fun p l q hl => hl.congr fun b _ => ?_,
    by simp [content], fun b hb => congrArg (Option.map Cell.content) (hframe b hb), fun b => ?_⟩
  · by_cases hb : b = a
    · subst hb
      simp [hc]
    · rw [hframe b hb]
  · by_cases hb : b = a
    · subst hb
      simp [content, hc]
    · exact congrArg (fun c => (Option.map Cell.content c).isSome) (hframe b hb)

/-- The cell of a path is given another successor: the way to it goes on where that leads. -/
theorem Path.relink (hl : h.Path p (l ++ [a]) r) (hl' : h.Path q l' s) (ha : a ∉ l)
    (ha' : a ∉ l') : ∃ h', h.relink a q = some h' ∧ h'.Path p (l ++ a :: l') s ∧
      h'.content = h.content ∧ ∀ b, b ≠ a → h' b = h b := by
  obtain ⟨_, hfront, hback⟩ := path_append.mp hl
  obtain ⟨rfl, c, hc, -⟩ := path_cons.mp hback
  have hframe : ∀ b, b ≠ a → Function.update h a (some { c with next := q }) b = h b :=
    fun b hb => Function.update_of_ne hb _ _
  refine ⟨_, by rw [Heap.relink, hc, Option.map_some], ?_, ?_, hframe⟩
  · refine (hfront.frame fun b hb => hframe b (ne_of_mem_of_not_mem hb ha)).append
      (.cons (Function.update_self _ _ _) ?_)
    exact hl'.frame fun b hb => hframe b (ne_of_mem_of_not_mem hb ha')
  · funext b
    by_cases hb : b = a
    · subst hb
      simp [content, hc]
    · simp [content, hframe b hb]

/-- A cell comes to stand behind a cell of a path. -/
theorem Path.insertAfter {x : α} (hl : h.Path p (l ++ a :: l') q) (hx : (h x).isSome)
    (hnodup : (l ++ a :: l').Nodup) (hnot : x ∉ l ++ a :: l') :
    ∃ h', h.insertAfter a x = some h' ∧ h'.Path p (l ++ a :: x :: l') q ∧
      h'.content = h.content ∧ ∀ b, b ≠ a → b ≠ x → h' b = h b := by
  obtain ⟨hal, hal'⟩ := not_or.mp <| List.mem_append.not.mp
    (List.nodup_cons.mp (List.nodup_middle.mp hnodup)).1
  simp only [List.mem_append, List.mem_cons, not_or] at hnot
  obtain ⟨hxl, hxa, hxl'⟩ := hnot
  obtain ⟨_, hfront, hback⟩ := path_append.mp hl
  obtain ⟨rfl, c, hc, hrest⟩ := path_cons.mp hback
  obtain ⟨cx, hcx⟩ := Option.isSome_iff_exists.mp hx
  -- The new cell is linked to what follows, and then the cell of the path to the new one.
  have hcell : h.Path (some x) ([] ++ [x]) cx.next := .cons hcx (.nil _)
  obtain ⟨h₁, hrelink₁, hpath₁, hcontent₁, hframe₁⟩ :=
    hcell.relink hrest List.not_mem_nil hxl'
  have hfront₁ : h₁.Path p (l ++ [a]) c.next :=
    (hfront.append (.cons hc (.nil _))).frame fun b hb => hframe₁ b <| by
      rintro rfl
      rcases List.mem_append.mp hb with hb | hb
      · exact hxl hb
      · exact hxa (List.mem_singleton.mp hb)
  have hax : a ∉ [] ++ x :: l' := by simp [hal', Ne.symm hxa]
  obtain ⟨h₂, hrelink₂, hpath₂, hcontent₂, hframe₂⟩ := hfront₁.relink hpath₁ hal hax
  refine ⟨h₂, ?_, hpath₂, hcontent₂.trans hcontent₁,
    fun b hb hbx => (hframe₂ b hb).trans (hframe₁ b hbx)⟩
  simp [Heap.insertAfter, hc, hrelink₁, hrelink₂]

/-- The cell behind a cell of a path is taken out of it. -/
theorem Path.removeNext {x : α} (hl : h.Path p (l ++ a :: x :: l') q)
    (hnodup : (l ++ a :: x :: l').Nodup) :
    ∃ h', h.removeNext a = some (x, h') ∧ h'.Path p (l ++ a :: l') q ∧
      h'.content = h.content ∧ ∀ b, b ≠ a → h' b = h b := by
  obtain ⟨hal, hal'⟩ := not_or.mp <| List.mem_append.not.mp
    (List.nodup_cons.mp (List.nodup_middle.mp hnodup)).1
  rw [List.mem_cons, not_or] at hal'
  obtain ⟨_, hfront, hback⟩ := path_append.mp hl
  obtain ⟨rfl, c, hc, hrest⟩ := path_cons.mp hback
  obtain ⟨hnext, cx, hcx, hrest⟩ := path_cons.mp hrest
  obtain ⟨h', hrelink, hpath, hcontent, hframe⟩ :=
    (hfront.append (.cons hc (.nil _))).relink hrest hal hal'.2
  refine ⟨h', ?_, hpath, hcontent, hframe⟩
  simp [Heap.removeNext, hc, hnext, hcx, hrelink]

/-- The second cell of a path is moved behind a later one. -/
theorem Path.move {x c : α} {m : List α} {cell : Cell α π}
    (hl : h.Path p (a :: x :: (m ++ b :: c :: l')) q) (hnodup : (a :: x :: (m ++ b :: c :: l')).Nodup)
    (hx : h x = some cell) :
    ∃ h₁ h₂ h₃, h.relink a cell.next = some h₁ ∧ h₁.relink b (some x) = some h₂ ∧
      h₂.relink x (some c) = some h₃ ∧ h₃.Path p (a :: (m ++ b :: x :: c :: l')) q ∧
      h₃.content = h.content ∧ ∀ d, d ≠ a → d ≠ b → d ≠ x → h₃ d = h d := by
  obtain ⟨rfl, ca, ha, hl⟩ := path_cons.mp hl
  obtain ⟨hnext, cx, hcx, hl⟩ := path_cons.mp hl
  obtain rfl := Option.some.inj (hx.symm.trans hcx)
  simp only [List.nodup_cons, List.mem_cons, List.mem_append, not_or] at hnodup
  obtain ⟨⟨hax, ham, hab, hac, hal'⟩, ⟨hxm, hxb, hxc, hxl'⟩, hrest⟩ := hnodup
  have hb := (List.nodup_cons.mp (List.nodup_middle.mp hrest)).1
  simp only [List.mem_append, List.mem_cons, not_or] at hb
  obtain ⟨hbm, hbc, hbl'⟩ := hb
  -- The first cell skips the second.
  obtain ⟨h₁, hrelink₁, hpath₁, hcontent₁, hframe₁⟩ :=
    Path.relink (l := []) (.cons ha (.nil _)) hl List.not_mem_nil (by simp [ham, hab, hac, hal'])
  obtain ⟨_, hfront, hback⟩ := (path_append (l := a :: m)).mp hpath₁
  obtain ⟨rfl, cb, hcb, hback⟩ := path_cons.mp hback
  -- The way to the later cell leads on to the one that is moved,
  obtain ⟨h₂, hrelink₂, hpath₂, hcontent₂, hframe₂⟩ :=
    (hfront.append (.cons hcb (.nil _))).relink (.nil (some x))
      (by simp [hbm, Ne.symm hab]) List.not_mem_nil
  have hx₂ : h₂ x = some cell := by rw [hframe₂ x hxb, hframe₁ x (Ne.symm hax), hx]
  have hback₂ : h₂.Path cb.next (c :: l') q := hback.frame fun d hd => hframe₂ d <| by
    rintro rfl
    simp [hbc, hbl'] at hd
  rw [(path_cons.mp hback).1] at hback₂
  -- and this one to what came behind the later cell.
  obtain ⟨h₃, hrelink₃, hpath₃, hcontent₃, hframe₃⟩ :=
    (hpath₂.append (.cons hx₂ (.nil _))).relink hback₂
      (by simp [Ne.symm hax, hxm, hxb]) (by simp [hxc, hxl'])
  refine ⟨h₁, h₂, h₃, hrelink₁, hrelink₂, hrelink₃, ?_,
    hcontent₃.trans (hcontent₂.trans hcontent₁), fun d hda hdb hdx =>
      (hframe₃ d hdx).trans ((hframe₂ d hdb).trans (hframe₁ d hda))⟩
  simpa using hpath₃

end Writing

/-! ## Seeking -/

/-- The loop `for (;; a = b) { b = a->next; if (stop(b)) break; }`: the last `a` and the last `b`,
if it ends within `n` rounds. -/
def seek (h : Heap α π) (stop : Cell α π → Bool) : ℕ → α → Option (α × α)
  | 0, _ => none
  | n + 1, a => do
      let b ← (← h a).next
      if stop (← h b) then some (a, b) else seek h stop n b

/-- What a round of the loop does on a path. -/
theorem Path.seek_succ (stop : Cell α π → Bool) (n : ℕ)
    (hl : h.Path (some a) (a :: b :: l) q) :
    ∃ c, h b = some c ∧
      h.seek stop (n + 1) a = if stop c then some (a, b) else h.seek stop n b := by
  obtain ⟨-, c, ha, hl⟩ := path_cons.mp hl
  obtain ⟨hnext, d, hb, -⟩ := path_cons.mp hl
  exact ⟨d, hb, by simp [Heap.seek, ha, hnext, hb]⟩

/-- The loop ends at the first cell that stops it. -/
theorem Path.seek {stop : Cell α π → Bool} {n : ℕ} {z : α}
    (hl : h.Path (some a) (a :: (l ++ [z])) q) (hz : ∀ c, h z = some c → stop c = true)
    (hn : l.length < n) :
    ∃ l₁ l₂ k b d, l = l₁ ++ l₂ ∧ a :: l₁ = k ++ [b] ∧ (l₂ ++ [z]).head? = some d ∧
      h.seek stop n a = some (b, d) ∧ (∀ b ∈ l₁, ∀ c, h b = some c → stop c = false) ∧
      ∀ c, h d = some c → stop c = true := by
  obtain ⟨n, rfl⟩ := Nat.exists_eq_succ_of_ne_zero (Nat.ne_of_gt (Nat.zero_lt_of_lt hn))
  induction l generalizing a n with
  | nil =>
      obtain ⟨c, hc, hround⟩ := hl.seek_succ stop n
      rw [hz c hc, if_pos rfl] at hround
      exact ⟨[], [], [], a, z, rfl, rfl, rfl, hround, nofun, hz⟩
  | cons b l ih =>
      obtain ⟨c, hc, hround⟩ := hl.seek_succ stop n
      cases hstop : stop c with
      | true =>
          rw [hstop, if_pos rfl] at hround
          exact ⟨[], b :: l, [], a, b, rfl, rfl, rfl, hround, nofun, fun d hd =>
            Option.some.inj (hc.symm.trans hd) ▸ hstop⟩
      | false =>
          rw [hstop, if_neg Bool.false_ne_true] at hround
          obtain ⟨n, rfl⟩ := Nat.exists_eq_succ_of_ne_zero
            (Nat.ne_of_gt (Nat.zero_lt_of_lt (Nat.lt_of_succ_lt_succ hn)))
          obtain ⟨l₁, l₂, k, e, d, rfl, hk, hd, hseek, hpass, hstops⟩ :=
            ih hl.tail n (Nat.lt_of_succ_lt_succ hn)
          refine ⟨b :: l₁, l₂, a :: k, e, d, rfl, by rw [hk]; rfl, hd, hround.trans hseek, ?_,
            hstops⟩
          rintro e he d hd
          rcases List.mem_cons.mp he with rfl | he
          · exact Option.some.inj (hc.symm.trans hd) ▸ hstop
          · exact hpass e he d hd

end Heap

end OpenALRenderer.Foundation
