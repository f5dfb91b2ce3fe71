import OpenALRenderer.Model.Lifetime

/-! # Objects live as long as somebody refers to them

The references to a filter are those of the clients, of its enumerators and of the filters that are
synchronised to its clock. Every call keeps count of them, also while a filter that is deleted releases
its clock and thereby deletes another. -/

namespace OpenALRenderer

open Foundation

namespace Server

/-! ## Who refers to whom -/

/-- Whether the filter has the clock. -/
def uses (p : Counted) (x : FilterObject) : ℕ := if x.pClock = some p then 1 else 0

/-- Whether the enumerator is one of the filter. -/
def enumerates (p : Counted) (e : Enumerator) : ℕ := if p = .filter e.filter then 1 else 0

def one (p q : Counted) : ℕ := if p = q then 1 else 0

@[simp] theorem one_self (p : Counted) : one p p = 1 := if_pos rfl

theorem one_of_ne {p q : Counted} (h : p ≠ q) : one p q = 0 := if_neg h

/-- `AddRef` besides `Release`. -/
def count (p : Counted) (s : Server) : ℤ :=
  match p with
  | .filter f => ((s.filters.get f).map FilterObject.cRef).getD 0
  | .otherClock c => s.otherClocks c

/-- The pointers that clients hold. -/
structure Held where
  factory : ℕ → ℕ := fun _ => 0
  counted : Counted → ℕ := fun _ => 0
  enumerator : ℕ → ℕ := fun _ => 0

namespace Held

def gain (p : Counted) (n : ℕ) (h : Held) : Held :=
  { h with counted := fun q => h.counted q + n * one p q }

def lose (p : Counted) (h : Held) : Held := { h with counted := fun q => h.counted q - one p q }

def gainFactory (i : ℕ) (h : Held) : Held :=
  { h with factory := Function.update h.factory i (h.factory i + 1) }

def loseFactory (i : ℕ) (h : Held) : Held :=
  { h with factory := Function.update h.factory i (h.factory i - 1) }

def gainEnumerator (e : ℕ) (h : Held) : Held :=
  { h with enumerator := Function.update h.enumerator e (h.enumerator e + 1) }

def loseEnumerator (e : ℕ) (h : Held) : Held :=
  { h with enumerator := Function.update h.enumerator e (h.enumerator e - 1) }

end Held

/-- All references are accounted for. There may be some `extra` ones that belong to the call that is
under way, and one that it has released although the pointer is still in a filter. -/
structure Accounts (s : Server) (h : Held) (extra : Counted → ℕ) (released : Option (ℕ × Counted)) :
    Prop where
  counted : ∀ p, s.count p + (released.elim 0 fun w => one w.2 p : ℕ) =
    h.counted p + s.enumerators.total (enumerates p) + s.filters.total (uses p) + extra p
  positive : ∀ f x, s.filters.get f = some x → 0 < x.cRef
  keeper : ∀ w ∈ released, 0 < h.counted (.filter w.1) ∧
    ∃ x, s.filters.get w.1 = some x ∧ x.pClock = some w.2
  factories : ∀ i, (s.factories.get i).getD 0 = h.factory i
  factoryPositive : ∀ i r, s.factories.get i = some r → 0 < r
  enumerators : ∀ e, ((s.enumerators.get e).map Enumerator.cRef).getD 0 = h.enumerator e
  enumeratorPositive : ∀ e x, s.enumerators.get e = some x → 0 < x.cRef
  objects : s.cObjects = s.factories.total (fun _ => 1) + 5 * s.filters.total (fun _ => 1)

/-- A call has nothing of its own. -/
abbrev Settled (s : Server) (h : Held) : Prop := Accounts s h (fun _ => 0) none

variable {s t : Server} {h h' : Held} {extra extra' : Counted → ℕ} {released : Option (ℕ × Counted)}
  {p q : Counted} {f g : ℕ} {x y : FilterObject}

theorem count_filter (hx : s.filters.get f = some x) : s.count (.filter f) = x.cRef := by
  simp [count, hx]

theorem count_putFilter_self (hx : s.filters.get f = some x) (y : Option FilterObject) :
    (s.putFilter f y).count (.filter f) = (y.map FilterObject.cRef).getD 0 := by
  simp [count, putFilter, Slots.get_set_self hx]

theorem count_putFilter_of_ne (hp : p ≠ .filter f) (y : Option FilterObject) :
    (s.putFilter f y).count p = s.count p := by
  cases p with
  | otherClock c => rfl
  | filter g =>
      have hg : g ≠ f := fun heq => hp (heq ▸ rfl)
      simp [count, putFilter, Slots.get_set_of_ne hg]

theorem enumerators_addRef (ht : s.addRef p = some t) : t.enumerators = s.enumerators := by
  cases p with
  | otherClock c => exact Option.some.inj ht ▸ rfl
  | filter f =>
      obtain ⟨x, -, rfl⟩ := Option.map_eq_some_iff.mp ht
      rfl

namespace Accounts

/-- What a released pointer still names is counted among the clocks. -/
theorem released_le (ha : Accounts s h extra released) (p : Counted) :
    (released.elim 0 fun w => one w.2 p) ≤ s.filters.total (uses p) := by
  cases released with
  | none => exact Nat.zero_le _
  | some w =>
      obtain ⟨-, x, hx, hclock⟩ := ha.keeper w rfl
      by_cases hp : w.2 = p
      · have huse : uses p x = 1 := if_pos (hp ▸ hclock)
        have hle := Slots.le_total (c := uses p) hx
        simp only [Option.elim, one, if_pos hp]
        omega
      · simp [one_of_ne hp]

/-- A filter to which there is an extra reference is there. -/
theorem exists_filter (ha : Accounts s h extra released)
    (hpos : 0 < h.counted (.filter f) + s.enumerators.total (enumerates (.filter f)) +
      extra (.filter f)) : ∃ x, s.filters.get f = some x := by
  have hcounted := ha.counted (.filter f)
  have hle := ha.released_le (.filter f)
  cases hx : s.filters.get f with
  | some x => exact ⟨x, rfl⟩
  | none =>
      simp only [count, hx, Option.map_none, Option.getD_none] at hcounted
      omega

/-- A filter is changed, and with it what is accounted for. -/
theorem put (ha : Accounts s h extra released) (hx : s.filters.get f = some x)
    (hclock : y.pClock = x.pClock) (hcRef : 0 < y.cRef)
    (hself : (extra' (.filter f) : ℤ) + x.cRef = extra (.filter f) + y.cRef)
    (hother : ∀ p, p ≠ .filter f → extra' p = extra p) :
    Accounts (s.putFilter f (some y)) h extra' released :=
  { ha with
    counted := fun p => by
      have hcounted := ha.counted p
      have htotal := Slots.total_set (c := uses p) (x := some y) hx
      have huses : uses p y = uses p x := by rw [uses, uses, hclock]
      simp only [Option.map_some, Option.getD_some, huses, add_left_inj] at htotal
      by_cases hp : p = .filter f
      · subst hp
        rw [count_filter hx] at hcounted
        rw [count_putFilter_self hx, Option.map_some, Option.getD_some]
        simp only [putFilter]
        omega
      · rw [count_putFilter_of_ne hp, hother p hp]
        simp only [putFilter]
        omega
    positive := fun g z hz => by
      by_cases hg : g = f
      · subst hg
        obtain rfl := Option.some.inj ((Slots.get_set_self hx).symm.trans hz)
        exact hcRef
      · exact ha.positive g z ((Slots.get_set_of_ne hg).symm.trans hz)
    keeper := fun w hw => by
      obtain ⟨hheld, z, hz, hzclock⟩ := ha.keeper w hw
      refine ⟨hheld, ?_⟩
      by_cases hg : w.1 = f
      · rw [hg] at hz ⊢
        obtain rfl := Option.some.inj (hx.symm.trans hz)
        exact ⟨y, Slots.get_set_self hx, hclock.trans hzclock⟩
      · exact ⟨z, (Slots.get_set_of_ne hg).trans hz, hzclock⟩
    objects := by
      have hobjects := ha.objects
      have htotal := Slots.total_set (c := fun _ => 1) (x := some y) hx
      simp only [Option.map_some, Option.getD_some, add_left_inj] at htotal
      simp only [putFilter, htotal, hobjects] }

/-- Another clock is counted up or down. -/
theorem otherClock {c : ℕ} {n : ℤ} (ha : Accounts s h extra released)
    (hself : (extra' (.otherClock c) : ℤ) + s.otherClocks c = extra (.otherClock c) + n)
    (hother : ∀ p, p ≠ .otherClock c → extra' p = extra p) :
    Accounts { s with otherClocks := Function.update s.otherClocks c n } h extra' released :=
  { ha with
    counted := fun p => by
      have hcounted := ha.counted p
      by_cases hp : p = .otherClock c
      · subst hp
        simp only [count, Function.update_self] at hcounted ⊢
        omega
      · have hcount : count p { s with otherClocks := Function.update s.otherClocks c n } =
            s.count p := by
          cases p with
          | filter g => rfl
          | otherClock d =>
              have hd : d ≠ c := fun heq => hp (heq ▸ rfl)
              simp [count, Function.update_of_ne hd]
        rw [hcount, hother p hp]
        exact hcounted }

/-- `AddRef` to what is there. -/
theorem addRef (ha : Accounts s h extra released)
    (hlive : ∀ f, p = .filter f → ∃ x, s.filters.get f = some x) :
    ∃ t, s.addRef p = some t ∧ Accounts t h (fun q => extra q + one p q) released := by
  cases p with
  | filter f =>
      obtain ⟨x, hx⟩ := hlive f rfl
      have hpos := ha.positive f x hx
      refine ⟨s.putFilter f (some { x with cRef := x.cRef + 1 }), by rw [Server.addRef, hx]; rfl,
        ha.put hx rfl (by dsimp only; omega) ?_ ?_⟩
      · simp only [one_self]
        omega
      · intro p hp
        rw [one_of_ne (Ne.symm hp), add_zero]
  | otherClock c =>
      refine ⟨_, rfl, ha.otherClock ?_ ?_⟩
      · simp only [one_self]
        omega
      · intro p hp
        rw [one_of_ne (Ne.symm hp), add_zero]

/-- A filter that is deleted leaves the reference to its clock. -/
theorem delete (ha : Accounts s h (fun q => extra q + one (.filter f) q) released)
    (hx : s.filters.get f = some x) (hcRef : x.cRef = 1) :
    Accounts { s.putFilter f none with cObjects := s.cObjects - 5 } h
      (fun q => extra q + uses q x) released :=
  { ha with
    counted := fun p => by
      have hcounted := ha.counted p
      have htotal := Slots.total_set (c := uses p) (x := none) hx
      simp only [Option.map_none, Option.getD_none] at htotal
      have hcount : count p { s.putFilter f none with cObjects := s.cObjects - 5 } =
          (s.putFilter f none).count p := by cases p <;> rfl
      rw [hcount]
      by_cases hp : p = .filter f
      · subst hp
        rw [count_filter hx, one_self] at hcounted
        rw [count_putFilter_self hx, Option.map_none, Option.getD_none]
        simp only [putFilter]
        omega
      · rw [one_of_ne (Ne.symm hp)] at hcounted
        rw [count_putFilter_of_ne hp]
        simp only [putFilter]
        omega
    positive := fun g z hz => by
      by_cases hg : g = f
      · subst hg
        cases (Slots.get_set_self hx).symm.trans hz
      · exact ha.positive g z ((Slots.get_set_of_ne hg).symm.trans hz)
    keeper := fun w hw => by
      obtain ⟨hheld, z, hz, hzclock⟩ := ha.keeper w hw
      refine ⟨hheld, z, ?_, hzclock⟩
      -- who has the released pointer is held by a client besides
      have hne : w.1 ≠ f := fun heq => by
        have hcounted := ha.counted (.filter f)
        have hle := ha.released_le (.filter f)
        rw [count_filter hx, one_self] at hcounted
        rw [heq] at hheld
        omega
      exact (Slots.get_set_of_ne hne).trans hz
    objects := by
      have hobjects := ha.objects
      have htotal := Slots.total_set (c := fun _ => 1) (x := none) hx
      simp only [Option.map_none, Option.getD_none] at htotal
      simp only [putFilter]
      omega }

/-- `Release` goes through, whatever it deletes. -/
theorem exists_releaseChain (rounds : ℕ) (ha : Accounts s h (fun q => extra q + one p q) released)
    (hrounds : s.filters.total (fun _ => 1) < rounds) :
    ∃ t, releaseChain rounds p s = some t ∧ Accounts t h extra released := by
  induction rounds generalizing s p extra with
  | zero => omega
  | succ rounds ih =>
      cases p with
      | otherClock c =>
          refine ⟨_, rfl, ha.otherClock ?_ ?_⟩
          · simp only [one_self]
            omega
          · intro p hp
            rw [one_of_ne (Ne.symm hp), add_zero]
      | filter f =>
          obtain ⟨x, hx⟩ := ha.exists_filter (f := f) (by simp only [one_self]; omega)
          have hpos := ha.positive f x hx
          by_cases hcRef : x.cRef - 1 = 0
          · have hdelete := ha.delete hx (by omega)
            have htotal := Slots.total_set (c := fun _ => 1) (x := none) hx
            simp only [Option.map_none, Option.getD_none] at htotal
            cases hclock : x.pClock with
            | none =>
                have huses : (fun q => extra q + uses q x) = extra := funext fun q => by
                  simp [uses, hclock]
                refine ⟨_, ?_, huses ▸ hdelete⟩
                simp [releaseChain, releaseOnce, hx, hcRef, hclock]
            | some p =>
                have huses : (fun q => extra q + uses q x) = fun q => extra q + one p q :=
                  funext fun q => by simp [uses, hclock, one]
                obtain ⟨t, ht, hat⟩ := ih (huses ▸ hdelete) (by
                  simp only [putFilter]
                  omega)
                refine ⟨t, ?_, hat⟩
                simpa [releaseChain, releaseOnce, hx, hcRef, hclock] using ht
          · refine ⟨s.putFilter f (some { x with cRef := x.cRef - 1 }), ?_,
              ha.put hx rfl (by dsimp only; omega) ?_ ?_⟩
            · simp [releaseChain, releaseOnce, hx, hcRef]
            · simp only [one_self]
              omega
            · intro p hp
              rw [one_of_ne (Ne.symm hp), add_zero]

theorem release (ha : Accounts s h (fun q => extra q + one p q) released) :
    ∃ t, s.release p = some t ∧ Accounts t h extra released :=
  ha.exists_releaseChain _ (Nat.lt_succ_of_le (Slots.total_le_size fun _ => le_rfl))

/-- References change hands between a client and a call. -/
theorem shift (ha : Accounts s h extra none)
    (hsum : ∀ p, h'.counted p + extra' p = h.counted p + extra p)
    (hfactory : h'.factory = h.factory) (henumerator : h'.enumerator = h.enumerator) :
    Accounts s h' extra' none :=
  { ha with
    counted := fun p => by
      have hcounted := ha.counted p
      have hp := hsum p
      simp only [Option.elim] at hcounted ⊢
      omega
    keeper := nofun
    factories := hfactory ▸ ha.factories
    enumerators := henumerator ▸ ha.enumerators }

/-- A filter that has been constructed and `AddRef`ed once. -/
theorem construct (ha : Accounts s h extra none) :
    ∃ t, Server.addRef (.filter s.filters.size)
        { s with cObjects := s.cObjects + 5, filters := s.filters.push {} } = some t ∧
      Accounts t h (fun q => extra q + one (.filter s.filters.size) q) none := by
  have hgone : s.filters.get s.filters.size = none := s.filters.beyond _ le_rfl
  refine ⟨{ s with cObjects := s.cObjects + 5, filters := s.filters.push { cRef := 1 } }, ?_, ?_⟩
  · simp [Server.addRef, putFilter, Slots.set_push]
  · exact
      { ha with
        counted := fun p => by
          have hcounted := ha.counted p
          rw [Slots.total_push]
          by_cases hp : p = .filter s.filters.size
          · subst hp
            simp only [count, hgone, Slots.get_push_self, Option.map_some, Option.map_none,
              Option.getD_some, Option.getD_none, one_self, uses, reduceCtorEq, if_false]
              at hcounted ⊢
            omega
          · have hcount : count p { s with
                cObjects := s.cObjects + 5, filters := s.filters.push { cRef := 1 } } =
                s.count p := by
              cases p with
              | otherClock c => rfl
              | filter g =>
                  have hg : g ≠ s.filters.size := fun heq => hp (heq ▸ rfl)
                  simp [count, Slots.get_push_of_ne hg]
            rw [hcount, one_of_ne (Ne.symm hp)]
            simp only [uses, reduceCtorEq, if_false]
            omega
        positive := fun g z hz => by
          by_cases hg : g = s.filters.size
          · subst hg
            obtain rfl := Option.some.inj ((Slots.get_push_self _ s.filters).symm.trans hz)
            exact Int.one_pos
          · exact ha.positive g z ((Slots.get_push_of_ne hg).symm.trans hz)
        keeper := nofun
        objects := by
          have hobjects := ha.objects
          simp only [Slots.total_push]
          omega }

/-- A call that succeeds has made a reference. -/
theorem queryInterface (ha : Accounts s h extra none) (hx : s.filters.get f = some x) (riid : Iid)
    (r : SeekingReplies) :
    ∃ q, s.queryInterface f riid r = some q ∧
      Accounts q.2 h (fun p => extra p + if q.1.failed then 0 else one (.filter f) p) none := by
  have hadd : ∀ {s : Server} {x : FilterObject} {hr : HRESULT}, Accounts s h extra none →
      s.filters.get f = some x → hr.failed = false →
      ∃ q, (s.addRef (.filter f)).map (hr, ·) = some q ∧
        Accounts q.2 h (fun p => extra p + if q.1.failed then 0 else one (.filter f) p) none :=
    fun {s x hr} ha hx hok => by
      obtain ⟨t, ht, hat⟩ := ha.addRef (p := .filter f) fun g hg => ⟨x, Counted.filter.inj hg ▸ hx⟩
      exact ⟨(hr, t), by rw [ht]; rfl, by simpa [hok] using hat⟩
  have hrefuse : ∀ {hr : HRESULT}, hr.failed = true →
      Accounts s h (fun p => extra p + if hr.failed then 0 else one (.filter f) p) none :=
    fun hfailed => by simpa [hfailed] using ha
  cases riid with
  | IMediaSeeking =>
      by_cases hcreated : x.seeking = false ∧ r.created.failed = true
      · exact ⟨(r.created, s), by simp [Server.queryInterface, hx, hcreated.1, hcreated.2],
          hrefuse hcreated.2⟩
      · have hput : Accounts (s.putFilter f (some { x with seeking := true })) h extra none :=
          ha.put hx rfl (ha.positive f x hx) rfl fun _ _ => rfl
        have hget : (s.putFilter f (some { x with seeking := true })).filters.get f =
            some { x with seeking := true } := Slots.get_set_self hx
        by_cases hquery : r.query.failed = true
        · exact ⟨(r.query, s.putFilter f (some { x with seeking := true })),
            by simp [Server.queryInterface, hx, hcreated, hquery], by simpa [hquery] using hput⟩
        · obtain ⟨q, hq, haq⟩ := hadd hput hget (Bool.eq_false_iff.mpr hquery)
          exact ⟨q, by simpa [Server.queryInterface, hx, hcreated, hquery] using hq, haq⟩
  | IClassFactory => exact ⟨(.E_NOINTERFACE, s), by simp [Server.queryInterface, hx], hrefuse rfl⟩
  | other => exact ⟨(.E_NOINTERFACE, s), by simp [Server.queryInterface, hx], hrefuse rfl⟩
  | _ =>
      obtain ⟨q, hq, haq⟩ := hadd ha hx HRESULT.failed_S_OK
      exact ⟨q, by simpa [Server.queryInterface, hx] using hq, haq⟩

/-- A filter gets another clock. The reference to the old one has been released, and there is one to
the new one. -/
theorem setClock {pClock : Option Counted}
    (ha : Accounts s h (fun q => extra q + if pClock = some q then 1 else 0)
      (x.pClock.map fun p => (f, p))) (hx : s.filters.get f = some x) :
    Accounts (s.putFilter f (some { x with pClock })) h extra none :=
  { ha with
    counted := fun p => by
      have hcounted := ha.counted p
      have htotal := Slots.total_set (c := uses p) (x := some { x with pClock }) hx
      have hold : ((x.pClock.map fun p => (f, p)).elim 0 fun w => one w.2 p) = uses p x := by
        cases hclock : x.pClock with
        | none => simp [uses, hclock]
        | some q => simp [uses, hclock, one]
      have hcount : (s.putFilter f (some { x with pClock })).count p = s.count p := by
        by_cases hp : p = .filter f
        · rw [hp, count_putFilter_self hx, count_filter hx]
          rfl
        · exact count_putFilter_of_ne hp _
      have hnew : uses p { x with pClock } = if pClock = some p then 1 else 0 := rfl
      simp only [Option.map_some, Option.getD_some, hnew] at htotal
      rw [hcount]
      rw [hold] at hcounted
      simp only [putFilter, Option.elim]
      omega
    positive := fun g z hz => by
      by_cases hg : g = f
      · subst hg
        obtain rfl := Option.some.inj ((Slots.get_set_self hx).symm.trans hz)
        exact ha.positive g x hx
      · exact ha.positive g z ((Slots.get_set_of_ne hg).symm.trans hz)
    keeper := nofun
    objects := by
      have hobjects := ha.objects
      have htotal := Slots.total_set (c := fun _ => 1) (x := some { x with pClock }) hx
      simp only [Option.map_some, Option.getD_some, add_left_inj] at htotal
      simp only [putFilter, htotal, hobjects] }

theorem setSyncSource (ha : Settled s h) (hheld : 0 < h.counted (.filter f))
    (pClock : Option Counted)
    (hclock : ∀ g, pClock = some (.filter g) → 0 < h.counted (.filter g)) :
    ∃ t, s.setSyncSource f pClock = some t ∧ Settled t h := by
  -- the new clock does not go away
  obtain ⟨s₁, hs₁, ha₁⟩ : ∃ s₁, (pClock.elim (some s) fun p => s.addRef p) = some s₁ ∧
      Accounts s₁ h (fun q => 0 + if pClock = some q then 1 else 0) none := by
    cases pClock with
    | none => exact ⟨s, rfl, by simpa using ha⟩
    | some p =>
        obtain ⟨t, ht, hat⟩ := ha.addRef (p := p) fun g hg =>
          ha.exists_filter (by have := hclock g (hg ▸ rfl); omega)
        exact ⟨t, ht, by simpa [one] using hat⟩
  obtain ⟨x, hx⟩ := ha₁.exists_filter (f := f) (by omega)
  -- the old one is released while the filter still points to it
  obtain ⟨s₂, hs₂, y, hy, hyclock, ha₂⟩ : ∃ s₂, (x.pClock.elim (some s₁) fun p => s₁.release p) = some s₂ ∧
      ∃ y, s₂.filters.get f = some y ∧ y.pClock = x.pClock ∧
        Accounts s₂ h (fun q => 0 + if pClock = some q then 1 else 0)
          (x.pClock.map fun p => (f, p)) := by
    cases hold : x.pClock with
    | none => exact ⟨s₁, rfl, x, hx, hold, ha₁⟩
    | some p =>
        have hstale : Accounts s₁ h (fun q => (0 + if pClock = some q then 1 else 0) + one p q)
            (some (f, p)) :=
          { ha₁ with
            counted := fun q => by
              have hcounted := ha₁.counted q
              simp only [Option.elim] at hcounted ⊢
              omega
            keeper := fun w hw => by
              obtain rfl := Option.some.inj hw
              exact ⟨hheld, x, hx, hold⟩ }
        obtain ⟨t, ht, hat⟩ := hstale.release
        obtain ⟨-, y, hy, hyclock⟩ := hat.keeper _ rfl
        exact ⟨t, ht, y, hy, hyclock, hat⟩
  refine ⟨s₂.putFilter f (some { y with pClock }), ?_, (hyclock ▸ ha₂).setClock hy⟩
  simp [Server.setSyncSource, hs₁, hx, hs₂, hy]

/-! ## Enumerators -/

/-- An enumerator is replaced, and its references are counted. -/
theorem putEnumerator {e : ℕ} {x y : Enumerator} (ha : Accounts s h extra none)
    (hx : s.enumerators.get e = some x) (hfilter : y.filter = x.filter) (hcRef : 0 < y.cRef)
    {n : ℕ} (hn : y.cRef = n) :
    Accounts (s.putEnumerator e (some y))
      { h with enumerator := Function.update h.enumerator e n } extra none :=
  { ha with
    counted := fun p => by
      have hcounted := ha.counted p
      have htotal := Slots.total_set (c := enumerates p) (x := some y) hx
      have hsame : enumerates p y = enumerates p x := by rw [enumerates, enumerates, hfilter]
      have hcount : (s.putEnumerator e (some y)).count p = s.count p := by cases p <;> rfl
      simp only [Option.map_some, Option.getD_some, hsame, add_left_inj] at htotal
      rw [hcount]
      simpa only [Server.putEnumerator, htotal] using hcounted
    keeper := nofun
    enumerators := fun d => by
      by_cases hd : d = e
      · subst hd
        simp [Server.putEnumerator, Slots.get_set_self hx, hn]
      · simpa [Server.putEnumerator, Slots.get_set_of_ne hd, Function.update_of_ne hd] using
          ha.enumerators d
    enumeratorPositive := fun d z hz => by
      by_cases hd : d = e
      · subst hd
        obtain rfl := Option.some.inj ((Slots.get_set_self hx).symm.trans hz)
        exact hcRef
      · exact ha.enumeratorPositive d z ((Slots.get_set_of_ne hd).symm.trans hz) }

/-- An enumerator that is deleted leaves the reference to its filter. -/
theorem deleteEnumerator {e : ℕ} {x : Enumerator} (ha : Accounts s h extra none)
    (hx : s.enumerators.get e = some x) :
    Accounts (s.putEnumerator e none) { h with enumerator := Function.update h.enumerator e 0 }
      (fun q => extra q + one (.filter x.filter) q) none :=
  { ha with
    counted := fun p => by
      have hcounted := ha.counted p
      have htotal := Slots.total_set (c := enumerates p) (x := none) hx
      have hone : enumerates p x = one (.filter x.filter) p := by simp [enumerates, one, eq_comm]
      have hcount : (s.putEnumerator e none).count p = s.count p := by cases p <;> rfl
      simp only [Option.map_none, Option.getD_none, hone] at htotal
      rw [hcount]
      simp only [Server.putEnumerator]
      omega
    keeper := nofun
    enumerators := fun d => by
      by_cases hd : d = e
      · subst hd
        simp [Server.putEnumerator, Slots.get_set_self hx]
      · simpa [Server.putEnumerator, Slots.get_set_of_ne hd, Function.update_of_ne hd] using
          ha.enumerators d
    enumeratorPositive := fun d z hz => by
      by_cases hd : d = e
      · subst hd
        cases (Slots.get_set_self hx).symm.trans hz
      · exact ha.enumeratorPositive d z ((Slots.get_set_of_ne hd).symm.trans hz) }

/-- A new enumerator takes over a reference to its filter. -/
theorem pushEnumerator {pins : Option EnumPins}
    (ha : Accounts s h (fun q => extra q + one (.filter f) q) none) :
    Accounts { s with enumerators := s.enumerators.push { filter := f, pins } }
      (h.gainEnumerator s.enumerators.size) extra none :=
  { ha with
    counted := fun p => by
      have hcounted := ha.counted p
      have hone : enumerates p { filter := f, pins } = one (.filter f) p := by
        simp [enumerates, one, eq_comm]
      have hcount : count p { s with
          enumerators := s.enumerators.push { filter := f, pins } } = s.count p := by
        cases p <;> rfl
      rw [hcount, Slots.total_push, hone]
      simp only [Held.gainEnumerator]
      omega
    keeper := nofun
    enumerators := fun d => by
      have hnone := ha.enumerators s.enumerators.size
      rw [s.enumerators.beyond _ le_rfl, Option.map_none, Option.getD_none] at hnone
      by_cases hd : d = s.enumerators.size
      · subst hd
        simp only [Slots.get_push_self, Option.map_some, Option.getD_some, Held.gainEnumerator,
          Function.update_self]
        omega
      · simpa [Slots.get_push_of_ne hd, Held.gainEnumerator, Function.update_of_ne hd] using
          ha.enumerators d
    enumeratorPositive := fun d z hz => by
      by_cases hd : d = s.enumerators.size
      · subst hd
        obtain rfl := Option.some.inj ((Slots.get_push_self _ s.enumerators).symm.trans hz)
        exact Int.one_pos
      · exact ha.enumeratorPositive d z ((Slots.get_push_of_ne hd).symm.trans hz) }

theorem exists_enumerator {e : ℕ} (ha : Accounts s h extra released) (hheld : 0 < h.enumerator e) :
    ∃ x, s.enumerators.get e = some x ∧ x.cRef = h.enumerator e ∧
      ∃ z, s.filters.get x.filter = some z := by
  have hcount := ha.enumerators e
  cases hx : s.enumerators.get e with
  | none =>
      rw [hx, Option.map_none, Option.getD_none] at hcount
      omega
  | some x =>
      rw [hx] at hcount
      have hone : enumerates (.filter x.filter) x = 1 := if_pos rfl
      have hle := Slots.le_total (c := enumerates (.filter x.filter)) hx
      exact ⟨x, rfl, hcount, ha.exists_filter (by omega)⟩

theorem enumerate (ha : Settled s h) (hx : s.filters.get f = some x) (pins : Option EnumPins) :
    ∃ t, s.enumerate f pins = some t ∧ t.enumerators.size = s.enumerators.size + 1 ∧
      Settled t (h.gainEnumerator s.enumerators.size) := by
  obtain ⟨t, ht, hat⟩ := ha.addRef (p := .filter f) fun g hg => ⟨x, Counted.filter.inj hg ▸ hx⟩
  have hpush : Accounts { t with enumerators := t.enumerators.push { filter := f, pins } }
      (h.gainEnumerator t.enumerators.size) (fun _ => 0) none := hat.pushEnumerator
  rw [enumerators_addRef ht] at hpush
  exact ⟨_, by rw [Server.enumerate, ht, Option.map_some, enumerators_addRef ht], rfl, hpush⟩

theorem releaseEnumerator {e : ℕ} (ha : Settled s h) (hheld : 0 < h.enumerator e) :
    ∃ t, s.releaseEnumerator e = some t ∧ Settled t (h.loseEnumerator e) := by
  obtain ⟨x, hx, hcRef, -⟩ := ha.exists_enumerator hheld
  by_cases hlast : x.cRef - 1 = 0
  · obtain ⟨t, ht, hat⟩ := (ha.deleteEnumerator hx).release
    have hzero : h.enumerator e - 1 = 0 := by omega
    refine ⟨t, by simpa [Server.releaseEnumerator, hx, hlast] using ht, ?_⟩
    rw [Held.loseEnumerator, hzero]
    exact hat
  · have hn : x.cRef - 1 = ((h.enumerator e - 1 : ℕ) : ℤ) := by omega
    exact ⟨s.putEnumerator e (some { x with cRef := x.cRef - 1 }),
      by simp [Server.releaseEnumerator, hx, hlast],
      ha.putEnumerator (y := { x with cRef := x.cRef - 1 }) hx rfl (by dsimp only; omega) hn⟩

theorem addRefPins (pins : List ℕ) (ha : Accounts s h extra none)
    (hx : ∃ x, s.filters.get f = some x) :
    ∃ t, s.addRefPins f pins = some t ∧ t.enumerators = s.enumerators ∧
      Accounts t h (fun q => extra q + pins.length * one (.filter f) q) none := by
  induction pins generalizing s extra with
  | nil => exact ⟨s, rfl, rfl, by simpa using ha⟩
  | cons pin pins ih =>
      obtain ⟨x, hx⟩ := hx
      obtain ⟨t, ht, hat⟩ := ha.addRef (p := .filter f) fun g hg => ⟨x, Counted.filter.inj hg ▸ hx⟩
      obtain ⟨t', ht', hsame, hat'⟩ := ih hat (hat.exists_filter (by simp only [one_self]; omega))
      refine ⟨t', by rw [Server.addRefPins, ht]; exact ht', hsame.trans (enumerators_addRef ht), ?_⟩
      have hsum : (fun q => extra q + one (.filter f) q + pins.length * one (.filter f) q) =
          fun q => extra q + (pin :: pins).length * one (.filter f) q := funext fun q => by
        rw [List.length_cons, Nat.succ_mul]
        omega
      exact hsum ▸ hat'

/-! ## Class factories -/

theorem exists_factory {i : ℕ} (ha : Accounts s h extra released) (hheld : 0 < h.factory i) :
    s.factories.get i = some (h.factory i : ℤ) := by
  have hcount := ha.factories i
  cases hr : s.factories.get i with
  | none =>
      rw [hr, Option.getD_none] at hcount
      omega
  | some r => rw [← hcount, hr, Option.getD_some]

theorem putFactory {i n : ℕ} {r : ℤ} (ha : Accounts s h extra none)
    (hr : s.factories.get i = some r) (hn : 0 < n) :
    Accounts { s with factories := s.factories.set i (some (n : ℤ)) }
      { h with factory := Function.update h.factory i n } extra none :=
  { ha with
    counted := ha.counted
    keeper := nofun
    factories := fun j => by
      by_cases hj : j = i
      · subst hj
        simp [Slots.get_set_self hr]
      · simpa [Slots.get_set_of_ne hj, Function.update_of_ne hj] using ha.factories j
    factoryPositive := fun j z hz => by
      by_cases hj : j = i
      · subst hj
        obtain rfl := Option.some.inj ((Slots.get_set_self hr).symm.trans hz)
        omega
      · exact ha.factoryPositive j z ((Slots.get_set_of_ne hj).symm.trans hz)
    objects := by
      have hobjects := ha.objects
      have htotal := Slots.total_set (c := fun _ => 1) (x := some (n : ℤ)) hr
      simp only [Option.map_some, Option.getD_some, add_left_inj] at htotal
      simp only [htotal, hobjects] }

theorem deleteFactory {i : ℕ} {r : ℤ} (ha : Accounts s h extra none)
    (hr : s.factories.get i = some r) :
    Accounts { s with factories := s.factories.set i none, cObjects := s.cObjects - 1 }
      { h with factory := Function.update h.factory i 0 } extra none :=
  { ha with
    counted := ha.counted
    keeper := nofun
    factories := fun j => by
      by_cases hj : j = i
      · subst hj
        simp [Slots.get_set_self hr]
      · simpa [Slots.get_set_of_ne hj, Function.update_of_ne hj] using ha.factories j
    factoryPositive := fun j z hz => by
      by_cases hj : j = i
      · subst hj
        cases (Slots.get_set_self hr).symm.trans hz
      · exact ha.factoryPositive j z ((Slots.get_set_of_ne hj).symm.trans hz)
    objects := by
      have hobjects := ha.objects
      have htotal := Slots.total_set (c := fun _ => 1) (x := none) hr
      simp only [Option.map_none, Option.getD_none] at htotal
      dsimp only
      omega }

theorem pushFactory (ha : Accounts s h extra none) :
    Accounts { s with cObjects := s.cObjects + 1, factories := s.factories.push 1 }
      (h.gainFactory s.factories.size) extra none :=
  { ha with
    counted := ha.counted
    keeper := nofun
    factories := fun j => by
      have hnone := ha.factories s.factories.size
      rw [s.factories.beyond _ le_rfl, Option.getD_none] at hnone
      by_cases hj : j = s.factories.size
      · subst hj
        simp only [Slots.get_push_self, Option.getD_some, Held.gainFactory, Function.update_self]
        omega
      · simpa [Slots.get_push_of_ne hj, Held.gainFactory, Function.update_of_ne hj] using
          ha.factories j
    factoryPositive := fun j z hz => by
      by_cases hj : j = s.factories.size
      · subst hj
        obtain rfl := Option.some.inj ((Slots.get_push_self _ s.factories).symm.trans hz)
        exact Int.one_pos
      · exact ha.factoryPositive j z ((Slots.get_push_of_ne hj).symm.trans hz)
    objects := by
      have hobjects := ha.objects
      simp only [Slots.total_push]
      omega }

theorem factoryRelease {i : ℕ} (ha : Settled s h) (hheld : 0 < h.factory i) :
    ∃ t, s.factoryRelease i = some t ∧ Settled t (h.loseFactory i) := by
  have hr := ha.exists_factory hheld
  by_cases hlast : (h.factory i : ℤ) - 1 = 0
  · have hzero : h.factory i - 1 = 0 := by omega
    refine ⟨_, by rw [Server.factoryRelease, hr, Option.map_some, if_pos hlast], ?_⟩
    rw [Held.loseFactory, hzero]
    exact ha.deleteFactory hr
  · have hn : ((h.factory i - 1 : ℕ) : ℤ) = h.factory i - 1 := by omega
    refine ⟨_, by rw [Server.factoryRelease, hr, Option.map_some, if_neg hlast], ?_⟩
    rw [← hn]
    exact ha.putFactory hr (by omega)

theorem dllGetClassObject (ha : Settled s h) (rClsID : Guid) (riid : Iid) :
    Settled (s.dllGetClassObject rClsID riid).2
      (if (s.dllGetClassObject rClsID riid).1 = .S_OK then h.gainFactory s.factories.size
        else h) := by
  by_cases hriid : riid ≠ .IUnknown ∧ riid ≠ .IClassFactory
  · rw [Server.dllGetClassObject, if_pos hriid]
    exact ha
  · by_cases hclsid : rClsID = clsidOALRend
    · rw [Server.dllGetClassObject, if_neg hriid, if_pos hclsid]
      exact ha.pushFactory
    · rw [Server.dllGetClassObject, if_neg hriid, if_neg hclsid]
      exact ha

theorem factoryQueryInterface {i : ℕ} (ha : Settled s h) (hheld : 0 < h.factory i) (riid : Iid) :
    ∃ q, s.factoryQueryInterface i riid = some q ∧
      Settled q.2 (if q.1 = .S_OK then h.gainFactory i else h) := by
  have hr := ha.exists_factory hheld
  by_cases hriid : riid = .IUnknown ∨ riid = .IClassFactory
  · refine ⟨_, by rw [Server.factoryQueryInterface, hr, Option.map_some, if_pos hriid], ?_⟩
    exact ha.putFactory hr (Nat.succ_pos _)
  · refine ⟨_, by rw [Server.factoryQueryInterface, hr, Option.map_some, if_neg hriid], ?_⟩
    exact ha

/-- A filter that could not be constructed leaves nothing, and one that is not asked for an interface
that it has is deleted again. -/
theorem createInstance (ha : Settled s h) (riid : Iid) (b : Bases) (r : SeekingReplies) :
    ∃ q, s.createInstance riid b r = some q ∧
      Settled q.2 (if q.1.failed then h else h.gain (.filter s.filters.size) 1) := by
  by_cases hfailed : b.result.failed = true
  · refine ⟨(b.result, s), ?_, by simpa [hfailed] using ha⟩
    simp [Server.createInstance, hfailed]
  · have hobjects : b.objects = 5 := by
      revert hfailed
      rcases b with ⟨pin, schedule, thread⟩
      revert pin schedule thread
      decide
    obtain ⟨t, ht, hat⟩ := ha.construct
    obtain ⟨x, hx⟩ := hat.exists_filter (f := s.filters.size) (by simp only [one_self]; omega)
    obtain ⟨q, hq, haq⟩ := hat.queryInterface hx riid r
    have hsum : (fun p => 0 + one (.filter s.filters.size) p +
          if q.1.failed then 0 else one (.filter s.filters.size) p) =
        fun p => (if q.1.failed then 0 else one (.filter s.filters.size) p) +
          one (.filter s.filters.size) p := funext fun p => by
      rw [zero_add, add_comm]
    obtain ⟨t', ht', hat'⟩ := Accounts.release (hsum ▸ haq)
    refine ⟨(q.1, t'), ?_, ?_⟩
    · simp [Server.createInstance, hfailed, hobjects, ht, hq, ht']
    · by_cases hquery : q.1.failed = true
      · simpa [hquery] using hat'
      · simp only [hquery, Bool.false_eq_true, if_false] at hat' ⊢
        exact hat'.shift (fun p => by simp only [Held.gain]; omega) rfl rfl

/-! ## Any call -/

end Accounts

/-- The pointers that clients get and give back. -/
def noteHeld (h : Held) (s : Server) (a : Label) (t : Server) : Held :=
  match a with
  | .dllGetClassObject rClsID riid =>
      if (s.dllGetClassObject rClsID riid).1 = .S_OK then h.gainFactory s.factories.size else h
  | .factoryQueryInterface i riid =>
      if (s.factoryQueryInterface i riid).any fun q => q.1 = .S_OK then h.gainFactory i else h
  | .factoryRelease i => h.loseFactory i
  | .createInstance _ riid b r =>
      if (s.createInstance riid b r).any fun q => q.1.failed then h
      else h.gain (.filter s.filters.size) 1
  | .addRef f => h.gain (.filter f) 1
  | .release f => h.lose (.filter f)
  | .queryInterface f riid r =>
      if (s.queryInterface f riid r).any fun q => q.1.failed then h else h.gain (.filter f) 1
  | .getSyncSource f => ((s.getSyncSource f).bind Prod.fst).elim h fun p => h.gain p 1
  | .enumPins _ => h.gainEnumerator s.enumerators.size
  | .enumMediaTypes _ => h.gainEnumerator s.enumerators.size
  | .enumAddRef e => h.gainEnumerator e
  | .enumRelease e => h.loseEnumerator e
  | .enumClone _ =>
      if s.enumerators.size < t.enumerators.size then h.gainEnumerator s.enumerators.size else h
  | .enumNext e cPins counted =>
      (s.enumerators.get e).elim h fun x =>
        h.gain (.filter x.filter) (((s.nextPins e cPins counted).map fun r => r.1.length).getD 0)
  | _ => h

/-- Clients only call objects to which they hold pointers, and give back what they hold. -/
def Careful (h : Held) : Label → Bool
  | .dllGetClassObject _ _ => true
  | .factoryQueryInterface i _ => 0 < h.factory i
  | .factoryRelease i => 0 < h.factory i
  | .createInstance i _ _ _ => 0 < h.factory i
  | .lockServer i _ => 0 < h.factory i
  | .addRef f => 0 < h.counted (.filter f)
  | .release f => 0 < h.counted (.filter f)
  | .queryInterface f _ _ => 0 < h.counted (.filter f)
  | .setSyncSource f pClock => 0 < h.counted (.filter f) && pClock.all fun p =>
      match p with
      | .filter g => 0 < h.counted (.filter g)
      | .otherClock _ => true
  | .getSyncSource f => 0 < h.counted (.filter f)
  | .enumPins f => 0 < h.counted (.filter f)
  | .enumMediaTypes f => 0 < h.counted (.filter f)
  | .enumAddRef e => 0 < h.enumerator e
  | .enumRelease e => 0 < h.enumerator e
  | .enumClone e => 0 < h.enumerator e
  | .enumNext e _ _ => 0 < h.enumerator e
  | .enumSkip e _ => 0 < h.enumerator e
  | .enumReset e => 0 < h.enumerator e

namespace Accounts

theorem gain (ha : Accounts s h (fun q => 0 + one p q) none) : Settled s (h.gain p 1) :=
  ha.shift (fun q => by simp only [Held.gain]; omega) rfl rfl

theorem lose (ha : Settled s h) (hheld : 0 < h.counted p) :
    Accounts s (h.lose p) (fun q => 0 + one p q) none := by
  refine ha.shift (fun q => ?_) rfl rfl
  by_cases hq : p = q
  · subst hq
    simp only [Held.lose, one_self]
    omega
  · simp only [Held.lose, one_of_ne hq]
    omega

/-- Asking a filter for an interface, for a client that holds it. -/
theorem query (ha : Settled s h) (hx : s.filters.get f = some x) (riid : Iid)
    (r : SeekingReplies) : ∃ q, s.queryInterface f riid r = some q ∧
      Settled q.2 (if q.1.failed then h else h.gain (.filter f) 1) := by
  obtain ⟨q, hq, haq⟩ := ha.queryInterface hx riid r
  refine ⟨q, hq, ?_⟩
  by_cases hfailed : q.1.failed = true
  · simpa [hfailed] using haq
  · simp only [hfailed, Bool.false_eq_true, if_false] at haq ⊢
    exact haq.shift (fun p => by simp only [Held.gain]; omega) rfl rfl

theorem getSyncSource (ha : Settled s h) (hx : s.filters.get f = some x) :
    ∃ q, s.getSyncSource f = some q ∧ Settled q.2 (q.1.elim h fun p => h.gain p 1) := by
  cases hclock : x.pClock with
  | none => exact ⟨(none, s), by simp [Server.getSyncSource, hx, hclock], ha⟩
  | some p =>
      -- who is synchronised to a clock keeps it
      have huse : uses p x = 1 := if_pos hclock
      have hle := Slots.le_total (c := uses p) hx
      obtain ⟨t, ht, hat⟩ := ha.addRef (p := p) fun g hg => by
        subst hg
        have hcounted := ha.counted (.filter g)
        cases hg : s.filters.get g with
        | some z => exact ⟨z, rfl⟩
        | none =>
            simp only [count, hg, Option.map_none, Option.getD_none, Option.elim] at hcounted
            omega
      exact ⟨(some p, t), by simp [Server.getSyncSource, hx, hclock, ht], hat.gain⟩

theorem cloneEnumerator {e : ℕ} (ha : Settled s h) (hheld : 0 < h.enumerator e) :
    ∃ t, s.cloneEnumerator e = some t ∧
      Settled t (if s.enumerators.size < t.enumerators.size then
        h.gainEnumerator s.enumerators.size else h) := by
  obtain ⟨x, hx, -, z, hz⟩ := ha.exists_enumerator hheld
  have hmade : ∀ pins, ∃ t, s.enumerate x.filter pins = some t ∧
      Settled t (if s.enumerators.size < t.enumerators.size then
        h.gainEnumerator s.enumerators.size else h) := fun pins => by
    obtain ⟨t, ht, hsize, hat⟩ := ha.enumerate hz pins
    exact ⟨t, ht, by rw [if_pos (by omega)]; exact hat⟩
  cases hpins : x.pins with
  | none => simpa [Server.cloneEnumerator, hx, hpins] using hmade none
  | some p =>
      cases hclone : (p.clone inputPins).2 with
      | none => exact ⟨s, by simp [Server.cloneEnumerator, hx, hpins, hclone], by simpa using ha⟩
      | some p' => simpa [Server.cloneEnumerator, hx, hpins, hclone] using hmade (some p')

theorem nextPins {e : ℕ} (ha : Settled s h) (hheld : 0 < h.enumerator e) (cPins : ℕ)
    (counted : Bool) :
    ∃ x r, s.enumerators.get e = some x ∧ s.nextPins e cPins counted = some r ∧
      Settled r.2 (h.gain (.filter x.filter) r.1.length) := by
  obtain ⟨x, hx, hcRef, hz⟩ := ha.exists_enumerator hheld
  cases hpins : x.pins with
  | none =>
      refine ⟨x, ([], s), hx, by simp [Server.nextPins, hx, hpins], ?_⟩
      exact ha.shift (fun q => by simp [Held.gain]) rfl rfl
  | some p =>
      let r := p.next inputPins cPins counted
      obtain ⟨t, ht, hsame, hat⟩ := ha.addRefPins (f := x.filter) r.2.1 hz
      have hx' : t.enumerators.get e = some x := hsame ▸ hx
      have hput := hat.putEnumerator (y := { x with pins := some r.2.2 }) hx' rfl
        (ha.enumeratorPositive e x hx) hcRef
      rw [Function.update_eq_self] at hput
      refine ⟨x, (r.2.1, t.putEnumerator e (some { x with pins := some r.2.2 })), hx, ?_, ?_⟩
      · simp [Server.nextPins, hx, hpins, r, ht]
      · exact hput.shift (fun q => by simp only [Held.gain]; omega) rfl rfl

/-- Only the pins of an enumerator change. -/
theorem movePins {e : ℕ} {x : Enumerator} (ha : Settled s h) (hx : s.enumerators.get e = some x)
    (hcRef : x.cRef = h.enumerator e) (pins : Option EnumPins) :
    Settled (s.putEnumerator e (some { x with pins })) h := by
  have hput := ha.putEnumerator (y := { x with pins }) hx rfl (ha.enumeratorPositive e x hx) hcRef
  rwa [Function.update_eq_self] at hput

/-- What a careful client calls returns, and all references stay accounted for. -/
theorem next {a : Label} (ha : Settled s h) (hcareful : Careful h a = true) :
    ∃ t, s.next a = some t ∧ Settled t (noteHeld h s a t) := by
  have hfilter : ∀ {f}, decide (0 < h.counted (.filter f)) = true →
      ∃ x, s.filters.get f = some x := fun hf => ha.exists_filter (by
    have := of_decide_eq_true hf
    omega)
  cases a with
  | dllGetClassObject rClsID riid =>
      exact ⟨_, rfl, ha.dllGetClassObject rClsID riid⟩
  | factoryQueryInterface i riid =>
      obtain ⟨q, hq, haq⟩ := ha.factoryQueryInterface (of_decide_eq_true hcareful) riid
      exact ⟨q.2, by simp [Server.next, hq], by simpa [noteHeld, hq] using haq⟩
  | factoryRelease i => exact ha.factoryRelease (of_decide_eq_true hcareful)
  | createInstance i riid b r =>
      have hr := ha.exists_factory (of_decide_eq_true hcareful)
      obtain ⟨q, hq, haq⟩ := ha.createInstance riid b r
      exact ⟨q.2, by simp [Server.next, hr, hq], by simpa [noteHeld, hq] using haq⟩
  | lockServer i fLock =>
      have hr := ha.exists_factory (of_decide_eq_true hcareful)
      refine ⟨_, by rw [Server.next, hr, Option.map_some], ?_⟩
      exact { ha with counted := ha.counted, keeper := nofun }
  | addRef f =>
      obtain ⟨x, hx⟩ := hfilter hcareful
      obtain ⟨t, ht, hat⟩ := ha.addRef (p := .filter f) fun g hg =>
        ⟨x, Counted.filter.inj hg ▸ hx⟩
      exact ⟨t, ht, hat.gain⟩
  | release f => exact (ha.lose (of_decide_eq_true hcareful)).release
  | queryInterface f riid r =>
      obtain ⟨x, hx⟩ := hfilter hcareful
      obtain ⟨q, hq, haq⟩ := ha.query hx riid r
      exact ⟨q.2, by simp [Server.next, hq], by simpa [noteHeld, hq] using haq⟩
  | setSyncSource f pClock =>
      obtain ⟨hf, hclock⟩ := Bool.and_eq_true_iff.mp hcareful
      obtain ⟨x, hx⟩ := hfilter hf
      obtain ⟨t, ht, hat⟩ := ha.setSyncSource (of_decide_eq_true hf) pClock
        fun g hg => by
          subst hg
          exact of_decide_eq_true hclock
      exact ⟨t, by simp [Server.next, hx, ht], hat⟩
  | getSyncSource f =>
      obtain ⟨x, hx⟩ := hfilter hcareful
      obtain ⟨q, hq, haq⟩ := ha.getSyncSource hx
      exact ⟨q.2, by simp [Server.next, hq], by simpa [noteHeld, hq] using haq⟩
  | enumPins f =>
      obtain ⟨x, hx⟩ := hfilter hcareful
      obtain ⟨t, ht, -, hat⟩ := ha.enumerate hx (some (.constructed inputPins))
      exact ⟨t, ht, hat⟩
  | enumMediaTypes f =>
      obtain ⟨x, hx⟩ := hfilter hcareful
      obtain ⟨t, ht, -, hat⟩ := ha.enumerate hx none
      exact ⟨t, ht, hat⟩
  | enumAddRef e =>
      obtain ⟨x, hx, hcRef, -⟩ := ha.exists_enumerator (of_decide_eq_true hcareful)
      refine ⟨_, by rw [Server.next, hx, Option.map_some], ?_⟩
      have hpos := ha.enumeratorPositive e x hx
      exact ha.putEnumerator (y := { x with cRef := x.cRef + 1 }) hx rfl (by dsimp only; omega)
        (by dsimp only; omega)
  | enumRelease e => exact ha.releaseEnumerator (of_decide_eq_true hcareful)
  | enumClone e => exact ha.cloneEnumerator (of_decide_eq_true hcareful)
  | enumNext e cPins counted =>
      obtain ⟨x, r, hx, hr, har⟩ := ha.nextPins (of_decide_eq_true hcareful) cPins counted
      exact ⟨r.2, by simp [Server.next, hr], by simpa [noteHeld, hx, hr] using har⟩
  | enumSkip e cPins =>
      obtain ⟨x, hx, hcRef, -⟩ := ha.exists_enumerator (of_decide_eq_true hcareful)
      exact ⟨_, by rw [Server.next, hx, Option.map_some], ha.movePins hx hcRef _⟩
  | enumReset e =>
      obtain ⟨x, hx, hcRef, -⟩ := ha.exists_enumerator (of_decide_eq_true hcareful)
      exact ⟨_, by rw [Server.next, hx, Option.map_some], ha.movePins hx hcRef _⟩

end Accounts

/-! ## Any calls -/

def Loaded (x : Server × Held) : Prop := x = ({}, {})

/-- The module next to the pointers that its clients hold. -/
def holding : System (Server × Held) Label := System.ofNext Loaded (System.record next noteHeld)

theorem settled_loaded : Settled {} {} where
  counted p := by cases p <;> rfl
  positive _ _ hx := by cases hx
  keeper := nofun
  factories _ := rfl
  factoryPositive _ _ hr := by cases hr
  enumerators _ := rfl
  enumeratorPositive _ _ hx := by cases hx
  objects := rfl

theorem settled_of_reachable {x : Server × Held}
    (hx : holding.ReachableWhere (fun x a => Careful x.2 a = true) x) : Settled x.1 x.2 := by
  refine hx.invariant (I := fun x => Settled x.1 x.2) (fun x hx => ?_) fun x a y hI hg hs => ?_
  · obtain rfl := hx
    exact settled_loaded
  · obtain ⟨t, ht, rfl⟩ := Option.map_eq_some_iff.mp hs
    obtain ⟨t', ht', hat⟩ := hI.next hg
    obtain rfl := Option.some.inj (ht.symm.trans ht')
    exact hat

/-- The module may be unloaded exactly when it is not locked and none of its objects is left. Then no
client holds a pointer into it. When clients have let go of all filters and enumerators, the only
filters left are those whose clocks keep each other alive. -/
theorem unloads_when_let_go (x : Server × Held)
    (hx : holding.ReachableWhere (fun x a => Careful x.2 a = true) x) :
    (x.1.dllCanUnloadNow = .S_OK ↔ x.1.cLocked ≤ 0 ∧ (∀ i, x.1.factories.get i = none) ∧
        ∀ f, x.1.filters.get f = none) ∧
      (x.1.dllCanUnloadNow = .S_OK → (∀ i, x.2.factory i = 0) ∧
        (∀ f, x.2.counted (.filter f) = 0) ∧ ∀ e, x.2.enumerator e = 0) ∧
      ((∀ f, x.2.counted (.filter f) = 0) → (∀ e, x.2.enumerator e = 0) →
        ∀ f y, x.1.filters.get f = some y →
          ∃ g z, x.1.filters.get g = some z ∧ z.pClock = some (.filter f)) := by
  have ha := settled_of_reachable hx
  have hunload : x.1.dllCanUnloadNow = .S_OK ↔ x.1.cLocked ≤ 0 ∧
      (∀ i, x.1.factories.get i = none) ∧ ∀ f, x.1.filters.get f = none := by
    have hobjects := ha.objects
    rw [← Slots.total_one_eq_zero, ← Slots.total_one_eq_zero, dllCanUnloadNow]
    split_ifs with hbusy
    · refine iff_of_false (by decide) ?_
      rintro ⟨hlocked, hfactories, hfilters⟩
      omega
    · refine iff_of_true rfl ?_
      omega
  refine ⟨hunload, fun hok => ?_, fun hcounted hheld f y hf => ?_⟩
  · obtain ⟨-, hfactories, hfilters⟩ := hunload.mp hok
    refine ⟨fun i => ?_, fun f => ?_, fun e => ?_⟩
    · have hcount := ha.factories i
      rw [hfactories i, Option.getD_none] at hcount
      omega
    · have hcount := ha.counted (.filter f)
      simp only [count, hfilters f, Option.map_none, Option.getD_none, Option.elim] at hcount
      omega
    · by_contra hne
      obtain ⟨y, -, -, z, hz⟩ := ha.exists_enumerator (Nat.pos_of_ne_zero hne)
      cases (hfilters y.filter).symm.trans hz
  · have hcount := ha.counted (.filter f)
    have hpos := ha.positive f y hf
    have hnone : x.1.enumerators.total (enumerates (.filter f)) = 0 := by
      by_contra hne
      obtain ⟨e, z, he, -⟩ := Slots.exists_of_total_pos (Nat.pos_of_ne_zero hne)
      have hone := ha.enumerators e
      have hlive := ha.enumeratorPositive e z he
      rw [he, Option.map_some, Option.getD_some, hheld e] at hone
      omega
    rw [count_filter hf, hcounted f, hnone] at hcount
    simp only [Option.elim] at hcount
    obtain ⟨g, z, hz, huse⟩ := Slots.exists_of_total_pos (c := uses (.filter f)) (s := x.1.filters)
      (by omega)
    refine ⟨g, z, hz, ?_⟩
    by_contra hne
    rw [uses, if_neg hne] at huse
    omega

/-- Two filters are let go, of which the first has the clock of the second; the first takes the second
with it. -/
theorem unloads_when_let_go_chain : ∃ x : Server × Held,
    x.1.filters.size = 2 ∧ (∀ f, x.1.filters.get f = none) ∧ x.2.factory 0 = 0 := by
  have hrun : (System.exec (System.record next noteHeld) (fun x a => Careful x.2 a = true) ({}, {})
      [.dllGetClassObject clsidOALRend .IClassFactory, .createInstance 0 .IBaseFilter {} {},
        .createInstance 0 .IReferenceClock {} {}, .setSyncSource 0 (some (.filter 1)), .release 1,
        .enumPins 0, .release 0, .factoryRelease 0, .enumNext 0 1 false, .enumRelease 0,
        .release 0]).any fun x => x.1.filters.size = 2 ∧ x.1.dllCanUnloadNow = .S_OK := by
    decide +kernel
  obtain ⟨x, hx, hsize, hok⟩ :=
    System.exists_reachableWhere_of_exec _ (show Loaded ({}, {}) from rfl) hrun
  obtain ⟨hunload, hnobody, -⟩ := unloads_when_let_go x hx
  exact ⟨x, hsize, (hunload.mp hok).2.2, (hnobody hok).1 0⟩

end Server

end OpenALRenderer
