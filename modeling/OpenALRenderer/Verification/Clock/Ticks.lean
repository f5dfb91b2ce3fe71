import OpenALRenderer.Foundation.Cyclic
import OpenALRenderer.Foundation.System
import OpenALRenderer.Model.Clock

/-! # Ticks against the time that is reported

`MetGetTime` extrapolates from the last tick, `ClockController` from the last report. -/

namespace OpenALRenderer.StreamClock

open Foundation

/-! ## Calls and runs -/

/-- A call, with the reading of `timeGetTime` it makes. -/
inductive Call where
  | metGetTime (tgt : UInt32)
  | clockController (dwTGT : UInt32)
  deriving DecidableEq, Repr

def next (s : StreamClock) : Call → Option StreamClock
  | .metGetTime tgt => some (s.metGetTime tgt).2
  | .clockController dwTGT => s.clockController dwTGT

/-- `MetGetTime` would not go on from its last report, but repeat it. -/
def Stalls (tgt : UInt32) (s : StreamClock) : Prop := s.newTime tgt < s.dwLastMet

instance (tgt : UInt32) (s : StreamClock) : Decidable (s.Stalls tgt) :=
  inferInstanceAs (Decidable (_ < _))

/-- Whether `MetGetTime` has reported since the last tick that was taken, without a stall the last
time. -/
def note (reported : Bool) (s : StreamClock) (c : Call) (_ : StreamClock) : Bool :=
  match c with
  | .metGetTime tgt => !decide (s.Stalls tgt)
  | .clockController _ => reported && decide s.LongGap

/-- Any sequence of calls, from a constructed stream, with what was reported. A sequence of
readings is one of a clock that never goes backwards, modulo `2 ^ 32`. -/
def ticking : System (StreamClock × Bool) Call :=
  .ofNext (fun x => (∃ r r' n, x.1 = constructed r r' n) ∧ x.2 = false) (System.record next note)

/-! ## A tick that agrees, and the calls that keep it so -/

/-- A tick does not divide by zero, and the time it stores is what `MetGetTime` would have
reported, give or take one. -/
def TickAgrees (s : StreamClock) : Call → Prop
  | .metGetTime _ => True
  | .clockController dwTGT => ∃ t, s.clockController dwTGT = some t ∧
      (¬ s.LongGap → 0 < s.msPerTick → Near 1 t.lastTickTime (s.metGetTime dwTGT).1)

/-- The milliseconds since the last report. -/
def sinceReport (tgt : UInt32) (s : StreamClock) : ℕ := (tgt - s.dwLastTGT).toNat

/-- A tick that is taken has a tempo and a product that fits. The report either stands still, and
so does the tick; or it has gone on since the last tick, which is less than a turn of the counter
ago. -/
def Steady (x : StreamClock × Bool) : Call → Prop
  | .metGetTime _ => True
  | .clockController dwTGT => x.1.LongGap ∨
      x.1.msPerTick ≠ 0 ∧ x.1.sinceReport dwTGT * 625 < 2 ^ 32 ∧
        if x.1.Stalls dwTGT then x.1.sinceReport dwTGT * 625 < 2 * x.1.msPerTick.toNat
        else x.2 = true ∧
          (x.1.dwLastTGT - x.1.lastTickTGT).toNat + x.1.sinceReport dwTGT < 2 ^ 32

/-! ## What a report leaves -/

/-- The last report is the extrapolation from the last tick. -/
def Anchored (s : StreamClock) : Prop := s.dwLastMet = s.newTime s.dwLastTGT

theorem metGetTime_anchored {tgt : UInt32} {s : StreamClock} (h : ¬ s.Stalls tgt) :
    (s.metGetTime tgt).2.Anchored := by
  have hfst : (s.metGetTime tgt).2.dwLastMet = s.newTime tgt := if_neg h
  exact hfst

theorem anchored_next {s t : StreamClock} {c : Call} {reported : Bool}
    (h : reported = true → s.Anchored) (hs : s.next c = some t)
    (hnote : note reported s c t = true) : t.Anchored := by
  cases c with
  | metGetTime tgt =>
      obtain rfl := Option.some.inj hs
      exact metGetTime_anchored (by simpa [note] using hnote)
  | clockController dwTGT =>
      obtain ⟨hreported, hgap⟩ : reported = true ∧ s.LongGap := by simpa [note] using hnote
      have hsame : s.clockController dwTGT = some { s with samplesSinceTick := 0 } := if_pos hgap
      obtain rfl := Option.some.inj (hsame.symm.trans hs)
      exact h hreported

theorem anchored_of_reachable {guard : StreamClock × Bool → Call → Prop} {x : StreamClock × Bool}
    (h : ticking.ReachableWhere guard x) : x.2 = true → x.1.Anchored := by
  refine h.invariant (I := fun x => x.2 = true → x.1.Anchored) ?_ ?_
  · rintro x ⟨-, hx⟩ hreported
    rw [hx] at hreported
    cases hreported
  · rintro x c y hx - hstep hy
    obtain ⟨t, ht, rfl⟩ := Option.map_eq_some_iff.mp hstep
    exact anchored_next hx ht hy

/-! ## What a tick stores -/

theorem clockController_of_tick {s : StreamClock} (hgap : ¬ s.LongGap)
    (htempo : s.msPerTick ≠ 0) (dwTGT : UInt32) : ∃ t, s.clockController dwTGT = some t ∧
      t.lastTickTime = s.dwLastMet + (dwTGT - s.dwLastTGT) * 625 / s.msPerTick := by
  simp [clockController, hgap, htempo]

/-- The 32-bit extrapolation from the last report, when the product fits. -/
theorem toNat_extrapolation {dwTGT : UInt32} {s : StreamClock}
    (hfits : s.sinceReport dwTGT * 625 < 2 ^ 32) :
    (dwTGT - s.dwLastTGT) * 625 / s.msPerTick =
      (s.sinceReport dwTGT * 625 / s.msPerTick.toNat).toUInt32 := by
  have hmul : ((dwTGT - s.dwLastTGT) * 625).toNat = s.sinceReport dwTGT * 625 := by
    rw [UInt32.toNat_mul]
    exact Nat.mod_eq_of_lt hfits
  apply UInt32.toNat_inj.mp
  rw [UInt32.toNat_div, hmul, Nat.toUInt32, UInt32.toNat_ofNat']
  have hle := Nat.div_le_self (s.sinceReport dwTGT * 625) s.msPerTick.toNat
  exact (Nat.mod_eq_of_lt (Nat.lt_of_le_of_lt hle hfits)).symm

/-- The tempo, spread over two stretches of time, loses at most one. -/
theorem div_add_div_le (g e : ℕ) {k : ℕ} (hk : 0 < k) :
    g * 625 / k + e * 625 / k ≤ (g + e) * 625 / k ∧
      (g + e) * 625 / k ≤ g * 625 / k + e * 625 / k + 1 := by
  rw [Nat.add_mul, Nat.add_div hk]
  split <;> omega

/-- A tick agrees with a report that goes on from the last one. -/
theorem near_of_anchored {dwTGT : UInt32} {s : StreamClock} (hanchored : s.Anchored)
    (htempo : s.msPerTick ≠ 0)
    (hturn : (s.dwLastTGT - s.lastTickTGT).toNat + s.sinceReport dwTGT < 2 ^ 32) :
    Near 1 (s.dwLastMet + (s.sinceReport dwTGT * 625 / s.msPerTick.toNat).toUInt32)
      (s.newTime dwTGT) := by
  have hk : 0 < s.msPerTick.toNat := by
    have hne : s.msPerTick.toNat ≠ 0 := fun h => htempo (UInt32.toNat_inj.mp h)
    omega
  have hsum := toNat_sub_trans hturn
  obtain ⟨hle, hlt⟩ := div_add_div_le (s.dwLastTGT - s.lastTickTGT).toNat (s.sinceReport dwTGT) hk
  rw [hanchored, newTime, newTime, fudge, fudge, if_pos htempo, if_pos htempo, hsum,
    UInt32.add_assoc]
  change Near 1 (s.lastTickTime + (UInt32.ofNat _ + UInt32.ofNat _)) _
  rw [← UInt32.ofNat_add]
  exact near_add hle hlt

/-- A tick agrees with a report that stands still when it stands still itself. -/
theorem near_of_stalls {dwTGT : UInt32} {s : StreamClock}
    (hstands : s.sinceReport dwTGT * 625 < 2 * s.msPerTick.toNat) :
    Near 1 (s.dwLastMet + (s.sinceReport dwTGT * 625 / s.msPerTick.toNat).toUInt32)
      s.dwLastMet := by
  have hlt : s.sinceReport dwTGT * 625 / s.msPerTick.toNat < 2 :=
    Nat.div_lt_of_lt_mul (by omega)
  have hnear := near_add (x := s.dwLastMet) (Nat.zero_le _) (Nat.le_of_lt_succ hlt)
  rw [show Nat.toUInt32 0 = 0 from rfl, UInt32.add_zero] at hnear
  exact hnear.symm

theorem tickAgrees_of_steady {x : StreamClock × Bool} {c : Call}
    (hx : x.2 = true → x.1.Anchored) (h : Steady x c) : x.1.TickAgrees c := by
  cases c with
  | metGetTime tgt => trivial
  | clockController dwTGT =>
      by_cases hgap : x.1.LongGap
      · exact ⟨_, if_pos hgap, fun hnot => absurd hgap hnot⟩
      obtain ⟨htempo, hfits, hreport⟩ := h.resolve_left hgap
      obtain ⟨t, ht, hstored⟩ := clockController_of_tick hgap htempo dwTGT
      refine ⟨t, ht, fun _ _ => ?_⟩
      rw [hstored, toNat_extrapolation hfits]
      by_cases hstalls : x.1.Stalls dwTGT
      · rw [if_pos hstalls] at hreport
        have hrepeat : (x.1.metGetTime dwTGT).1 = x.1.dwLastMet := if_pos hstalls
        rw [hrepeat]
        exact near_of_stalls hreport
      · rw [if_neg hstalls] at hreport
        have hgoes : (x.1.metGetTime dwTGT).1 = x.1.newTime dwTGT := if_neg hstalls
        rw [hgoes]
        exact near_of_anchored (hx hreport.1) htempo hreport.2

/-- In every run whose ticks are steady, every further steady tick agrees with the reported
time. -/
theorem ticks_agree {x : StreamClock × Bool} {c : Call} (h : ticking.ReachableWhere Steady x)
    (hc : Steady x c) : x.1.TickAgrees c :=
  tickAgrees_of_steady (anchored_of_reachable h) hc

/-! ## Two runs -/

instance (x : StreamClock × Bool) (c : Call) : Decidable (Steady x c) :=
  match c with
  | .metGetTime _ => inferInstanceAs (Decidable True)
  | .clockController _ => inferInstanceAs (Decidable (_ ∨ _ ∧ _ ∧ ite _ _ _))

/-- A tick, with a report before and after it. -/
def reports : List Call := [.metGetTime 1100, .clockController 1200, .metGetTime 1300]

theorem steady_reachable : ∃ x, ticking.ReachableWhere Steady x ∧
    Steady x (.clockController 1400) := by
  refine System.exists_reachableWhere_of_exec reports (s := (constructed 1000 1000 100, false))
    ⟨⟨_, _, _, rfl⟩, rfl⟩ ?_
  decide

theorem ticks_agree_reports : ∃ x, ticking.ReachableWhere Steady x ∧
    x.1.TickAgrees (.clockController 1400) := by
  obtain ⟨x, hx, hc⟩ := steady_reachable
  exact ⟨x, hx, ticks_agree hx hc⟩

/-- A first tick stores a time that no report would have given, and a second one divides by
zero. -/
theorem ticks_disagree :
    ¬ (constructed 1000 1000 0).TickAgrees (.clockController 1100) ∧
      ∃ t, (constructed 1000 1000 0).clockController 1100 = some t ∧
        t.clockController 1200 = none := by
  refine ⟨?_, _, rfl, by decide⟩
  rintro ⟨t, ht, hnear⟩
  cases ht
  exact absurd (hnear (by decide) (by decide)) (by decide)

end OpenALRenderer.StreamClock
