import OpenALRenderer.Foundation.Cyclic
import OpenALRenderer.Foundation.Words
import OpenALRenderer.Model.Clock

/-! # What `SetSyncSource` hands over to the stream's clock

`SetSyncSource` writes the members of the derived class; `GetPrivateTime` reads those of the base
class, which have the same names. -/

namespace OpenALRenderer

open Foundation

/-! ## Words of 32 bits in 64 -/

theorem toInt_dwordToInt64 (x : UInt32) : (dwordToInt64 x).toInt = x.toNat :=
  toInt_toUInt64_toInt64 x

theorem toInt_mul_dwordToInt64 (x : UInt32) :
    (10000 * dwordToInt64 x).toInt = 10000 * x.toNat := by
  have hx := x.toNat_lt
  rw [Int64.toInt_mul, toInt_dwordToInt64]
  change Int.bmod (10000 * _) _ = _
  exact Int.bmod_eq_of_le (by omega) (by omega)

/-- A word that is taken as signed is half a turn behind. -/
theorem dwordToInt64_add_half (x : UInt32) :
    dwordToInt64 (x + 2147483648) = x.toInt32.toInt64 + 2147483648 := by
  have hx := x.toNat_lt
  apply Int64.toInt_inj.mp
  rw [Int64.toInt_add, toInt_dwordToInt64, Int32.toInt_toInt64, toInt_toInt32, UInt32.toNat_add]
  change (((x.toNat + 2147483648) % 2 ^ 32 : ℕ) : ℤ) = Int.bmod (_ + 2147483648) _
  rw [Int.bmod_def]
  omega

theorem eq_zero_of_mul_add_mul {x y : UInt32}
    (h : 10000 * dwordToInt64 x + 10000 * dwordToInt64 y = 0) : x = 0 := by
  have hx := x.toNat_lt
  have hy := y.toNat_lt
  have hsum := congrArg Int64.toInt h
  rw [Int64.toInt_add, toInt_mul_dwordToInt64, toInt_mul_dwordToInt64,
    Int.bmod_eq_of_le (by omega) (by omega)] at hsum
  change _ = (0 : ℤ) at hsum
  apply UInt32.toNat_inj.mp
  change _ = 0
  omega

/-- Half a turn forward is half a turn back. -/
theorem sub_add_half (x y : UInt32) : x - y + 2147483648 = x - (y + 2147483648) := by
  have hx := x.toNat_lt
  have hy := y.toNat_lt
  apply UInt32.toNat_inj.mp
  rw [UInt32.toNat_add, UInt32.toNat_sub, UInt32.toNat_sub, UInt32.toNat_add]
  change (_ + 2147483648) % 2 ^ 32 = (2 ^ 32 - (_ + 2147483648) % 2 ^ 32 + _) % 2 ^ 32
  omega

theorem toInt32_toInt64_sub (x y : UInt32) : (x - y).toInt32.toInt64 =
    dwordToInt64 (x - (y + 2147483648)) - 2147483648 := by
  rw [← sub_add_half, dwordToInt64_add_half, Int64.add_sub_cancel]

/-- A clock that takes the time since `p` as signed tells the time of one that counts from `m` on
when the two are half a turn apart. -/
theorem signed_eq_unsigned_iff {now t : Int64} {p m : UInt32} :
    (∀ T : UInt32, now + 10000 * (T - p).toInt32.toInt64 = t + 10000 * dwordToInt64 (T - m)) ↔
      p + 2147483648 = m ∧ now = t + 10000 * 2147483648 := by
  simp only [toInt32_toInt64_sub]
  generalize p + 2147483648 = q, (2147483648 : Int64) = half
  have hzero : dwordToInt64 0 = 0 := rfl
  constructor
  · intro h
    have hq := h q
    have hm := h m
    rw [UInt32.sub_self, hzero] at hq hm
    have hsum : 10000 * dwordToInt64 (q - m) + 10000 * dwordToInt64 (m - q) = 0 := by grind
    have hdiff := eq_zero_of_mul_add_mul hsum
    rw [hdiff, hzero] at hq
    exact ⟨by grind, by grind⟩
  · rintro ⟨rfl, rfl⟩ T
    grind

namespace StreamClock

/-! ## Going on from the time that is handed over -/

/-- The clock that `SetSyncSource` asks for its time. -/
def asked (clock : RefClock) (s : StreamClock) : Option RefClock :=
  match clock with
  | .own => s.currentRefClock
  | .other id => some (.other id)

/-- The system time noted is between the two readings, and from there the clock goes on from
`t`. -/
structure HandsOver (x : Meeting) (clock : RefClock) (t : Int64) (s : StreamClock) : Prop where
  between : Between x.before (s.setSyncSource x (some clock)).dwPrevSystemTime x.after
  continues : ∀ T, ((s.setSyncSource x (some clock)).getPrivateTime T).1 =
    t + 10000 * dwordToInt64 (T - (s.setSyncSource x (some clock)).dwPrevSystemTime)

/-! ## What `SetSyncSource` leaves -/

/-- A clock that answers leaves its answer in the derived class and the time it was asked at, as
halved, next to it; the base class is left as the clock asked leaves it. -/
theorem setSyncSource_spec {x : Meeting} {clock c : RefClock} {s : StreamClock}
    (hasked : s.asked clock = some c) (hr : (s.getTime x c).1.failed = false) :
    (s.setSyncSource x (some clock)).dwPrevSystemTime = (x.before + x.after) / 2 ∧
      (s.setSyncSource x (some clock)).rtPrivateTime = (s.getTime x c).2.1 ∧
      (s.setSyncSource x (some clock)).base = (s.getTime x c).2.2.base := by
  cases clock with
  | own =>
      simp only [asked] at hasked
      cases c with
      | own =>
          simp only [getTime] at hr
          simp [setSyncSource, getTime, hasked, hr, halve]
      | other id =>
          simp only [getTime] at hr
          simp [setSyncSource, getTime, hasked, hr, halve]
  | other id =>
      obtain rfl := Option.some.inj hasked
      exact ⟨rfl, rfl, rfl⟩

/-- The clock is handed over if and only if the readings wrap just if their sum does, or are a
whole turn apart but one; and what the base class holds comes, by a coincidence of half a turn, to
the same. -/
theorem handsOver_iff {x : Meeting} {clock c : RefClock} {s : StreamClock}
    (hasked : s.asked clock = some c) (hr : (s.getTime x c).1.failed = false) :
    s.HandsOver x clock (s.getTime x c).2.1 ↔
      ((x.before ≤ x.after ∧ x.before.toNat + x.after.toNat < 2 ^ 32) ∨
          (x.after < x.before ∧ 2 ^ 32 ≤ x.before.toNat + x.after.toNat) ∨
          x.before.toNat = x.after.toNat + 1) ∧
        (s.getTime x c).2.2.base.dwPrevSystemTime + 2147483648 = (x.before + x.after) / 2 ∧
        (s.getTime x c).2.2.base.rtPrivateTime = (s.getTime x c).2.1 + 10000 * 2147483648 := by
  obtain ⟨hprev, -, hbase⟩ := setSyncSource_spec hasked hr
  rw [← between_half_sum_iff, ← signed_eq_unsigned_iff]
  constructor
  · rintro ⟨hbetween, hcontinues⟩
    rw [hprev] at hbetween
    refine ⟨hbetween, fun T => ?_⟩
    have h := hcontinues T
    rw [hprev] at h
    simpa only [getPrivateTime, BaseReferenceClock.getPrivateTime, hbase] using h
  · rintro ⟨hbetween, hcontinues⟩
    refine ⟨by rwa [hprev], fun T => ?_⟩
    rw [hprev]
    simpa only [getPrivateTime, BaseReferenceClock.getPrivateTime, hbase] using hcontinues T

/-! ## Two clocks -/

/-- Another clock is asked between two readings, and says that it is a minute. -/
def minute (before after : UInt32) : Meeting := ⟨before, after, 0, .S_OK, 600000000⟩

theorem handsOver_iff_minute :
    (constructed 900 900 0).HandsOver (minute 1000 1002) (.other 0) 600000000 ↔
      (((1000 : UInt32) ≤ 1002 ∧ (1000 : UInt32).toNat + (1002 : UInt32).toNat < 2 ^ 32) ∨
          ((1002 : UInt32) < 1000 ∧ 2 ^ 32 ≤ (1000 : UInt32).toNat + (1002 : UInt32).toNat) ∨
          (1000 : UInt32).toNat = (1002 : UInt32).toNat + 1) ∧
        (900 : UInt32) + 2147483648 = (1000 + 1002) / 2 ∧
        10000 * dwordToInt64 900 = 600000000 + 10000 * 2147483648 :=
  handsOver_iff (c := .other 0) rfl rfl

/-- The clock goes on from what the base class holds; and past half of the range the time noted is
not between the readings. -/
theorem not_handsOver :
    (((constructed 900 900 0).setSyncSource (minute 1000 1002) (some (.other 0))).getPrivateTime
        2001).1 = 20010000 ∧
      ¬ (constructed 900 900 0).HandsOver (minute 1000 1002) (.other 0) 600000000 ∧
      ¬ Between 2147483648 ((constructed 900 900 0).setSyncSource (minute 2147483648 2147483650)
        (some (.other 0))).dwPrevSystemTime 2147483650 := by
  have hnow : (((constructed 900 900 0).setSyncSource (minute 1000 1002)
      (some (.other 0))).getPrivateTime 2001).1 = 20010000 := by decide
  refine ⟨hnow, fun h => ?_, by decide⟩
  have hlater := h.continues 2001
  rw [hnow] at hlater
  exact absurd hlater (by decide)

end StreamClock

end OpenALRenderer
