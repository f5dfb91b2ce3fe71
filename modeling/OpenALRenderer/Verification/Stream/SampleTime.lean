import OpenALRenderer.Foundation.Words
import OpenALRenderer.Verification.Stream.Phases
import Mathlib.Data.Int.Order.Basic

/-! # The time of the samples buffered

`getSampleTime` multiplies in `size_t`, divides by a converted rate, and leaves the offset of the
source out unless it is smaller than the time as a `float`. -/

namespace OpenALRenderer.Stream

open Foundation

variable {β : Type*} {s t : Stream β}

/-! ## The time that is due, and when it is reported -/

/-- The milliseconds that so many frames last, rounded down. -/
def duration (frames : ℕ) (frequency : Int32) : ℤ := ((frames : ℤ) * 1000).fdiv frequency.toInt

/-- A duration, less an offset that is smaller. -/
def less (o : ℕ) (d : ℤ) : ℤ := if (o : ℤ) < d then d - o else d

/-- Without a source there is no offset. -/
def offset (o : WholeFloat) (s : Stream β) : ℕ := if s.source = 0 then 0 else o.toNat

/-- The sample time, in numbers that neither wrap around nor are rounded. -/
def sampleTime (o : WholeFloat) (s : Stream β) : ℤ :=
  less (s.offset o) (duration s.totalBuffered s.frequency)

/-- `getSampleTime` returns the sample time, whatever the offset of the source. -/
def ReportsTime (p : Platform) (s : Stream β) : Prop :=
  ∀ o, ∃ x, s.getSampleTime p o = some x ∧ x.toInt = s.sampleTime o

/-- One result of `getSampleTime` and a later one. -/
def NotBefore : Option Int64 → Option Int64 → Prop
  | some x, some y => x ≤ y
  | _, _ => False

/-- A number that a `float` does not hold becomes a larger one. -/
def NotRoundedDown (n : ℕ) : Prop := n ≤ toFloat n

instance (n : ℕ) : Decidable (NotRoundedDown n) := inferInstanceAs (Decidable (_ ≤ _))

/-- The rate is positive, the product fits in a `size_t` and the quotient in 63 bits, and if there is
a source the quotient is not rounded down where it is compared; or the rate is negative, and nothing
has been buffered. -/
def InRange (p : Platform) (s : Stream β) : Prop :=
  0 < s.frequency.toInt ∧ s.totalBuffered * 1000 < 2 ^ p.sizeBits ∧
      s.totalBuffered * 1000 < 2 ^ 63 * s.frequency.toInt.toNat ∧
      (s.source ≠ 0 → NotRoundedDown (s.totalBuffered * 1000 / s.frequency.toInt.toNat)) ∨
    s.frequency.toInt < 0 ∧ s.totalBuffered = 0

/-- The frames a step adds. -/
def added (s : Stream β) : Label β → ℕ
  | .loop _ =>
      match s.pc with
      | .countQueued => s.locals.availableFrames
      | _ => 0
  | _ => 0

/-- The rate after a step. -/
def rate (s : Stream β) : Label β → Int32
  | .setFrequency f => f
  | _ => s.frequency

/-- From one duration to the next, on one side of the offset, the duration does not fall. If it
passes the offset it grows by the offset at least; if it falls back to the offset, it does so by the
offset at most. -/
def Rises (o : WholeFloat) (s : Stream β) (a : Label β) : Prop :=
  let d := duration s.totalBuffered s.frequency
  let d' := duration (s.totalBuffered + s.added a) (s.rate a)
  if (s.offset o < d ↔ s.offset o < d') then d ≤ d'
  else if s.offset o < d' then d + s.offset o ≤ d'
  else d ≤ d' + s.offset o

/-- Neither `Stop` nor the destructor is called. -/
def Label.Adds : Label β → Prop
  | .stop | .destroy => False
  | _ => True

/-- The steps in which frames are only added and the offset is the same before and after. A type
that is queried may change the rate. -/
def adding (β : Type*) (o : WholeFloat) : System (Stream β) (Label β) where
  init s := s.pc = .notStarted
  step s a t := a.Adds ∧ s.next a = some t ∧ t.offset o = s.offset o

/-! ## One result -/

theorem toSizeT_mul (p : Platform) (n k : ℕ) :
    p.toSizeT (p.toSizeT n * k) = n * k % 2 ^ p.sizeBits := Nat.mod_mul_mod _ _ _

theorem two_pow_le_sizeBits (p : Platform) : 2 ^ 32 ≤ 2 ^ p.sizeBits := by
  cases p <;> decide

/-- What `getSampleTime` makes of a time and of the offset of the source. -/
structure Tells (o : WholeFloat) (s : Stream β) (d n : ℕ) : Prop where
  le : n ≤ d
  whole : s.offset o = 0 → n = d
  late : toFloat d ≤ o.toNat → n = d
  less : (s.source ≠ 0 → NotRoundedDown d) → (n : ℤ) = Stream.less (s.offset o) d

/-- The value that `getSampleTime` returns is a natural number before it is converted. -/
theorem getSampleTime_of_ne {p : Platform} {o : WholeFloat} {f : ℕ} (hf : f ≠ 0)
    (hrate : (s.frequency.toInt % 2 ^ p.sizeBits).toNat = f) :
    ∃ n : ℕ, s.getSampleTime p o = some (Int64.ofNat n) ∧
      Tells o s (s.totalBuffered * 1000 % 2 ^ p.sizeBits / f) n := by
  unfold getSampleTime
  rw [hrate, if_neg hf, toSizeT_mul]
  generalize s.totalBuffered * 1000 % 2 ^ p.sizeBits / f = d
  refine ⟨_, rfl, ?_, fun hzero => ?_, fun hlate => ?_, fun hdown => ?_⟩
  · split <;> omega
  · unfold offset at hzero
    split at hzero
    · next hsource => rw [if_neg fun h => h.1 hsource]
    · rw [hzero]
      split <;> rfl
  · rw [if_neg fun h => Nat.not_lt.mpr hlate h.2]
  · by_cases hsource : s.source = 0
    · rw [if_neg fun h => h.1 hsource, less, offset, if_pos hsource]
      split <;> omega
    · have hlt := o.lt_toFloat_iff (hdown hsource)
      rw [less, offset, if_neg hsource]
      split <;> split <;> omega

theorem toNat_rate_of_pos {p : Platform} (h : 0 < s.frequency.toInt) :
    (s.frequency.toInt % 2 ^ p.sizeBits).toNat = s.frequency.toInt.toNat := by
  have hlt := s.frequency.toInt_lt
  have hge : (2 : ℤ) ^ 32 ≤ 2 ^ p.sizeBits := mod_cast two_pow_le_sizeBits p
  rw [Int.emod_eq_of_lt (Int.le_of_lt h) (by omega)]

/-- A negative rate is a very large one. -/
theorem le_toNat_rate_of_neg {p : Platform} (h : s.frequency.toInt < 0) :
    2 ^ p.sizeBits ≤ (s.frequency.toInt % 2 ^ p.sizeBits).toNat + 2 ^ 31 := by
  have hle := s.frequency.le_toInt
  have hge : (2 : ℤ) ^ 32 ≤ 2 ^ p.sizeBits := mod_cast two_pow_le_sizeBits p
  have hmod : s.frequency.toInt % 2 ^ p.sizeBits = s.frequency.toInt + 2 ^ p.sizeBits := by
    rw [← Int.add_emod_right, Int.emod_eq_of_lt (by omega) (by omega)]
  have hcast : ((2 ^ p.sizeBits : ℕ) : ℤ) = 2 ^ p.sizeBits := by push_cast; rfl
  rw [hmod]
  omega

theorem duration_of_pos {n : ℕ} {f : Int32} (h : 0 < f.toInt) :
    duration n f = ((n * 1000 / f.toInt.toNat : ℕ) : ℤ) := by
  rw [duration, Int.fdiv_eq_ediv_of_nonneg _ (Int.le_of_lt h), Int.natCast_ediv, Int.natCast_mul,
    Int.toNat_of_nonneg (Int.le_of_lt h)]
  rfl

theorem duration_neg {n : ℕ} {f : Int32} (h : f.toInt < 0) (hn : n ≠ 0) : duration n f < 0 := by
  unfold duration
  rw [← Int.neg_fdiv_neg]
  exact Int.fdiv_neg_of_neg_of_pos (by omega) (by omega)

theorem duration_zero (f : Int32) : duration 0 f = 0 := by
  unfold duration
  rw [Int.natCast_zero, Int.zero_mul, Int.zero_fdiv]

theorem offset_zero : s.offset (.ofNat 0) = 0 := by
  unfold offset
  split <;> rfl

theorem sampleTime_zero : s.sampleTime (.ofNat 0) = duration s.totalBuffered s.frequency := by
  rw [sampleTime, offset_zero, less]
  split <;> omega

theorem reportsTime_of_inRange {p : Platform} (h : s.InRange p) : s.ReportsTime p := by
  intro o
  rcases h with ⟨hpos, hfits, hsmall, hdown⟩ | ⟨hneg, hzero⟩
  · obtain ⟨n, hn, htells⟩ := getSampleTime_of_ne (o := o) (by omega) (toNat_rate_of_pos hpos)
    rw [Nat.mod_eq_of_lt hfits] at htells
    have hval := htells.less hdown
    rw [← duration_of_pos hpos] at hval
    have hlt : n < 2 ^ 63 := by
      refine Nat.lt_of_le_of_lt htells.le (Nat.div_lt_of_lt_mul ?_)
      rw [Nat.mul_comm s.frequency.toInt.toNat]
      exact hsmall
    exact ⟨_, hn, by rw [Int64.toInt_ofNat_of_lt hlt, hval, sampleTime]⟩
  · have hlarge := le_toNat_rate_of_neg (p := p) hneg
    have hge := two_pow_le_sizeBits p
    obtain ⟨n, hn, htells⟩ := getSampleTime_of_ne (p := p) (s := s) (o := o) (by omega) rfl
    have hle := htells.le
    simp only [hzero, Nat.zero_mul, Nat.zero_mod, Nat.zero_div, Nat.le_zero] at hle
    subst hle
    refine ⟨_, hn, ?_⟩
    rw [sampleTime, hzero, duration_zero]
    unfold less
    split
    · omega
    · rfl

/-- Reported right whatever the offset, a time is not rounded down: the offset that it is rounded
down to would be left out. -/
theorem notRoundedDown_of_reportsTime {p : Platform} (h : s.ReportsTime p)
    (hpos : 0 < s.frequency.toInt) (hfits : s.totalBuffered * 1000 < 2 ^ p.sizeBits)
    (hsmall : s.totalBuffered * 1000 < 2 ^ 63 * s.frequency.toInt.toNat) (hsource : s.source ≠ 0) :
    NotRoundedDown (s.totalBuffered * 1000 / s.frequency.toInt.toNat) := by
  by_contra hdown
  obtain ⟨x, hx, hval⟩ := h (.ofNat (s.totalBuffered * 1000 / s.frequency.toInt.toNat))
  obtain ⟨n, hn, htells⟩ := getSampleTime_of_ne
    (o := .ofNat (s.totalBuffered * 1000 / s.frequency.toInt.toNat)) (by omega)
    (toNat_rate_of_pos hpos)
  obtain rfl := Option.some.inj (hx.symm.trans hn)
  rw [Nat.mod_eq_of_lt hfits] at htells
  have hlate := htells.late le_rfl
  have hlt : n < 2 ^ 63 := by
    rw [hlate]
    exact Nat.div_lt_of_lt_mul (by rwa [Nat.mul_comm s.frequency.toInt.toNat])
  rw [Int64.toInt_ofNat_of_lt hlt, sampleTime, duration_of_pos hpos, offset, if_neg hsource,
    WholeFloat.toNat_ofNat] at hval
  unfold NotRoundedDown at hdown
  have hzero : 0 < toFloat (s.totalBuffered * 1000 / s.frequency.toInt.toNat) :=
    toFloat_pos (by omega)
  rw [less, if_pos (by omega)] at hval
  omega

theorem inRange_of_reportsTime {p : Platform} (h : s.ReportsTime p) : s.InRange p := by
  obtain ⟨x, hx, hval⟩ := h (.ofNat 0)
  rw [sampleTime_zero] at hval
  rcases Int.lt_trichotomy s.frequency.toInt 0 with hneg | hzero | hpos
  · refine .inr ⟨hneg, ?_⟩
    by_contra hne
    have hbefore := duration_neg hneg hne
    have hlarge := le_toNat_rate_of_neg (p := p) hneg
    have hge := two_pow_le_sizeBits p
    obtain ⟨n, hn, htells⟩ := getSampleTime_of_ne (p := p) (s := s) (o := .ofNat 0) (by omega) rfl
    obtain rfl := Option.some.inj (hx.symm.trans hn)
    have htwo : n < 2 := by
      refine Nat.lt_of_le_of_lt htells.le (Nat.div_lt_of_lt_mul ?_)
      have hmod := Nat.mod_lt (s.totalBuffered * 1000) (Nat.two_pow_pos p.sizeBits)
      omega
    rw [Int64.toInt_ofNat_of_lt (by omega)] at hval
    omega
  · simp [getSampleTime, hzero] at hx
  · obtain ⟨n, hn, htells⟩ :=
      getSampleTime_of_ne (o := .ofNat 0) (by omega) (toNat_rate_of_pos hpos)
    obtain rfl := Option.some.inj (hx.symm.trans hn)
    have hle := htells.le
    rw [duration_of_pos hpos] at hval
    have hsmall := toInt_ofNat_le n
    have hrate : 0 < s.frequency.toInt.toNat := by omega
    have hwrap : s.totalBuffered * 1000 % 2 ^ p.sizeBits / s.frequency.toInt.toNat ≤
        s.totalBuffered * 1000 / s.frequency.toInt.toNat :=
      Nat.div_le_div_right (Nat.mod_le _ _)
    -- The result is at most the wrapped quotient, and so it is neither wrapped nor negative.
    have hsame : n = s.totalBuffered * 1000 / s.frequency.toInt.toNat := by omega
    have hfw : s.frequency.toInt.toNat ≤ 2 ^ p.sizeBits := by
      have hlt := s.frequency.toInt_lt
      have hge := two_pow_le_sizeBits p
      omega
    have hfits : s.totalBuffered * 1000 < 2 ^ p.sizeBits :=
      (mod_div_eq_iff hrate hfw).mp (by omega)
    rw [← hsame] at hval
    have hlt := toInt_ofNat_eq_iff.mp hval
    rw [hsame] at hlt
    have hquotient := (Nat.div_lt_iff_lt_mul hrate).mp hlt
    exact .inl ⟨hpos, hfits, hquotient, notRoundedDown_of_reportsTime h hpos hfits hquotient⟩

theorem reportsTime_iff {p : Platform} : s.ReportsTime p ↔ s.InRange p :=
  ⟨inRange_of_reportsTime, reportsTime_of_inRange⟩

/-! ## One step -/

theorem evaluate_totalBuffered {o : Operands} {x : Operand}
    (hs : s.evaluate o x = some t) : t.totalBuffered = s.totalBuffered := by
  cases x <;> simp only [evaluate] at hs <;> split at hs <;> cases hs <;> rfl

/-- Only the step that counts the buffer it queued adds its frames. -/
theorem loopStep_totalBuffered {c : Choice β} (hs : s.loopStep c = some t) :
    t.totalBuffered = s.totalBuffered + s.added (.loop c) := by
  unfold loopStep at hs
  split at hs
  · unfold advance at hs
    split at hs
    case h_18 hpc => split at hs <;> cases hs <;> simp [added, hpc, goto]
    case h_20 hpc => rw [evaluate_totalBuffered hs, added, hpc]; rfl
    case h_22 => cases hs
    all_goals
      next hpc =>
        cases hs
        simp only [added, hpc, goto, setLocals, Nat.add_zero]
  · next x hx =>
      split at hs <;> cases hs
      have hadded : s.added (.loop c) = 0 := by
        simp only [added]
        split
        · next hpc => simp [call, hpc] at hx
        · rfl
      rw [hadded]
      unfold resume
      split <;> rfl

theorem next_counts {a : Label β} (ha : a.Adds) (hs : s.next a = some t) :
    t.totalBuffered = s.totalBuffered + s.added a ∧ t.frequency = s.rate a := by
  cases a with
  | loop c => exact ⟨loopStep_totalBuffered hs, (loopStep_settings hs).frequency⟩
  | driver n =>
      obtain ⟨al, -, rfl⟩ := Option.map_eq_some_iff.mp hs
      exact ⟨rfl, rfl⟩
  | setFrequency f | setSpeakerLayout l | setBitness b | setStreaming b =>
      obtain rfl := Option.some.inj hs
      exact ⟨rfl, rfl⟩
  | startDevice =>
      obtain ⟨-, rfl | ⟨-, -, rfl⟩⟩ := next_startDevice hs
      · exact ⟨rfl, rfl⟩
      · exact ⟨rfl, rfl⟩
  | stopDevice =>
      obtain rfl := next_stopDevice hs
      exact ⟨rfl, rfl⟩
  | stop | destroy => cases ha

theorem less_le_less_iff {o : ℕ} {d d' : ℤ} : less o d ≤ less o d' ↔
    if (o < d ↔ o < d') then d ≤ d' else if o < d' then d + o ≤ d' else d ≤ d' + o := by
  unfold less
  split <;> split <;> split_ifs <;> omega

theorem sampleTime_le_iff {o : WholeFloat} {a : Label β} (hs : (adding β o).step s a t) :
    s.sampleTime o ≤ t.sampleTime o ↔ s.Rises o a := by
  obtain ⟨ha, hnext, hoffset⟩ := hs
  obtain ⟨htotal, hrate⟩ := next_counts ha hnext
  rw [sampleTime, sampleTime, hoffset, htotal, hrate]
  exact less_le_less_iff

/-! ## Runs -/

theorem notBefore_iff {p : Platform} (hs : s.ReportsTime p) (ht : t.ReportsTime p)
    (o : WholeFloat) :
    NotBefore (s.getSampleTime p o) (t.getSampleTime p o) ↔ s.sampleTime o ≤ t.sampleTime o := by
  obtain ⟨x, hx, hxval⟩ := hs o
  obtain ⟨y, hy, hyval⟩ := ht o
  rw [hx, hy, ← hxval, ← hyval]
  exact Int64.le_iff_toInt_le

/-- A total and a rate are reported right, whatever the offset, if and only if they are in range;
and along a run that only adds frames every report is right and none is before an earlier one, if
and only if they are in range all along and every step rises. -/
theorem sampleTime_iff (p : Platform) (o : WholeFloat) :
    (∀ s : Stream β, s.ReportsTime p ↔ s.InRange p) ∧
      ∀ (s t : Stream β) steps, (adding β o).Run s steps t →
        ((∀ u ∈ System.visited steps t, u.ReportsTime p) ∧
            ((System.visited steps t).map (getSampleTime p o)).Pairwise NotBefore ↔
          (∀ u ∈ System.visited steps t, u.InRange p) ∧ ∀ x ∈ steps, x.1.Rises o x.2) := by
  refine ⟨fun s => reportsTime_iff, fun s t steps hrun => ?_⟩
  simp only [reportsTime_iff]
  refine and_congr_right fun hrange => ?_
  rw [← hrun.pairwise_le_iff hrange
    fun s a t _ hs => sampleTime_le_iff (o := o) hs, List.pairwise_map, List.pairwise_map]
  refine List.Pairwise.iff_of_mem fun hu hv => ?_
  exact notBefore_iff (reportsTime_iff.mpr (hrange _ hu)) (reportsTime_iff.mpr (hrange _ hv)) o

/-! ## Four streams -/

instance (p : Platform) (s : Stream β) : Decidable (s.InRange p) :=
  inferInstanceAs (Decidable (_ ∧ _ ∧ _ ∧ (_ → _) ∨ _ ∧ _))

instance (o : WholeFloat) (s : Stream β) (a : Label β) : Decidable (s.Rises o a) :=
  inferInstanceAs (Decidable (ite _ _ _))

/-- A buffer of 384 frames, 8 milliseconds at 48000 Hertz, has just been queued behind others. -/
def queued (total : ℕ) : Stream Unit where
  al := .opened
  pc := .countQueued
  source := 1
  totalBuffered := total
  locals := { availableFrames := 384 }

/-- The step that counts it. -/
def counting (total : ℕ) : List (Stream Unit × Label Unit) := [(queued total, .loop {})]

theorem counting_run (o : WholeFloat) (total : ℕ) :
    ∃ t, (adding Unit o).Run (queued total) (counting total) t ∧
      t.totalBuffered = total + 384 ∧ t.frequency = 48000 :=
  ⟨_, .cons ⟨trivial, rfl, rfl⟩ (.nil _), rfl, rfl⟩

theorem sampleTime_iff_counting : ∃ t,
    (∀ u ∈ System.visited (counting 2304) t, u.ReportsTime .x64) ∧
      ((System.visited (counting 2304) t).map (getSampleTime .x64 (.ofNat 40))).Pairwise
        NotBefore := by
  obtain ⟨t, hrun, htotal, hrate⟩ := counting_run (.ofNat 40) 2304
  have hiff := (sampleTime_iff .x64 (.ofNat 40)).2 (queued 2304) t (counting 2304) hrun
  refine ⟨t, hiff.mpr ⟨?_, ?_⟩⟩
  · simp only [System.visited, counting, List.map_cons, List.map_nil, List.cons_append,
      List.nil_append, List.forall_mem_cons]
    refine ⟨by decide, ?_, List.forall_mem_nil _⟩
    rw [InRange, htotal, hrate]
    refine .inl ⟨by decide, by decide, by decide, fun _ => ?_⟩
    decide
  · simp only [counting, List.forall_mem_cons]
    exact ⟨by decide, List.forall_mem_nil _⟩

/-- A type that is queried sets the rate to zero, and a report divides by it. After a minute and a
half in 32 bits the report is zero. After four and a half hours an offset of a millisecond less is
left out, as the time is rounded down to it. When the time passes the offset, the report falls
back. -/
theorem sampleTime_goes_back :
    (∃ t, (constructed : Stream Unit).next (.setFrequency 0) = some t ∧
        t.getSampleTime .x64 (.ofNat 0) = none) ∧
      (queued 4294968).getSampleTime .win32 (.ofNat 0) = some 0 ∧
      ¬ (queued 4294968).ReportsTime .win32 ∧
      (queued 805306416).sampleTime (.ofNat 16777216) = 1 ∧
      (queued 805306416).getSampleTime .x64 (.ofNat 16777216) = some 16777217 ∧
      ∃ t, (adding Unit (.ofNat 50)).Run (queued 2304) (counting 2304) t ∧
        ¬ NotBefore ((queued 2304).getSampleTime .x64 (.ofNat 50))
          (t.getSampleTime .x64 (.ofNat 50)) := by
  refine ⟨⟨_, rfl, by decide⟩, by decide, ?_, by decide, by decide, ?_⟩
  · rw [reportsTime_iff]
    decide
  · refine ⟨_, .cons ⟨trivial, rfl, rfl⟩ (.nil _), fun h => ?_⟩
    have hfalls : ¬ (48 : Int64) ≤ 6 := by decide
    exact hfalls h

end OpenALRenderer.Stream
