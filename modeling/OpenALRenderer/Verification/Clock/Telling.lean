import OpenALRenderer.Foundation.Words
import OpenALRenderer.Verification.Clock.Pending

/-! # The time that the clock tells

`GetPrivateTime` adds up the differences of readings that wrap around after some 49 days, on behalf
of whoever calls `GetTime` and of the thread. Next to it runs a clock that counts the milliseconds
without wrapping. -/

namespace OpenALRenderer

open Foundation

/-- What `GetTime` answered, and the time at which the clock stood. -/
structure Answer where
  hr : HRESULT
  time : Int64
  stood : Int64
  deriving DecidableEq

/-- The milliseconds that have passed, all deltas, and the answers of `GetTime`. -/
structure Telling where
  now : ℕ
  delta : Int64 := 0
  told : List Answer := []

namespace Telling

/-- The time without wrapping. -/
def time (g : Telling) : Int64 := 10000 * Int64.ofNat g.now + g.delta

/-- The next time at which `timeGetTime` returns the reading. -/
def advance (dwTime : UInt32) (g : Telling) : Telling :=
  { g with now := g.now + (dwTime - UInt32.ofNat g.now).toNat }

/-- The latest time at which the clock has stood when it was asked. -/
def latest (l : List Answer) : Int64 := (l.map Answer.stood).foldl max 0

theorem latest_concat (l : List Answer) (a : Answer) :
    latest (l ++ [a]) = max (latest l) a.stood := by simp [latest]

end Telling

namespace AdviseClock

variable {p : Platform} {s t : AdviseClock} {g : Telling}

def noteTime (g : Telling) (s : AdviseClock) (a : Label) (_ : AdviseClock) : Telling :=
  match a, s.pc with
  | .getTime dwTime, _ =>
      let r := s.base.getTime dwTime
      let g' := g.advance dwTime
      { g' with told := g.told ++ [{ hr := r.1, time := r.2.1, stood := g'.time }] }
  | .setTimeDelta timeDelta, _ => { g with delta := g.delta + timeDelta }
  | .thread x, .getPrivateTime => g.advance x.dwTime
  | _, _ => g

/-- The clock is started. -/
def Starts (x : AdviseClock × Telling) : Prop :=
  x.1.Init ∧ x.2 = { now := x.1.base.dwPrevSystemTime.toNat }

/-- The clock next to one that does not wrap. -/
def telling (p : Platform) : System (AdviseClock × Telling) Label :=
  .ofNext Starts (System.record (next p) noteTime)

/-- It is not 2^31 milliseconds since the clock was last read. -/
def Soon (dwTime : UInt32) (b : BaseReferenceClock) : Prop :=
  (dwTime - b.dwPrevSystemTime).toNat < 2 ^ 31

instance (dwTime : UInt32) (b : BaseReferenceClock) : Decidable (Soon dwTime b) :=
  inferInstanceAs (Decidable (_ < _))

/-- The clock is read often enough. -/
def Often (s : AdviseClock) : Label → Prop
  | .getTime dwTime => Soon dwTime s.base
  | .thread x => s.pc = .getPrivateTime → Soon x.dwTime s.base
  | _ => True

instance (s : AdviseClock) : ∀ a, Decidable (Often s a)
  | .getTime dwTime => inferInstanceAs (Decidable (Soon dwTime s.base))
  | .thread x => inferInstanceAs (Decidable (_ → Soon x.dwTime s.base))
  | .adviseTime _ _ _ | .advisePeriodic _ _ _ | .unadvise _ | .setTimeDelta _ | .destroy =>
      inferInstanceAs (Decidable True)

/-! ## Reading the clock -/

/-- The base class agrees with the clock that does not wrap. -/
structure Agrees (b : BaseReferenceClock) (g : Telling) : Prop where
  prev : b.dwPrevSystemTime = UInt32.ofNat g.now
  stands : b.rtPrivateTime = g.time
  last : b.rtLastGotTime = Telling.latest g.told

/-- A difference of less than half a turn is what it is as a signed word. -/
theorem toInt64_toInt32 {x : UInt32} (h : x.toNat < 2 ^ 31) :
    x.toInt32.toInt64 = Int64.ofNat x.toNat := by
  apply Int64.toInt_inj.mp
  rw [Int32.toInt_toInt64, toInt_toInt32, if_pos h, Int64.toInt_ofNat_of_lt (by omega)]

theorem Agrees.getPrivateTime {b : BaseReferenceClock} {dwTime : UInt32} (h : Agrees b g)
    (hsoon : Soon dwTime b) : (b.getPrivateTime dwTime).1 = (g.advance dwTime).time ∧
      Agrees (b.getPrivateTime dwTime).2 (g.advance dwTime) := by
  have htime : (b.getPrivateTime dwTime).1 = (g.advance dwTime).time := by
    simp only [BaseReferenceClock.getPrivateTime, Telling.time, Telling.advance, h.stands]
    rw [toInt64_toInt32 hsoon, h.prev, Int64.ofNat_add]
    grind
  have hprev : dwTime = UInt32.ofNat (g.advance dwTime).now := by
    simp only [Telling.advance, UInt32.ofNat_add, UInt32.ofNat_toNat]
    grind
  exact ⟨htime, hprev, htime, h.last⟩

theorem max_of_lt {a b : Int64} (h : a < b) : max a b = b := if_pos (Int64.le_of_lt h)

theorem max_of_not_lt {a b : Int64} (h : ¬ a < b) : max a b = a := by
  have hle : b ≤ a := Int64.not_lt.mp h
  by_cases hab : a ≤ b
  · exact (if_pos hab).trans (Int64.le_antisymm hle hab)
  · exact if_neg hab

/-- `GetTime` answers with the latest time. -/
theorem getTime_eq (dwTime : UInt32) (b : BaseReferenceClock) :
    b.getTime dwTime =
      (if b.rtLastGotTime < (b.getPrivateTime dwTime).1 then .S_OK else .S_FALSE,
        max b.rtLastGotTime (b.getPrivateTime dwTime).1,
        { (b.getPrivateTime dwTime).2 with
          rtLastGotTime := max b.rtLastGotTime (b.getPrivateTime dwTime).1 }) := by
  have hlast : (b.getPrivateTime dwTime).2.rtLastGotTime = b.rtLastGotTime := rfl
  unfold BaseReferenceClock.getTime
  simp only [hlast]
  split
  · next hlt => rw [max_of_lt hlt]
  · next hnot =>
      rw [max_of_not_lt hnot, ← hlast]

/-! ## Every answer -/

/-- Each answer is the latest time at which the clock has stood, and `S_OK` if it is a new one. -/
def Told (l : List Answer) : Prop :=
  ∀ before a after, l = before ++ a :: after →
    a.hr = (if Telling.latest before < a.stood then .S_OK else .S_FALSE) ∧
      a.time = max (Telling.latest before) a.stood

theorem Told.concat {l : List Answer} {a : Answer} (h : Told l)
    (hhr : a.hr = if Telling.latest l < a.stood then .S_OK else .S_FALSE)
    (htime : a.time = max (Telling.latest l) a.stood) : Told (l ++ [a]) := by
  intro before b after heq
  rcases List.eq_nil_or_concat after with rfl | ⟨after, c, rfl⟩
  · obtain ⟨rfl, hlast⟩ := List.append_inj' heq rfl
    obtain rfl : a = b := by simpa using hlast
    exact ⟨hhr, htime⟩
  · rw [List.concat_eq_append, ← List.cons_append, ← List.append_assoc] at heq
    obtain ⟨rfl, -⟩ := List.append_inj' heq rfl
    exact h before b after rfl

theorem le_max_left (a b : Int64) : a ≤ max a b := by
  by_cases h : a < b
  · rw [max_of_lt h]
    exact Int64.le_of_lt h
  · rw [max_of_not_lt h]
    exact Int64.le_refl a

/-- The answers so far, which never go back. -/
structure Recorded (l : List Answer) : Prop where
  told : Told l
  ordered : (l.map Answer.time).Pairwise (· ≤ ·)
  bounded : ∀ a ∈ l, a.time ≤ Telling.latest l

theorem Recorded.concat {l : List Answer} {a : Answer} (h : Recorded l)
    (hhr : a.hr = if Telling.latest l < a.stood then .S_OK else .S_FALSE)
    (htime : a.time = max (Telling.latest l) a.stood) : Recorded (l ++ [a]) where
  told := h.told.concat hhr htime
  ordered := by
    rw [List.map_append, List.pairwise_append]
    refine ⟨h.ordered, List.pairwise_singleton _ _, ?_⟩
    rintro _ hmem b hb
    obtain ⟨c, hc, rfl⟩ := List.mem_map.mp hmem
    obtain rfl : b = a.time := List.mem_singleton.mp hb
    exact htime ▸ Int64.le_trans (h.bounded c hc) (le_max_left _ _)
  bounded c hc := by
    rw [Telling.latest_concat]
    rcases List.mem_append.mp hc with hc | hc
    · exact Int64.le_trans (h.bounded c hc) (le_max_left _ _)
    · obtain rfl := List.mem_singleton.mp hc
      exact htime ▸ Int64.le_refl _

/-- The clock and what it has told. -/
structure Tells (s : AdviseClock) (g : Telling) : Prop where
  agrees : Agrees s.base g
  recorded : Recorded g.told

theorem tells_starts {x : AdviseClock × Telling} (h : Starts x) : Tells x.1 x.2 := by
  obtain ⟨s, g⟩ := x
  obtain ⟨hinit, hg⟩ := h
  dsimp only at hg
  subst hg
  obtain ⟨dwTime, hbase⟩ := hinit.base
  have hagrees : Agrees s.base { now := s.base.dwPrevSystemTime.toNat } := by
    rw [hbase]
    refine ⟨UInt32.ofNat_toNat.symm, ?_, rfl⟩
    have hword : dwordToInt64 dwTime = Int64.ofNat dwTime.toNat :=
      Int64.toInt_inj.mp <| by
        have hlt := dwTime.toNat_lt
        rw [dwordToInt64, toInt_toUInt64_toInt64, Int64.toInt_ofNat_of_lt (by omega)]
    simp [Telling.time, hword]
  exact ⟨hagrees, ⟨fun before a after heq => by simp at heq, .nil, nofun⟩⟩

/-- The base class is read, and nothing else is done to it. -/
theorem Tells.of_base (h : Tells s g) (ht : t.base = s.base) : Tells t g :=
  { h with agrees := ht ▸ h.agrees }

theorem Tells.getTime {dwTime : UInt32} (h : Tells s g) (hsoon : Soon dwTime s.base) :
    Tells { s with base := (s.base.getTime dwTime).2.2 } (noteTime g s (.getTime dwTime) t) := by
  obtain ⟨htime, hagrees⟩ := h.agrees.getPrivateTime hsoon
  have heq := getTime_eq dwTime s.base
  rw [h.agrees.last, htime] at heq
  simp only [noteTime, heq]
  exact
    { agrees := { hagrees with last := by simp only [Telling.latest_concat] }
      recorded := h.recorded.concat rfl rfl }

theorem Tells.setTimeDelta {timeDelta : Int64} (h : Tells s g) :
    Tells (s.setTimeDelta timeDelta) { g with delta := g.delta + timeDelta } := by
  have hagrees : Agrees { s.base with rtPrivateTime := s.base.rtPrivateTime + timeDelta }
      { g with delta := g.delta + timeDelta } :=
    ⟨h.agrees.prev, by simp [Telling.time, h.agrees.stands, Int64.add_assoc], h.agrees.last⟩
  have hbase : (s.setTimeDelta timeDelta).base =
      { s.base with rtPrivateTime := s.base.rtPrivateTime + timeDelta } := by
    simp only [AdviseClock.setTimeDelta]
    split <;> rfl
  exact { h with agrees := hbase ▸ hagrees }

/-- A statement of the thread reads the clock, or has nothing to do with it. -/
theorem Tells.threadStep {x : Turn} (h : Tells s g) (hoften : Often s (.thread x))
    (hstep : s.threadStep x = some t) : Tells t (noteTime g s (.thread x) t) := by
  cases statement_of_threadStep hstep with
  | getPrivateTime hpc =>
      obtain ⟨-, hagrees⟩ := h.agrees.getPrivateTime (hoften hpc)
      simp only [noteTime, hpc]
      exact { h with agrees := hagrees }
  | testAbort hpc | signalled hpc | timedOut hpc | woken hpc | advise hpc =>
      simp only [noteTime, hpc]
      exact h.of_base rfl

theorem base_destroy (h : s.destroy = some t) : t.base = s.base := by
  obtain ⟨-, rfl⟩ | ⟨-, rfl⟩ | ⟨-, -, rfl⟩ := destroy_cases h <;> rfl

theorem Tells.called {a : Label} (h : Tells s g) (hoften : Often s a)
    (hcall : s.called p a = some t) : Tells t (noteTime g s a t) := by
  cases a with
  | getTime dwTime =>
      cases hcall
      exact h.getTime hoften
  | setTimeDelta delta =>
      cases hcall
      exact h.setTimeDelta
  | thread x | destroy => cases hcall
  | _ =>
      obtain ⟨c, rfl⟩ | ⟨_, heq⟩ | ⟨_, heq⟩ := exists_schedule_of_called hcall
      · exact h.of_base rfl
      · cases heq
      · cases heq

theorem Tells.next {a : Label} (h : Tells s g) (hoften : Often s a)
    (hnext : s.next p a = some t) : Tells t (noteTime g s a t) := by
  cases a with
  | thread x => exact h.threadStep hoften hnext
  | destroy => exact h.of_base (base_destroy hnext)
  | _ =>
      simp only [AdviseClock.next] at hnext
      split at hnext
      · exact h.called hoften hnext
      · cases hnext

theorem tells_of_reachable {x : AdviseClock × Telling}
    (h : (telling p).ReachableWhere (fun x => Often x.1) x) : Tells x.1 x.2 := by
  refine h.invariant (I := fun x => Tells x.1 x.2) (fun x hx => tells_starts hx) fun x a y hI hg hs => ?_
  obtain ⟨t, ht, rfl⟩ := Option.map_eq_some_iff.mp hs
  exact hI.next hg ht

/-- As long as some thread reads the clock once in 2^31 milliseconds, it stands at all times at the
milliseconds that have passed, however often `timeGetTime` has wrapped around, and the deltas; and
whoever calls `GetTime` in between, each call answers with the latest time at which it has stood when
it was asked, and says whether that is a new one. -/
theorem time_told (p : Platform) (x : AdviseClock × Telling)
    (h : (telling p).ReachableWhere (fun x => Often x.1) x) :
    (x.1.base.dwPrevSystemTime = UInt32.ofNat x.2.now ∧ x.1.base.rtPrivateTime = x.2.time) ∧
      Told x.2.told ∧ (x.2.told.map Answer.time).Pairwise (· ≤ ·) :=
  have htells := tells_of_reachable h
  ⟨⟨htells.agrees.prev, htells.agrees.stands⟩, htells.recorded.told, htells.recorded.ordered⟩

/-- A clock constructed 6 milliseconds before `timeGetTime` wraps around. -/
def lateStarted : AdviseClock where
  base := { rtPrivateTime := 42949672900000, dwPrevSystemTime := 4294967290 }
  rtNextAdvise := 0

theorem lateStarted_starts : Starts (lateStarted, { now := 4294967290 }) :=
  ⟨⟨⟨4294967290, by decide⟩, rfl, rfl, rfl, rfl, rfl⟩, rfl⟩

/-- The clock is set back by 3 milliseconds before it is asked again, past the wrap. -/
theorem time_told_lateStarted : ∃ x : AdviseClock × Telling,
    x.2.now = 4294967302 ∧ x.1.base.rtPrivateTime = 42949672990000 ∧
      (x.2.told.map fun a => (a.hr, a.time)) = [(.S_OK, 42949672950000), (.S_FALSE, 42949672950000),
        (.S_OK, 42949672990000)] ∧ Told x.2.told := by
  have hrun : (System.exec (System.record (next .x64) noteTime) (fun x => Often x.1)
      (lateStarted, { now := 4294967290 })
      [.getTime 4294967295, .setTimeDelta (-30000), .getTime 1, .getTime 6]).any fun x =>
        x.2.now = 4294967302 ∧ (x.2.told.map fun a => (a.hr, a.time)) =
          [(.S_OK, 42949672950000), (.S_FALSE, 42949672950000), (.S_OK, 42949672990000)] ∧
          x.2.time = 42949672990000 := by
    decide +kernel
  obtain ⟨x, hx, hnow, hanswers, htime⟩ :=
    System.exists_reachableWhere_of_exec _ lateStarted_starts hrun
  obtain ⟨⟨-, hstands⟩, htold, -⟩ := time_told .x64 x hx
  exact ⟨x, hnow, hstands.trans htime, hanswers, htold⟩

end AdviseClock

end OpenALRenderer
