import OpenALRenderer.Model.Streaming

/-! # The reference clock: `CBaseReferenceClock`, and what `COpenALStream` adds to it

Every function is given the values that its calls of `timeGetTime` return. A `REFERENCE_TIME` counts
units of 100 nanoseconds. -/

namespace OpenALRenderer

/-- A `DWORD` as a `LONGLONG`. -/
def dwordToInt64 (x : UInt32) : Int64 := x.toUInt64.toInt64

/-! ## The base class -/

/-- The members of `CBaseReferenceClock` that tell the time. -/
structure BaseReferenceClock where
  rtPrivateTime : Int64
  dwPrevSystemTime : UInt32
  rtLastGotTime : Int64 := 0
  deriving DecidableEq

namespace BaseReferenceClock

/-- `CBaseReferenceClock::GetPrivateTime`; `Int32x32To64` takes its factors as signed. -/
def getPrivateTime (dwTime : UInt32) (c : BaseReferenceClock) : Int64 × BaseReferenceClock :=
  let now := c.rtPrivateTime + 10000 * (dwTime - c.dwPrevSystemTime).toInt32.toInt64
  (now, { c with rtPrivateTime := now, dwPrevSystemTime := dwTime })

/-- `CBaseReferenceClock::GetTime`, which never goes backwards. -/
def getTime (dwTime : UInt32) (c : BaseReferenceClock) : HRESULT × Int64 × BaseReferenceClock :=
  let r := c.getPrivateTime dwTime
  if r.2.rtLastGotTime < r.1 then (.S_OK, r.1, { r.2 with rtLastGotTime := r.1 })
  else (.S_FALSE, r.2.rtLastGotTime, r.2)

end BaseReferenceClock

/-! ## The stream's clock -/

/-- A clock as the stream sees it: itself, or another one. -/
inductive RefClock where
  | own
  | other (id : ℕ)
  deriving DecidableEq, Repr

/-- The members of `COpenALStream` that have to do with clocks. Two of them have the names of
members of the base class, which are private to it. -/
structure StreamClock where
  base : BaseReferenceClock
  rtPrivateTime : Int64
  dwPrevSystemTime : UInt32
  msPerTick : UInt32
  lastTickTime : UInt32
  lastTickTGT : UInt32
  samplesSinceTick : UInt32
  dwLastMet : UInt32
  dwLastTGT : UInt32
  currentRefClock : Option RefClock := none
  prevRefClock : Option RefClock := none
  deriving DecidableEq

namespace StreamClock

/-- What the constructors of the two classes leave; `m_SamplesSinceTick` is not initialised. -/
def constructed (baseReading reading samplesSinceTick : UInt32) : StreamClock where
  base := { rtPrivateTime := 10000 * dwordToInt64 baseReading, dwPrevSystemTime := baseReading }
  rtPrivateTime := 10000 * dwordToInt64 reading
  dwPrevSystemTime := reading
  msPerTick := initialLatency / oalBuffers
  lastTickTime := reading
  lastTickTGT := reading
  samplesSinceTick := samplesSinceTick
  dwLastMet := 0
  dwLastTGT := reading

/-- `GetPrivateTime`, which `COpenALStream` does not override. -/
def getPrivateTime (dwTime : UInt32) (s : StreamClock) : Int64 × StreamClock :=
  let r := s.base.getPrivateTime dwTime
  (r.1, { s with base := r.2 })

/-! ## Ticks -/

/-- The `lfudge` of `MetGetTime`: the milliseconds to pretend have elapsed since the last tick. -/
def fudge (tgt : UInt32) (s : StreamClock) : ℕ :=
  if s.msPerTick ≠ 0 then (tgt - s.lastTickTGT).toNat * 625 / s.msPerTick.toNat else 0

/-- The time `MetGetTime` works out, before it makes sure that it does not go backwards. -/
def newTime (tgt : UInt32) (s : StreamClock) : UInt32 := s.lastTickTime + (s.fudge tgt).toUInt32

/-- `MetGetTime`. -/
def metGetTime (tgt : UInt32) (s : StreamClock) : UInt32 × StreamClock :=
  let dw := if s.newTime tgt < s.dwLastMet then s.dwLastMet else s.newTime tgt
  (dw, { s with dwLastMet := dw, dwLastTGT := tgt })

/-- The test of `ClockController` for a long gap; it is made in 32 bits. -/
def LongGap (s : StreamClock) : Prop := 1500 < s.samplesSinceTick * 1000 / 11025

instance (s : StreamClock) : Decidable s.LongGap := inferInstanceAs (Decidable (_ < _))

/-- `ClockController`, whose `spike` is always 0; `none` is a division by zero. -/
def clockController (dwTGT : UInt32) (s : StreamClock) : Option StreamClock :=
  if s.LongGap then some { s with samplesSinceTick := 0 }
  else if s.msPerTick = 0 then none
  else some { s with
    lastTickTime := s.dwLastMet + (dwTGT - s.dwLastTGT) * 625 / s.msPerTick
    msPerTick := (s.samplesSinceTick.toNat * 1000 / 11025).toUInt32
    lastTickTGT := dwTGT
    samplesSinceTick := 0 }

/-! ## Synchronisation -/

/-- What a call of `SetSyncSource` meets: the readings before and after it asks a clock for its
time, the one the stream's own clock makes when it is asked, and what another clock answers and
leaves in `*pTime`. -/
structure Meeting where
  before : UInt32
  after : UInt32
  reading : UInt32
  hr : HRESULT
  time : Int64

/-- `GetTime` of a clock. -/
def getTime (x : Meeting) (c : RefClock) (s : StreamClock) : HRESULT × Int64 × StreamClock :=
  match c with
  | .own =>
      let r := s.base.getTime x.reading
      (r.1, r.2.1, { s with base := r.2.2 })
  | .other _ => (x.hr, x.time, s)

/-- `m_dwPrevSystemTime += timeGetTime(); m_dwPrevSystemTime /= 2;`. -/
def halve (after : UInt32) (s : StreamClock) : StreamClock :=
  { s with dwPrevSystemTime := (s.dwPrevSystemTime + after) / 2 }

/-- `SetSyncSource` in a retail build. -/
def setSyncSource (x : Meeting) (clock : Option RefClock) (s : StreamClock) : StreamClock :=
  let s := { s with prevRefClock := s.currentRefClock }
  match clock with
  | none => { s with currentRefClock := none }
  | some .own =>
      let s := { s with
        dwPrevSystemTime := x.before
        lastTickTGT := x.before
        lastTickTime := x.before
        rtPrivateTime := 10000 * dwordToInt64 x.before }
      let s := match s.prevRefClock with
        | none => s
        | some c =>
            let r := s.getTime x c
            let s := { r.2.2 with rtPrivateTime := r.2.1 }
            if r.1.failed then s else s.halve x.after
      { s with currentRefClock := some .own }
  | some (.other id) =>
      let s := { s with
        dwPrevSystemTime := x.before
        lastTickTGT := x.before
        lastTickTime := x.before }
      let r := s.getTime x (.other id)
      let s := { r.2.2 with rtPrivateTime := r.2.1 }.halve x.after
      { s with currentRefClock := some (.other id) }

end StreamClock

end OpenALRenderer
