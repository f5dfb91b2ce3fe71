import OpenALRenderer.Foundation.System
import OpenALRenderer.Model.Schedule

/-! # Advises: `CBaseReferenceClock` and its thread

Each label is a statement that other threads can see as one: the schedule and the clock have locks
of their own. A wait with a timeout may end at any time. -/

namespace OpenALRenderer

open Foundation

/-- Where `AdviseThread` is. -/
inductive AdvisePc where
  | testAbort
  | wait
  | woken
  | getPrivateTime
  | advise (rtNow : Int64)
  | ended
  deriving DecidableEq

/-- How far the destructor has come. -/
inductive Destruction where
  | notCalled
  | aborted
  | triggered
  | joined
  deriving DecidableEq, Repr

structure AdviseClock where
  base : BaseReferenceClock
  schedule : AMSchedule := .constructed
  rtNextAdvise : Int64
  bAbort : Bool := false
  dwWait : UInt32 := 0xFFFFFFFF
  pc : AdvisePc := .testAbort
  destruction : Destruction := .notCalled

namespace AdviseClock

/-! ## Requests -/

/-- `AdviseTime`, with what it leaves in `*pdwAdviseCookie`. -/
def adviseTime (p : Platform) (baseTime streamTime : Int64) (hEvent : ℕ) (s : AdviseClock) :
    Option (HRESULT × ℕ × AdviseClock) :=
  let lRefTime := baseTime + streamTime
  if lRefTime ≤ 0 ∨ lRefTime = maxTime then some (.E_INVALIDARG, 0, s)
  else (s.schedule.addAdvisePacket p lRefTime 0 hEvent false).map fun r =>
    (if r.1 ≠ 0 then .S_OK else .E_OUTOFMEMORY, r.1, { s with schedule := r.2 })

/-- `AdvisePeriodic`. -/
def advisePeriodic (p : Platform) (startTime periodTime : Int64) (hSemaphore : ℕ)
    (s : AdviseClock) : Option (HRESULT × ℕ × AdviseClock) :=
  if 0 < startTime ∧ 0 < periodTime ∧ startTime ≠ maxTime then
    (s.schedule.addAdvisePacket p startTime periodTime hSemaphore true).map fun r =>
      (if r.1 ≠ 0 then .S_OK else .E_OUTOFMEMORY, r.1, { s with schedule := r.2 })
  else some (.E_INVALIDARG, 0, s)

/-- `Unadvise`. -/
def unadvise (dwAdviseCookie : ℕ) (s : AdviseClock) : Option (HRESULT × AdviseClock) :=
  (s.schedule.unadvise dwAdviseCookie).map fun r => (r.1, { s with schedule := r.2 })

/-- `TriggerThread`. -/
def triggerThread (s : AdviseClock) : AdviseClock :=
  { s with schedule := { s.schedule with ev := true } }

/-- `SetTimeDelta`. -/
def setTimeDelta (timeDelta : Int64) (s : AdviseClock) : AdviseClock :=
  let s := { s with base :=
    { s.base with rtPrivateTime := s.base.rtPrivateTime + timeDelta } }
  if 5000 < timeDelta ∧ 0 < s.schedule.getAdviseCount then s.triggerThread else s

/-! ## The thread -/

/-- `INFINITE`, and `UINT_MAX`. -/
def infinite : UInt32 := 0xFFFFFFFF

/-- The wait until `rtNextAdvise`, in milliseconds. -/
def planWait (rtNow rtNextAdvise : Int64) : UInt32 :=
  let llWait := (rtNextAdvise - rtNow) / 10000
  if dwordToInt64 infinite < llWait then infinite else llWait.toUInt64.toUInt32

/-- What a statement of the thread meets: a reading of `timeGetTime`, and the rounds that the loop
of `Advise` is given. -/
structure Turn where
  dwTime : UInt32 := 0
  rounds : ℕ := 0
  deriving DecidableEq, Repr

/-- A statement of `AdviseThread`. -/
def threadStep (x : Turn) (s : AdviseClock) : Option AdviseClock :=
  match s.pc with
  | .testAbort => some { s with pc := if s.bAbort then .ended else .wait }
  | .wait =>
      if s.schedule.ev then
        some { s with schedule := { s.schedule with ev := false }, pc := .woken }
      else if s.dwWait = infinite then none
      else some { s with pc := .woken }
  | .woken => some { s with pc := if s.bAbort then .ended else .getPrivateTime }
  | .getPrivateTime =>
      let r := s.base.getPrivateTime x.dwTime
      some { s with base := r.2, pc := .advise r.1 }
  | .advise rtNow => (s.schedule.advise (10000 + rtNow) x.rounds).map fun r => { s with
      schedule := r.2.2
      rtNextAdvise := r.1
      dwWait := planWait rtNow r.1
      pc := .testAbort }
  | .ended => none

/-- A statement of the destructor, which runs when nobody else has the clock. -/
def destroy (s : AdviseClock) : Option AdviseClock :=
  match s.destruction with
  | .notCalled => some { s with bAbort := true, destruction := .aborted }
  | .aborted => some { s.triggerThread with destruction := .triggered }
  | .triggered =>
      if s.pc = .ended then s.schedule.destroy.map fun _ => { s with destruction := .joined }
      else none
  | .joined => none

/-! ## Everything that happens -/

inductive Label where
  | adviseTime (baseTime streamTime : Int64) (hEvent : ℕ)
  | advisePeriodic (startTime periodTime : Int64) (hSemaphore : ℕ)
  | unadvise (dwAdviseCookie : ℕ)
  | getTime (dwTime : UInt32)
  | setTimeDelta (timeDelta : Int64)
  | thread (x : Turn)
  | destroy
  deriving DecidableEq

/-- A call by somebody who has the clock. -/
def called (p : Platform) (s : AdviseClock) : Label → Option AdviseClock
  | .adviseTime baseTime streamTime hEvent =>
      (s.adviseTime p baseTime streamTime hEvent).map fun r => r.2.2
  | .advisePeriodic startTime periodTime hSemaphore =>
      (s.advisePeriodic p startTime periodTime hSemaphore).map fun r => r.2.2
  | .unadvise dwAdviseCookie => (s.unadvise dwAdviseCookie).map Prod.snd
  | .getTime dwTime => some { s with base := (s.base.getTime dwTime).2.2 }
  | .setTimeDelta timeDelta => some (s.setTimeDelta timeDelta)
  | .thread _ | .destroy => none

def next (p : Platform) (s : AdviseClock) : Label → Option AdviseClock
  | .thread x => s.threadStep x
  | .destroy => s.destroy
  | a => if s.destruction = .notCalled then s.called p a else none

/-- A clock that has just been constructed, and its thread created. -/
structure Init (s : AdviseClock) : Prop where
  base : ∃ dwTime, s.base = { rtPrivateTime := 10000 * dwordToInt64 dwTime,
                              dwPrevSystemTime := dwTime }
  schedule : s.schedule = .constructed
  bAbort : s.bAbort = false
  dwWait : s.dwWait = infinite
  pc : s.pc = .testAbort
  destruction : s.destruction = .notCalled

def system (p : Platform) : System AdviseClock Label := .ofNext Init (next p)

end AdviseClock

end OpenALRenderer
