import OpenALRenderer.Foundation.ScopedLocks
import OpenALRenderer.Model.Streaming

/-! # The threads of the filter, lock by lock

The operations of streaming and control threads as programs whose scopes are the `CAutoLock`s
of the source. What happens under one lock without taking another is one action, except for
`CMixer::Receive`, which runs step by step. -/

namespace OpenALRenderer

open Foundation

/-- The critical sections: the pin's `m_receiveMutex`, the pin itself, the filter (`m_pLock` of
the filter and of the pin), and the mixer. -/
inductive Lock where
  | receiveMutex
  | pin
  | filter
  | mixer
  deriving DecidableEq, Repr

/-- What the threads share: the filter, and where `SoundLoop` is inside `Mix`. -/
structure Shared where
  filter : Filter
  mix : Option (Consumer StampedByte)

abbrev Code := Prog Lock (Producer StampedByte) HRESULT Shared

namespace Code

/-! ## Actions -/

/-- Read the filter and write it, in one step. -/
def access (f : Filter → Filter) (k : Filter → Code) : Code :=
  .act (fun s => { s with filter := f s.filter }) fun s => k s.filter

def read (k : Filter → Code) : Code := access id k

/-- A function of the filter that answers with a result code. -/
def attempt (f : Filter → HRESULT × Filter) (k : HRESULT → Code) : Code :=
  access (fun w => (f w).2) fun w => k (f w).1

/-! ## `CMixer` -/

def startStreaming (k : HRESULT → Code) : Code :=
  .scope .mixer
    (read fun w =>
      if w.mixer.streaming then .ret .S_OK
      else access Filter.startStreaming fun _ => .ret .S_OK) k

def stopStreaming (k : HRESULT → Code) : Code :=
  .scope .mixer
    (read fun w =>
      if w.mixer.streaming then access Filter.stopStreaming fun _ => .ret .S_OK
      else .ret .S_OK) k

/-- `CMixer::Receive`, with the sample's bytes stamped on the way in. -/
def mixerReceive (s : MediaSample UInt8) (k : HRESULT → Code) : Code :=
  read fun w => .scope .mixer (.call (.receive (w.stamp s)) (.ret .S_OK)) k

/-! ## `COpenALFilter` -/

def basePause (r : PinReplies) (k : HRESULT → Code) : Code :=
  .scope .filter (attempt (Filter.basePause r) .ret) k

def pause (r : PinReplies) (k : HRESULT → Code) : Code :=
  .scope .filter
    (read fun w =>
      if w.state = .running then stopStreaming fun _ => basePause r .ret
      else basePause r .ret) k

def baseStop (r : PinReplies) (k : HRESULT → Code) : Code :=
  .scope .filter (attempt (Filter.baseStop r) .ret) k

def stop (r : PinReplies) (k : HRESULT → Code) : Code :=
  .scope .filter
    (read fun w =>
      let rest := baseStop r fun hr => if hr.failed then .ret hr else .ret .S_OK
      if w.state = .stopped then .ret .S_OK
      else if w.state = .running then pause r fun hr => if hr.failed then .ret hr else rest
      else rest) k

def baseRun (r : PinReplies) (k : HRESULT → Code) : Code :=
  .scope .filter
    (read fun w =>
      let rest := attempt (Filter.runPins r) .ret
      if w.state = .stopped then pause r fun hr => if hr.failed then .ret hr else rest
      else rest) k

def run (r : PinReplies) (k : HRESULT → Code) : Code :=
  .scope .filter
    (read fun old => baseRun r fun hr =>
      if hr.failed then .ret hr
      else if old.state ≠ .running then
        startStreaming fun _ => access Filter.startDevice fun _ => .ret .S_OK
      else .ret .S_OK) k

/-! ## `CAudioInputPin` -/

def setMediaType (caps : Capabilities) (e : Indeterminate) (allocates : Bool) (pmt : MediaType)
    (k : HRESULT → Code) : Code :=
  .scope .filter
    (access (fun w => ((w.setMediaType caps e allocates pmt).map Prod.snd).getD w) fun w =>
      match w.setMediaType caps e allocates pmt with
      | none => .crash
      | some q => .ret q.1) k

def receive (caps : Capabilities) (r : Replies) (e e' : Indeterminate)
    (sample : Option PinSample) (k : HRESULT → Code) : Code :=
  .scope .receiveMutex
    (.scope .pin
      (read fun w =>
        if w.state = .stopped then .ret .VFW_E_WRONG_STATE
        else
          match sample with
          | none => .ret .E_POINTER
          | some s =>
              attempt (fun w => let o := w.baseReceive caps e s; (o.hr, o.filter)) fun hr =>
                if hr.failed then .ret hr
                else
                  read fun w =>
                    match w.pin.sampleProps with
                    | none => .ret .S_OK
                    | some pmt =>
                        setMediaType caps e' r.allocates pmt fun hr =>
                          if hr.failed then .ret hr
                          else access Filter.clearQueue fun _ => .ret .S_OK)
      fun hr =>
        if hr.failed then .ret hr
        else
          match sample with
          | none => .ret .E_POINTER
          | some s => mixerReceive s.data .ret) k

/-- `CBaseInputPin::BeginFlush`, which the pin's own calls first. -/
def baseBeginFlush (k : HRESULT → Code) : Code :=
  .scope .filter
    (access (fun w => { w with pin := { w.pin with flushing := true } }) fun _ => .ret .S_OK) k

def beginFlush (k : HRESULT → Code) : Code :=
  baseBeginFlush fun _ =>
    .scope .receiveMutex (access Filter.clearQueue fun _ => .ret .S_OK) k

def endFlush (k : HRESULT → Code) : Code :=
  .scope .filter (access Filter.endFlush fun _ => .ret .S_OK) k

end Code

/-! ## The machines -/

/-- `CMixer::Receive` step by step. -/
def producerMachine (p : Platform) : Machine (Producer StampedByte) Shared where
  step a s := (a.step p s.filter.mixer).map fun r =>
    (r.1, { s with filter := { s.filter with mixer := r.2 } })
  ended a := a = .done

/-- The `SoundLoop` thread: it calls `Mix`, runs it step by step, and takes its result. -/
inductive SoundLoopStep (p : Platform) (s : Shared) : Shared → Prop where
  | call (outside : s.mix = none) (c : MixCall StampedByte) :
      SoundLoopStep p s { s with mix := some (.mix c) }
  | step {a a' m} (inside : s.mix = some a) (h : a.step p s.filter.mixer = some (a', m)) :
      SoundLoopStep p s ⟨{ s.filter with mixer := m }, some a'⟩
  | finish {c frames} (inside : s.mix = some (.returned c frames)) :
      SoundLoopStep p s { s with mix := none }

end OpenALRenderer
