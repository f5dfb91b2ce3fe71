import OpenALRenderer.Model.Platform

/-! # The mixer: `CMixer::Receive`, `CopyWaveform`, `Mix` and `WaitForFrames`

The two sides run in different threads. Each is a local program with one step for each
access to a member the other side can touch. -/

namespace OpenALRenderer

/-- A sample as `IMediaSample` reports it; its length is a `long`. -/
structure MediaSample (β : Type*) where
  data : List β
  length_lt : data.length < 2 ^ 31

/-- The members of `CMixer`. The two `int` members for channels and bits are only ever
assigned from `WORD` fields of a format block. -/
structure Mixer (β : Type*) where
  nChannels : UInt16
  nSamplesPerSec : Int32
  nBitsPerSample : UInt16
  isFloat : Bool
  nBlockAlign : UInt16
  streaming : Bool := false
  lastMediaSampleSize : ℕ := 0
  desiredBytes : ℕ := 0
  sampleQueue : List β := []
  renderedSamples : ℕ := 0
  samplesReady : Bool := false
  requestSamples : Bool := false
  deriving DecidableEq

variable {β : Type*}

/-- The divisor of `CopyWaveform`: `m_nChannels * m_nBitsPerSample / bits_per_byte`. -/
def frameBytes (p : Platform) (nChannels nBitsPerSample : UInt16) : ℕ :=
  p.intToSizeT (nChannels.toNat * nBitsPerSample.toNat) / 8

/-- The bytes of a sample that `CopyWaveform` pushes. -/
def MediaSample.copied (s : MediaSample β) (frame : ℕ) : List β :=
  s.data.take (s.data.length - s.data.length % frame)

/-! ## The producer -/

/-- Program points of `CMixer::Receive` and of `CopyWaveform` inside it. `fault` is a
division by zero. -/
inductive Producer (β : Type*) where
  | receive (s : MediaSample β)
  | testStreaming (s : MediaSample β)
  | copyWaveform (s : MediaSample β)
  | push (rest : List β) (pushedBytes : ℕ)
  | setRendered (pushedBytes : ℕ)
  | setReady
  | testRequest
  | waitRequest
  | clearRequest
  | done
  | fault

/-- One step of the streaming thread inside `CMixer::Receive`. Waking from `wait_for`
may be a notification, a time-out or spurious, so it is always possible. -/
def Producer.step (p : Platform) : Producer β → Mixer β → Option (Producer β × Mixer β)
  | receive s, m =>
      let m' := { m with lastMediaSampleSize := s.data.length }
      if s.data.length = 0 then some (done, m') else some (testStreaming s, m')
  | testStreaming s, m => if m.streaming then some (copyWaveform s, m) else some (done, m)
  | copyWaveform s, m =>
      let frame := frameBytes p m.nChannels m.nBitsPerSample
      if frame = 0 then some (fault, m) else some (push (s.copied frame) 0, m)
  | push [] n, m => some (setRendered n, m)
  | push (b :: rest) n, m =>
      some (push rest (n + 1), { m with sampleQueue := m.sampleQueue ++ [b] })
  | setRendered n, m =>
      let frames := p.toSizeT (n / m.nChannels.toNat / m.nBitsPerSample.toNat * 8)
      if m.nChannels = 0 ∨ m.nBitsPerSample = 0 then some (fault, m)
      else some (setReady, { m with renderedSamples := frames })
  | setReady, m => some (testRequest, { m with samplesReady := true })
  | testRequest, m => if m.requestSamples then some (clearRequest, m) else some (waitRequest, m)
  | waitRequest, m => some (testRequest, m)
  | clearRequest, m => some (done, { m with requestSamples := false })
  | done, _ => none
  | fault, _ => none

/-! ## The consumer -/

/-- The arguments of a call of `Mix`; `samples` is the vector the caller lends to it. -/
structure MixCall (β : Type*) where
  numFrames : ℕ
  numBytesPerSample : ℕ
  samples : List β
  deriving DecidableEq

/-- `samples->resize(n)`: drop the excess or append zero values. -/
def MixCall.resize [Inhabited β] (c : MixCall β) (n : ℕ) : MixCall β :=
  { c with samples := c.samples.take n ++ List.replicate (n - c.samples.length) default }

/-- Program points of `Mix` and of `WaitForFrames` inside it. `fault` is a division by
zero or an exception thrown by `resize`; it keeps the bytes the call had dequeued. -/
inductive Consumer (β : Type*) where
  | mix (c : MixCall β)
  | checkSize (c : MixCall β)
  | setRequest (c : MixCall β)
  | waitForFrames (c : MixCall β)
  | testReady (c : MixCall β)
  | testStreaming (c : MixCall β)
  | testBits (c : MixCall β)
  | waitReady (c : MixCall β)
  | clearReady (c : MixCall β)
  | pop (c : MixCall β) (i : ℕ)
  | countFrames (c : MixCall β)
  | returned (c : MixCall β) (frames : ℕ)
  | fault (dequeued : List β)
  deriving DecidableEq

/-- One step of the `SoundLoop` thread inside `Mix`. -/
def Consumer.step [Inhabited β] (p : Platform) :
    Consumer β → Mixer β → Option (Consumer β × Mixer β)
  | mix c, m =>
      let n := p.toSizeT (c.numFrames * m.nChannels.toNat * c.numBytesPerSample)
      let m' := { m with desiredBytes := n }
      if p.maxVectorSize < n then some (fault [], m') else some (checkSize (c.resize n), m')
  | checkSize c, m =>
      if m.sampleQueue.length < m.desiredBytes then some (setRequest c, m)
      else some (pop c 0, m)
  | setRequest c, m => some (waitForFrames c, { m with requestSamples := true })
  | waitForFrames c, m => if m.streaming then some (testReady c, m) else some (pop c 0, m)
  | testReady c, m => if m.samplesReady then some (clearReady c, m) else some (testStreaming c, m)
  | testStreaming c, m => if m.streaming then some (testBits c, m) else some (pop c 0, m)
  | testBits c, m =>
      if p.toSizeT (c.numBytesPerSample * 8) ≠ m.nBitsPerSample.toNat then some (pop c 0, m)
      else some (waitReady c, m)
  | waitReady c, m => some (testReady c, m)
  | clearReady c, m => some (checkSize c, { m with samplesReady := false })
  | pop c i, m =>
      if i < m.desiredBytes then
        match m.sampleQueue with
        | [] => some (pop c (i + 1), m)
        | value :: queue =>
            some (pop { c with samples := c.samples.set i value } (i + 1),
              { m with sampleQueue := queue })
      else some (countFrames c, m)
  | countFrames c, m =>
      if c.numBytesPerSample = 0 ∨ m.nChannels = 0 then some (fault c.samples, m)
      else some (returned c (m.desiredBytes / c.numBytesPerSample / m.nChannels.toNat), m)
  | returned _ _, _ => none
  | fault _, _ => none

end OpenALRenderer
