import OpenALRenderer.Model.Filter

/-! # Receiving, flushing and mixing, one whole call at a time -/

namespace OpenALRenderer

variable {β : Type*}

/-! ## The mixer -/

/-- `CMixer::Receive` up to its return; `none` is a division by zero. A streaming mixer
returns only once `SoundLoop` has asked for samples, so the request is consumed. -/
def Mixer.receive (p : Platform) (s : MediaSample β) (m : Mixer β) : Option (Mixer β) :=
  let m := { m with lastMediaSampleSize := s.data.length }
  if s.data.length = 0 then some m
  else if m.streaming then
    let frame := frameBytes p m.nChannels m.nBitsPerSample
    if frame = 0 then none
    else
      let pushed := s.copied frame
      let frames :=
        p.toSizeT (pushed.length / m.nChannels.toNat / m.nBitsPerSample.toNat * 8)
      some { m with
        sampleQueue := m.sampleQueue ++ pushed
        renderedSamples := frames
        samplesReady := true
        requestSamples := false }
  else some m

/-- `Mix` would wait: the queue is short, and neither of the two conditions that end the wait
without new samples holds. -/
def Mixer.wouldWait (p : Platform) (numBytesPerSample desired : ℕ) (m : Mixer β) : Bool :=
  m.sampleQueue.length < desired && m.streaming &&
    p.toSizeT (numBytesPerSample * 8) == m.nBitsPerSample.toNat

/-- The bytes `Mix` asks for. -/
def Mixer.desired (p : Platform) (numFrames numBytesPerSample : ℕ) (m : Mixer β) : ℕ :=
  p.toSizeT (numFrames * m.nChannels.toNat * numBytesPerSample)

/-- `CMixer::Mix` with nothing else running: the frames it reports, the vector and the mixer
it leaves; `none` when it waits, throws, or divides by zero. -/
def Mixer.mix [Inhabited β] (p : Platform) (c : MixCall β) (m : Mixer β) :
    Option (ℕ × List β × Mixer β) :=
  let n := m.desired p c.numFrames c.numBytesPerSample
  if p.maxVectorSize < n ∨ m.wouldWait p c.numBytesPerSample n ∨
      c.numBytesPerSample = 0 ∨ m.nChannels = 0 then none
  else
    let popped := m.sampleQueue.take n
    let short := decide (m.sampleQueue.length < n)
    let m := { m with
      desiredBytes := n
      sampleQueue := m.sampleQueue.drop n
      samplesReady := m.samplesReady && !(short && m.streaming)
      requestSamples := m.requestSamples || short }
    some (n / c.numBytesPerSample / m.nChannels.toNat,
      popped ++ (c.resize n).samples.drop popped.length, m)

/-! ## The pin -/

/-- The calls a `Receive` makes on the pin and on the mixer. -/
inductive PinCall where
  | checkMediaType
  | setMediaType
  | clearQueue
  | mixerReceive
  deriving DecidableEq, Repr

/-- How a `Receive` ends: its result, the filter it leaves, and the calls it made, in order. -/
structure ReceiveOutcome where
  hr : HRESULT
  filter : Filter
  calls : List PinCall

namespace Filter

/-- `CBaseInputPin::CheckStreaming`. -/
def checkStreaming (w : Filter) : HRESULT :=
  if w.state = .stopped then .VFW_E_WRONG_STATE
  else if w.pin.flushing then .S_FALSE
  else if w.pin.runTimeError then .VFW_E_RUNTIME_ERROR
  else .S_OK

/-- `CBaseInputPin::Receive` past its null check. -/
def baseReceive (caps : Capabilities) (e : Indeterminate) (sample : PinSample) (w : Filter) :
    ReceiveOutcome :=
  if w.checkStreaming ≠ .S_OK then ⟨w.checkStreaming, w, []⟩
  else if sample.properties.failed then ⟨sample.properties, w, []⟩
  else
    let w := { w with pin := { w.pin with sampleProps := sample.mediaType } }
    match sample.mediaType with
    | none => ⟨.S_OK, w, []⟩
    | some pmt =>
        let q := w.checkMediaType caps e pmt
        if q.1 = .S_OK then ⟨.S_OK, q.2, [.checkMediaType]⟩
        else ⟨.VFW_E_INVALIDMEDIATYPE,
          { q.2 with pin := { q.2.pin with runTimeError := true } }, [.checkMediaType]⟩

/-- The bytes of a sample, stamped with the connection format. -/
def stamp (s : MediaSample UInt8) (w : Filter) : MediaSample StampedByte where
  data := s.data.map fun b => ⟨b, w.pin.connectionFormat⟩
  length_lt := by simpa using s.length_lt

/-- `CMixer::Receive` on the filter's mixer. -/
def mixerReceive (p : Platform) (s : MediaSample UInt8) (w : Filter) : Option Filter :=
  (w.mixer.receive p (w.stamp s)).map fun m => { w with mixer := m }

/-- `m_sample_queue.clear()`. -/
def clearQueue (w : Filter) : Filter := { w with mixer := { w.mixer with sampleQueue := [] } }

/-- The end of `CAudioInputPin::Receive`: hand the sample to the mixer. -/
def deliver (p : Platform) (s : MediaSample UInt8) (calls : List PinCall) (w : Filter) :
    Option ReceiveOutcome :=
  (w.mixerReceive p s).map fun w => ⟨.S_OK, w, calls ++ [.mixerReceive]⟩

/-- `CAudioInputPin::Receive`; `none` is a crash in one of its callees, and a null sample
pointer is `none` too. The pointer left in `m_SampleProps` is taken to lead to the type it
was received with. -/
def receive (p : Platform) (caps : Capabilities) (r : Replies) (e e' : Indeterminate)
    (sample : Option PinSample) (w : Filter) : Option ReceiveOutcome :=
  if w.state = .stopped then some ⟨.VFW_E_WRONG_STATE, w, []⟩
  else
    match sample with
    | none => some ⟨.E_POINTER, w, []⟩
    | some sample =>
        let o := w.baseReceive caps e sample
        if o.hr.failed then some o
        else
          match o.filter.pin.sampleProps with
          | none => o.filter.deliver p sample.data o.calls
          | some pmt =>
              (o.filter.setMediaType caps e' r.allocates pmt).bind fun s =>
                if s.1.failed then some ⟨s.1, s.2, o.calls ++ [.setMediaType]⟩
                else s.2.clearQueue.deliver p sample.data (o.calls ++ [.setMediaType, .clearQueue])

def beginFlush (w : Filter) : Filter :=
  { w with pin := { w.pin with flushing := true } }.clearQueue

def endFlush (w : Filter) : Filter :=
  { w with pin := { w.pin with flushing := false, runTimeError := false } }

end Filter

/-! ## One iteration of `SoundLoop`, as far as the mixer and the device go -/

/-- `OAL_BUFFERS`, the initial and only value of `num_buffers`. -/
def oalBuffers : UInt32 := 8

/-- The initial and only value of `m_latency`, in milliseconds. -/
def initialLatency : UInt32 := 64

/-- Both places of `SoundLoop` that compute `frames_per_buffer`; the quotient by 1000 is an
`int`, the rest is unsigned. -/
def framesPerBuffer (latency numBuffers : UInt32) (frequency : Int32) : UInt32 :=
  if 0 < latency then (frequency / 1000).toUInt32 * latency / numBuffers
  else (frequency / 1000 * 1).toUInt32 / numBuffers

/-- The arguments of a call of `alBufferData`. -/
structure BufferDataCall (β : Type*) where
  format : String
  data : List β
  size : Int
  frequency : Int32
  deriving DecidableEq

/-- A `size_t` product passed as an `ALsizei`. -/
def toALsizei (n : ℕ) : Int := (BitVec.ofNat 32 n).toInt

/-- The third argument of `Mix` for each sample type; no case handles `bit24`. -/
def MediaBitness.mixBytes : MediaBitness → Option ℕ
  | .bit8 => some 1
  | .bit16 => some 2
  | .bit24 => none
  | .bit32 => some 4
  | .bitfloat => some 4

/-- The call of `alBufferData` for the frames `Mix` reported. -/
def Device.bufferData (d : Device) (frames : ℕ) (data : List β) : BufferDataCall β where
  format := generateFormatString d.speakerLayout d.bitness
  data := data
  size := toALsizei (frames * getFrameSize d.speakerLayout d.bitness)
  frequency := d.frequency

/-- From the `switch` over `m_bitness` to `alBufferData`: the call made, if any, and the
filter left. `none` when `Mix` does not return. -/
def Filter.soundLoopIteration (p : Platform) (framesPerBuffer : ℕ) (byteData : List StampedByte)
    (w : Filter) : Option (Option (BufferDataCall StampedByte) × Filter) :=
  match w.device.bitness.mixBytes with
  | none => some (none, w)
  | some n =>
      (w.mixer.mix p ⟨framesPerBuffer, n, byteData⟩).map fun r =>
        let w := { w with mixer := r.2.2 }
        if r.1 = 0 then (none, w) else (some (w.device.bufferData r.1 r.2.1), w)

end OpenALRenderer
