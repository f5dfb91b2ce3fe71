import OpenALRenderer.Model.SoundLoop

/-! # `SoundLoop`, `Mix` and `Receive` together, one access at a time -/

namespace OpenALRenderer

/-! ## What `Receive` writes while it processes a sample -/

/-- A write of `CheckMediaType`, `SetMediaType` or `Receive`. With the connection type comes
the format it hands to the mixer, unless its block could not be copied. -/
inductive Write where
  | isFloat (b : Bool)
  | frequency (f : Int32)
  | speakerLayout (l : SpeakerLayout)
  | bitness (b : MediaBitness)
  | runTimeError
  | connectionType (mt : MediaType) (f : Option WaveFormat)
  | nChannels (n : UInt16)
  | nSamplesPerSec (n : Int32)
  | nBitsPerSample (n : UInt16)
  | nBlockAlign (n : UInt16)
  | clearQueue
  deriving DecidableEq

def Filter.write (w : Filter) : Write → Filter
  | .isFloat b => { w with mixer := { w.mixer with isFloat := b } }
  | .frequency f => { w with device := { w.device with frequency := f } }
  | .speakerLayout l => { w with device := { w.device with speakerLayout := l } }
  | .bitness b => { w with device := { w.device with bitness := b } }
  | .runTimeError => { w with pin := { w.pin with runTimeError := true } }
  | .connectionType mt f =>
      let format := f.getD w.pin.connectionFormat
      { w with pin := { w.pin with mt := mt, connectionFormat := format } }
  | .nChannels n => { w with mixer := { w.mixer with nChannels := n } }
  | .nSamplesPerSec n => { w with mixer := { w.mixer with nSamplesPerSec := n } }
  | .nBitsPerSample n => { w with mixer := { w.mixer with nBitsPerSample := n } }
  | .nBlockAlign n => { w with mixer := { w.mixer with nBlockAlign := n } }
  | .clearQueue => w.clearQueue

/-- The writes of `CheckOpenALMediaType`. -/
def WaveFormat.checkOpenALMediaTypeWrites (caps : Capabilities) (e : Indeterminate)
    (f : WaveFormat) : List Write :=
  .frequency f.nSamplesPerSec.toInt32 ::
    match f.normalizeChannels e with
    | none => []
    | some layout =>
        if layout ∈ caps.getSupportedSpeakerLayout then
          .speakerLayout layout ::
            match f.normalizeBitness e with
            | none => []
            | some bitness => if bitness ∈ caps.getSupportedBitness then [.bitness bitness] else []
        else []

namespace MediaType

def checkMediaTypeWrites (caps : Capabilities) (e : Indeterminate) (pmt : MediaType) :
    List Write :=
  match pmt.format with
  | none => []
  | some block =>
      let f := WaveFormat.view e.beyond block
      if pmt.majortype ≠ mediaTypeAudio then []
      else if pmt.formattype ≠ formatWaveFormatEx then []
      else if f.wFormatTag ≠ waveFormatPcm ∧ f.wFormatTag ≠ waveFormatExtensible ∧
          f.wFormatTag ≠ waveFormatIeeeFloat then []
      else
        .isFloat (f.wFormatTag == waveFormatIeeeFloat) ::
          (if f.wFormatTag = waveFormatExtensible ∧ f.subFormat = subtypeIeeeFloat
            then [.isFloat true] else []) ++
          f.checkOpenALMediaTypeWrites caps e

/-- The writes of `SetMediaType`; `none` is a null dereference. -/
def setMediaTypeWrites (caps : Capabilities) (e : Indeterminate) (allocates : Bool)
    (pmt : MediaType) : Option (List Write) :=
  match pmt.format with
  | none => none
  | some block =>
      if pmt.copies allocates then
        let f := WaveFormat.view e.beyond block
        some ([.connectionType pmt f, .nChannels f.nChannels,
          .nSamplesPerSec f.nSamplesPerSec.toInt32, .nBitsPerSample f.wBitsPerSample,
          .nBlockAlign f.nBlockAlign, .isFloat (f.wFormatTag == waveFormatIeeeFloat)] ++
            f.checkOpenALMediaTypeWrites caps e)
      else some [.connectionType { pmt with format := none } none]

end MediaType

/-- What a `Receive` is going to do past its checks: what it leaves in `m_SampleProps`, the
writes it makes, and the sample it hands to the mixer at the end, unless it returns. -/
structure Processing where
  sampleProps : Option MediaType
  writes : List Write
  sample : Option (MediaSample UInt8)

/-- The second half of `Receive`, which trusts `m_SampleProps`, after the writes of the
first. -/
def Processing.retype (caps : Capabilities) (allocates : Bool) (e : Indeterminate)
    (sampleProps : Option MediaType) (writes : List Write) (sample : MediaSample UInt8) :
    Option Processing :=
  match sampleProps with
  | none => some ⟨sampleProps, writes, sample⟩
  | some pmt => (pmt.setMediaTypeWrites caps e allocates).map fun more =>
      if pmt.copies allocates then ⟨sampleProps, writes ++ more ++ [.clearQueue], sample⟩
      else ⟨sampleProps, writes ++ more, none⟩

/-- `CAudioInputPin::Receive` up to its first write to a format; `none` is a crash. -/
def Filter.process (caps : Capabilities) (r : Replies) (e e' : Indeterminate)
    (sample : PinSample) (w : Filter) : Option Processing :=
  if w.state = .stopped ∨ w.checkStreaming.failed then some ⟨w.pin.sampleProps, [], none⟩
  else if w.checkStreaming ≠ .S_OK then
    Processing.retype caps r.allocates e' w.pin.sampleProps [] sample.data
  else if sample.properties.failed then some ⟨w.pin.sampleProps, [], none⟩
  else
    match sample.mediaType with
    | none => some ⟨none, [], sample.data⟩
    | some pmt =>
        let writes := pmt.checkMediaTypeWrites caps e
        if (w.checkMediaType caps e pmt).1 = .S_OK then
          Processing.retype caps r.allocates e' pmt writes sample.data
        else some ⟨pmt, writes ++ [.runTimeError], none⟩

/-! ## The two threads -/

/-- Where the streaming thread is. While it processes a sample, `begun` tells whether a write
has been made. -/
inductive Receiving where
  | idle
  | processing (begun : Bool) (rest : List Write) (sample : Option (MediaSample UInt8))
  | delivering (a : Producer StampedByte)

/-- The stream, the filter around it, and where `SoundLoop` is inside a call of `Mix`. The mixer's
`m_bStreaming` is there twice, in `mixer` and as the answer of `IsStreaming` in `stream`. -/
structure Playback where
  stream : Stream StampedByte
  state : FilterState
  pin : Pin
  mixer : Mixer StampedByte
  mix : Option (Consumer StampedByte) := none
  receiving : Receiving := .idle

namespace Playback

/-- The filter as the pin sees it. -/
def filter (s : Playback) : Filter where
  state := s.state
  pin := s.pin
  mixer := s.mixer
  device :=
    { frequency := s.stream.frequency
      speakerLayout := s.stream.speakerLayout
      bitness := s.stream.bitness
      runThread := s.stream.runThread
      soundLoops := 1 }

def setFilter (w : Filter) (s : Playback) : Playback :=
  { s with
    stream :=
      { s.stream with
        frequency := w.device.frequency
        speakerLayout := w.device.speakerLayout
        bitness := w.device.bitness }
    pin := w.pin
    mixer := w.mixer }

/-- One step of the thread that runs `SoundLoop`, inside `Mix` or outside. -/
def loopStep (p : Platform) (c : Choice StampedByte) (s : Playback) : Option Playback :=
  match s.stream.pc, s.mix with
  | .mix n, none =>
      let call := ⟨s.stream.locals.framesPerBuffer.toNat, n, s.stream.locals.byteData⟩
      some { s with mix := some (.mix call) }
  | .mix _, some (.returned call frames) =>
      (s.stream.loopStep { c with frames := frames, data := call.samples }).map fun t =>
        { s with stream := t, mix := none }
  | .mix _, some k => (k.step p s.mixer).map fun r => { s with mix := some r.1, mixer := r.2 }
  | _, _ => (s.stream.loopStep c).map fun t => { s with stream := t }

/-- One step of the streaming thread inside `Receive`. -/
def receiveStep (p : Platform) (s : Playback) : Option Playback :=
  match s.receiving with
  | .idle => none
  | .processing _ (x :: rest) sample =>
      some { s.setFilter (s.filter.write x) with receiving := .processing true rest sample }
  | .processing _ [] none => some { s with receiving := .idle }
  | .processing _ [] (some sample) =>
      some { s with receiving := .delivering (.receive (s.filter.stamp sample)) }
  | .delivering .done => some { s with receiving := .idle }
  | .delivering a =>
      (a.step p s.mixer).map fun r => { s with receiving := .delivering r.1, mixer := r.2 }

/-- A step of `SoundLoop`, of the driver, a new call of `Receive`, or a step inside it. -/
inductive Label where
  | loop (c : Choice StampedByte)
  | driver (source : ℕ)
  | receive (r : Replies) (e e' : Indeterminate) (sample : PinSample)
  | pin

def next (p : Platform) (caps : Capabilities) (s : Playback) : Label → Option Playback
  | .loop c => s.loopStep p c
  | .driver n => (s.stream.al.finish n).map fun al => { s with stream := s.stream.setAl al }
  | .receive r e e' sample =>
      match s.receiving with
      | .idle => (s.filter.process caps r e e' sample).map fun q =>
          { s with
            pin := { s.pin with sampleProps := q.sampleProps }
            receiving := .processing false q.writes q.sample }
      | _ => none
  | .pin => s.receiveStep p

end Playback

end OpenALRenderer
