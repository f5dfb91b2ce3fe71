import OpenALRenderer.Model.Format
import OpenALRenderer.Model.Mixer

/-! # The filter, its input pin and the device it drives, one whole call at a time -/

namespace OpenALRenderer

/-! ## State -/

inductive FilterState where
  | stopped
  | paused
  | running
  deriving DecidableEq, Repr

/-- The members of `COpenALStream` that the filter and the pin write. `soundLoops` counts the
`SoundLoop` threads that have been started and not joined. -/
structure Device where
  frequency : Int32 := 48000
  speakerLayout : SpeakerLayout := .surround6
  bitness : MediaBitness := .bit16
  runThread : Bool := false
  soundLoops : ℕ := 0
  deriving DecidableEq

/-- The members of `CAudioInputPin` and of its base classes. `sampleProps` is the type left in
`m_SampleProps`, present when its flags say `AM_SAMPLE_TYPECHANGED`; `allocator` tells whether
the pin holds one and whether it is committed. The last member is not in the source: it is
the format the last `SetMediaType` handed to the mixer. -/
structure Pin where
  connected : Bool := false
  mt : MediaType := ⟨guidNull, guidNull, guidNull, none⟩
  flushing : Bool := false
  runTimeError : Bool := false
  sampleProps : Option MediaType := none
  allocator : Option Bool := none
  connectionFormat : WaveFormat
  deriving DecidableEq

/-- A queued byte, stamped with the connection format it was received under. -/
structure StampedByte where
  value : UInt8
  format : WaveFormat
  deriving DecidableEq

instance : Inhabited StampedByte := ⟨0, 0, 0, 0, 0, 0, []⟩

structure Filter where
  state : FilterState := .stopped
  pin : Pin
  mixer : Mixer StampedByte
  device : Device := {}
  deriving DecidableEq

/-- What the pin's `Active`, `Run` and `Inactive` answer. -/
structure PinReplies where
  active : HRESULT := .S_OK
  run : HRESULT := .S_OK
  inactive : HRESULT := .S_OK
  deriving DecidableEq

/-- What the callees outside the filter answer during one call. -/
structure Replies where
  pins : PinReplies := {}
  checkConnect : HRESULT := .S_OK
  decommit : HRESULT := .S_OK
  /-- The copy of a format block finds memory, if there is anything to copy. -/
  allocates : Bool := true
  deriving DecidableEq

/-- A sample as the pin sees it: its bytes, the type it carries when it announces a change,
and what `IMediaSample2::GetProperties` answers. -/
structure PinSample where
  data : MediaSample UInt8
  mediaType : Option MediaType := none
  properties : HRESULT := .S_OK

/-! ## Type checks -/

/-- The part of `CheckOpenALMediaType` that runs before its verdict, and the verdict. -/
def Device.checkOpenALMediaType (caps : Capabilities) (e : Indeterminate) (f : WaveFormat)
    (d : Device) : HRESULT × Device :=
  let d := { d with frequency := f.nSamplesPerSec.toInt32 }
  match f.normalizeChannels e with
  | none => (.S_FALSE, d)
  | some layout =>
      if layout ∈ caps.getSupportedSpeakerLayout then
        let d := { d with speakerLayout := layout }
        match f.normalizeBitness e with
        | none => (.S_FALSE, d)
        | some bitness =>
            if bitness ∈ caps.getSupportedBitness then (.S_OK, { d with bitness := bitness })
            else (.S_FALSE, d)
      else (.S_FALSE, d)

namespace Filter

def checkMediaType (caps : Capabilities) (e : Indeterminate) (pmt : MediaType) (w : Filter) :
    HRESULT × Filter :=
  match pmt.format with
  | none => (.S_FALSE, w)
  | some block =>
      let f := WaveFormat.view e.beyond block
      if pmt.majortype ≠ mediaTypeAudio then (.S_FALSE, w)
      else if pmt.formattype ≠ formatWaveFormatEx then (.S_FALSE, w)
      else if f.wFormatTag ≠ waveFormatPcm ∧ f.wFormatTag ≠ waveFormatExtensible ∧
          f.wFormatTag ≠ waveFormatIeeeFloat then (.S_FALSE, w)
      else
        let isFloat := f.wFormatTag == waveFormatIeeeFloat ||
          (f.wFormatTag == waveFormatExtensible && f.subFormat == subtypeIeeeFloat)
        let r := w.device.checkOpenALMediaType caps e f
        let w := { w with mixer := { w.mixer with isFloat := isFloat }, device := r.2 }
        if r.1.failed then (.S_FALSE, w) else (r.1, w)

def queryAccept (caps : Capabilities) (e : Indeterminate) (pmt : MediaType) (w : Filter) :
    HRESULT × Filter :=
  let r := w.checkMediaType caps e pmt
  if r.1.failed then (.S_FALSE, r.2) else r

/-- `SetMediaType`; `none` is the null dereference of a type without a format block. -/
def setMediaType (caps : Capabilities) (e : Indeterminate) (allocates : Bool) (pmt : MediaType)
    (w : Filter) : Option (HRESULT × Filter) :=
  match pmt.format with
  | none => none
  | some block =>
      if pmt.copies allocates then
        let f := WaveFormat.view e.beyond block
        let mixer := { w.mixer with
          nChannels := f.nChannels
          nSamplesPerSec := f.nSamplesPerSec.toInt32
          nBitsPerSample := f.wBitsPerSample
          nBlockAlign := f.nBlockAlign
          isFloat := f.wFormatTag == waveFormatIeeeFloat }
        let r := w.device.checkOpenALMediaType caps e f
        let pin := { w.pin with mt := pmt, connectionFormat := f }
        some (if r.1.failed then .S_OK else r.1,
          { w with pin := pin, mixer := mixer, device := r.2 })
      else some (.E_OUTOFMEMORY, { w with pin := { w.pin with mt := { pmt with format := none } } })

/-! ## State changes -/

def startStreaming (w : Filter) : Filter := { w with mixer := { w.mixer with streaming := true } }

def stopStreaming (w : Filter) : Filter := { w with mixer := { w.mixer with streaming := false } }

/-- `StartDevice`: the older thread, if there is one, is joined first. -/
def startDevice (w : Filter) : Filter :=
  if w.device.runThread then w
  else { w with device := { w.device with runThread := true, soundLoops := 1 } }

/-- `CBaseFilter::Pause`. -/
def basePause (r : PinReplies) (w : Filter) : HRESULT × Filter :=
  if w.state = .stopped ∧ w.pin.connected ∧ r.active.failed then (r.active, w)
  else (.S_OK, { w with state := .paused })

def pause (r : PinReplies) (w : Filter) : HRESULT × Filter :=
  if w.state = .running then w.stopStreaming.basePause r else w.basePause r

/-- `CBaseFilter::Stop`: the state changes whatever the pins answer. -/
def baseStop (r : PinReplies) (w : Filter) : HRESULT × Filter :=
  let hr := if w.state ≠ .stopped ∧ w.pin.connected ∧ r.inactive.failed then r.inactive else .S_OK
  (hr, { w with state := .stopped })

def stop (r : PinReplies) (w : Filter) : HRESULT × Filter :=
  match w.state with
  | .stopped => (.S_OK, w)
  | .paused => w.baseStop r
  | .running =>
      let q := w.pause r
      if q.1.failed then q else q.2.baseStop r

/-- The end of `CBaseFilter::Run`: notify the pins and enter the running state. -/
def runPins (r : PinReplies) (w : Filter) : HRESULT × Filter :=
  if w.state ≠ .running ∧ w.pin.connected ∧ r.run.failed then (r.run, w)
  else (.S_OK, { w with state := .running })

/-- `CBaseFilter::Run`, which calls the overridden `Pause` when stopped. -/
def baseRun (r : PinReplies) (w : Filter) : HRESULT × Filter :=
  let q := if w.state = .stopped then w.pause r else (.S_OK, w)
  if q.1.failed then q else q.2.runPins r

def run (r : PinReplies) (w : Filter) : HRESULT × Filter :=
  let q := w.baseRun r
  if q.1.failed then q
  else if w.state = .running then (.S_OK, q.2)
  else (.S_OK, q.2.startStreaming.startDevice)

/-! ## Connection -/

/-- `CBaseInputPin::BreakConnect`. -/
def baseBreakConnect (r : Replies) (w : Filter) : HRESULT × Filter :=
  match w.pin.allocator with
  | none => (.S_OK, w)
  | some _ =>
      if r.decommit.failed then (r.decommit, w)
      else (.S_OK, { w with pin := { w.pin with allocator := none } })

def breakConnect (r : Replies) (w : Filter) : HRESULT × Filter :=
  if w.pin.mt.isValid then
    let w := (w.stop r.pins).2
    let mt := { w.pin.mt with majortype := guidNull, subtype := guidNull }
    baseBreakConnect r { w with pin := { w.pin with mt := mt } }
  else (.S_FALSE, w)

/-- `CBasePin::ReceiveConnection`; the second indeterminate state is the one `SetMediaType`
meets. -/
def receiveConnection (caps : Capabilities) (r : Replies) (e e' : Indeterminate)
    (pmt : MediaType) (w : Filter) : Option (HRESULT × Filter) :=
  if w.pin.connected then some (.VFW_E_ALREADY_CONNECTED, w)
  else if w.state ≠ .stopped then some (.VFW_E_NOT_STOPPED, w)
  else if r.checkConnect.failed then some (r.checkConnect, (w.breakConnect r).2)
  else
    let q := w.checkMediaType caps e pmt
    if q.1 ≠ .S_OK then
      let hr := if q.1.failed = false ∨ q.1 = .E_FAIL ∨ q.1 = .E_INVALIDARG
        then .VFW_E_TYPE_NOT_ACCEPTED else q.1
      some (hr, (q.2.breakConnect r).2)
    else
      let w := { q.2 with pin := { q.2.pin with connected := true } }
      (w.setMediaType caps e' r.allocates pmt).map fun s =>
        if s.1.failed then
          let w := { s.2 with pin := { s.2.pin with connected := false } }
          (s.1, (w.breakConnect r).2)
        else (.S_OK, s.2)

/-- `CBasePin::Disconnect` with `DisconnectInternal`. -/
def disconnect (r : Replies) (w : Filter) : HRESULT × Filter :=
  if w.state ≠ .stopped then (.VFW_E_NOT_STOPPED, w)
  else if w.pin.connected then
    let q := w.breakConnect r
    if q.1.failed then q
    else (.S_OK, { q.2 with pin := { q.2.pin with connected := false } })
  else (.S_FALSE, w)

/-- `NotifyAllocator` and a later `Commit` by the upstream pin. -/
def notifyAllocator (committed : Bool) (w : Filter) : Filter :=
  { w with pin := { w.pin with allocator := some committed } }

end Filter

end OpenALRenderer
