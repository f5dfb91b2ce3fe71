import OpenALRenderer.Verification.Mixer.Calls
import OpenALRenderer.Verification.Pin.Operations

/-! # What each pin operation can do

One rule for each way a type check, a connection or a `Receive` can end. -/

namespace OpenALRenderer

/-! ## The acceptance check -/

/-- The format a media type proposes to the device, when it passes the gates of
`CheckMediaType`. -/
def MediaType.proposal (e : Indeterminate) (pmt : MediaType) : Option WaveFormat :=
  match pmt.format with
  | none => none
  | some block =>
      let f := WaveFormat.view e.beyond block
      if pmt.majortype = mediaTypeAudio ∧ pmt.formattype = formatWaveFormatEx ∧
          (f.wFormatTag = waveFormatPcm ∨ f.wFormatTag = waveFormatExtensible ∨
            f.wFormatTag = waveFormatIeeeFloat)
      then some f else none

/-- The samples of the block are of floating point. -/
def WaveFormat.IsFloat (f : WaveFormat) : Prop :=
  f.wFormatTag = waveFormatIeeeFloat ∨
    f.wFormatTag = waveFormatExtensible ∧ f.subFormat = subtypeIeeeFloat

instance (f : WaveFormat) : Decidable f.IsFloat := inferInstanceAs (Decidable (_ ∨ _ ∧ _))

/-- The layout a block selects, where the driver supports it. -/
def WaveFormat.supportedLayout (caps : Capabilities) (e : Indeterminate) (f : WaveFormat) :
    Option SpeakerLayout :=
  (f.normalizeChannels e).filter (· ∈ caps.getSupportedSpeakerLayout)

/-- The sample type a block selects, where the driver supports it and the layout. -/
def WaveFormat.supportedBitness (caps : Capabilities) (e : Indeterminate) (f : WaveFormat) :
    Option MediaBitness :=
  (f.supportedLayout caps e).bind fun _ =>
    (f.normalizeBitness e).filter (· ∈ caps.getSupportedBitness)

/-- The format the device ends up with when a block is proposed to it: each member is written
as soon as its value is known, whether or not the proposal is accepted in the end. -/
def Device.settle (caps : Capabilities) (e : Indeterminate) (d : Device) :
    Option WaveFormat → Device
  | none => d
  | some f =>
      { d with
        frequency := f.nSamplesPerSec.toInt32
        speakerLayout := (f.supportedLayout caps e).getD d.speakerLayout
        bitness := (f.supportedBitness caps e).getD d.bitness }

/-- The type passes the gates, and the driver supports its layout and its sample type. -/
def MediaType.supported (caps : Capabilities) (e : Indeterminate) (pmt : MediaType) : Bool :=
  ((pmt.proposal e).bind fun f => f.supportedBitness caps e).isSome

theorem WaveFormat.supportedLayout_eq_some_iff {caps : Capabilities} {e : Indeterminate}
    {f : WaveFormat} {l : SpeakerLayout} : f.supportedLayout caps e = some l ↔
      f.normalizeChannels e = some l ∧ l ∈ caps.getSupportedSpeakerLayout := by
  rw [supportedLayout, Option.filter_eq_some_iff, decide_eq_true_iff]

theorem WaveFormat.supportedBitness_eq_some_iff {caps : Capabilities} {e : Indeterminate}
    {f : WaveFormat} {b : MediaBitness} : f.supportedBitness caps e = some b ↔
      (∃ l, f.supportedLayout caps e = some l) ∧
        f.normalizeBitness e = some b ∧ b ∈ caps.getSupportedBitness := by
  rw [supportedBitness, Option.bind_eq_some_iff, Option.filter_eq_some_iff, decide_eq_true_iff,
    exists_and_right]

theorem MediaType.supported_iff {caps : Capabilities} {e : Indeterminate} {pmt : MediaType} :
    pmt.supported caps e = true ↔
      ∃ f, pmt.proposal e = some f ∧ ∃ b, f.supportedBitness caps e = some b := by
  rw [supported, Option.isSome_bind, Option.any_eq_true]
  exact exists_congr fun f => and_congr_right fun _ => Option.isSome_iff_exists

theorem Device.checkOpenALMediaType_eq (caps : Capabilities) (e : Indeterminate)
    (f : WaveFormat) (d : Device) :
    d.checkOpenALMediaType caps e f =
      (if (f.supportedBitness caps e).isSome then .S_OK else .S_FALSE,
        d.settle caps e (some f)) := by
  simp only [Device.checkOpenALMediaType, Device.settle, WaveFormat.supportedBitness,
    WaveFormat.supportedLayout]
  obtain hlayout | ⟨layout, hlayout⟩ := Option.eq_none_or_eq_some (f.normalizeChannels e)
  · simp [hlayout]
  · by_cases hl : layout ∈ caps.getSupportedSpeakerLayout
    · obtain hbitness | ⟨bitness, hbitness⟩ := Option.eq_none_or_eq_some (f.normalizeBitness e)
      · simp [hlayout, hl, hbitness, Option.filter_some]
      · by_cases hb : bitness ∈ caps.getSupportedBitness <;>
          simp [hlayout, hl, hbitness, hb, Option.filter_some]
    · simp [hlayout, hl, Option.filter_some]

theorem Device.checkOpenALMediaType_not_failed (caps : Capabilities) (e : Indeterminate)
    (f : WaveFormat) (d : Device) : (d.checkOpenALMediaType caps e f).1.failed = false := by
  rw [Device.checkOpenALMediaType_eq]
  split <;> rfl

namespace Filter

theorem checkMediaType_of_none {caps : Capabilities} {e : Indeterminate} {pmt : MediaType}
    {w : Filter} (h : pmt.proposal e = none) : w.checkMediaType caps e pmt = (.S_FALSE, w) := by
  unfold MediaType.proposal at h
  unfold checkMediaType
  obtain hformat | ⟨block, hformat⟩ := Option.eq_none_or_eq_some pmt.format
  · rw [hformat]
  · rw [hformat] at h ⊢
    have hgate : ¬ (pmt.majortype = mediaTypeAudio ∧ pmt.formattype = formatWaveFormatEx ∧
        ((WaveFormat.view e.beyond block).wFormatTag = waveFormatPcm ∨
          (WaveFormat.view e.beyond block).wFormatTag = waveFormatExtensible ∨
          (WaveFormat.view e.beyond block).wFormatTag = waveFormatIeeeFloat)) := by
      intro hg
      simp [hg] at h
    dsimp only
    split_ifs
    · rfl
    · rfl
    · rfl
    · tauto
    · tauto

theorem checkMediaType_of_some (caps : Capabilities) {e : Indeterminate} {pmt : MediaType}
    (w : Filter) {f : WaveFormat} (h : pmt.proposal e = some f) :
    w.checkMediaType caps e pmt =
      ((w.device.checkOpenALMediaType caps e f).1,
        { w with
          mixer := { w.mixer with isFloat := decide f.IsFloat }
          device := (w.device.checkOpenALMediaType caps e f).2 }) := by
  unfold MediaType.proposal at h
  unfold checkMediaType
  obtain hformat | ⟨block, hformat⟩ := Option.eq_none_or_eq_some pmt.format
  · rw [hformat] at h
    cases h
  · rw [hformat] at h ⊢
    obtain ⟨⟨hmajor, htype, htag⟩, hsome⟩ := Option.ite_none_right_eq_some.mp h
    obtain rfl := Option.some.inj hsome
    have hnot : ¬ ((WaveFormat.view e.beyond block).wFormatTag ≠ waveFormatPcm ∧
        (WaveFormat.view e.beyond block).wFormatTag ≠ waveFormatExtensible ∧
        (WaveFormat.view e.beyond block).wFormatTag ≠ waveFormatIeeeFloat) := by tauto
    have hfloat : ((WaveFormat.view e.beyond block).wFormatTag == waveFormatIeeeFloat ||
        ((WaveFormat.view e.beyond block).wFormatTag == waveFormatExtensible &&
          (WaveFormat.view e.beyond block).subFormat == subtypeIeeeFloat)) =
        decide (WaveFormat.view e.beyond block).IsFloat := by
      rw [Bool.eq_iff_iff, decide_eq_true_iff]
      simp [WaveFormat.IsFloat]
    simp only [hmajor, htype, hnot, hfloat, ne_eq, not_true_eq_false, if_false,
      Device.checkOpenALMediaType_not_failed, Bool.false_eq_true]

/-- `CheckMediaType` settles the device on what passes its gates. -/
theorem checkMediaType_eq (caps : Capabilities) (e : Indeterminate) (pmt : MediaType)
    (w : Filter) :
    ∃ isFloat, w.checkMediaType caps e pmt =
      (if pmt.supported caps e then .S_OK else .S_FALSE,
        { w with
          mixer := { w.mixer with isFloat := isFloat }
          device := w.device.settle caps e (pmt.proposal e) }) := by
  obtain h | ⟨f, h⟩ := Option.eq_none_or_eq_some (pmt.proposal e)
  · exact ⟨w.mixer.isFloat, by
      simp [checkMediaType_of_none h, MediaType.supported, Device.settle, h]⟩
  · refine ⟨decide f.IsFloat, ?_⟩
    rw [checkMediaType_of_some caps w h, Device.checkOpenALMediaType_eq, MediaType.supported, h, Option.bind_some]

/-- A type check touches the device's format only. -/
structure IsChecked (caps : Capabilities) (e : Indeterminate) (f : Option WaveFormat)
    (w w' : Filter) : Prop where
  mixer : SameMixer w w'
  device : w'.device = w.device.settle caps e f
  streaming : w'.mixer.streaming = w.mixer.streaming
  pin : w'.pin = w.pin
  state : w'.state = w.state

theorem checkMediaType_isChecked (caps : Capabilities) (e : Indeterminate) (pmt : MediaType)
    (w : Filter) : IsChecked caps e (pmt.proposal e) w (w.checkMediaType caps e pmt).2 := by
  obtain ⟨isFloat, h⟩ := checkMediaType_eq caps e pmt w
  rw [h]
  exact ⟨⟨rfl, rfl, rfl, rfl, rfl⟩, rfl, rfl, rfl, rfl⟩

theorem checkMediaType_ok_iff (caps : Capabilities) (e : Indeterminate) (pmt : MediaType)
    (w : Filter) : (w.checkMediaType caps e pmt).1 = .S_OK ↔ pmt.supported caps e = true := by
  obtain ⟨isFloat, h⟩ := checkMediaType_eq caps e pmt w
  rw [h]
  cases pmt.supported caps e <;> simp

/-- A type check reads nothing of the pin. -/
theorem checkMediaType_withPin (caps : Capabilities) (e : Indeterminate) (pmt : MediaType)
    (w : Filter) (pin : Pin) :
    { w with pin := pin }.checkMediaType caps e pmt =
      ((w.checkMediaType caps e pmt).1, { (w.checkMediaType caps e pmt).2 with pin := pin }) := by
  unfold checkMediaType
  cases pmt.format with
  | none => rfl
  | some block =>
      dsimp only
      split_ifs <;> rfl

theorem queryAccept_snd (caps : Capabilities) (e : Indeterminate) (pmt : MediaType)
    (w : Filter) : (w.queryAccept caps e pmt).2 = (w.checkMediaType caps e pmt).2 := by
  unfold queryAccept
  dsimp only
  split <;> rfl

/-! ## Setting a type -/

/-- The filter after `SetMediaType` has stored the format `f` read from `pmt`. -/
structure IsSet (caps : Capabilities) (e : Indeterminate) (f : WaveFormat) (w w' : Filter) :
    Prop where
  nChannels : w'.mixer.nChannels = f.nChannels
  nSamplesPerSec : w'.mixer.nSamplesPerSec = f.nSamplesPerSec.toInt32
  nBitsPerSample : w'.mixer.nBitsPerSample = f.wBitsPerSample
  connectionFormat : w'.pin.connectionFormat = f
  device : w'.device = w.device.settle caps e (some f)
  sampleQueue : w'.mixer.sampleQueue = w.mixer.sampleQueue
  streaming : w'.mixer.streaming = w.mixer.streaming
  connected : w'.pin.connected = w.pin.connected
  flushing : w'.pin.flushing = w.pin.flushing
  state : w'.state = w.state

theorem setMediaType_cases {caps : Capabilities} {e : Indeterminate} {allocates : Bool}
    {pmt : MediaType} {w : Filter} {hr : HRESULT} {w' : Filter}
    (h : w.setMediaType caps e allocates pmt = some (hr, w')) :
    ∃ block, pmt.format = some block ∧
      (pmt.copies allocates = true ∧ hr.failed = false ∧
          IsSet caps e (WaveFormat.view e.beyond block) w w' ∨
        pmt.copies allocates = false ∧ hr = .E_OUTOFMEMORY ∧
          w' = { w with pin := { w.pin with mt := { pmt with format := none } } }) := by
  unfold setMediaType at h
  cases hformat : pmt.format with
  | none => simp [hformat] at h
  | some block =>
      refine ⟨block, rfl, ?_⟩
      cases hcopies : pmt.copies allocates with
      | true =>
          simp only [hformat, hcopies, if_true, Option.some.injEq, Prod.mk.injEq,
            Device.checkOpenALMediaType_not_failed, Bool.false_eq_true, if_false] at h
          obtain ⟨rfl, rfl⟩ := h
          refine .inl ⟨rfl, Device.checkOpenALMediaType_not_failed _ _ _ _,
            rfl, rfl, rfl, rfl, ?_, rfl, rfl, rfl, rfl, rfl⟩
          rw [Device.checkOpenALMediaType_eq]
      | false =>
          simp only [hformat, hcopies, Bool.false_eq_true, if_false, Option.some.injEq,
            Prod.mk.injEq] at h
          exact .inr ⟨rfl, h.1.symm, h.2.symm⟩

/-! ## Connecting -/

/-- The pin takes part in a connection attempt up to `SetMediaType`, which stores the type. -/
structure Accepts (caps : Capabilities) (r : Replies) (e : Indeterminate) (pmt : MediaType)
    (w : Filter) : Prop where
  connected : w.pin.connected = false
  state : w.state = .stopped
  checkConnect : r.checkConnect.failed = false
  supported : pmt.supported caps e = true
  allocates : pmt.copies r.allocates = true

/-- The branches of `receiveConnection`. -/
inductive ConnectionBranch (caps : Capabilities) (r : Replies) (e e' : Indeterminate)
    (pmt : MediaType) (w : Filter) : HRESULT × Filter → Prop where
  | connected (hconn : w.pin.connected = true) :
      ConnectionBranch caps r e e' pmt w (.VFW_E_ALREADY_CONNECTED, w)
  | active (hstate : w.state ≠ .stopped) :
      ConnectionBranch caps r e e' pmt w (.VFW_E_NOT_STOPPED, w)
  | unchecked (hconn : w.pin.connected = false) (hcheck : r.checkConnect.failed = true) :
      ConnectionBranch caps r e e' pmt w (r.checkConnect, (w.breakConnect r).2)
  | rejected {hr} (hconn : w.pin.connected = false) (hstate : w.state = .stopped)
      (hcheck : r.checkConnect.failed = false)
      (hverdict : (w.checkMediaType caps e pmt).1 ≠ .S_OK) :
      ConnectionBranch caps r e e' pmt w (hr, ((w.checkMediaType caps e pmt).2.breakConnect r).2)
  | unset {hr v} (hset : { (w.checkMediaType caps e pmt).2 with
          pin := { (w.checkMediaType caps e pmt).2.pin with connected := true }
        }.setMediaType caps e' r.allocates pmt = some (hr, v)) (hfailed : hr.failed = true)
      (hconn : w.pin.connected = false) (hstate : w.state = .stopped)
      (hcheck : r.checkConnect.failed = false) :
      ConnectionBranch caps r e e' pmt w
        (hr, ({ v with pin := { v.pin with connected := false } }.breakConnect r).2)
  | set {hr v} (hset : { (w.checkMediaType caps e pmt).2 with
          pin := { (w.checkMediaType caps e pmt).2.pin with connected := true }
        }.setMediaType caps e' r.allocates pmt = some (hr, v)) (hok : hr.failed = false)
      (hconn : w.pin.connected = false) (hstate : w.state = .stopped)
      (hcheck : r.checkConnect.failed = false)
      (hverdict : (w.checkMediaType caps e pmt).1 = .S_OK) :
      ConnectionBranch caps r e e' pmt w (.S_OK, v)

theorem receiveConnection_branch {caps : Capabilities} {r : Replies} {e e' : Indeterminate}
    {pmt : MediaType} {w : Filter} {q : HRESULT × Filter}
    (h : w.receiveConnection caps r e e' pmt = some q) :
    ConnectionBranch caps r e e' pmt w q := by
  unfold receiveConnection at h
  split at h
  · next hconn =>
      obtain rfl := Option.some.inj h
      exact .connected hconn
  next hconn =>
  simp only [Bool.not_eq_true] at hconn
  split at h
  · next hstate =>
      obtain rfl := Option.some.inj h
      exact .active hstate
  next hstate =>
  simp only [ne_eq, not_not] at hstate
  split at h
  · next hcheck =>
      obtain rfl := Option.some.inj h
      exact .unchecked hconn hcheck
  next hcheck =>
  simp only [Bool.not_eq_true] at hcheck
  dsimp only at h
  split at h
  · next hverdict =>
      obtain rfl := Option.some.inj h
      exact .rejected hconn hstate hcheck hverdict
  next hverdict =>
  obtain ⟨⟨hr, v⟩, hset, rfl⟩ := Option.map_eq_some_iff.mp h
  cases hfailed : hr.failed with
  | true => exact .unset hset hfailed hconn hstate hcheck
  | false => exact .set hset hfailed hconn hstate hcheck (not_not.mp hverdict)

/-- A connection attempt leaves a connected pin alone, is refused, or is accepted. -/
theorem receiveConnection_cases {caps : Capabilities} {r : Replies} {e e' : Indeterminate}
    {pmt : MediaType} {w : Filter} {hr : HRESULT} {w' : Filter}
    (h : w.receiveConnection caps r e e' pmt = some (hr, w')) :
    (¬ Accepts caps r e pmt w ∧ (w' = w ∨ w'.pin.connected = false ∧ SameMixer w w')) ∨
      (Accepts caps r e pmt w ∧ w'.pin.connected = true ∧
        ∃ block v, pmt.format = some block ∧ IsChecked caps e (pmt.proposal e) w v ∧
          IsSet caps e' (WaveFormat.view e'.beyond block)
            { v with pin := { v.pin with connected := true } } w') := by
  have hchecked := checkMediaType_isChecked caps e pmt w
  have hsupported := checkMediaType_ok_iff caps e pmt w
  cases receiveConnection_branch h with
  | connected hconn => exact .inl ⟨fun ha => by simp [ha.connected] at hconn, .inl rfl⟩
  | active hstate => exact .inl ⟨fun ha => hstate ha.state, .inl rfl⟩
  | unchecked hconn hcheck =>
      have hb := breakConnect_same r w
      refine .inl ⟨fun ha => by simp [ha.checkConnect] at hcheck, .inr ⟨?_, hb.mixer⟩⟩
      rw [hb.connected, hconn]
  | rejected hconn hstate hcheck hverdict =>
      have hb := breakConnect_same r (w.checkMediaType caps e pmt).2
      refine .inl ⟨fun ha => hverdict (hsupported.mpr ha.supported),
        .inr ⟨?_, hchecked.mixer.trans hb.mixer⟩⟩
      rw [hb.connected, hchecked.pin, hconn]
  | unset hset hfailed hconn hstate hcheck =>
      obtain ⟨block, hformat, ⟨-, hok, -⟩ | ⟨halloc, rfl, rfl⟩⟩ := setMediaType_cases hset
      · cases hok.symm.trans hfailed
      · have hb := breakConnect_same r
          { (w.checkMediaType caps e pmt).2 with
            pin := { (w.checkMediaType caps e pmt).2.pin with
              connected := false
              mt := { pmt with format := none } } }
        refine .inl ⟨fun ha => by simp [ha.allocates] at halloc, .inr ⟨hb.connected, ?_⟩⟩
        refine SameMixer.trans ?_ hb.mixer
        have hm := hchecked.mixer
        exact ⟨hm.nChannels, hm.nSamplesPerSec, hm.nBitsPerSample, hm.sampleQueue,
          hm.connectionFormat⟩
  | set hset hok hconn hstate hcheck hverdict =>
      obtain ⟨block, hformat, ⟨halloc, -, hv⟩ | ⟨-, rfl, -⟩⟩ := setMediaType_cases hset
      · exact .inr ⟨⟨hconn, hstate, hcheck, hsupported.mp hverdict, halloc⟩, hv.connected,
          block, _, hformat, hchecked, hv⟩
      · cases hok

/-! ## Receiving -/

/-- The type a sample brings to `CheckMediaType`. -/
def checkedType (s : PinSample) (w : Filter) : Option MediaType :=
  if w.checkStreaming = .S_OK ∧ s.properties.failed = false then s.mediaType else none

/-- The format that type proposes to the device. -/
def checkedFormat (e : Indeterminate) (s : PinSample) (w : Filter) : Option WaveFormat :=
  (w.checkedType s).bind fun pmt => pmt.proposal e

/-- The type `SetMediaType` gets: the one the sample brings, once it is accepted, and while
the pin flushes the one an earlier sample has left. -/
def appliedType (caps : Capabilities) (e : Indeterminate) (s : PinSample) (w : Filter) :
    Option MediaType :=
  if w.state = .stopped then none
  else if w.pin.flushing then w.pin.sampleProps
  else (w.checkedType s).filter fun pmt => pmt.supported caps e

/-- How a `Receive` ends: without a sample, with the mixer's format as it was, or with a new
one. What reaches the mixer is left to `mixerReceive`. -/
inductive Received (p : Platform) (caps : Capabilities) (r : Replies) (e e' : Indeterminate)
    (w : Filter) : Option PinSample → Filter → Prop where
  | null : Received p caps r e e' w none w
  | kept {s v u}
      (applied : ∀ pmt, w.appliedType caps e s = some pmt → pmt.copies r.allocates = false)
      (mixer : SameMixer w v)
      (device : v.device = w.device.settle caps e (w.checkedFormat e s))
      (connected : v.pin.connected = w.pin.connected)
      (delivered : u = v ∨ v.mixerReceive p s.data = some u) :
      Received p caps r e e' w (some s) u
  | retyped {s pmt block v₀ v u} (applied : w.appliedType caps e s = some pmt)
      (allocates : pmt.copies r.allocates = true) (format : pmt.format = some block)
      (checked : IsChecked caps e (w.checkedFormat e s) w v₀)
      (set : IsSet caps e' (WaveFormat.view e'.beyond block) v₀ v)
      (delivered : v.clearQueue.mixerReceive p s.data = some u) :
      Received p caps r e e' w (some s) u

theorem deliver_filter {p : Platform} {s : MediaSample UInt8} {calls : List PinCall}
    {w : Filter} {o : ReceiveOutcome} (h : w.deliver p s calls = some o) :
    w.mixerReceive p s = some o.filter := by
  unfold deliver at h
  obtain ⟨u, hu, rfl⟩ := Option.map_eq_some_iff.mp h
  exact hu

theorem isChecked_none {caps : Capabilities} {e : Indeterminate} (w : Filter) :
    IsChecked caps e none w w :=
  ⟨.refl w, rfl, rfl, rfl, rfl⟩

/-- The base class's part checks the type of the sample and writes two members of the pin. -/
theorem baseReceive_isChecked (caps : Capabilities) (e : Indeterminate) (s : PinSample)
    (w : Filter) : ∃ v props error, IsChecked caps e (w.checkedFormat e s) w v ∧
      (w.baseReceive caps e s).filter = { v with
        pin := { w.pin with sampleProps := props, runTimeError := error } } := by
  have hunchecked : w.checkedType s = none → IsChecked caps e (w.checkedFormat e s) w w := by
    intro htype
    simpa [checkedFormat, htype] using isChecked_none w
  by_cases hcs : w.checkStreaming = .S_OK
  swap
  · refine ⟨w, w.pin.sampleProps, w.pin.runTimeError, hunchecked ?_, ?_⟩
    · simp [checkedType, hcs]
    · simp [baseReceive, hcs]
  by_cases hprops : s.properties.failed = true
  · refine ⟨w, w.pin.sampleProps, w.pin.runTimeError, hunchecked ?_, ?_⟩
    · simp [checkedType, hprops]
    · simp [baseReceive, hcs, hprops]
  cases hmt : s.mediaType with
  | none =>
      refine ⟨w, none, w.pin.runTimeError, hunchecked ?_, ?_⟩
      · simp [checkedType, hmt]
      · simp [baseReceive, hcs, hprops, hmt]
  | some pmt =>
      have hchecked := checkMediaType_isChecked caps e pmt w
      have hformat : w.checkedFormat e s = pmt.proposal e := by
        simp [checkedFormat, checkedType, hcs, hprops, hmt]
      rw [hformat]
      by_cases hverdict : (w.checkMediaType caps e pmt).1 = .S_OK
      · refine ⟨_, some pmt, w.pin.runTimeError, hchecked, ?_⟩
        simp [baseReceive, hcs, hprops, hmt, checkMediaType_withPin, hverdict]
      · refine ⟨_, some pmt, true, hchecked, ?_⟩
        simp [baseReceive, hcs, hprops, hmt, checkMediaType_withPin, hverdict]

/-- What the base class lets pass carries the type that `SetMediaType` is to get; there is none in
what it turns away. -/
theorem baseReceive_appliedType {caps : Capabilities} {e : Indeterminate} {s : PinSample}
    {w : Filter} (hstate : w.state ≠ .stopped) :
    w.appliedType caps e s = if (w.baseReceive caps e s).hr.failed then none
      else (w.baseReceive caps e s).filter.pin.sampleProps := by
  by_cases hflush : w.pin.flushing = true
  · -- `S_FALSE` is not a failure: the sample passes, with the properties of an older one
    have hcs : w.checkStreaming = .S_FALSE := by simp [checkStreaming, hstate, hflush]
    simp [baseReceive, hcs, appliedType, hstate, hflush]
  by_cases herror : w.pin.runTimeError = true
  · have hcs : w.checkStreaming = .VFW_E_RUNTIME_ERROR := by
      simp [checkStreaming, hstate, hflush, herror]
    simp [baseReceive, hcs, appliedType, hstate, hflush, checkedType]
  have hcs : w.checkStreaming = .S_OK := by simp [checkStreaming, hstate, hflush, herror]
  by_cases hprops : s.properties.failed = true
  · simp [baseReceive, hcs, hprops, appliedType, hstate, hflush, checkedType]
  cases hmt : s.mediaType with
  | none => simp [baseReceive, hcs, hprops, hmt, appliedType, hstate, hflush, checkedType]
  | some pmt =>
      have hverdict := checkMediaType_ok_iff caps e pmt w
      cases hs : pmt.supported caps e <;>
        simp [baseReceive, hcs, hprops, hmt, appliedType, hstate, hflush, checkedType,
          checkMediaType_withPin, hverdict, hs, Option.filter_some]

/-- The branches of `receive` with a sample. -/
inductive ReceiveBranch (p : Platform) (caps : Capabilities) (r : Replies) (e e' : Indeterminate)
    (s : PinSample) (w : Filter) : ReceiveOutcome → Prop where
  | stopped (hstate : w.state = .stopped) :
      ReceiveBranch p caps r e e' s w ⟨.VFW_E_WRONG_STATE, w, []⟩
  | failed (hstate : w.state ≠ .stopped) (hfailed : (w.baseReceive caps e s).hr.failed = true) :
      ReceiveBranch p caps r e e' s w (w.baseReceive caps e s)
  | kept {o} (hstate : w.state ≠ .stopped) (hok : (w.baseReceive caps e s).hr.failed = false)
      (hprops : (w.baseReceive caps e s).filter.pin.sampleProps = none)
      (hdeliver : (w.baseReceive caps e s).filter.deliver p s.data
        (w.baseReceive caps e s).calls = some o) :
      ReceiveBranch p caps r e e' s w o
  | unset {pmt q calls} (hstate : w.state ≠ .stopped)
      (hok : (w.baseReceive caps e s).hr.failed = false)
      (hprops : (w.baseReceive caps e s).filter.pin.sampleProps = some pmt)
      (hset : (w.baseReceive caps e s).filter.setMediaType caps e' r.allocates pmt = some q)
      (hfailed : q.1.failed = true) :
      ReceiveBranch p caps r e e' s w ⟨q.1, q.2, calls⟩
  | set {pmt q calls o} (hstate : w.state ≠ .stopped)
      (hok : (w.baseReceive caps e s).hr.failed = false)
      (hprops : (w.baseReceive caps e s).filter.pin.sampleProps = some pmt)
      (hset : (w.baseReceive caps e s).filter.setMediaType caps e' r.allocates pmt = some q)
      (hsucceeded : q.1.failed = false)
      (hdeliver : q.2.clearQueue.deliver p s.data calls = some o) :
      ReceiveBranch p caps r e e' s w o

theorem receive_branch {p : Platform} {caps : Capabilities} {r : Replies} {e e' : Indeterminate}
    {s : PinSample} {w : Filter} {o : ReceiveOutcome}
    (h : w.receive p caps r e e' (some s) = some o) : ReceiveBranch p caps r e e' s w o := by
  unfold receive at h
  split at h
  · next hstate =>
      obtain rfl := Option.some.inj h
      exact .stopped hstate
  next hstate =>
  dsimp only at h
  split at h
  · next hfailed =>
      obtain rfl := Option.some.inj h
      exact .failed hstate hfailed
  next hok =>
  simp only [Bool.not_eq_true] at hok
  split at h
  · next hprops => exact .kept hstate hok hprops h
  · next pmt hprops =>
      obtain ⟨q, hset, hfin⟩ := Option.bind_eq_some_iff.mp h
      split at hfin
      · next hfailed =>
          obtain rfl := Option.some.inj hfin
          exact .unset hstate hok hprops hset hfailed
      · next hsucceeded =>
          exact .set hstate hok hprops hset (by simpa using hsucceeded) hfin

theorem receive_none {p : Platform} {caps : Capabilities} {r : Replies} {e e' : Indeterminate}
    {w : Filter} {o : ReceiveOutcome} (h : w.receive p caps r e e' none = some o) :
    o.filter = w := by
  unfold receive at h
  split at h <;> obtain rfl := Option.some.inj h <;> rfl

theorem receive_cases {p : Platform} {caps : Capabilities} {r : Replies} {e e' : Indeterminate}
    {sample : Option PinSample} {w : Filter} {o : ReceiveOutcome}
    (h : w.receive p caps r e e' sample = some o) :
    Received p caps r e e' w sample o.filter := by
  cases sample with
  | none =>
      rw [receive_none h]
      exact .null
  | some s =>
      obtain ⟨v, props, error, hv, hbase⟩ := baseReceive_isChecked caps e s w
      have hm := hv.mixer
      have hmixer : SameMixer w (w.baseReceive caps e s).filter := by
        rw [hbase]
        exact ⟨hm.nChannels, hm.nSamplesPerSec, hm.nBitsPerSample, hm.sampleQueue, rfl⟩
      have hdevice : (w.baseReceive caps e s).filter.device =
          w.device.settle caps e (w.checkedFormat e s) := by
        rw [hbase]
        exact hv.device
      have hconn : (w.baseReceive caps e s).filter.pin.connected = w.pin.connected := by rw [hbase]
      cases receive_branch h with
      | stopped hstate =>
          have htype : w.checkedType s = none := by simp [checkedType, checkStreaming, hstate]
          refine .kept (by simp [appliedType, hstate]) (.refl w) ?_ rfl (.inl rfl)
          simp [checkedFormat, htype, Device.settle]
      | failed hstate hfailed =>
          refine .kept ?_ hmixer hdevice hconn (.inl rfl)
          simp [baseReceive_appliedType hstate, hfailed]
      | kept hstate hok hprops hdeliver =>
          refine .kept ?_ hmixer hdevice hconn (.inr (deliver_filter hdeliver))
          simp [baseReceive_appliedType hstate, hok, hprops]
      | @unset pmt q calls hstate hok hprops hset hfailed =>
          obtain ⟨block, -, ⟨-, hno, -⟩ | ⟨halloc, -, hq⟩⟩ := setMediaType_cases hset
          · cases hno.symm.trans hfailed
          · have happlied : w.appliedType caps e s = some pmt := by
              rw [baseReceive_appliedType hstate, hok, hprops]
              rfl
            refine .kept (v := q.2) (fun pmt' h' => ?_) ?_ (by rw [hq]; exact hdevice)
              (by rw [hq]; exact hconn) (.inl rfl)
            · obtain rfl := Option.some.inj (happlied.symm.trans h')
              exact halloc
            rw [hq]
            exact ⟨hmixer.nChannels, hmixer.nSamplesPerSec, hmixer.nBitsPerSample,
              hmixer.sampleQueue, hmixer.connectionFormat⟩
      | @set pmt q calls o hstate hok hprops hset hsucceeded hdeliver =>
          obtain ⟨block, hformat, ⟨halloc, -, hq⟩ | ⟨-, hr, -⟩⟩ := setMediaType_cases hset
          · refine .retyped ?_ halloc hformat hv ?_ (deliver_filter hdeliver)
            · rw [baseReceive_appliedType hstate, hok, hprops]
              rfl
            · rw [hbase] at hq
              have hsame := hv.pin
              exact ⟨hq.nChannels, hq.nSamplesPerSec, hq.nBitsPerSample, hq.connectionFormat,
                hq.device, hq.sampleQueue, hq.streaming, hsame ▸ hq.connected,
                hsame ▸ hq.flushing, hq.state⟩
          · rw [hr] at hsucceeded
            cases hsucceeded

end Filter

end OpenALRenderer
