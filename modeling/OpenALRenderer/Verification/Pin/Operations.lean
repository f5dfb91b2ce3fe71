import OpenALRenderer.Foundation.System
import OpenALRenderer.Model.Streaming

/-! # The filter as a system of complete operations -/

namespace OpenALRenderer

open Foundation

namespace Filter

/-! ## Operations -/

/-- A complete operation on the filter, with the answers its callees give. -/
inductive Op where
  | receiveConnection (r : Replies) (e e' : Indeterminate) (pmt : MediaType)
  | disconnect (r : Replies)
  | queryAccept (e : Indeterminate) (pmt : MediaType)
  | notifyAllocator (committed : Bool)
  | run (r : PinReplies)
  | pause (r : PinReplies)
  | stop (r : PinReplies)
  | beginFlush
  | endFlush
  | receive (r : Replies) (e e' : Indeterminate) (sample : Option PinSample)
  | soundLoopIteration (framesPerBuffer : ℕ) (byteData : List StampedByte)

variable (p : Platform) (caps : Capabilities)

/-- The filter an operation leaves; `none` when it does not return. -/
def next (w : Filter) : Op → Option Filter
  | .receiveConnection r e e' pmt => (w.receiveConnection caps r e e' pmt).map Prod.snd
  | .disconnect r => some (w.disconnect r).2
  | .queryAccept e pmt => some (w.queryAccept caps e pmt).2
  | .notifyAllocator committed => some (w.notifyAllocator committed)
  | .run r => some (w.run r).2
  | .pause r => some (w.pause r).2
  | .stop r => some (w.stop r).2
  | .beginFlush => some w.beginFlush
  | .endFlush => some w.endFlush
  | .receive r e e' sample => (w.receive p caps r e e' sample).map ReceiveOutcome.filter
  | .soundLoopIteration frames byteData =>
      (w.soundLoopIteration p frames byteData).map Prod.snd

/-- A filter as constructed. The mixer's format members are not initialised; the ghost
`connectionFormat` starts as whatever they hold. -/
structure Init (w : Filter) : Prop where
  state : w.state = .stopped
  connected : w.pin.connected = false
  flushing : w.pin.flushing = false
  runTimeError : w.pin.runTimeError = false
  invalid : w.pin.mt.isValid = false
  sampleProps : w.pin.sampleProps = none
  allocator : w.pin.allocator = none
  streaming : w.mixer.streaming = false
  queue : w.mixer.sampleQueue = []
  nChannels : w.mixer.nChannels = w.pin.connectionFormat.nChannels
  nBitsPerSample : w.mixer.nBitsPerSample = w.pin.connectionFormat.wBitsPerSample
  device : w.device = {}

def system : System Filter Op := .ofNext Init (next p caps)

/-! ## What the operations leave alone -/

/-- The mixer's format, its queue, and the connection format are the same. -/
structure SameMixer (w w' : Filter) : Prop where
  nChannels : w'.mixer.nChannels = w.mixer.nChannels
  nSamplesPerSec : w'.mixer.nSamplesPerSec = w.mixer.nSamplesPerSec
  nBitsPerSample : w'.mixer.nBitsPerSample = w.mixer.nBitsPerSample
  sampleQueue : w'.mixer.sampleQueue = w.mixer.sampleQueue
  connectionFormat : w'.pin.connectionFormat = w.pin.connectionFormat

/-- The device's format is the same. -/
structure SameDevice (w w' : Filter) : Prop where
  frequency : w'.device.frequency = w.device.frequency
  speakerLayout : w'.device.speakerLayout = w.device.speakerLayout
  bitness : w'.device.bitness = w.device.bitness

theorem SameMixer.refl (w : Filter) : SameMixer w w := ⟨rfl, rfl, rfl, rfl, rfl⟩

theorem SameDevice.refl (w : Filter) : SameDevice w w := ⟨rfl, rfl, rfl⟩

theorem SameMixer.trans {u v w : Filter} (h : SameMixer u v) (h' : SameMixer v w) :
    SameMixer u w :=
  ⟨h'.nChannels.trans h.nChannels, h'.nSamplesPerSec.trans h.nSamplesPerSec,
    h'.nBitsPerSample.trans h.nBitsPerSample, h'.sampleQueue.trans h.sampleQueue,
    h'.connectionFormat.trans h.connectionFormat⟩

theorem SameDevice.trans {u v w : Filter} (h : SameDevice u v) (h' : SameDevice v w) :
    SameDevice u w :=
  ⟨h'.frequency.trans h.frequency, h'.speakerLayout.trans h.speakerLayout,
    h'.bitness.trans h.bitness⟩

/-- A state change: neither format, nor the queue, nor the connection moves. -/
structure SameStream (w w' : Filter) : Prop where
  mixer : SameMixer w w'
  device : SameDevice w w'
  connected : w'.pin.connected = w.pin.connected

theorem SameStream.refl (w : Filter) : SameStream w w := ⟨.refl w, .refl w, rfl⟩

theorem SameStream.trans {u v w : Filter} (h : SameStream u v) (h' : SameStream v w) :
    SameStream u w :=
  ⟨h.mixer.trans h'.mixer, h.device.trans h'.device, h'.connected.trans h.connected⟩

theorem setState_same (w : Filter) (state : FilterState) :
    SameStream w { w with state := state } :=
  ⟨⟨rfl, rfl, rfl, rfl, rfl⟩, ⟨rfl, rfl, rfl⟩, rfl⟩

theorem basePause_same (r : PinReplies) (w : Filter) : SameStream w (w.basePause r).2 := by
  unfold basePause
  split
  · exact .refl w
  · exact setState_same w .paused

theorem stopStreaming_same (w : Filter) : SameStream w w.stopStreaming :=
  ⟨⟨rfl, rfl, rfl, rfl, rfl⟩, ⟨rfl, rfl, rfl⟩, rfl⟩

theorem startStreaming_same (w : Filter) : SameStream w w.startStreaming :=
  ⟨⟨rfl, rfl, rfl, rfl, rfl⟩, ⟨rfl, rfl, rfl⟩, rfl⟩

theorem startDevice_same (w : Filter) : SameStream w w.startDevice := by
  unfold startDevice
  split <;> exact ⟨⟨rfl, rfl, rfl, rfl, rfl⟩, ⟨rfl, rfl, rfl⟩, rfl⟩

theorem pause_same (r : PinReplies) (w : Filter) : SameStream w (w.pause r).2 := by
  unfold pause
  split
  · exact w.stopStreaming_same.trans (basePause_same r _)
  · exact basePause_same r w

theorem baseStop_same (r : PinReplies) (w : Filter) : SameStream w (w.baseStop r).2 :=
  setState_same w .stopped

theorem stop_same (r : PinReplies) (w : Filter) : SameStream w (w.stop r).2 := by
  unfold stop
  split
  · exact .refl w
  · exact baseStop_same r w
  · dsimp only
    split
    · exact pause_same r w
    · exact (pause_same r w).trans (baseStop_same r _)

theorem runPins_same (r : PinReplies) (w : Filter) : SameStream w (w.runPins r).2 := by
  unfold runPins
  split
  · exact .refl w
  · exact setState_same w .running

theorem baseRun_same (r : PinReplies) (w : Filter) : SameStream w (w.baseRun r).2 := by
  have hpause : SameStream w (if w.state = .stopped then w.pause r else (.S_OK, w)).2 := by
    split
    · exact pause_same r w
    · exact .refl w
  unfold baseRun
  generalize (if w.state = .stopped then w.pause r else (.S_OK, w)) = q at hpause ⊢
  dsimp only
  split
  · exact hpause
  · exact hpause.trans (runPins_same r _)

theorem run_same (r : PinReplies) (w : Filter) : SameStream w (w.run r).2 := by
  unfold run
  dsimp only
  split
  · exact baseRun_same r w
  · split
    · exact baseRun_same r w
    · exact ((baseRun_same r w).trans (startStreaming_same _)).trans (startDevice_same _)

theorem baseBreakConnect_same (r : Replies) (w : Filter) :
    SameStream w (w.baseBreakConnect r).2 := by
  unfold baseBreakConnect
  split
  · exact .refl w
  · split
    · exact .refl w
    · exact ⟨⟨rfl, rfl, rfl, rfl, rfl⟩, ⟨rfl, rfl, rfl⟩, rfl⟩

theorem breakConnect_same (r : Replies) (w : Filter) : SameStream w (w.breakConnect r).2 := by
  unfold breakConnect
  split
  · refine ((stop_same r.pins w).trans ?_).trans (baseBreakConnect_same r _)
    exact ⟨⟨rfl, rfl, rfl, rfl, rfl⟩, ⟨rfl, rfl, rfl⟩, rfl⟩
  · exact .refl w

/-- `Disconnect` changes nothing but the connection. -/
theorem disconnect_same (r : Replies) (w : Filter) :
    SameMixer w (w.disconnect r).2 ∧ SameDevice w (w.disconnect r).2 ∧
      ((w.disconnect r).2.pin.connected = true → w.pin.connected = true) := by
  have hb := breakConnect_same r w
  unfold disconnect
  split
  · exact ⟨.refl w, .refl w, id⟩
  · split
    · rename_i hc
      dsimp only
      split
      · exact ⟨hb.mixer, hb.device, fun _ => hc⟩
      · exact ⟨⟨hb.mixer.nChannels, hb.mixer.nSamplesPerSec, hb.mixer.nBitsPerSample,
          hb.mixer.sampleQueue, hb.mixer.connectionFormat⟩,
          ⟨hb.device.frequency, hb.device.speakerLayout, hb.device.bitness⟩, fun _ => hc⟩
    · exact ⟨.refl w, .refl w, id⟩

/-! ## Schedules to run -/

/-- A filter constructed on zeroed memory. -/
def zeroed : Filter where
  pin := { connectionFormat := ⟨0, 0, 0, 0, 0, []⟩ }
  mixer :=
    { nChannels := 0, nSamplesPerSec := 0, nBitsPerSample := 0, isFloat := false,
      nBlockAlign := 0 }

theorem zeroed_init : Init zeroed :=
  ⟨rfl, rfl, rfl, rfl, rfl, rfl, rfl, rfl, rfl, rfl, rfl, rfl⟩

/-- An execution that finds zeros wherever it has not written. -/
def zeroes : Indeterminate := ⟨some .mono, some .bit8, fun _ => 0⟩

/-- Integer samples of two bytes at 48 kHz, with at most 255 channels. -/
def pcm16 (channels : UInt8) : MediaType where
  majortype := mediaTypeAudio
  subtype := subtypePcm
  formattype := formatWaveFormatEx
  format := some [1, 0, channels, 0, 0x80, 0xBB, 0, 0, 0, 0, 0, 0, 2 * channels, 0, 16, 0, 0, 0]

theorem reachable_of_exec {p : Platform} {caps : Capabilities} {ops : List Op} {w : Filter}
    (h : System.exec (next p caps) (fun _ _ => True) zeroed ops = some w) :
    (system p caps).Reachable w :=
  System.reachableWhere_of_exec ops zeroed w (.init zeroed_init) h

end Filter

end OpenALRenderer
