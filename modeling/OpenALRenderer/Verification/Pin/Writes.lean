import OpenALRenderer.Model.Playback
import OpenALRenderer.Verification.Pin.Agreement

/-! # The writes of a `Receive`, one by one and together -/

namespace OpenALRenderer

namespace Filter

/-! ## Together they are the whole call -/

def writeAll (w : Filter) (l : List Write) : Filter := l.foldl write w

@[simp] theorem writeAll_nil (w : Filter) : w.writeAll [] = w := rfl

@[simp] theorem writeAll_cons (w : Filter) (x : Write) (l : List Write) :
    w.writeAll (x :: l) = (w.write x).writeAll l := rfl

theorem writeAll_append (w : Filter) (l l' : List Write) :
    w.writeAll (l ++ l') = (w.writeAll l).writeAll l' := List.foldl_append

theorem writeAll_checkOpenALMediaTypeWrites (caps : Capabilities) (e : Indeterminate)
    (f : WaveFormat) (w : Filter) :
    w.writeAll (f.checkOpenALMediaTypeWrites caps e) =
      { w with device := (w.device.checkOpenALMediaType caps e f).2 } := by
  unfold WaveFormat.checkOpenALMediaTypeWrites Device.checkOpenALMediaType
  cases f.normalizeChannels e with
  | none => rfl
  | some layout =>
      by_cases hl : layout ∈ caps.getSupportedSpeakerLayout
      · cases f.normalizeBitness e with
        | none => simp [hl, write]
        | some bitness => by_cases hb : bitness ∈ caps.getSupportedBitness <;> simp [hl, hb, write]
      · simp [hl, write]

theorem writeAll_checkMediaTypeWrites (caps : Capabilities) (e : Indeterminate)
    (pmt : MediaType) (w : Filter) :
    w.writeAll (pmt.checkMediaTypeWrites caps e) = (w.checkMediaType caps e pmt).2 := by
  unfold MediaType.checkMediaTypeWrites checkMediaType
  cases pmt.format with
  | none => rfl
  | some block =>
      dsimp only
      split_ifs with hmajor htype htag hfloat hfailed hfailed
      · rfl
      · rfl
      · rfl
      all_goals
        rw [List.cons_append, writeAll_cons, writeAll_append,
          writeAll_checkOpenALMediaTypeWrites]
      · simp [write, hfloat]
      · simp [write, hfloat]
      · simp_all [write]
      · simp_all [write]

theorem setMediaType_snd (caps : Capabilities) (e : Indeterminate) (allocates : Bool)
    (pmt : MediaType) (w : Filter) :
    (w.setMediaType caps e allocates pmt).map Prod.snd =
      (pmt.setMediaTypeWrites caps e allocates).map w.writeAll := by
  unfold MediaType.setMediaTypeWrites setMediaType
  cases pmt.format with
  | none => rfl
  | some block =>
      cases pmt.copies allocates with
      | true =>
          simp only [if_true, Option.map_some, Option.some.injEq]
          rw [writeAll_append, writeAll_checkOpenALMediaTypeWrites]
          rfl
      | false => rfl

theorem setMediaType_failed_iff {caps : Capabilities} {e : Indeterminate} {allocates : Bool}
    {pmt : MediaType} {w : Filter} {q : HRESULT × Filter}
    (h : w.setMediaType caps e allocates pmt = some q) :
    q.1.failed = true ↔ pmt.copies allocates = false := by
  obtain ⟨-, -, ⟨hall, hok, -⟩ | ⟨hall, hr, -⟩⟩ := setMediaType_cases h
  · simp [hall, hok]
  · simp [hall, hr]

theorem map_deliver (p : Platform) (s : MediaSample UInt8) (calls : List PinCall)
    (w : Filter) : (w.deliver p s calls).map ReceiveOutcome.filter = w.mixerReceive p s := by
  simp [deliver, Function.comp_def]

/-- The filter a processing leaves when nothing comes between its writes. -/
def runProcessing (p : Platform) (w : Filter) (q : Processing) : Option Filter :=
  match q.sample with
  | none => some (w.writeAll q.writes)
  | some s => (w.writeAll q.writes).mixerReceive p s

theorem sampleProps_of_retype {caps : Capabilities} {allocates : Bool} {e : Indeterminate}
    {props : Option MediaType} {writes : List Write} {s : MediaSample UInt8} {q : Processing}
    (h : Processing.retype caps allocates e props writes s = some q) :
    q.sampleProps = props := by
  unfold Processing.retype at h
  split at h
  · exact (Option.some.inj h) ▸ rfl
  · obtain ⟨more, -, rfl⟩ := Option.map_eq_some_iff.mp h
    split <;> rfl

/-- The second half of `Receive`. -/
theorem map_retype (p : Platform) (caps : Capabilities) (allocates : Bool) (e : Indeterminate)
    (s : MediaSample UInt8) (pmt : MediaType) (calls : List PinCall) (writes : List Write)
    (w : Filter) :
    (((w.writeAll writes).setMediaType caps e allocates pmt).bind fun q =>
        if q.1.failed then some ⟨q.1, q.2, calls ++ [.setMediaType]⟩
        else q.2.clearQueue.deliver p s (calls ++ [.setMediaType, .clearQueue])).map
          ReceiveOutcome.filter =
      (Processing.retype caps allocates e pmt writes s).bind (w.runProcessing p) := by
  have hsnd := setMediaType_snd caps e allocates pmt (w.writeAll writes)
  unfold Processing.retype
  dsimp only
  cases hset : (w.writeAll writes).setMediaType caps e allocates pmt with
  | none =>
      rw [hset, Option.map_none] at hsnd
      rw [Option.map_eq_none_iff.mp hsnd.symm]
      rfl
  | some q =>
      rw [hset, Option.map_some] at hsnd
      obtain ⟨more, hmore, hq⟩ := Option.map_eq_some_iff.mp hsnd.symm
      have hfailed := setMediaType_failed_iff hset
      rw [hmore]
      cases hcopies : pmt.copies allocates with
      | true =>
          rw [hcopies] at hfailed
          have hok : ¬ q.1.failed = true := fun hf => Bool.noConfusion (hfailed.mp hf)
          simp only [Option.bind_some, if_neg hok, Option.map_some, if_true, runProcessing]
          rw [map_deliver, writeAll_append, writeAll_append, hq]
          rfl
      | false =>
          simp only [Option.bind_some, hfailed.mpr hcopies, if_true, Option.map_some, runProcessing,
            Bool.false_eq_true, if_false]
          rw [writeAll_append, hq]

/-- Left to itself, a `Receive` that makes its writes one at a time does what the whole call
does. -/
theorem receive_eq_process (p : Platform) (caps : Capabilities) (r : Replies)
    (e e' : Indeterminate) (sample : PinSample) (w : Filter) :
    (w.receive p caps r e e' sample).map ReceiveOutcome.filter =
      (w.process caps r e e' sample).bind fun q =>
        { w with pin := { w.pin with sampleProps := q.sampleProps } }.runProcessing p q := by
  unfold receive process baseReceive
  by_cases hstop : w.state = .stopped
  · rw [if_pos hstop, if_pos (.inl hstop)]
    rfl
  by_cases hfail : w.checkStreaming.failed
  · have hok : w.checkStreaming ≠ .S_OK := fun h => by simp [h] at hfail
    rw [if_neg hstop, if_pos (.inr hfail)]
    simp only [if_pos hok, if_pos hfail]
    rfl
  have hon : ¬ (w.state = .stopped ∨ w.checkStreaming.failed = true) := by tauto
  rw [if_neg hstop, if_neg hon]
  by_cases hok : w.checkStreaming = .S_OK
  · simp only [hok, ne_eq, not_true_eq_false, if_false]
    by_cases hprops : sample.properties.failed
    · simp only [if_pos hprops]
      rfl
    simp only [if_neg hprops]
    cases sample.mediaType with
    | none =>
        simp only [HRESULT.failed_S_OK, Bool.false_eq_true, if_false, map_deliver]
        rfl
    | some pmt =>
        have hwith := checkMediaType_withPin caps e pmt w { w.pin with sampleProps := some pmt }
        have hwrites := writeAll_checkMediaTypeWrites caps e pmt
          { w with pin := { w.pin with sampleProps := some pmt } }
        by_cases hcheck : (w.checkMediaType caps e pmt).1 = .S_OK
        · have hcheck' := (congrArg Prod.fst hwith).trans hcheck
          have hprops' := congrArg (fun q => q.2.pin.sampleProps) hwith
          simp only [if_pos hcheck, if_pos hcheck', HRESULT.failed_S_OK, Bool.false_eq_true,
            if_false]
          dsimp only at hprops'
          rw [hprops', ← hwrites]
          dsimp only
          rw [map_retype]
          exact Option.bind_congr fun q hq => by rw [sampleProps_of_retype hq]
        · have hcheck' : ¬ _ = HRESULT.S_OK := fun h => hcheck ((congrArg Prod.fst hwith).symm.trans h)
          simp only [if_neg hcheck, if_neg hcheck', HRESULT.failed_VFW_E_INVALIDMEDIATYPE, if_true]
          rw [← hwrites]
          simp [runProcessing, writeAll_append, write]
  · simp only [if_pos hok, if_neg hfail]
    cases hprops : w.pin.sampleProps with
    | none =>
        simp only [map_deliver, Processing.retype, Option.bind_some]
        rw [← hprops]
        rfl
    | some pmt =>
        refine (map_retype p caps r.allocates e' sample.data pmt [] [] w).trans ?_
        refine Option.bind_congr fun q hq => ?_
        rw [sampleProps_of_retype hq, ← hprops]

end Filter

/-! ## A type that leaves one format behind -/

namespace WaveFormat

/-- A block describes what the device plays. -/
structure Describes (f : WaveFormat) (l : SpeakerLayout) (b : MediaBitness)
    (frequency : UInt32) : Prop where
  frequency : f.nSamplesPerSec = frequency
  channels : f.nChannels.toNat = l.numChannels
  bits : f.wBitsPerSample.toNat = 8 * b.elementSize
  float : b = .bitfloat ↔ f.IsFloat

/-- The tag, channel count and sample width of a block leave `CheckOpenALMediaType` nothing to
read that it has not written. -/
structure Definite (f : WaveFormat) : Prop where
  channels : f.nChannels ∈ [1, 2, 4, 6, 8]
  tag : f.wFormatTag = waveFormatPcm ∨
    f.wFormatTag = waveFormatExtensible ∧
      (f.subFormat = subtypePcm ∨ f.subFormat = subtypeIeeeFloat ∧ f.wBitsPerSample = 32)
  bits : f.wBitsPerSample ∈ [8, 16, 24, 32]

instance (f : WaveFormat) : Decidable f.Definite :=
  decidable_of_iff (_ ∧ _ ∧ _) ⟨fun h => ⟨h.1, h.2.1, h.2.2⟩, fun h => ⟨h.1, h.2, h.3⟩⟩

variable {caps : Capabilities} {e : Indeterminate} {f : WaveFormat}

theorem Definite.normalizeChannels (h : f.Definite) (e e' : Indeterminate) :
    f.normalizeChannels e' = f.normalizeChannels e := by
  have hc := h.channels
  unfold WaveFormat.normalizeChannels
  simp only [List.mem_cons, List.not_mem_nil, or_false] at hc
  rcases hc with hc | hc | hc | hc | hc <;> rw [hc] <;> rfl

theorem Definite.normalizeBits (h : f.Definite) :
    ∃ b, b ≠ .bitfloat ∧ ∀ e, f.normalizeBits e = some b := by
  have hb := h.bits
  unfold WaveFormat.normalizeBits
  simp only [List.mem_cons, List.not_mem_nil, or_false] at hb
  rcases hb with hb | hb | hb | hb <;> rw [hb]
  · exact ⟨.bit8, by decide, fun _ => rfl⟩
  · exact ⟨.bit16, by decide, fun _ => rfl⟩
  · exact ⟨.bit24, by decide, fun _ => rfl⟩
  · exact ⟨.bit32, by decide, fun _ => rfl⟩

/-- A definite block has one sample type, whatever an execution finds in memory. -/
theorem Definite.normalizeBitness (h : f.Definite) :
    ∃ b, (b = .bitfloat ↔ f.IsFloat) ∧ ∀ e, f.normalizeBitness e = some b := by
  obtain ⟨b, hb, hbits⟩ := h.normalizeBits
  have hpcm : waveFormatPcm ≠ waveFormatExtensible := by decide
  have hieee : waveFormatExtensible ≠ waveFormatIeeeFloat := by decide
  unfold WaveFormat.normalizeBitness IsFloat
  rcases h.tag with ht | ⟨ht, hs | ⟨hs, -⟩⟩
  · have hpcm' : waveFormatPcm ≠ waveFormatIeeeFloat := by decide
    exact ⟨b, by simp [ht, hb, hpcm, hpcm'], fun e => by simp [ht, hpcm, hbits e]⟩
  · have hsub : subtypePcm ≠ subtypeIeeeFloat := by decide
    exact ⟨b, by simp [ht, hs, hb, hieee, hsub], fun e => by simp [ht, hs, hsub, hbits e]⟩
  · exact ⟨.bitfloat, by simp [ht, hs], fun e => by simp [ht, hs]⟩

/-- What the driver supports of a definite block is what the block describes. -/
theorem Definite.supported (h : f.Definite) (hs : (f.supportedBitness caps e).isSome = true)
    (e' : Indeterminate) (d : Device) :
    f.Describes (d.settle caps e' (some f)).speakerLayout (d.settle caps e' (some f)).bitness
      f.nSamplesPerSec := by
  have hs' : (f.supportedBitness caps e').isSome = true := by
    obtain ⟨b, -, hb⟩ := h.normalizeBitness
    unfold supportedBitness supportedLayout at hs ⊢
    rwa [hb e', h.normalizeChannels e e', ← hb e]
  obtain ⟨hc, hb⟩ := suits_of_supported (d := d) h.channels h.tag h.bits hs'
  refine ⟨rfl, hc, hb, ?_⟩
  obtain ⟨b, hfloat, hb⟩ := h.normalizeBitness
  obtain ⟨b', hb'⟩ := Option.isSome_iff_exists.mp hs'
  obtain ⟨-, hnorm, -⟩ := supportedBitness_eq_some_iff.mp hb'
  obtain rfl := Option.some.inj ((hb e').symm.trans hnorm)
  simpa only [Device.settle, hb', Option.getD_some] using hfloat

end WaveFormat

/-- A type `CheckMediaType` accepts, whose block is complete and definite. -/
structure MediaType.Playable (caps : Capabilities) (e e' : Indeterminate) (pmt : MediaType)
    (block : List UInt8) : Prop where
  format : pmt.format = some block
  supported : pmt.supported caps e = true
  complete : WaveFormat.view e'.beyond block = WaveFormat.view e.beyond block
  definite : (WaveFormat.view e.beyond block).Definite

instance (caps : Capabilities) (e e' : Indeterminate) (pmt : MediaType) (block : List UInt8) :
    Decidable (pmt.Playable caps e e' block) :=
  decidable_of_iff (_ ∧ _ ∧ _ ∧ _)
    ⟨fun h => ⟨h.1, h.2.1, h.2.2.1, h.2.2.2⟩, fun h => ⟨h.1, h.2, h.3, h.4⟩⟩

/-- A change of type that leaves the renderer with one format. -/
def PinSample.Playable (caps : Capabilities) (r : Replies) (e e' : Indeterminate)
    (s : PinSample) : Prop :=
  ∀ pmt ∈ s.mediaType, r.allocates = true ∧ ∃ block ∈ pmt.format, pmt.Playable caps e e' block

instance (caps : Capabilities) (r : Replies) (e e' : Indeterminate) (s : PinSample) :
    Decidable (s.Playable caps r e e') :=
  inferInstanceAs (Decidable (∀ pmt ∈ s.mediaType, _ ∧ ∃ block ∈ pmt.format, _))

theorem MediaType.Playable.supportedBitness {caps : Capabilities} {e e' : Indeterminate}
    {pmt : MediaType} {block : List UInt8} (h : pmt.Playable caps e e' block) :
    ((WaveFormat.view e.beyond block).supportedBitness caps e).isSome = true := by
  obtain ⟨b, hb⟩ := Option.isSome_iff_exists.mp h.supported
  obtain ⟨f, hf, hb⟩ := Option.bind_eq_some_iff.mp hb
  unfold MediaType.proposal at hf
  rw [h.format] at hf
  obtain rfl := Option.some.inj (Option.ite_none_right_eq_some.mp hf).2
  exact hb ▸ rfl

namespace Filter

/-! ## One format everywhere -/

/-- The connection, the mixer and the device have one format, and every queued byte was received
under it. -/
structure Uniform (w : Filter) : Prop where
  describes : w.pin.connectionFormat.Describes w.device.speakerLayout w.device.bitness
    w.device.frequency.toUInt32
  nChannels : w.mixer.nChannels = w.pin.connectionFormat.nChannels
  nBitsPerSample : w.mixer.nBitsPerSample = w.pin.connectionFormat.wBitsPerSample
  queue : ∀ x ∈ w.mixer.sampleQueue, x.format = w.pin.connectionFormat

/-- The formats are the same, and nothing new is queued. -/
structure Drains (w w' : Filter) : Prop where
  nChannels : w'.mixer.nChannels = w.mixer.nChannels
  nBitsPerSample : w'.mixer.nBitsPerSample = w.mixer.nBitsPerSample
  connectionFormat : w'.pin.connectionFormat = w.pin.connectionFormat
  frequency : w'.device.frequency = w.device.frequency
  speakerLayout : w'.device.speakerLayout = w.device.speakerLayout
  bitness : w'.device.bitness = w.device.bitness
  queue : ∀ x ∈ w'.mixer.sampleQueue, x ∈ w.mixer.sampleQueue

theorem Uniform.drains {w w' : Filter} (h : w.Uniform) (hd : w.Drains w') : w'.Uniform where
  describes := by
    rw [hd.connectionFormat, hd.speakerLayout, hd.bitness, hd.frequency]
    exact h.describes
  nChannels := by rw [hd.nChannels, hd.connectionFormat, h.nChannels]
  nBitsPerSample := by rw [hd.nBitsPerSample, hd.connectionFormat, h.nBitsPerSample]
  queue x hx := by rw [hd.connectionFormat, h.queue x (hd.queue x hx)]

/-- A write that comes later makes no difference to that. -/
theorem Drains.write {w w' : Filter} (h : w.Drains w') (x : Write) :
    (w.write x).Drains (w'.write x) := by
  obtain ⟨h₁, h₂, h₃, h₄, h₅, h₆, h₇⟩ := h
  cases x with
  | connectionType mt f => exact ⟨h₁, h₂, by simp [Filter.write, h₃], h₄, h₅, h₆, h₇⟩
  | clearQueue => exact ⟨h₁, h₂, h₃, h₄, h₅, h₆, fun _ hx => hx⟩
  | frequency f => exact ⟨h₁, h₂, h₃, rfl, h₅, h₆, h₇⟩
  | speakerLayout l => exact ⟨h₁, h₂, h₃, h₄, rfl, h₆, h₇⟩
  | bitness b => exact ⟨h₁, h₂, h₃, h₄, h₅, rfl, h₇⟩
  | nChannels n => exact ⟨rfl, h₂, h₃, h₄, h₅, h₆, h₇⟩
  | nBitsPerSample n => exact ⟨h₁, rfl, h₃, h₄, h₅, h₆, h₇⟩
  | isFloat b | runTimeError | nSamplesPerSec n | nBlockAlign n =>
      exact ⟨h₁, h₂, h₃, h₄, h₅, h₆, h₇⟩

theorem Drains.writeAll {w w' : Filter} (h : w.Drains w') (l : List Write) :
    (w.writeAll l).Drains (w'.writeAll l) := by
  induction l generalizing w w' with
  | nil => exact h
  | cons x l ih => exact ih (h.write x)

/-- The writes of a change to a playable type end in one format and an empty queue. -/
theorem uniform_of_retype {caps : Capabilities} {e e' : Indeterminate} {pmt : MediaType}
    {block : List UInt8} {s : MediaSample UInt8} {q : Processing} (hp : pmt.Playable caps e e' block)
    (hq : Processing.retype caps true e' pmt (pmt.checkMediaTypeWrites caps e) s = some q)
    (w : Filter) : (w.writeAll q.writes).Uniform := by
  unfold Processing.retype at hq
  obtain ⟨more, hmore, rfl⟩ := Option.map_eq_some_iff.mp hq
  have hsnd := setMediaType_snd caps e' true pmt (w.writeAll (pmt.checkMediaTypeWrites caps e))
  rw [hmore, Option.map_some] at hsnd
  obtain ⟨⟨hr, v⟩, hset, hv⟩ := Option.map_eq_some_iff.mp hsnd
  dsimp only at hv
  subst hv
  obtain ⟨block', hformat, ⟨-, -, hset⟩ | ⟨hno, -⟩⟩ := setMediaType_cases hset
  · obtain rfl := Option.some.inj (hp.format.symm.trans hformat)
    rw [if_pos (MediaType.copies_true pmt), writeAll_append, writeAll_append]
    have hdescribes := hp.definite.supported hp.supportedBitness e'
      (w.writeAll (pmt.checkMediaTypeWrites caps e)).device
    rw [hp.complete] at hset
    rw [← hset.device, ← hset.connectionFormat] at hdescribes
    have hfrequency := congrArg Device.frequency hset.device
    refine ⟨?_, ?_, ?_, nofun⟩
    · refine ⟨?_, hdescribes.channels, hdescribes.bits, hdescribes.float⟩
      change _ = (Filter.writeAll _ more).device.frequency.toUInt32
      rw [hfrequency]
      exact congrArg WaveFormat.nSamplesPerSec hset.connectionFormat
    · exact hset.nChannels.trans (congrArg WaveFormat.nChannels hset.connectionFormat.symm)
    · exact hset.nBitsPerSample.trans
        (congrArg WaveFormat.wBitsPerSample hset.connectionFormat.symm)
  · cases hno

/-- A `Receive` of a playable sample, once it has made all its writes, leaves one format. -/
theorem Uniform.process {caps : Capabilities} {r : Replies} {e e' : Indeterminate}
    {sample : PinSample} {w : Filter} {q : Processing} (h : w.Uniform)
    (hflush : w.pin.flushing = false) (hp : sample.Playable caps r e e')
    (hq : w.process caps r e e' sample = some q) (props : Option MediaType) :
    (writeAll { w with pin := { w.pin with sampleProps := props } } q.writes).Uniform := by
  have hsame : Uniform { w with pin := { w.pin with sampleProps := props } } :=
    ⟨h.describes, h.nChannels, h.nBitsPerSample, h.queue⟩
  unfold Filter.process at hq
  split at hq
  · obtain rfl := Option.some.inj hq
    exact hsame
  next hon =>
    have hok : w.checkStreaming = .S_OK := by
      unfold checkStreaming at hon ⊢
      rw [hflush] at hon ⊢
      simp only [Bool.false_eq_true, if_false] at hon ⊢
      split_ifs at hon ⊢ <;> simp_all
    rw [if_neg (not_not_intro hok)] at hq
    split at hq
    · obtain rfl := Option.some.inj hq
      exact hsame
    · cases hmt : sample.mediaType with
      | none =>
          rw [hmt] at hq
          obtain rfl := Option.some.inj hq
          exact hsame
      | some pmt =>
          obtain ⟨hallocates, block, -, hplay⟩ := hp pmt hmt
          have hcheck := (checkMediaType_ok_iff caps e pmt w).mpr hplay.supported
          simp only [hmt, hcheck, if_true, hallocates] at hq
          exact uniform_of_retype hplay hq _

end Filter

end OpenALRenderer
