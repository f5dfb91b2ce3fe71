import OpenALRenderer.Verification.Pin.Blocks

/-! # What the acceptance check accepts

The `switch` statements of `CheckOpenALMediaType` have no defaults, and no branch assigns a sample
type under the tag `WAVE_FORMAT_IEEE_FLOAT`. -/

namespace OpenALRenderer

variable {caps : Capabilities}

/-! ## What a block denotes, and the types decided by it -/

namespace WaveFormat

/-- The sample type a block denotes. -/
def sampleType (f : WaveFormat) : Option MediaBitness :=
  if f.IsFloat then if f.wBitsPerSample = 32 then some .bitfloat else none
  else if f.wFormatTag = waveFormatPcm ∨
      f.wFormatTag = waveFormatExtensible ∧ f.subFormat = subtypePcm then f.integerType
  else none

/-- A block denotes a layout and a sample type that the driver supports. -/
structure Denotes (caps : Capabilities) (f : WaveFormat) (l : SpeakerLayout) (b : MediaBitness) :
    Prop where
  layout : f.layout = some l
  sampleType : f.sampleType = some b
  layout_mem : l ∈ caps.getSupportedSpeakerLayout
  sampleType_mem : b ∈ caps.getSupportedBitness

/-- The cases assign a layout. The driver does not support it; or the cases assign a sample type
too, and samples of floating point have 32 bits where the driver takes any. -/
def Decided (caps : Capabilities) (f : WaveFormat) : Prop :=
  ∃ l, f.layout = some l ∧ (l ∉ caps.getSupportedSpeakerLayout ∨ ∃ b, f.bitness = some b ∧
    (b = .bitfloat → .bitfloat ∈ caps.getSupportedBitness → f.wBitsPerSample = 32))

end WaveFormat

/-- `CheckMediaType` returns `S_OK` just for the types that denote what the driver supports, sets the
device to exactly that, and does the same in every execution. -/
structure Filter.AcceptsExactly (caps : Capabilities) (pmt : MediaType) (w : Filter) : Prop where
  verdict (e : Indeterminate) : (w.checkMediaType caps e pmt).1 = .S_OK ↔
    ∃ f l b, pmt.header = some f ∧ f.Denotes caps l b
  device (e : Indeterminate) {f l b} : pmt.header = some f → f.Denotes caps l b →
    (w.checkMediaType caps e pmt).1 = .S_OK → (w.checkMediaType caps e pmt).2.device =
      { w.device with
        frequency := f.nSamplesPerSec.toInt32
        speakerLayout := l
        bitness := b }
  determined (e e' : Indeterminate) : w.checkMediaType caps e pmt = w.checkMediaType caps e' pmt

/-! ## Sample types -/

namespace WaveFormat

variable {f : WaveFormat} {b b' : MediaBitness}

theorem integerType_ne_bitfloat : f.integerType ≠ some .bitfloat := by
  unfold integerType
  split_ifs <;> nofun

theorem bitness_eq_bitfloat_iff : f.bitness = some .bitfloat ↔
    f.wFormatTag = waveFormatExtensible ∧ f.subFormat = subtypeIeeeFloat := by
  unfold bitness
  split_ifs with hext hfloat hpcm htag
  · simp [hext, hfloat]
  · simp [hfloat, integerType_ne_bitfloat]
  · simp [hfloat]
  · simp [hext, integerType_ne_bitfloat]
  · simp [hext]

/-- The cases assign floating point to an extensible block alone, and an integer type otherwise. -/
theorem bitness_cases (hb : f.bitness = some b) : f.IsFloat ∧ b = .bitfloat ∨
    ¬ f.IsFloat ∧ (f.wFormatTag = waveFormatPcm ∨
      f.wFormatTag = waveFormatExtensible ∧ f.subFormat = subtypePcm) ∧ f.integerType = some b := by
  have hpcm : ¬ waveFormatPcm = waveFormatIeeeFloat := by decide
  have hext : ¬ waveFormatExtensible = waveFormatIeeeFloat := by decide
  unfold bitness at hb
  split at hb
  · next htag =>
      split at hb
      · next hsub => exact .inl ⟨.inr ⟨htag, hsub⟩, (Option.some.inj hb).symm⟩
      · next hsub =>
          obtain ⟨hpcm', hb⟩ := Option.ite_none_right_eq_some.mp hb
          refine .inr ⟨?_, .inr ⟨htag, hpcm'⟩, hb⟩
          rintro (hfloat | ⟨-, hfloat⟩)
          · exact hext (htag.symm.trans hfloat)
          · exact hsub hfloat
  · next htag =>
      obtain ⟨hpcm', hb⟩ := Option.ite_none_right_eq_some.mp hb
      refine .inr ⟨?_, .inl hpcm', hb⟩
      rintro (hfloat | ⟨hfloat, -⟩)
      · exact hpcm (hpcm'.symm.trans hfloat)
      · exact htag hfloat

/-- Where the cases assign a sample type, a block that denotes one denotes that. -/
theorem sampleType_eq (hb : f.bitness = some b) (hb' : f.sampleType = some b') : b = b' := by
  unfold sampleType at hb'
  rcases bitness_cases hb with ⟨hfloat, rfl⟩ | ⟨hint, htag, htype⟩
  · rw [if_pos hfloat] at hb'
    obtain ⟨-, hb'⟩ := Option.ite_none_right_eq_some.mp hb'
    exact Option.some.inj hb'
  · rw [if_neg hint, if_pos htag, htype] at hb'
    exact Option.some.inj hb'

theorem sampleType_of_bitness (hb : f.bitness = some b)
    (h : b = .bitfloat → f.wBitsPerSample = 32) : f.sampleType = some b := by
  unfold sampleType
  rcases bitness_cases hb with ⟨hfloat, rfl⟩ | ⟨hint, htag, htype⟩
  · rw [if_pos hfloat, if_pos (h rfl)]
  · rw [if_neg hint, if_pos htag, htype]

/-- A block of floating point denotes samples of 32 bits or nothing. -/
theorem bits_of_sampleType (hfloat : f.IsFloat) (hb : f.sampleType = some b) :
    f.wBitsPerSample = 32 := by
  rw [sampleType, if_pos hfloat] at hb
  exact (Option.ite_none_right_eq_some.mp hb).1

end WaveFormat

/-! ## The device part -/

namespace Device

variable {e : Indeterminate} {f : WaveFormat} {d : Device} {l : SpeakerLayout} {b : MediaBitness}

theorem checkOpenALMediaType_of_layout (hl : f.normalizeChannels e = some l)
    (hmem : l ∉ caps.getSupportedSpeakerLayout) : d.checkOpenALMediaType caps e f =
      (.S_FALSE, { d with frequency := f.nSamplesPerSec.toInt32 }) := by
  unfold checkOpenALMediaType
  rw [hl]
  exact if_neg hmem

theorem checkOpenALMediaType_of_bitness (hl : f.normalizeChannels e = some l)
    (hb : f.normalizeBitness e = some b) (hmem : l ∈ caps.getSupportedSpeakerLayout) :
    d.checkOpenALMediaType caps e f =
      if b ∈ caps.getSupportedBitness then
        (.S_OK, { d with
          frequency := f.nSamplesPerSec.toInt32
          speakerLayout := l
          bitness := b })
      else (.S_FALSE, { d with
        frequency := f.nSamplesPerSec.toInt32
        speakerLayout := l }) := by
  unfold checkOpenALMediaType
  rw [hl, hb]
  exact if_pos hmem

end Device

/-- Mono and stereo are always supported, and so are 8 and 16 bits. -/
theorem mono_mem (caps : Capabilities) : SpeakerLayout.mono ∈ caps.getSupportedSpeakerLayout := by
  simp [Capabilities.getSupportedSpeakerLayout]

theorem bit16_mem (caps : Capabilities) : MediaBitness.bit16 ∈ caps.getSupportedBitness := by
  simp [Capabilities.getSupportedBitness]

theorem exists_supportedLayout_ne (caps : Capabilities) (l : SpeakerLayout) :
    ∃ l', l' ≠ l ∧ l' ∈ caps.getSupportedSpeakerLayout := by
  by_cases h : l = .mono
  · exact ⟨.stereo, by simp [h], by simp [Capabilities.getSupportedSpeakerLayout]⟩
  · exact ⟨.mono, fun heq => h heq.symm, mono_mem caps⟩

theorem exists_supportedBitness_ne (caps : Capabilities) (b : MediaBitness) :
    ∃ b', b' ≠ b ∧ b' ∈ caps.getSupportedBitness := by
  by_cases h : b = .bit8
  · exact ⟨.bit16, by simp [h], bit16_mem caps⟩
  · exact ⟨.bit8, fun heq => h heq.symm, by simp [Capabilities.getSupportedBitness]⟩

/-- A local that holds what every driver supports makes up for a case that is missing. -/
theorem exists_normalizeChannels {f : WaveFormat} {e : Indeterminate}
    (h : ∀ l, f.layout = some l → l ∈ caps.getSupportedSpeakerLayout)
    (hlocal : e.speakerLayout = some .mono) :
    ∃ l, f.normalizeChannels e = some l ∧ l ∈ caps.getSupportedSpeakerLayout := by
  rw [WaveFormat.normalizeChannels_eq, hlocal]
  cases hl : f.layout with
  | none => exact ⟨.mono, rfl, mono_mem caps⟩
  | some l => exact ⟨l, rfl, h l hl⟩

theorem exists_normalizeBitness {f : WaveFormat} {e : Indeterminate}
    (h : ∀ b, f.bitness = some b → b ∈ caps.getSupportedBitness)
    (hlocal : e.mediaBitness = some .bit16) :
    ∃ b, f.normalizeBitness e = some b ∧ b ∈ caps.getSupportedBitness := by
  rw [WaveFormat.normalizeBitness_eq, hlocal]
  cases hb : f.bitness with
  | none => exact ⟨.bit16, rfl, bit16_mem caps⟩
  | some b => exact ⟨b, rfl, h b hb⟩

/-! ## Both directions -/

namespace Filter

variable {pmt : MediaType} {w : Filter} {f : WaveFormat}

/-- A decided block is checked in the same way in every execution. -/
theorem checkOpenALMediaType_determined (h : f.Decided caps) (e e' : Indeterminate) (d : Device) :
    d.checkOpenALMediaType caps e f = d.checkOpenALMediaType caps e' f := by
  obtain ⟨l, hl, hcase⟩ := h
  have hlayout := WaveFormat.normalizeChannels_of_layout hl
  by_cases hmem : l ∈ caps.getSupportedSpeakerLayout
  · obtain ⟨b, hb, -⟩ := hcase.resolve_left (not_not.mpr hmem)
    have hbitness := WaveFormat.normalizeBitness_of_bitness hb
    rw [Device.checkOpenALMediaType_of_bitness (hlayout e) (hbitness e) hmem,
      Device.checkOpenALMediaType_of_bitness (hlayout e') (hbitness e') hmem]
  · rw [Device.checkOpenALMediaType_of_layout (hlayout e) hmem,
      Device.checkOpenALMediaType_of_layout (hlayout e') hmem]

/-- What the check of a decided block finds is what the block denotes. -/
theorem checkOpenALMediaType_of_decided (h : f.Decided caps) (e : Indeterminate) (d : Device) :
    (∃ l b, f.Denotes caps l b ∧ d.checkOpenALMediaType caps e f =
        (.S_OK, { d with
          frequency := f.nSamplesPerSec.toInt32
          speakerLayout := l
          bitness := b })) ∨
      (∀ l b, ¬ f.Denotes caps l b) ∧ (d.checkOpenALMediaType caps e f).1 = .S_FALSE := by
  obtain ⟨l, hl, hcase⟩ := h
  have hlayout := WaveFormat.normalizeChannels_of_layout hl e
  by_cases hmem : l ∈ caps.getSupportedSpeakerLayout
  swap
  · rw [Device.checkOpenALMediaType_of_layout hlayout hmem]
    refine .inr ⟨fun l' b hd => hmem ?_, rfl⟩
    rw [Option.some.inj (hl.symm.trans hd.layout)]
    exact hd.layout_mem
  obtain ⟨b, hb, hfloat⟩ := hcase.resolve_left (not_not.mpr hmem)
  have hbitness := WaveFormat.normalizeBitness_of_bitness hb e
  rw [Device.checkOpenALMediaType_of_bitness hlayout hbitness hmem]
  by_cases hbmem : b ∈ caps.getSupportedBitness
  · rw [if_pos hbmem]
    refine .inl ⟨l, b, ⟨hl, ?_, hmem, hbmem⟩, rfl⟩
    exact WaveFormat.sampleType_of_bitness hb fun heq => hfloat heq (heq ▸ hbmem)
  · rw [if_neg hbmem]
    refine .inr ⟨fun l' b' hd => hbmem ?_, rfl⟩
    rw [WaveFormat.sampleType_eq hb hd.sampleType]
    exact hd.sampleType_mem

theorem acceptsExactly_of_decided (h : pmt.LongEnough)
    (hd : ∀ f, pmt.header = some f → f.Decided caps) : w.AcceptsExactly caps pmt := by
  obtain hnone | ⟨f, hf⟩ := Option.eq_none_or_eq_some pmt.header
  · have hcheck : ∀ e, w.checkMediaType caps e pmt = (.S_FALSE, w) := fun e =>
      checkMediaType_of_none (pmt.proposal_of_header_none h hnone e)
    refine ⟨fun e => ?_, fun e f l b hf => ?_, fun e e' => by rw [hcheck, hcheck]⟩
    · rw [hcheck, hnone]
      exact ⟨nofun, nofun⟩
    · cases hnone.symm.trans hf
  · have hcheck := checkMediaType_of_header h hf caps
    refine ⟨fun e => ?_, ?_, fun e e' => ?_⟩
    · rw [hcheck, hf]
      rcases checkOpenALMediaType_of_decided (hd f hf) e w.device with
        ⟨l, b, hden, heq⟩ | ⟨hno, hfalse⟩
      · rw [heq]
        exact ⟨fun _ => ⟨f, l, b, rfl, hden⟩, fun _ => rfl⟩
      · rw [hfalse]
        refine ⟨nofun, ?_⟩
        rintro ⟨g, l, b, hg, hden⟩
        obtain rfl := Option.some.inj hg
        exact absurd hden (hno l b)
    · intro e g l b hg hden hok
      obtain rfl := Option.some.inj (hf.symm.trans hg)
      rw [hcheck]
      rcases checkOpenALMediaType_of_decided (hd f hf) e w.device with
        ⟨l', b', hden', heq⟩ | ⟨hno, -⟩
      · rw [heq, Option.some.inj (hden.layout.symm.trans hden'.layout),
          Option.some.inj (hden.sampleType.symm.trans hden'.sampleType)]
      · exact absurd hden (hno l b)
    · rw [hcheck, hcheck, checkOpenALMediaType_determined (hd f hf) e e']

/-- What the check writes depends on a local that no case assigns. -/
theorem layout_isSome_of_determined (h : ∀ e e' : Indeterminate,
    w.device.checkOpenALMediaType caps e f = w.device.checkOpenALMediaType caps e' f) :
    ∃ l, f.layout = some l := by
  refine Option.ne_none_iff_exists'.mp fun hnone => ?_
  obtain ⟨l, hne, hmem⟩ := exists_supportedLayout_ne caps w.device.speakerLayout
  have hsame := congrArg (fun q => q.2.speakerLayout) (h ⟨some l, none, fun _ => 0⟩ blank)
  simp only [Device.checkOpenALMediaType_eq, Device.settle, WaveFormat.supportedLayout,
    WaveFormat.normalizeChannels_eq, hnone, Option.none_or, blank, Option.filter_none,
    Option.getD_none, Option.filter_some, decide_eq_true hmem, if_true, Option.getD_some] at hsame
  exact hne hsame

theorem bitness_isSome_of_determined {l : SpeakerLayout} (hl : f.layout = some l)
    (hmem : l ∈ caps.getSupportedSpeakerLayout) (h : ∀ e e' : Indeterminate,
    w.device.checkOpenALMediaType caps e f = w.device.checkOpenALMediaType caps e' f) :
    ∃ b, f.bitness = some b := by
  refine Option.ne_none_iff_exists'.mp fun hnone => ?_
  obtain ⟨b, hne, hbmem⟩ := exists_supportedBitness_ne caps w.device.bitness
  have hsame := congrArg (fun q => q.2.bitness) (h ⟨none, some b, fun _ => 0⟩ blank)
  simp only [Device.checkOpenALMediaType_eq, Device.settle, WaveFormat.supportedBitness,
    WaveFormat.supportedLayout, WaveFormat.normalizeChannels_eq, WaveFormat.normalizeBitness_eq,
    hl, hnone, Option.none_or, Option.some_or, blank, Option.filter_none, Option.getD_none,
    Option.filter_some, decide_eq_true hmem, decide_eq_true hbmem, if_true, Option.bind_some,
    Option.getD_some] at hsame
  exact hne hsame

theorem decided_of_acceptsExactly (h : pmt.LongEnough) (hf : pmt.header = some f)
    (ha : w.AcceptsExactly caps pmt) : f.Decided caps := by
  have hcheck := checkMediaType_of_header h hf caps
  have hdetermined : ∀ e e' : Indeterminate,
      w.device.checkOpenALMediaType caps e f = w.device.checkOpenALMediaType caps e' f := by
    intro e e'
    have hsame := ha.determined e e'
    rw [hcheck, hcheck] at hsame
    obtain ⟨hverdict, hfilter⟩ := Prod.mk.inj hsame
    exact Prod.ext hverdict (congrArg Filter.device hfilter)
  obtain ⟨l, hl⟩ := layout_isSome_of_determined hdetermined
  refine ⟨l, hl, ?_⟩
  by_cases hmem : l ∈ caps.getSupportedSpeakerLayout
  swap
  · exact .inl hmem
  obtain ⟨b, hb⟩ := bitness_isSome_of_determined hl hmem hdetermined
  refine .inr ⟨b, hb, ?_⟩
  rintro rfl hfloat
  have hlayout := WaveFormat.normalizeChannels_of_layout hl blank
  have hbitness := WaveFormat.normalizeBitness_of_bitness hb blank
  have hok : (w.checkMediaType caps blank pmt).1 = .S_OK := by
    rw [hcheck, Device.checkOpenALMediaType_of_bitness hlayout hbitness hmem, if_pos hfloat]
  obtain ⟨g, l', b', hg, hden⟩ := (ha.verdict blank).mp hok
  obtain rfl := Option.some.inj (hf.symm.trans hg)
  exact WaveFormat.bits_of_sampleType (.inr (WaveFormat.bitness_eq_bitfloat_iff.mp hb))
    hden.sampleType

/-- For a type whose block is long enough, the check accepts just what the driver supports, in every
execution, if and only if the type fails at a gate or its block is decided. -/
theorem acceptsExactly_iff (h : pmt.LongEnough) :
    w.AcceptsExactly caps pmt ↔ ∀ f, pmt.header = some f → f.Decided caps :=
  ⟨fun ha _ hf => decided_of_acceptsExactly h hf ha, acceptsExactly_of_decided h⟩

/-! ## Two types -/

theorem pcm16_longEnough : (pcm16 2).LongEnough := by
  intro block hb
  obtain rfl := Option.some.inj hb
  decide

theorem acceptsExactly_iff_pcm16 : zeroed.AcceptsExactly ⟨false, false, false⟩ (pcm16 2) := by
  refine (acceptsExactly_iff pcm16_longEnough).mpr fun f hf => ?_
  have hheader : (pcm16 2).header = some ⟨1, 2, 48000, 4, 16, List.replicate 16 0⟩ := by decide
  obtain rfl := Option.some.inj (hheader.symm.trans hf)
  exact ⟨.stereo, by decide, .inr ⟨.bit16, by decide, nofun⟩⟩

/-- Samples of floating point, two channels and 32 bits at 48 kHz, under their own tag. -/
def float32 : MediaType where
  majortype := mediaTypeAudio
  subtype := subtypeIeeeFloat
  formattype := formatWaveFormatEx
  format := some [3, 0, 2, 0, 0x80, 0xBB, 0, 0, 0, 0xDC, 5, 0, 8, 0, 32, 0, 0, 0]

/-- A driver that takes floating point: one execution rejects such a type, another one accepts it as
integers of 16 bits. -/
theorem float32_undecided : ¬ zeroed.AcceptsExactly ⟨true, false, false⟩ float32 ∧
    (zeroed.checkMediaType ⟨true, false, false⟩ blank float32).1 = .S_FALSE ∧
    (zeroed.checkMediaType ⟨true, false, false⟩ ⟨none, some .bit16, fun _ => 0⟩ float32).1 = .S_OK ∧
    (zeroed.checkMediaType ⟨true, false, false⟩ ⟨none, some .bit16, fun _ => 0⟩
      float32).2.device.bitness = .bit16 := by
  refine ⟨fun h => ?_, by decide, by decide, by decide⟩
  have hden : (⟨3, 2, 48000, 8, 32, List.replicate 16 0⟩ : WaveFormat).Denotes ⟨true, false, false⟩
      .stereo .bitfloat := ⟨by decide, by decide, by decide, by decide⟩
  have hok := (h.verdict blank).mpr ⟨_, _, _, by decide, hden⟩
  exact absurd hok (by decide)

end Filter

end OpenALRenderer
