import OpenALRenderer.Verification.Pin.Acceptance

/-! # Setting a type that was checked

`SetMediaType` works the float flag out without the sub-format, and takes every verdict of the
device for a success. -/

namespace OpenALRenderer

variable {caps : Capabilities}

/-! ## Setting what was checked, and the types it works for -/

namespace WaveFormat

/-- The cases assign a layout and a sample type that the driver supports. -/
structure Supported (caps : Capabilities) (f : WaveFormat) (l : SpeakerLayout) (b : MediaBitness) :
    Prop where
  layout : f.layout = some l
  bitness : f.bitness = some b
  layout_mem : l ∈ caps.getSupportedSpeakerLayout
  bitness_mem : b ∈ caps.getSupportedBitness

/-- The cases assign a layout or a sample type that the driver does not support. -/
def Unsupported (caps : Capabilities) (f : WaveFormat) : Prop :=
  (∃ l, f.layout = some l ∧ l ∉ caps.getSupportedSpeakerLayout) ∨
    ∃ b, f.bitness = some b ∧ b ∉ caps.getSupportedBitness

end WaveFormat

/-- Where the block is copied: it holds the structure that its tag announces, and the cases assign
what the driver supports, which is not floating point in a type that passes the gates. Where it is
not: whatever follows the block, the type fails at a gate or states what the driver does not
support. -/
def MediaType.Settable (caps : Capabilities) (pmt : MediaType) (allocates : Bool) : Prop :=
  match pmt.copies allocates with
  | true => ∃ block, pmt.format = some block ∧ pmt.LongEnough ∧
      ∃ l b, (WaveFormat.view blank.beyond block).Supported caps l b ∧
        (pmt.header.isSome = true → b ≠ .bitfloat)
  | false => ∀ beyond f, pmt.proposal ⟨none, none, beyond⟩ = some f → f.Unsupported caps

/-- After `CheckMediaType` has returned `S_OK`, `SetMediaType` returns `S_OK` too and leaves the
mixer with the format of the device and the float flag of the check; and it fails when the device
part of the check does not return `S_OK`. -/
structure Filter.SetsAsChecked (caps : Capabilities) (allocates : Bool) (pmt : MediaType)
    (w : Filter) : Prop where
  agrees (e e' : Indeterminate) : (w.checkMediaType caps e pmt).1 = .S_OK →
    ∃ u, (w.checkMediaType caps e pmt).2.setMediaType caps e' allocates pmt = some (.S_OK, u) ∧
      SameFormat u ∧ u.mixer.isFloat = (w.checkMediaType caps e pmt).2.mixer.isFloat
  fails (e : Indeterminate) : (∀ block, pmt.format = some block →
      (w.device.checkOpenALMediaType caps e (WaveFormat.view e.beyond block)).1 ≠ .S_OK) →
    ∃ hr u, w.setMediaType caps e allocates pmt = some (hr, u) ∧ hr.failed = true

/-! ## What the cases assign -/

namespace WaveFormat

variable {f : WaveFormat} {l : SpeakerLayout} {b : MediaBitness} {e : Indeterminate}

theorem nChannels_of_layout (h : f.layout = some l) : f.nChannels.toNat = l.numChannels := by
  unfold layout at h
  split_ifs at h with hn hn hn hn hn <;> obtain rfl := Option.some.inj h <;> rw [hn] <;> rfl

/-- A width of 24 bits is kept in four bytes. -/
theorem wBitsPerSample_of_integerType (h : f.integerType = some b) (h24 : b ≠ .bit24) :
    f.wBitsPerSample.toNat = 8 * b.elementSize := by
  unfold integerType at h
  split_ifs at h with hn hn hn hn <;> obtain rfl := Option.some.inj h
  · rw [hn]
    rfl
  · rw [hn]
    rfl
  · exact absurd rfl h24
  · rw [hn]
    rfl

theorem Supported.hasTag (h : f.Supported caps l b) : f.HasTag := by
  rcases bitness_cases h.bitness with ⟨htag | ⟨htag, -⟩, -⟩ | ⟨-, htag | ⟨htag, -⟩, -⟩
  · exact .inr (.inr htag)
  · exact .inr (.inl htag)
  · exact .inl htag
  · exact .inr (.inl htag)

theorem Supported.integerType (h : f.Supported caps l b) (hne : b ≠ .bitfloat) :
    ¬ f.IsFloat ∧ f.integerType = some b := by
  rcases bitness_cases h.bitness with ⟨-, hfloat⟩ | ⟨hint, -, htype⟩
  · exact absurd hfloat hne
  · exact ⟨hint, htype⟩

/-- What is supported, and not of floating point, suits the device. -/
theorem Supported.suits (h : f.Supported caps l b) (hne : b ≠ .bitfloat) (e : Indeterminate)
    (d : Device) : d.Suits caps e f := by
  have hl : f.supportedLayout caps e = some l :=
    supportedLayout_eq_some_iff.mpr ⟨normalizeChannels_of_layout h.layout e, h.layout_mem⟩
  have hb : f.supportedBitness caps e = some b :=
    supportedBitness_eq_some_iff.mpr ⟨⟨l, hl⟩, normalizeBitness_of_bitness h.bitness e, h.bitness_mem⟩
  have h24 : b ≠ .bit24 := by
    rintro rfl
    exact not_mem_getSupportedBitness caps h.bitness_mem
  constructor
  · rw [hl]
    exact nChannels_of_layout h.layout
  · rw [hb]
    exact wBitsPerSample_of_integerType (h.integerType hne).2 h24

theorem Alike.supported {g : WaveFormat} (h : Alike f g) (hf : f.Supported caps l b) :
    g.Supported caps l b :=
  ⟨h.layout ▸ hf.layout, h.bitness ▸ hf.bitness, hf.layout_mem, hf.bitness_mem⟩

/-- Where the locals hold no enumerator, what is supported is assigned by the cases. -/
theorem supported_of_isSome {beyond : ℕ → UInt8}
    (h : (f.supportedBitness caps ⟨none, none, beyond⟩).isSome = true) :
    ∃ l b, f.Supported caps l b := by
  obtain ⟨b, hb⟩ := Option.isSome_iff_exists.mp h
  obtain ⟨⟨l, hl⟩, hnb, hbmem⟩ := supportedBitness_eq_some_iff.mp hb
  obtain ⟨hnl, hlmem⟩ := supportedLayout_eq_some_iff.mp hl
  rw [normalizeChannels_eq, Option.or_none] at hnl
  rw [normalizeBitness_eq, Option.or_none] at hnb
  exact ⟨l, b, hnl, hnb, hlmem, hbmem⟩

/-! ## Blocks that are supported in every execution -/

variable {block : List UInt8} {i : ℕ}

/-- The execution in which bytes follow the block that no value under test contains. -/
def noisy : Indeterminate := ⟨none, none, fun _ => 0x80⟩

theorem wordAt_toNat (beyond : ℕ → UInt8) (block : List UInt8) (i : ℕ) :
    (wordAt beyond block i).toNat =
      (byteAt beyond block i).toNat + 256 * (byteAt beyond block (i + 1)).toNat := by
  have hlow := (byteAt beyond block i).toNat_lt
  have hhigh := (byteAt beyond block (i + 1)).toNat_lt
  unfold wordAt
  simp only [UInt16.toNat_add, UInt16.toNat_mul, UInt8.toNat_toUInt16, UInt16.reduceToNat]
  omega

theorem wordAt_noisy (h : block.length ≤ i + 1) :
    (wordAt noisy.beyond block i).toNat / 256 = 128 := by
  have hlow := (byteAt noisy.beyond block i).toNat_lt
  have hhigh : (byteAt noisy.beyond block (i + 1)).toNat = 128 := by
    rw [byteAt_of_le _ h]
    rfl
  rw [wordAt_toNat, hhigh]
  omega

theorem integerType_noisy (h : block.length ≤ 15) :
    (view noisy.beyond block).integerType = none := by
  have hbits : (view noisy.beyond block).wBitsPerSample.toNat / 256 = 128 := wordAt_noisy h
  unfold integerType
  split_ifs with hn hn hn hn
  all_goals first
    | rfl
    | (rw [hn] at hbits; exact absurd hbits (by decide))

theorem subFormat_noisy (h : block.length ≤ 39) {g : Guid} (hg : g[15]? = some 0x71) :
    (view noisy.beyond block).subFormat ≠ g := by
  intro heq
  have hlast : (view noisy.beyond block).subFormat[15]? = some (noisy.beyond 39) := by
    rw [← byteAt_of_le noisy.beyond h]
    rfl
  rw [heq, hg] at hlast
  exact absurd hlast (by decide)

/-- A block is assigned a sample type in that execution only if it holds what its tag announces. -/
theorem announced_le_of_noisy (hb : (view noisy.beyond block).bitness = some b) :
    announced (view noisy.beyond block).wFormatTag ≤ block.length := by
  unfold bitness at hb
  split at hb
  · next hext =>
      rw [hext]
      by_contra hshort
      have hlen : block.length ≤ 39 := by
        have hnum : announced waveFormatExtensible = 40 := by decide
        omega
      rw [if_neg (subFormat_noisy hlen rfl), if_neg (subFormat_noisy hlen rfl)] at hb
      cases hb
  · obtain ⟨hpcm, hb⟩ := Option.ite_none_right_eq_some.mp hb
    rw [hpcm]
    by_contra hshort
    have hlen : block.length ≤ 15 := by
      have hnum : announced waveFormatPcm = 16 := by decide
      omega
    rw [integerType_noisy hlen] at hb
    cases hb

/-- What is supported in every execution is a block that is long enough and states it. -/
theorem supported_of_forall
    (h : ∀ e : Indeterminate, ((view e.beyond block).supportedBitness caps e).isSome = true) :
    announced (view blank.beyond block).wFormatTag ≤ block.length ∧
      ∃ l b, (view blank.beyond block).Supported caps l b := by
  obtain ⟨l, b, hs⟩ := supported_of_isSome (h noisy)
  have hlen := announced_le_of_noisy hs.bitness
  have halike := view_alike hs.hasTag hlen blank.beyond
  exact ⟨halike.wFormatTag ▸ hlen, l, b, halike.supported hs⟩

/-- What no locals make supported states something unsupported. -/
theorem unsupported_of_forall (beyond : ℕ → UInt8)
    (h : ∀ l b, f.supportedBitness caps ⟨l, b, beyond⟩ = none) : f.Unsupported caps := by
  by_contra hno
  obtain ⟨hlayout, hbitness⟩ := not_or.mp hno
  have hl := exists_normalizeChannels (e := ⟨some .mono, some .bit16, beyond⟩)
    (fun l hl => by_contra fun hmem => hlayout ⟨l, hl, hmem⟩) rfl
  have hb := exists_normalizeBitness (e := ⟨some .mono, some .bit16, beyond⟩)
    (fun b hb => by_contra fun hmem => hbitness ⟨b, hb, hmem⟩) rfl
  obtain ⟨l, hl⟩ := hl
  obtain ⟨b, hb⟩ := hb
  have hsome := supportedBitness_eq_some_iff.mpr
    ⟨⟨l, supportedLayout_eq_some_iff.mpr hl⟩, hb⟩
  cases (h (some .mono) (some .bit16)).symm.trans hsome

theorem Unsupported.supportedBitness_eq_none (h : f.Unsupported caps) (e : Indeterminate) :
    f.supportedBitness caps e = none := by
  by_contra hsome
  obtain ⟨b, hb⟩ := Option.ne_none_iff_exists'.mp hsome
  rcases h with ⟨l, hl, hmem⟩ | ⟨b', hb', hmem⟩
  · exact hmem (layout_mem_of_supported hb hl)
  · exact hmem (bitness_mem_of_supported hb hb')

end WaveFormat

/-! ## Both directions -/

namespace Filter

variable {pmt : MediaType} {w : Filter} {block : List UInt8}

/-- `SetMediaType` returns what the device answers. -/
theorem setMediaType_of_format (caps : Capabilities) (hformat : pmt.format = some block)
    (e : Indeterminate) (w : Filter) : ∃ u, w.setMediaType caps e true pmt =
        some ((w.device.checkOpenALMediaType caps e (WaveFormat.view e.beyond block)).1, u) ∧
      IsSet caps e (WaveFormat.view e.beyond block) w u ∧
      u.mixer.isFloat = ((WaveFormat.view e.beyond block).wFormatTag == waveFormatIeeeFloat) := by
  have hnot :=
    Device.checkOpenALMediaType_not_failed caps e (WaveFormat.view e.beyond block) w.device
  unfold setMediaType
  rw [hformat]
  simp only [hnot, Bool.false_eq_true, if_false]
  refine ⟨_, rfl, ⟨rfl, rfl, rfl, rfl, ?_, rfl, rfl, rfl, rfl, rfl⟩, rfl⟩
  rw [Device.checkOpenALMediaType_eq]

theorem setMediaType_of_no_memory {allocates : Bool} (caps : Capabilities)
    (hcopies : pmt.copies allocates = false) (e : Indeterminate) (w : Filter) :
    ∃ u, w.setMediaType caps e allocates pmt = some (.E_OUTOFMEMORY, u) := by
  obtain ⟨-, block, hformat⟩ := MediaType.exists_of_copies hcopies
  unfold setMediaType
  rw [hformat]
  simp only [hcopies, Bool.false_eq_true, if_false]
  exact ⟨_, rfl⟩

/-- Memory matters for the copy alone. -/
theorem setMediaType_copies (caps : Capabilities) (e : Indeterminate) (allocates : Bool)
    (pmt : MediaType) (w : Filter) :
    w.setMediaType caps e (pmt.copies allocates) pmt = w.setMediaType caps e allocates pmt := by
  unfold setMediaType
  rw [MediaType.copies_copies]

theorem setsAsChecked_copies {allocates : Bool} :
    w.SetsAsChecked caps (pmt.copies allocates) pmt ↔ w.SetsAsChecked caps allocates pmt := by
  constructor
  · rintro ⟨hagrees, hfails⟩
    simp only [setMediaType_copies] at hagrees hfails
    exact ⟨hagrees, hfails⟩
  · rintro ⟨hagrees, hfails⟩
    refine ⟨?_, ?_⟩
    · simpa only [setMediaType_copies] using hagrees
    · simpa only [setMediaType_copies] using hfails

/-- A null block is dereferenced. -/
theorem SetsAsChecked.exists_format {allocates : Bool} (h : w.SetsAsChecked caps allocates pmt) :
    ∃ block, pmt.format = some block := by
  refine Option.ne_none_iff_exists'.mp fun hnone => ?_
  obtain ⟨hr, u, hset, -⟩ := h.fails blank fun block hb => nomatch hnone.symm.trans hb
  rw [setMediaType, hnone] at hset
  cases hset

theorem checkMediaType_ok {e : Indeterminate} {f : WaveFormat} (hf : pmt.proposal e = some f)
    (h : (f.supportedBitness caps e).isSome = true) :
    (w.checkMediaType caps e pmt).1 = .S_OK := by
  rw [checkMediaType_ok_iff, MediaType.supported_iff]
  exact ⟨f, hf, Option.isSome_iff_exists.mp h⟩

theorem checkMediaType_isFloat {e : Indeterminate} {f : WaveFormat} (hf : pmt.proposal e = some f) :
    (w.checkMediaType caps e pmt).2.mixer.isFloat = decide f.IsFloat := by
  rw [checkMediaType_of_some caps w hf]

/-- `SetMediaType` never fails for want of support, so that there must be support in every
execution. -/
theorem SetsAsChecked.supported (h : w.SetsAsChecked caps true pmt)
    (hformat : pmt.format = some block) (e : Indeterminate) :
    ((WaveFormat.view e.beyond block).supportedBitness caps e).isSome = true := by
  by_contra hno
  obtain ⟨hr, u, hset, hfailed⟩ := h.fails e fun block' hb' => by
    obtain rfl := Option.some.inj (hformat.symm.trans hb')
    rw [Device.checkOpenALMediaType_eq, if_neg hno]
    nofun
  obtain ⟨v, hv, -⟩ := setMediaType_of_format caps hformat e w
  obtain ⟨rfl, -⟩ := Prod.mk.inj (Option.some.inj (hset.symm.trans hv))
  rw [Device.checkOpenALMediaType_not_failed] at hfailed
  cases hfailed

theorem settable_of_setsAsChecked (h : w.SetsAsChecked caps true pmt) : pmt.Settable caps true := by
  obtain ⟨block, hformat⟩ := h.exists_format
  have hsupported := h.supported hformat
  obtain ⟨hlen, l, b, hs⟩ := WaveFormat.supported_of_forall hsupported
  refine ⟨block, hformat, fun block' hb' => ?_, l, b, hs, fun hheader hfloat => ?_⟩
  · obtain rfl := Option.some.inj (hformat.symm.trans hb')
    exact hlen
  subst hfloat
  obtain ⟨f, hf⟩ := Option.isSome_iff_exists.mp hheader
  obtain ⟨block', hformat', -, -, -, rfl⟩ := MediaType.proposal_eq_some_iff.mp hf
  obtain rfl := Option.some.inj (hformat.symm.trans hformat')
  obtain ⟨hext, hsub⟩ := WaveFormat.bitness_eq_bitfloat_iff.mp hs.bitness
  obtain ⟨u, hu, -, hsame⟩ := h.agrees blank blank (checkMediaType_ok hf (hsupported blank))
  obtain ⟨v, hv, -, hset⟩ :=
    setMediaType_of_format caps hformat blank (w.checkMediaType caps blank pmt).2
  obtain ⟨-, rfl⟩ := Prod.mk.inj (Option.some.inj (hu.symm.trans hv))
  rw [hset, checkMediaType_isFloat hf, hext, decide_eq_true (.inr ⟨hext, hsub⟩)] at hsame
  have hno : (waveFormatExtensible == waveFormatIeeeFloat) = false := by decide
  cases hno.symm.trans hsame

theorem setsAsChecked_of_settable (h : pmt.Settable caps true) : w.SetsAsChecked caps true pmt := by
  obtain ⟨block, hformat, hlong, l, b, hs, hfloat⟩ := h
  have halike : ∀ e : Indeterminate,
      (WaveFormat.view blank.beyond block).Alike (WaveFormat.view e.beyond block) :=
    fun e => WaveFormat.view_alike hs.hasTag (hlong block hformat) e.beyond
  have hsupported : ∀ e : Indeterminate, (WaveFormat.view e.beyond block).Supported caps l b :=
    fun e => (halike e).supported hs
  have hdevice : ∀ (e : Indeterminate) (d : Device),
      d.checkOpenALMediaType caps e (WaveFormat.view e.beyond block) =
        (.S_OK, { d with
          frequency := (WaveFormat.view e.beyond block).nSamplesPerSec.toInt32
          speakerLayout := l
          bitness := b }) := fun e d => by
    have hlayout := WaveFormat.normalizeChannels_of_layout (hsupported e).layout e
    have hbitness := WaveFormat.normalizeBitness_of_bitness (hsupported e).bitness e
    rw [Device.checkOpenALMediaType_of_bitness hlayout hbitness hs.layout_mem,
      if_pos hs.bitness_mem]
  refine ⟨fun e e' hok => ?_, fun e hno => ?_⟩
  swap
  · exact absurd (congrArg Prod.fst (hdevice e w.device)) (hno block hformat)
  rw [checkMediaType_ok_iff, MediaType.supported_iff] at hok
  obtain ⟨f, hf, -⟩ := hok
  obtain ⟨block', hformat', hmajor, htype, -, rfl⟩ := MediaType.proposal_eq_some_iff.mp hf
  obtain rfl := Option.some.inj (hformat.symm.trans hformat')
  have hheader : pmt.header = some (WaveFormat.view blank.beyond block) :=
    MediaType.proposal_eq_some_iff.mpr ⟨block, hformat, hmajor, htype, hs.hasTag, rfl⟩
  have hne : b ≠ .bitfloat := hfloat (Option.isSome_iff_exists.mpr ⟨_, hheader⟩)
  obtain ⟨u, hu, hset, hflag⟩ :=
    setMediaType_of_format caps hformat e' (w.checkMediaType caps e pmt).2
  rw [hdevice] at hu
  refine ⟨u, hu, hset.sameFormat_iff.mpr ((hsupported e').suits hne e' _), ?_⟩
  have hint' := ((hsupported e').integerType hne).1
  rw [hflag, checkMediaType_isFloat hf, decide_eq_false ((hsupported e).integerType hne).1]
  exact beq_false_of_ne fun htag => hint' (.inl htag)

theorem setsAsChecked_iff_of_no_memory {allocates : Bool}
    (hcopies : pmt.copies allocates = false) :
    w.SetsAsChecked caps allocates pmt ↔
      ∀ beyond f, pmt.proposal ⟨none, none, beyond⟩ = some f → f.Unsupported caps := by
  constructor
  · intro h beyond f hf
    refine WaveFormat.unsupported_of_forall beyond fun l b => ?_
    by_contra hsome
    obtain ⟨u, hu, -⟩ := h.agrees ⟨l, b, beyond⟩ blank
      (checkMediaType_ok hf (Option.isSome_iff_ne_none.mpr hsome))
    obtain ⟨v, hv⟩ := setMediaType_of_no_memory caps hcopies blank
      (w.checkMediaType caps ⟨l, b, beyond⟩ pmt).2
    cases hu.symm.trans hv
  · refine fun hunsupported => ⟨fun e e' hok => ?_, fun e _ => ?_⟩
    · rw [checkMediaType_ok_iff, MediaType.supported_iff] at hok
      obtain ⟨f, hf, b, hb⟩ := hok
      cases ((hunsupported e.beyond f hf).supportedBitness_eq_none e).symm.trans hb
    · obtain ⟨u, hu⟩ := setMediaType_of_no_memory caps hcopies e w
      exact ⟨.E_OUTOFMEMORY, u, hu, rfl⟩

/-- `SetMediaType` agrees with `CheckMediaType` if and only if the type is settable. -/
theorem setsAsChecked_iff {allocates : Bool} :
    w.SetsAsChecked caps allocates pmt ↔ pmt.Settable caps allocates := by
  cases hcopies : pmt.copies allocates with
  | true =>
      have hsettable : pmt.Settable caps allocates ↔ pmt.Settable caps true := by
        unfold MediaType.Settable
        rw [hcopies, MediaType.copies_true]
      rw [← setsAsChecked_copies, hcopies, hsettable]
      exact ⟨settable_of_setsAsChecked, setsAsChecked_of_settable⟩
  | false =>
      unfold MediaType.Settable
      rw [hcopies]
      exact setsAsChecked_iff_of_no_memory hcopies

/-! ## Two types -/

/-- Extensible samples of floating point, two channels and 32 bits at 48 kHz. -/
def extensibleFloat32 : MediaType where
  majortype := mediaTypeAudio
  subtype := subtypeIeeeFloat
  formattype := formatWaveFormatEx
  format := some ([0xFE, 0xFF, 2, 0, 0x80, 0xBB, 0, 0, 0, 0xDC, 5, 0, 8, 0, 32, 0, 22, 0, 32, 0,
    3, 0, 0, 0] ++ subtypeIeeeFloat)

/-- Integer samples, two channels and 24 bits at 48 kHz. -/
def stereo24 : MediaType where
  majortype := mediaTypeAudio
  subtype := subtypePcm
  formattype := formatWaveFormatEx
  format := some [1, 0, 2, 0, 0x80, 0xBB, 0, 0, 0, 0x65, 4, 0, 6, 0, 24, 0, 0, 0]

/-- The float flag of the first type is lost. The device refuses the second one, and `SetMediaType`
returns `S_FALSE`, a success code, with the mixer's width changed and the device's not. -/
theorem extensibleFloat32_not_setsAsChecked :
    ¬ zeroed.SetsAsChecked ⟨true, false, false⟩ true extensibleFloat32 ∧
    ¬ zeroed.SetsAsChecked ⟨true, false, false⟩ true stereo24 ∧
    ((zeroed.checkMediaType ⟨true, false, false⟩ blank extensibleFloat32).2.setMediaType
      ⟨true, false, false⟩ blank true extensibleFloat32).map
        (fun q => (q.1, q.2.mixer.isFloat)) = some (.S_OK, false) ∧
    (zeroed.checkMediaType ⟨true, false, false⟩ blank extensibleFloat32).2.mixer.isFloat = true ∧
    (zeroed.setMediaType ⟨true, false, false⟩ blank true stereo24).map
        (fun q => (q.1, q.2.mixer.nBitsPerSample, q.2.device.bitness)) =
      some (.S_FALSE, 24, .bit16) := by
  refine ⟨fun h => ?_, fun h => ?_, by decide, by decide, by decide⟩
  · obtain ⟨u, hu, -, hsame⟩ := h.agrees blank blank (by decide)
    have hset : ((zeroed.checkMediaType ⟨true, false, false⟩ blank extensibleFloat32).2.setMediaType
      ⟨true, false, false⟩ blank true extensibleFloat32).map
        (fun q => q.2.mixer.isFloat) = some false := by decide
    rw [hu, Option.map_some, hsame] at hset
    exact absurd hset (by decide)
  · obtain ⟨hr, u, hu, hfailed⟩ := h.fails blank fun block hb => by
      obtain rfl := Option.some.inj hb
      decide
    have hset : (zeroed.setMediaType ⟨true, false, false⟩ blank true stereo24).map
      (fun q => q.1.failed) = some false := by decide
    rw [hu, Option.map_some, hfailed] at hset
    cases hset

end Filter

end OpenALRenderer
