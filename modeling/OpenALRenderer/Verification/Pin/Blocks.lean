import OpenALRenderer.Model.Fields
import OpenALRenderer.Verification.Pin.Agreement

/-! # What a format block says by itself

The locals that no `case` assigns and the memory behind the block are kept apart from the fields
inside it. -/

namespace OpenALRenderer

namespace WaveFormat

/-! ## Fields inside a block -/

/-- Two views show the same in a field. -/
def SameField (f g : WaveFormat) : Field → Prop
  | .wFormatTag => f.wFormatTag = g.wFormatTag
  | .nChannels => f.nChannels = g.nChannels
  | .nSamplesPerSec => f.nSamplesPerSec = g.nSamplesPerSec
  | .wBitsPerSample => f.wBitsPerSample = g.wBitsPerSample
  | .subFormat => f.subFormat = g.subFormat

variable {block : List UInt8} {i : ℕ} (beyond beyond' : ℕ → UInt8)

theorem byteAt_congr (h : i < block.length) :
    byteAt beyond block i = byteAt beyond' block i := by
  unfold byteAt
  rw [List.getElem?_eq_getElem h]
  rfl

theorem byteAt_of_le (h : block.length ≤ i) : byteAt beyond block i = beyond i := by
  unfold byteAt
  rw [List.getElem?_eq_none h]
  rfl

theorem wordAt_congr (h : i + 2 ≤ block.length) :
    wordAt beyond block i = wordAt beyond' block i := by
  unfold wordAt
  rw [byteAt_congr beyond beyond' (by omega), byteAt_congr beyond beyond' (by omega)]

/-- A field that lies inside the block does not depend on what follows the block. -/
theorem sameField_view {x : Field} (h : x.stop ≤ block.length) :
    (view beyond block).SameField (view beyond' block) x := by
  cases x with
  | wFormatTag | nChannels | wBitsPerSample => exact wordAt_congr _ _ h
  | nSamplesPerSec =>
      have hlen : 8 ≤ block.length := h
      change dwordAt _ _ _ = dwordAt _ _ _
      unfold dwordAt
      rw [wordAt_congr beyond beyond' (by omega), wordAt_congr beyond beyond' (by omega)]
  | subFormat =>
      have hlen : 40 ≤ block.length := h
      refine List.map_congr_left fun i hi => byteAt_congr _ _ ?_
      have hlt := List.mem_range.mp hi
      omega

/-! ## What the cases assign -/

/-- The layout that the cases over `nChannels` assign. -/
def layout (f : WaveFormat) : Option SpeakerLayout :=
  if f.nChannels = 1 then some .mono
  else if f.nChannels = 2 then some .stereo
  else if f.nChannels = 4 then some .quad
  else if f.nChannels = 6 then some .surround6
  else if f.nChannels = 8 then some .surround8
  else none

/-- The sample type that the cases over `wBitsPerSample` assign. -/
def integerType (f : WaveFormat) : Option MediaBitness :=
  if f.wBitsPerSample = 8 then some .bit8
  else if f.wBitsPerSample = 16 then some .bit16
  else if f.wBitsPerSample = 24 then some .bit24
  else if f.wBitsPerSample = 32 then some .bit32
  else none

/-- The sample type that is assigned; under the tag `WAVE_FORMAT_IEEE_FLOAT` none is. -/
def bitness (f : WaveFormat) : Option MediaBitness :=
  if f.wFormatTag = waveFormatExtensible then
    if f.subFormat = subtypeIeeeFloat then some .bitfloat
    else if f.subFormat = subtypePcm then f.integerType
    else none
  else if f.wFormatTag = waveFormatPcm then f.integerType
  else none

theorem layout_view (h : 4 ≤ block.length) :
    (view beyond block).layout = (view beyond' block).layout := by
  have hsame : (view beyond block).nChannels = (view beyond' block).nChannels :=
    sameField_view (x := .nChannels) beyond beyond' h
  rw [layout, layout, hsame]

theorem normalizeChannels_eq (e : Indeterminate) (f : WaveFormat) :
    f.normalizeChannels e = f.layout.or e.speakerLayout := by
  unfold normalizeChannels layout
  split_ifs <;> rfl

theorem normalizeBits_eq (e : Indeterminate) (f : WaveFormat) :
    f.normalizeBits e = f.integerType.or e.mediaBitness := by
  unfold normalizeBits integerType
  split_ifs <;> rfl

theorem normalizeBitness_eq (e : Indeterminate) (f : WaveFormat) :
    f.normalizeBitness e = f.bitness.or e.mediaBitness := by
  unfold normalizeBitness bitness
  rw [normalizeBits_eq]
  split_ifs <;> rfl

theorem normalizeChannels_of_layout {f : WaveFormat} {l : SpeakerLayout} (h : f.layout = some l)
    (e : Indeterminate) : f.normalizeChannels e = some l := by
  rw [normalizeChannels_eq, h, Option.some_or]

theorem normalizeBitness_of_bitness {f : WaveFormat} {b : MediaBitness} (h : f.bitness = some b)
    (e : Indeterminate) : f.normalizeBitness e = some b := by
  rw [normalizeBitness_eq, h, Option.some_or]

/-- A layout that the cases assign is the one that has to be supported. -/
theorem layout_mem_of_supported {caps : Capabilities} {e : Indeterminate} {f : WaveFormat}
    {b : MediaBitness} {l : SpeakerLayout} (hb : f.supportedBitness caps e = some b)
    (h : f.layout = some l) : l ∈ caps.getSupportedSpeakerLayout := by
  obtain ⟨⟨l', hl'⟩, -⟩ := supportedBitness_eq_some_iff.mp hb
  obtain ⟨hnorm, hmem⟩ := supportedLayout_eq_some_iff.mp hl'
  rw [Option.some.inj ((normalizeChannels_of_layout h e).symm.trans hnorm)]
  exact hmem

theorem bitness_mem_of_supported {caps : Capabilities} {e : Indeterminate} {f : WaveFormat}
    {b b' : MediaBitness} (hb : f.supportedBitness caps e = some b) (h : f.bitness = some b') :
    b' ∈ caps.getSupportedBitness := by
  obtain ⟨-, hnorm, hmem⟩ := supportedBitness_eq_some_iff.mp hb
  rw [Option.some.inj ((normalizeBitness_of_bitness h e).symm.trans hnorm)]
  exact hmem

/-- Two views show the same in every field that counts under their tag. -/
structure Alike (f g : WaveFormat) : Prop where
  wFormatTag : f.wFormatTag = g.wFormatTag
  nChannels : f.nChannels = g.nChannels
  nSamplesPerSec : f.nSamplesPerSec = g.nSamplesPerSec
  wBitsPerSample : f.wBitsPerSample = g.wBitsPerSample
  subFormat : f.wFormatTag = waveFormatExtensible → f.subFormat = g.subFormat

namespace Alike

variable {f g : WaveFormat}

theorem layout (h : Alike f g) : f.layout = g.layout := by
  unfold WaveFormat.layout
  rw [h.nChannels]

theorem bitness (h : Alike f g) : f.bitness = g.bitness := by
  unfold WaveFormat.bitness integerType
  rw [← h.wFormatTag, h.wBitsPerSample]
  by_cases htag : f.wFormatTag = waveFormatExtensible
  · rw [if_pos htag, if_pos htag, h.subFormat htag]
  · rw [if_neg htag, if_neg htag]

theorem isFloat_iff (h : Alike f g) : f.IsFloat ↔ g.IsFloat := by
  unfold IsFloat
  rw [← h.wFormatTag]
  exact or_congr_right (and_congr_right fun htag => by rw [h.subFormat htag])

theorem checkOpenALMediaType (h : Alike f g) (caps : Capabilities) (e : Indeterminate)
    (d : Device) : d.checkOpenALMediaType caps e f = d.checkOpenALMediaType caps e g := by
  unfold Device.checkOpenALMediaType
  rw [normalizeChannels_eq, normalizeChannels_eq, normalizeBitness_eq, normalizeBitness_eq,
    h.nSamplesPerSec, h.layout, h.bitness]

end Alike

/-! ## Blocks that are long enough -/

/-- The size of what a tag announces: `PCMWAVEFORMAT`, `WAVEFORMATEXTENSIBLE`, or the tag alone. -/
def announced (tag : UInt16) : ℕ :=
  if tag = waveFormatPcm ∨ tag = waveFormatIeeeFloat then 16
  else if tag = waveFormatExtensible then 40
  else 2

theorem two_le_announced (tag : UInt16) : 2 ≤ announced tag := by
  unfold announced
  split_ifs <;> omega

/-- `CheckMediaType` goes on past the tag. -/
def HasTag (f : WaveFormat) : Prop :=
  f.wFormatTag = waveFormatPcm ∨ f.wFormatTag = waveFormatExtensible ∨
    f.wFormatTag = waveFormatIeeeFloat

theorem stop_le_announced {f : WaveFormat} (h : f.HasTag) {x : Field}
    (hx : x = .subFormat → f.wFormatTag = waveFormatExtensible) :
    x.stop ≤ announced f.wFormatTag := by
  rcases h with htag | htag | htag <;> rw [htag] at hx ⊢ <;> cases x
  all_goals
    first
    | decide
    | exact absurd (hx rfl) (by decide)

theorem view_alike {block : List UInt8} {beyond : ℕ → UInt8} (htag : (view beyond block).HasTag)
    (h : announced (view beyond block).wFormatTag ≤ block.length) (beyond' : ℕ → UInt8) :
    Alike (view beyond block) (view beyond' block) := by
  have hfield : ∀ x, (x = .subFormat → (view beyond block).wFormatTag = waveFormatExtensible) →
      (view beyond block).SameField (view beyond' block) x := fun x hx =>
    sameField_view _ _ (Nat.le_trans (stop_le_announced htag hx) h)
  exact ⟨hfield .wFormatTag nofun, hfield .nChannels nofun, hfield .nSamplesPerSec nofun,
    hfield .wBitsPerSample nofun, fun hext => hfield .subFormat fun _ => hext⟩

end WaveFormat

/-! ## The types that pass the gates -/

/-- The execution in which the locals hold no enumerator and zeros follow the block. -/
def blank : Indeterminate := ⟨none, none, fun _ => 0⟩

namespace MediaType

/-- What the block of a type states, if the type passes the gates. -/
def header (pmt : MediaType) : Option WaveFormat := pmt.proposal blank

/-- The block holds the structure that its tag announces. -/
def LongEnough (pmt : MediaType) : Prop :=
  ∀ block, pmt.format = some block →
    WaveFormat.announced (WaveFormat.view blank.beyond block).wFormatTag ≤ block.length

theorem proposal_eq_some_iff {e : Indeterminate} {pmt : MediaType} {f : WaveFormat} :
    pmt.proposal e = some f ↔ ∃ block, pmt.format = some block ∧ pmt.majortype = mediaTypeAudio ∧
      pmt.formattype = formatWaveFormatEx ∧ f.HasTag ∧ WaveFormat.view e.beyond block = f := by
  unfold proposal
  cases pmt.format with
  | none => simp
  | some block =>
      simp only [Option.ite_none_right_eq_some, Option.some.injEq, exists_eq_left']
      constructor
      · rintro ⟨⟨hmajor, htype, htag⟩, rfl⟩
        exact ⟨hmajor, htype, htag, rfl⟩
      · rintro ⟨hmajor, htype, htag, rfl⟩
        exact ⟨⟨hmajor, htype, htag⟩, rfl⟩

variable {pmt : MediaType} {f : WaveFormat}

/-- Executions that see the same tag agree on whether a type passes the gates. -/
theorem proposal_transfer {e e' : Indeterminate}
    (htag : ∀ block, pmt.format = some block → pmt.majortype = mediaTypeAudio →
      pmt.formattype = formatWaveFormatEx → (WaveFormat.view e.beyond block).wFormatTag =
        (WaveFormat.view e'.beyond block).wFormatTag)
    (hf : pmt.proposal e = some f) : ∃ block, pmt.format = some block ∧ f.HasTag ∧
      f = WaveFormat.view e.beyond block ∧
      pmt.proposal e' = some (WaveFormat.view e'.beyond block) := by
  obtain ⟨block, hformat, hmajor, htype, hhas, rfl⟩ := proposal_eq_some_iff.mp hf
  refine ⟨block, hformat, hhas, rfl, proposal_eq_some_iff.mpr ⟨block, hformat, hmajor, htype, ?_, rfl⟩⟩
  unfold WaveFormat.HasTag
  rw [← htag block hformat hmajor htype]
  exact hhas

theorem LongEnough.tag_eq (h : pmt.LongEnough) (e e' : Indeterminate) {block : List UInt8}
    (hformat : pmt.format = some block) : (WaveFormat.view e.beyond block).wFormatTag =
      (WaveFormat.view e'.beyond block).wFormatTag :=
  WaveFormat.sameField_view (x := .wFormatTag) _ _
    (Nat.le_trans (WaveFormat.two_le_announced _) (h block hformat))

theorem proposal_of_header (h : pmt.LongEnough) (hf : pmt.header = some f) (e : Indeterminate) :
    ∃ g, pmt.proposal e = some g ∧ f.Alike g := by
  obtain ⟨block, hformat, htag, rfl, hg⟩ :=
    proposal_transfer (fun block hb _ _ => h.tag_eq blank e hb) hf
  exact ⟨_, hg, WaveFormat.view_alike htag (h block hformat) e.beyond⟩

theorem proposal_of_header_none (h : pmt.LongEnough) (hnone : pmt.header = none)
    (e : Indeterminate) : pmt.proposal e = none := by
  by_contra hsome
  obtain ⟨g, hg⟩ := Option.ne_none_iff_exists'.mp hsome
  obtain ⟨block, -, -, -, hheader⟩ :=
    proposal_transfer (fun block hb _ _ => h.tag_eq e blank hb) hg
  cases hnone.symm.trans hheader

end MediaType

/-- The check of a type whose block is long enough depends on the execution through the locals
only. -/
theorem Filter.checkMediaType_of_header {pmt : MediaType} {f : WaveFormat} (h : pmt.LongEnough)
    (hf : pmt.header = some f) (caps : Capabilities) (e : Indeterminate) (w : Filter) :
    w.checkMediaType caps e pmt =
      ((w.device.checkOpenALMediaType caps e f).1,
        { w with
          mixer := { w.mixer with isFloat := decide f.IsFloat }
          device := (w.device.checkOpenALMediaType caps e f).2 }) := by
  obtain ⟨g, hg, halike⟩ := pmt.proposal_of_header h hf e
  rw [checkMediaType_of_some caps w hg, halike.checkOpenALMediaType]
  simp only [halike.isFloat_iff]

end OpenALRenderer
