import OpenALRenderer.Verification.Pin.Acceptance

/-! # Format blocks that are too short

Nothing compares the length of a block with the view that is taken of it. -/

namespace OpenALRenderer

variable {caps : Capabilities}

/-! ## Reads inside the block, and the types that keep them there -/

namespace MediaType

/-- Every field that the check reads lies inside the block. -/
def ReadsInside (caps : Capabilities) (e : Indeterminate) (pmt : MediaType) : Prop :=
  ∀ block, pmt.format = some block → ∀ x ∈ pmt.checkMediaTypeReads caps e, x.stop ≤ block.length

/-- The block is shorter than the structure that its tag, as it is read, announces. -/
def Short (e : Indeterminate) (pmt : MediaType) : Prop :=
  ∃ block, pmt.format = some block ∧
    block.length < WaveFormat.announced (WaveFormat.view e.beyond block).wFormatTag

/-- In every execution the check stays inside the block, and a short one is not accepted. -/
structure RejectsMalformed (caps : Capabilities) (pmt : MediaType) : Prop where
  inside (e : Indeterminate) : pmt.ReadsInside caps e
  rejects (e : Indeterminate) (w : Filter) :
    pmt.Short e → (w.checkMediaType caps e pmt).1 ≠ .S_OK

/-- If the type gets past the first gates, its block holds the tag, and the structure that the tag
announces; or it holds the rate, its tag is not the extensible one, and it states a layout that the
driver does not support. -/
def Measured (caps : Capabilities) (pmt : MediaType) : Prop :=
  ∀ block, pmt.format = some block → pmt.majortype = mediaTypeAudio →
    pmt.formattype = formatWaveFormatEx → 2 ≤ block.length ∧
      (WaveFormat.announced (WaveFormat.view blank.beyond block).wFormatTag ≤ block.length ∨
        8 ≤ block.length ∧
          (WaveFormat.view blank.beyond block).wFormatTag ≠ waveFormatExtensible ∧
          ∃ l, (WaveFormat.view blank.beyond block).layout = some l ∧
            l ∉ caps.getSupportedSpeakerLayout)

/-! ## The reads -/

variable {pmt : MediaType} {e : Indeterminate} {f : WaveFormat} {block : List UInt8}

theorem reads_of_gate (hformat : pmt.format = some block)
    (h : ¬ (pmt.majortype = mediaTypeAudio ∧ pmt.formattype = formatWaveFormatEx)) :
    pmt.checkMediaTypeReads caps e = [] := by
  unfold checkMediaTypeReads
  rw [hformat]
  dsimp only
  by_cases hmajor : pmt.majortype = mediaTypeAudio
  · rw [if_neg (not_not.mpr hmajor), if_pos fun htype => h ⟨hmajor, htype⟩]
  · rw [if_pos hmajor]

theorem reads_of_not_hasTag (hformat : pmt.format = some block)
    (hmajor : pmt.majortype = mediaTypeAudio) (htype : pmt.formattype = formatWaveFormatEx)
    (htag : ¬ (WaveFormat.view e.beyond block).HasTag) :
    pmt.checkMediaTypeReads caps e = [.wFormatTag] := by
  unfold checkMediaTypeReads
  rw [hformat]
  dsimp only
  simp only [WaveFormat.HasTag, not_or] at htag
  rw [if_neg (not_not.mpr hmajor), if_neg (not_not.mpr htype), if_pos htag]

theorem reads_of_proposal (h : pmt.proposal e = some f) : pmt.checkMediaTypeReads caps e =
    .wFormatTag :: (if f.wFormatTag = waveFormatExtensible then [.subFormat] else []) ++
      f.checkOpenALMediaTypeReads caps e := by
  obtain ⟨block, hformat, hmajor, htype, htag, rfl⟩ := proposal_eq_some_iff.mp h
  unfold checkMediaTypeReads
  rw [hformat]
  dsimp only
  have hnot : ¬ ((WaveFormat.view e.beyond block).wFormatTag ≠ waveFormatPcm ∧
      (WaveFormat.view e.beyond block).wFormatTag ≠ waveFormatExtensible ∧
      (WaveFormat.view e.beyond block).wFormatTag ≠ waveFormatIeeeFloat) := by
    rintro ⟨hpcm, hext, hfloat⟩
    rcases htag with htag | htag | htag
    · exact hpcm htag
    · exact hext htag
    · exact hfloat htag
  rw [if_neg (not_not.mpr hmajor), if_neg (not_not.mpr htype), if_neg hnot]

/-- The tag is read as soon as the first gates are passed. -/
theorem wFormatTag_mem_reads (hformat : pmt.format = some block)
    (hmajor : pmt.majortype = mediaTypeAudio) (htype : pmt.formattype = formatWaveFormatEx) :
    .wFormatTag ∈ pmt.checkMediaTypeReads caps e := by
  by_cases htag : (WaveFormat.view e.beyond block).HasTag
  · rw [reads_of_proposal (proposal_eq_some_iff.mpr ⟨block, hformat, hmajor, htype, htag, rfl⟩)]
    exact List.mem_cons_self
  · rw [reads_of_not_hasTag hformat hmajor htype htag]
    exact List.mem_singleton.mpr rfl

end MediaType

namespace WaveFormat

variable {f g : WaveFormat} {e e' : Indeterminate} {x : Field}

theorem subFormat_of_mem_reads (hx : .subFormat ∈ f.normalizeBitnessReads) :
    f.wFormatTag = waveFormatExtensible := by
  by_contra hext
  rw [normalizeBitnessReads, if_neg hext] at hx
  split at hx <;> simp at hx

theorem mem_reads_of_unsupported {l : SpeakerLayout} (hl : f.layout = some l)
    (hmem : l ∉ caps.getSupportedSpeakerLayout) :
    f.checkOpenALMediaTypeReads caps e = [.nSamplesPerSec, .nChannels] := by
  unfold checkOpenALMediaTypeReads
  rw [normalizeChannels_of_layout hl]
  dsimp only
  rw [if_neg hmem]
  rfl

theorem mem_reads_of_supported {l : SpeakerLayout} (hl : f.normalizeChannels e = some l)
    (hmem : l ∈ caps.getSupportedSpeakerLayout) (hx : x ∈ f.normalizeBitnessReads) :
    x ∈ f.checkOpenALMediaTypeReads caps e := by
  unfold checkOpenALMediaTypeReads
  rw [hl]
  dsimp only
  rw [if_pos hmem]
  exact List.mem_append_right _ hx

theorem mem_reads (hx : x ∈ f.checkOpenALMediaTypeReads caps e) :
    x = .nSamplesPerSec ∨ x = .nChannels ∨ x ∈ f.normalizeBitnessReads := by
  unfold checkOpenALMediaTypeReads at hx
  simp only [List.cons_append, List.nil_append, List.mem_cons] at hx
  refine hx.imp_right (Or.imp_right fun hx => ?_)
  split at hx
  · cases hx
  · split at hx
    · exact hx
    · cases hx

/-! ## The outcome depends on what is read alone -/

theorem normalizeBitness_congr (h : ∀ x ∈ f.normalizeBitnessReads, f.SameField g x)
    (hlocal : e'.mediaBitness = e.mediaBitness) :
    f.normalizeBitness e = g.normalizeBitness e' := by
  have htag : f.wFormatTag = g.wFormatTag := h .wFormatTag List.mem_cons_self
  have hbits : .wBitsPerSample ∈ f.normalizeBitnessReads →
      f.integerType = g.integerType := fun hx => by
    have hsame : f.wBitsPerSample = g.wBitsPerSample := h .wBitsPerSample hx
    rw [integerType, integerType, hsame]
  rw [normalizeBitness_eq, normalizeBitness_eq, hlocal]
  congr 1
  unfold bitness
  rw [← htag]
  by_cases hext : f.wFormatTag = waveFormatExtensible
  · rw [if_pos hext, if_pos hext]
    have hsub : f.subFormat = g.subFormat := h .subFormat (by simp [normalizeBitnessReads, hext])
    rw [← hsub]
    by_cases hfloat : f.subFormat = subtypeIeeeFloat
    · rw [if_pos hfloat, if_pos hfloat]
    rw [if_neg hfloat, if_neg hfloat]
    by_cases hpcm : f.subFormat = subtypePcm
    · rw [if_pos hpcm, if_pos hpcm, hbits (by
        rw [normalizeBitnessReads, if_pos hext, if_neg hfloat, if_pos hpcm]
        simp)]
    · rw [if_neg hpcm, if_neg hpcm]
  · rw [if_neg hext, if_neg hext]
    by_cases hpcm : f.wFormatTag = waveFormatPcm
    · rw [if_pos hpcm, if_pos hpcm, hbits (by
        rw [normalizeBitnessReads, if_neg hext, if_pos hpcm]
        simp)]
    · rw [if_neg hpcm, if_neg hpcm]

theorem checkOpenALMediaType_congr (d : Device)
    (h : ∀ x ∈ f.checkOpenALMediaTypeReads caps e, f.SameField g x)
    (hlayout : e'.speakerLayout = e.speakerLayout) (hbitness : e'.mediaBitness = e.mediaBitness) :
    d.checkOpenALMediaType caps e f = d.checkOpenALMediaType caps e' g := by
  have hrate : f.nSamplesPerSec = g.nSamplesPerSec := h .nSamplesPerSec List.mem_cons_self
  have hsame : f.nChannels = g.nChannels := h .nChannels (List.mem_cons_of_mem _ List.mem_cons_self)
  have hchannels : f.normalizeChannels e = g.normalizeChannels e' := by
    rw [normalizeChannels_eq, normalizeChannels_eq, hlayout, layout, layout, hsame]
  unfold Device.checkOpenALMediaType
  rw [← hrate, ← hchannels]
  cases hl : f.normalizeChannels e with
  | none => rfl
  | some l =>
      dsimp only
      by_cases hmem : l ∈ caps.getSupportedSpeakerLayout
      · rw [if_pos hmem, if_pos hmem, normalizeBitness_congr
          (fun x hx => h x (mem_reads_of_supported hl hmem hx)) hbitness]
      · rw [if_neg hmem, if_neg hmem]

end WaveFormat

namespace Filter

variable {pmt : MediaType} {e e' : Indeterminate}

/-- The reads are all there are: two executions that read inside the block, and find the same in the
two locals, have the same outcome. -/
theorem checkMediaType_congr (h : pmt.ReadsInside caps e)
    (hlayout : e'.speakerLayout = e.speakerLayout) (hbitness : e'.mediaBitness = e.mediaBitness)
    (w : Filter) : w.checkMediaType caps e pmt = w.checkMediaType caps e' pmt := by
  have htag : ∀ block, pmt.format = some block → pmt.majortype = mediaTypeAudio →
      pmt.formattype = formatWaveFormatEx → (WaveFormat.view e.beyond block).wFormatTag =
        (WaveFormat.view e'.beyond block).wFormatTag := fun block hformat hmajor htype =>
    WaveFormat.sameField_view (x := .wFormatTag) _ _
      (h block hformat _ (MediaType.wFormatTag_mem_reads hformat hmajor htype))
  obtain hnone | ⟨f, hf⟩ := Option.eq_none_or_eq_some (pmt.proposal e)
  · have hnone' : pmt.proposal e' = none := by
      by_contra hne
      obtain ⟨g, hg⟩ := Option.ne_none_iff_exists'.mp hne
      obtain ⟨block, -, -, -, hf⟩ := MediaType.proposal_transfer
        (fun block hformat hmajor htype => (htag block hformat hmajor htype).symm) hg
      cases hnone.symm.trans hf
    rw [checkMediaType_of_none hnone, checkMediaType_of_none hnone']
  obtain ⟨block, hformat, -, rfl, hg⟩ := MediaType.proposal_transfer htag hf
  have hfield : ∀ x ∈ pmt.checkMediaTypeReads caps e,
      (WaveFormat.view e.beyond block).SameField (WaveFormat.view e'.beyond block) x :=
    fun x hx => WaveFormat.sameField_view _ _ (h block hformat x hx)
  rw [MediaType.reads_of_proposal hf] at hfield
  have hcheck := WaveFormat.checkOpenALMediaType_congr w.device
    (fun x hx => hfield x (List.mem_append_right _ hx)) hlayout hbitness
  have hfloat : (WaveFormat.view e.beyond block).IsFloat ↔
      (WaveFormat.view e'.beyond block).IsFloat := by
    have hsame : (WaveFormat.view e.beyond block).wFormatTag =
        (WaveFormat.view e'.beyond block).wFormatTag := hfield .wFormatTag List.mem_cons_self
    unfold WaveFormat.IsFloat
    rw [← hsame]
    refine or_congr_right (and_congr_right fun hext => ?_)
    have hsub : (WaveFormat.view e.beyond block).subFormat =
        (WaveFormat.view e'.beyond block).subFormat := hfield .subFormat (by simp [hext])
    rw [hsub]
  rw [checkMediaType_of_some caps w hf, checkMediaType_of_some caps w hg, hcheck]
  simp only [hfloat]

/-! ## Both directions -/

variable {block : List UInt8}

/-- What is read under a tag lies in the structure that the tag announces. -/
theorem stop_le_of_mem_reads {f : WaveFormat} (hf : pmt.proposal e = some f) {x : Field}
    (hx : x ∈ pmt.checkMediaTypeReads caps e) : x.stop ≤ WaveFormat.announced f.wFormatTag := by
  obtain ⟨block, -, -, -, htag, -⟩ := MediaType.proposal_eq_some_iff.mp hf
  refine WaveFormat.stop_le_announced htag fun hsub => ?_
  subst hsub
  rw [MediaType.reads_of_proposal hf] at hx
  simp only [List.cons_append, List.mem_cons, reduceCtorEq, false_or, List.mem_append] at hx
  rcases hx with hx | hx
  · by_contra hext
    rw [if_neg hext] at hx
    cases hx
  · rcases WaveFormat.mem_reads hx with h | h | h
    · cases h
    · cases h
    · exact WaveFormat.subFormat_of_mem_reads h

theorem rejectsMalformed_of_measured (h : pmt.Measured caps) : pmt.RejectsMalformed caps := by
  have htag : ∀ (e : Indeterminate) block, pmt.format = some block → pmt.majortype = mediaTypeAudio →
      pmt.formattype = formatWaveFormatEx → (WaveFormat.view e.beyond block).wFormatTag =
        (WaveFormat.view blank.beyond block).wFormatTag := fun e block hformat hmajor htype =>
    WaveFormat.sameField_view (x := .wFormatTag) _ _ (h block hformat hmajor htype).1
  constructor
  · intro e block hformat x hx
    by_cases hgate : pmt.majortype = mediaTypeAudio ∧ pmt.formattype = formatWaveFormatEx
    swap
    · rw [MediaType.reads_of_gate hformat hgate] at hx
      cases hx
    obtain ⟨hmajor, htype⟩ := hgate
    obtain ⟨htwo, hlen⟩ := h block hformat hmajor htype
    by_cases hhas : (WaveFormat.view e.beyond block).HasTag
    swap
    · rw [MediaType.reads_of_not_hasTag hformat hmajor htype hhas] at hx
      rw [List.mem_singleton.mp hx]
      exact htwo
    have hf := MediaType.proposal_eq_some_iff.mpr ⟨block, hformat, hmajor, htype, hhas, rfl⟩
    rcases hlen with hlen | ⟨height, hext, l, hl, hmem⟩
    · refine Nat.le_trans (stop_le_of_mem_reads hf hx) ?_
      rw [htag e block hformat hmajor htype]
      exact hlen
    · have hlayout : (WaveFormat.view e.beyond block).layout = some l :=
        (WaveFormat.layout_view _ _ (Nat.le_trans (by decide) height)).trans hl
      rw [MediaType.reads_of_proposal hf, htag e block hformat hmajor htype, if_neg hext,
        WaveFormat.mem_reads_of_unsupported hlayout hmem] at hx
      refine Nat.le_trans ?_ height
      revert hx
      revert x
      decide
  · rintro e w ⟨block, hformat, hshort⟩ hok
    rw [checkMediaType_ok_iff, MediaType.supported_iff] at hok
    obtain ⟨f, hf, b, hb⟩ := hok
    obtain ⟨block', hformat', hmajor, htype, -, rfl⟩ := MediaType.proposal_eq_some_iff.mp hf
    obtain rfl := Option.some.inj (hformat.symm.trans hformat')
    obtain ⟨-, hlen⟩ := h block hformat hmajor htype
    rw [htag e block hformat hmajor htype] at hshort
    obtain ⟨height, -, l, hl, hmem⟩ := hlen.resolve_left (Nat.not_le.mpr hshort)
    have hlayout : (WaveFormat.view e.beyond block).layout = some l :=
      (WaveFormat.layout_view _ _ (Nat.le_trans (by decide) height)).trans hl
    exact hmem (WaveFormat.layout_mem_of_supported hb hlayout)

/-- The execution in which the locals happen to hold what every driver supports. -/
def lucky : Indeterminate := ⟨some .mono, some .bit16, fun _ => 0⟩

/-- A short block that gets past the gates, and does not state an unsupported layout, is read beyond
its end or accepted. -/
theorem unsupported_of_short {f : WaveFormat} (h : pmt.RejectsMalformed caps)
    (hf : pmt.proposal lucky = some f) (hext : f.wFormatTag ≠ waveFormatExtensible)
    (hformat : pmt.format = some block) (hshort : block.length < WaveFormat.announced f.wFormatTag) :
    ∃ l, f.layout = some l ∧ l ∉ caps.getSupportedSpeakerLayout := by
  obtain ⟨block', hformat', -, -, htag, rfl⟩ := MediaType.proposal_eq_some_iff.mp hf
  obtain rfl := Option.some.inj (hformat.symm.trans hformat')
  by_contra hno
  have hstated : ∀ l, (WaveFormat.view lucky.beyond block).layout = some l →
      l ∈ caps.getSupportedSpeakerLayout := fun l hl => by_contra fun hmem => hno ⟨l, hl, hmem⟩
  obtain ⟨l, hl, hmem⟩ := exists_normalizeChannels (e := lucky) hstated rfl
  by_cases hpcm : (WaveFormat.view lucky.beyond block).wFormatTag = waveFormatPcm
  · have hread : .wBitsPerSample ∈ pmt.checkMediaTypeReads caps lucky := by
      rw [MediaType.reads_of_proposal hf]
      refine List.mem_append_right _ (WaveFormat.mem_reads_of_supported hl hmem ?_)
      rw [WaveFormat.normalizeBitnessReads, if_neg hext, if_pos hpcm]
      exact List.mem_cons_of_mem _ List.mem_cons_self
    have hinside := h.inside lucky block hformat _ hread
    rw [hpcm] at hshort
    exact absurd hshort (Nat.not_lt.mpr hinside)
  · have hbitness : (WaveFormat.view lucky.beyond block).normalizeBitness lucky = some .bit16 := by
      rw [WaveFormat.normalizeBitness_eq, WaveFormat.bitness, if_neg hext, if_neg hpcm]
      rfl
    refine h.rejects lucky zeroed ⟨block, hformat, hshort⟩ ?_
    rw [checkMediaType_of_some caps zeroed hf,
      Device.checkOpenALMediaType_of_bitness hl hbitness hmem, if_pos (bit16_mem caps)]

theorem measured_of_rejectsMalformed (h : pmt.RejectsMalformed caps) : pmt.Measured caps := by
  intro block hformat hmajor htype
  have htwo : 2 ≤ block.length :=
    h.inside lucky block hformat _ (MediaType.wFormatTag_mem_reads hformat hmajor htype)
  refine ⟨htwo, or_iff_not_imp_left.mpr fun hshort => ?_⟩
  rw [Nat.not_le] at hshort
  by_cases htag : (WaveFormat.view blank.beyond block).HasTag
  swap
  · have hother : WaveFormat.announced (WaveFormat.view blank.beyond block).wFormatTag = 2 := by
      simp only [WaveFormat.HasTag, not_or] at htag
      rw [WaveFormat.announced, if_neg (not_or.mpr ⟨htag.1, htag.2.2⟩), if_neg htag.2.1]
    omega
  have hf : pmt.proposal lucky = some (WaveFormat.view blank.beyond block) :=
    MediaType.proposal_eq_some_iff.mpr ⟨block, hformat, hmajor, htype, htag, rfl⟩
  have hreads : pmt.checkMediaTypeReads caps lucky = _ := MediaType.reads_of_proposal hf
  have hext : (WaveFormat.view blank.beyond block).wFormatTag ≠ waveFormatExtensible := by
    intro hext
    have hinside := h.inside lucky block hformat .subFormat (by rw [hreads, if_pos hext]; simp)
    rw [hext] at hshort
    exact absurd hshort (Nat.not_lt.mpr hinside)
  have height := h.inside lucky block hformat .nSamplesPerSec (by
    rw [hreads]
    exact List.mem_append_right _ List.mem_cons_self)
  exact ⟨height, hext, unsupported_of_short h hf hext hformat hshort⟩

/-- The check stays inside every block and rejects every short one, if and only if each block that
gets past the first gates has its full size or states an unsupported layout early. -/
theorem rejectsMalformed_iff : pmt.RejectsMalformed caps ↔ pmt.Measured caps :=
  ⟨measured_of_rejectsMalformed, rejectsMalformed_of_measured⟩

/-! ## A truncated block -/

/-- The tag and the channel count of a float block, and nothing more. -/
def truncated : MediaType where
  majortype := mediaTypeAudio
  subtype := subtypeIeeeFloat
  formattype := formatWaveFormatEx
  format := some [3, 0, 2, 0]

/-- The rate is read beyond the end of a block of 4 bytes, and the type may be accepted. -/
theorem truncated_not_rejected : ¬ truncated.RejectsMalformed ⟨false, false, false⟩ ∧
    .nSamplesPerSec ∈ truncated.checkMediaTypeReads ⟨false, false, false⟩ lucky ∧
    (zeroed.checkMediaType ⟨false, false, false⟩ lucky truncated).1 = .S_OK := by
  refine ⟨fun h => ?_, by decide, by decide⟩
  exact h.rejects lucky zeroed ⟨_, rfl, by decide⟩ (by decide)

end Filter

end OpenALRenderer
