import OpenALRenderer.Model.Format

/-! # The fields of a format block that the acceptance check reads -/

namespace OpenALRenderer

/-- The fields read through the views of a format block. -/
inductive Field where
  | wFormatTag
  | nChannels
  | nSamplesPerSec
  | wBitsPerSample
  | subFormat
  deriving DecidableEq, Repr

/-- The offset behind a field. -/
def Field.stop : Field → ℕ
  | wFormatTag => 2
  | nChannels => 4
  | nSamplesPerSec => 8
  | wBitsPerSample => 16
  | subFormat => 40

namespace WaveFormat

/-- What `CheckOpenALMediaType` reads to normalize the sample type. A field that is read again at
once is not repeated. -/
def normalizeBitnessReads (f : WaveFormat) : List Field :=
  .wFormatTag ::
    if f.wFormatTag = waveFormatExtensible then
      .subFormat ::
        if f.subFormat = subtypeIeeeFloat then []
        else if f.subFormat = subtypePcm then [.wBitsPerSample]
        else []
    else if f.wFormatTag = waveFormatPcm then [.wBitsPerSample]
    else []

/-- The reads of `CheckOpenALMediaType`. -/
def checkOpenALMediaTypeReads (caps : Capabilities) (e : Indeterminate) (f : WaveFormat) :
    List Field :=
  [.nSamplesPerSec, .nChannels] ++
    match f.normalizeChannels e with
    | none => []
    | some layout =>
        if layout ∈ caps.getSupportedSpeakerLayout then f.normalizeBitnessReads else []

end WaveFormat

/-- The reads of `CheckMediaType`, in order. -/
def MediaType.checkMediaTypeReads (caps : Capabilities) (e : Indeterminate) (pmt : MediaType) :
    List Field :=
  match pmt.format with
  | none => []
  | some block =>
      let f := WaveFormat.view e.beyond block
      if pmt.majortype ≠ mediaTypeAudio then []
      else if pmt.formattype ≠ formatWaveFormatEx then []
      else if f.wFormatTag ≠ waveFormatPcm ∧ f.wFormatTag ≠ waveFormatExtensible ∧
          f.wFormatTag ≠ waveFormatIeeeFloat then [.wFormatTag]
      else
        .wFormatTag ::
          (if f.wFormatTag = waveFormatExtensible then [.subFormat] else []) ++
          f.checkOpenALMediaTypeReads caps e

end OpenALRenderer
