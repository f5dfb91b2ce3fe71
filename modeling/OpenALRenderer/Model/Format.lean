import Mathlib.Data.List.Basic
import Mathlib.Algebra.Group.Nat.Defs
import Mathlib.Data.Nat.Basic

/-! # Media types, format blocks, and the formats of the device -/

namespace OpenALRenderer

/-! ## The device's formats -/

inductive SpeakerLayout where
  | mono
  | stereo
  | quad
  | surround6
  | surround8
  deriving DecidableEq, Repr

inductive MediaBitness where
  | bit8
  | bit16
  | bit24
  | bit32
  | bitfloat
  deriving DecidableEq, Repr

def SpeakerLayout.numChannels : SpeakerLayout → ℕ
  | mono => 1
  | stereo => 2
  | quad => 4
  | surround6 => 6
  | surround8 => 8

def MediaBitness.elementSize : MediaBitness → ℕ
  | bit8 => 1
  | bit16 => 2
  | bit24 => 4
  | bit32 => 4
  | bitfloat => 4

def getFrameSize (l : SpeakerLayout) (b : MediaBitness) : ℕ := l.numChannels * b.elementSize

/-- The name `SoundLoop` looks up with `alGetEnumValue`. -/
def generateFormatString (l : SpeakerLayout) (b : MediaBitness) : String :=
  let channels := match l with
    | .mono => "MONO"
    | .stereo => "STEREO"
    | .quad => "QUAD"
    | .surround6 => "51CHN"
    | .surround8 => "71CHN"
  let bits := match b with
    | .bit8 => "8"
    | .bit16 => "16"
    | .bit24 => ""
    | .bit32 => "32"
    | .bitfloat => if l = .stereo ∨ l = .mono then "_FLOAT32" else "32"
  "AL_FORMAT_" ++ channels ++ bits

/-- What the driver reports: `AL_EXT_float32`, `AL_EXT_MCFORMATS`, and an X-Fi renderer. -/
structure Capabilities where
  float32 : Bool
  mcformats : Bool
  xFi : Bool
  deriving DecidableEq, Repr

def Capabilities.getSupportedBitness (c : Capabilities) : List MediaBitness :=
  (if c.float32 then [.bitfloat] else []) ++ (if c.xFi then [.bit32] else []) ++ [.bit16, .bit8]

def Capabilities.getSupportedSpeakerLayout (c : Capabilities) : List SpeakerLayout :=
  (if c.mcformats || c.xFi then [.surround8, .surround6] else []) ++ [.quad, .stereo, .mono]

/-! ## Media types -/

/-- A GUID as its sixteen bytes in memory. -/
abbrev Guid := List UInt8

def guidNull : Guid := List.replicate 16 0

def mediaTypeAudio : Guid :=
  [0x61, 0x75, 0x64, 0x73, 0, 0, 0x10, 0, 0x80, 0, 0, 0xAA, 0, 0x38, 0x9B, 0x71]

def formatWaveFormatEx : Guid :=
  [0x81, 0x9F, 0x58, 0x05, 0x56, 0xC3, 0xCE, 0x11, 0xBF, 0x01, 0, 0xAA, 0, 0x55, 0x59, 0x5A]

def subtypePcm : Guid := [1, 0, 0, 0, 0, 0, 0x10, 0, 0x80, 0, 0, 0xAA, 0, 0x38, 0x9B, 0x71]

def subtypeIeeeFloat : Guid := [3, 0, 0, 0, 0, 0, 0x10, 0, 0x80, 0, 0, 0xAA, 0, 0x38, 0x9B, 0x71]

def waveFormatPcm : UInt16 := 1

def waveFormatIeeeFloat : UInt16 := 3

def waveFormatExtensible : UInt16 := 0xFFFE

/-- `CMediaType`; `format` is the format block, `none` when `pbFormat` is null. -/
structure MediaType where
  majortype : Guid
  subtype : Guid
  formattype : Guid
  format : Option (List UInt8)
  deriving DecidableEq, Repr

/-- `CMediaType::IsValid`. -/
def MediaType.isValid (mt : MediaType) : Bool := mt.majortype != guidNull

/-- `CopyMediaType` succeeds; only for a format block that is not empty does it ask for memory. -/
def MediaType.copies (allocates : Bool) (mt : MediaType) : Bool :=
  allocates || mt.format.all List.isEmpty

@[simp] theorem MediaType.copies_true (mt : MediaType) : mt.copies true = true := rfl

@[simp] theorem MediaType.copies_copies (allocates : Bool) (mt : MediaType) :
    mt.copies (mt.copies allocates) = mt.copies allocates := by
  simp [copies]

/-- A copy that fails was of a block that is not empty. -/
theorem MediaType.exists_of_copies {allocates : Bool} {mt : MediaType}
    (h : mt.copies allocates = false) : allocates = false ∧ ∃ block, mt.format = some block := by
  unfold copies at h
  cases hformat : mt.format with
  | none => simp [hformat] at h
  | some block => exact ⟨(Bool.or_eq_false_iff.mp h).1, block, rfl⟩

/-- What an execution finds in storage it has not written: the two locals of
`CheckOpenALMediaType` (`none` is a value that is no enumerator) and the memory after the
format block. -/
structure Indeterminate where
  speakerLayout : Option SpeakerLayout
  mediaBitness : Option MediaBitness
  beyond : ℕ → UInt8

/-- The fields the renderer reads through its views of a format block. -/
structure WaveFormat where
  wFormatTag : UInt16
  nChannels : UInt16
  nSamplesPerSec : UInt32
  nBlockAlign : UInt16
  wBitsPerSample : UInt16
  subFormat : Guid
  deriving DecidableEq, Repr

namespace WaveFormat

/-- The byte at offset `i` of a block, or what lies beyond it. -/
def byteAt (beyond : ℕ → UInt8) (block : List UInt8) (i : ℕ) : UInt8 :=
  (block[i]?).getD (beyond i)

def wordAt (beyond : ℕ → UInt8) (block : List UInt8) (i : ℕ) : UInt16 :=
  (byteAt beyond block i).toUInt16 + 256 * (byteAt beyond block (i + 1)).toUInt16

def dwordAt (beyond : ℕ → UInt8) (block : List UInt8) (i : ℕ) : UInt32 :=
  (wordAt beyond block i).toUInt32 + 65536 * (wordAt beyond block (i + 2)).toUInt32

/-- The little-endian, byte-packed views `WAVEFORMATEX`, `PCMWAVEFORMAT` and
`WAVEFORMATEXTENSIBLE` share their offsets. -/
def view (beyond : ℕ → UInt8) (block : List UInt8) : WaveFormat where
  wFormatTag := wordAt beyond block 0
  nChannels := wordAt beyond block 2
  nSamplesPerSec := dwordAt beyond block 4
  nBlockAlign := wordAt beyond block 12
  wBitsPerSample := wordAt beyond block 14
  subFormat := (List.range 16).map fun i => byteAt beyond block (24 + i)

/-- The first `switch` of `CheckOpenALMediaType`, which has no default. -/
def normalizeChannels (e : Indeterminate) (f : WaveFormat) : Option SpeakerLayout :=
  if f.nChannels = 1 then some .mono
  else if f.nChannels = 2 then some .stereo
  else if f.nChannels = 4 then some .quad
  else if f.nChannels = 6 then some .surround6
  else if f.nChannels = 8 then some .surround8
  else e.speakerLayout

/-- The `switch` over `wBitsPerSample`, which has no default either. -/
def normalizeBits (e : Indeterminate) (f : WaveFormat) : Option MediaBitness :=
  if f.wBitsPerSample = 8 then some .bit8
  else if f.wBitsPerSample = 16 then some .bit16
  else if f.wBitsPerSample = 24 then some .bit24
  else if f.wBitsPerSample = 32 then some .bit32
  else e.mediaBitness

/-- The sample type `CheckOpenALMediaType` works out; no branch handles the tag
`WAVE_FORMAT_IEEE_FLOAT`. -/
def normalizeBitness (e : Indeterminate) (f : WaveFormat) : Option MediaBitness :=
  if f.wFormatTag = waveFormatExtensible then
    if f.subFormat = subtypeIeeeFloat then some .bitfloat
    else if f.subFormat = subtypePcm then f.normalizeBits e
    else e.mediaBitness
  else if f.wFormatTag = waveFormatPcm then f.normalizeBits e
  else e.mediaBitness

end WaveFormat

end OpenALRenderer
