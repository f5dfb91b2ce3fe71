import OpenALRenderer.Verification.Pin.Cases

/-! # Agreement of the mixer's format with the device's

The format is stored twice. `SetMediaType` writes the mixer's copy, the acceptance check
writes the device's, also when a type is only asked about. -/

namespace OpenALRenderer

open Foundation

/-! ## When a proposal leaves the device's format, and when it suits the mixer's -/

/-- A format block proposes the rate, the channel count and the sample width the device has. -/
structure Device.Keeps (caps : Capabilities) (e : Indeterminate) (d : Device)
    (f : WaveFormat) : Prop where
  frequency : f.nSamplesPerSec.toInt32 = d.frequency
  channels : ((f.supportedLayout caps e).getD d.speakerLayout).numChannels =
    d.speakerLayout.numChannels
  elementSize : ((f.supportedBitness caps e).getD d.bitness).elementSize = d.bitness.elementSize

/-- The device, given a format block, ends up with the channel count and the sample width the
block states. -/
structure Device.Suits (caps : Capabilities) (e : Indeterminate) (d : Device)
    (f : WaveFormat) : Prop where
  channels : f.nChannels.toNat = ((f.supportedLayout caps e).getD d.speakerLayout).numChannels
  bits : f.wBitsPerSample.toNat = 8 * ((f.supportedBitness caps e).getD d.bitness).elementSize

theorem not_mem_getSupportedBitness (caps : Capabilities) :
    MediaBitness.bit24 ∉ caps.getSupportedBitness := by
  unfold Capabilities.getSupportedBitness
  split <;> split <;> simp

theorem numChannels_of_normalizeChannels {e : Indeterminate} {f : WaveFormat} {l : SpeakerLayout}
    (hchannels : f.nChannels ∈ [1, 2, 4, 6, 8]) (h : f.normalizeChannels e = some l) :
    f.nChannels.toNat = l.numChannels := by
  unfold WaveFormat.normalizeChannels at h
  simp only [List.mem_cons, List.not_mem_nil, or_false] at hchannels
  rcases hchannels with h' | h' | h' | h' | h' <;> rw [h'] at h ⊢ <;>
    obtain rfl := by simpa using h
  all_goals rfl

/-- The sample type worked out for integer and 32-bit float blocks has the width they state,
except for 24 bits, which are kept in four bytes. -/
theorem elementSize_of_normalizeBitness {e : Indeterminate} {f : WaveFormat} {b : MediaBitness}
    (htag : f.wFormatTag = waveFormatPcm ∨
      f.wFormatTag = waveFormatExtensible ∧ (f.subFormat = subtypePcm ∨
        f.subFormat = subtypeIeeeFloat ∧ f.wBitsPerSample = 32))
    (hbits : f.wBitsPerSample ∈ [8, 16, 24, 32]) (h : f.normalizeBitness e = some b)
    (h24 : b ≠ .bit24) : f.wBitsPerSample.toNat = 8 * b.elementSize := by
  have hint : f.normalizeBits e = some b → f.wBitsPerSample.toNat = 8 * b.elementSize := by
    intro hn
    unfold WaveFormat.normalizeBits at hn
    simp only [List.mem_cons, List.not_mem_nil, or_false] at hbits
    rcases hbits with h' | h' | h' | h' <;> rw [h'] at hn ⊢ <;>
      obtain rfl := by simpa using hn
    · rfl
    · rfl
    · exact absurd rfl h24
    · rfl
  unfold WaveFormat.normalizeBitness at h
  rcases htag with ht | ⟨ht, hs | ⟨hs, hw⟩⟩
  · have hne : ¬ waveFormatPcm = waveFormatExtensible := by decide
    rw [ht, if_neg hne, if_pos rfl] at h
    exact hint h
  · have hne : ¬ subtypePcm = subtypeIeeeFloat := by decide
    rw [ht, if_pos rfl, hs, if_neg hne, if_pos rfl] at h
    exact hint h
  · rw [ht, if_pos rfl, hs, if_pos rfl] at h
    obtain rfl := Option.some.inj h
    rw [hw]
    rfl

/-- A block whose tag, channel count and sample width leave nothing undetermined suits the
device as soon as the driver supports it. -/
theorem suits_of_supported {caps : Capabilities} {e : Indeterminate} {d : Device} {f : WaveFormat}
    (hchannels : f.nChannels ∈ [1, 2, 4, 6, 8])
    (htag : f.wFormatTag = waveFormatPcm ∨
      f.wFormatTag = waveFormatExtensible ∧ (f.subFormat = subtypePcm ∨
        f.subFormat = subtypeIeeeFloat ∧ f.wBitsPerSample = 32))
    (hbits : f.wBitsPerSample ∈ [8, 16, 24, 32])
    (hs : (f.supportedBitness caps e).isSome = true) : d.Suits caps e f := by
  obtain ⟨b, hb⟩ := Option.isSome_iff_exists.mp hs
  obtain ⟨⟨l, hl⟩, hnb, hmem⟩ := WaveFormat.supportedBitness_eq_some_iff.mp hb
  obtain ⟨hnl, -⟩ := WaveFormat.supportedLayout_eq_some_iff.mp hl
  constructor
  · rw [hl]
    exact numChannels_of_normalizeChannels hchannels hnl
  · rw [hb]
    refine elementSize_of_normalizeBitness htag hbits hnb ?_
    rintro rfl
    exact not_mem_getSupportedBitness caps hmem
namespace Filter

/-- The mixer and the device hold the same format. -/
structure SameFormat (w : Filter) : Prop where
  channels : w.mixer.nChannels.toNat = w.device.speakerLayout.numChannels
  bits : w.mixer.nBitsPerSample.toNat = 8 * w.device.bitness.elementSize
  rate : w.mixer.nSamplesPerSec = w.device.frequency

/-- While the pin is connected the two formats agree. -/
def FormatsAgree (w : Filter) : Prop := w.pin.connected = true → SameFormat w

/-- The type a sample makes `SetMediaType` store suits the device; where nothing is stored, the
type the sample brings keeps the device's format. -/
def SampleKeeps (caps : Capabilities) (r : Replies) (e e' : Indeterminate) (s : PinSample)
    (w : Filter) : Prop :=
  match (w.appliedType caps e s).filter (MediaType.copies r.allocates) with
  | some pmt => ∀ block ∈ pmt.format,
      (w.device.settle caps e (w.checkedFormat e s)).Suits caps e'
        (WaveFormat.view e'.beyond block)
  | none => ∀ f ∈ w.checkedFormat e s, w.device.Keeps caps e f

/-- The condition on an operation, and the filter it starts from, under which the formats
still agree after it. -/
def KeepsFormats (caps : Capabilities) (w : Filter) : Op → Prop
  | .receiveConnection r e e' pmt => Accepts caps r e pmt w → ∀ block ∈ pmt.format,
      (w.device.settle caps e (pmt.proposal e)).Suits caps e' (WaveFormat.view e'.beyond block)
  | .queryAccept e pmt => w.pin.connected = true → ∀ f ∈ pmt.proposal e, w.device.Keeps caps e f
  | .receive r e e' (some s) => w.pin.connected = true → w.SampleKeeps caps r e e' s
  | _ => True

/-! ## One operation -/

theorem SameFormat.congr {w w' : Filter} (hm : SameMixer w w') (hd : SameDevice w w') :
    SameFormat w' ↔ SameFormat w := by
  constructor
  · rintro ⟨hc, hb, hr⟩
    exact ⟨by rw [← hm.nChannels, hc, hd.speakerLayout],
      by rw [← hm.nBitsPerSample, hb, hd.bitness],
      by rw [← hm.nSamplesPerSec, hr, hd.frequency]⟩
  · rintro ⟨hc, hb, hr⟩
    exact ⟨by rw [hm.nChannels, hc, hd.speakerLayout],
      by rw [hm.nBitsPerSample, hb, hd.bitness],
      by rw [hm.nSamplesPerSec, hr, hd.frequency]⟩

/-- Proposing a format to the device keeps the agreement exactly when it keeps what the
agreement is about. -/
theorem sameFormat_settle_iff {caps : Capabilities} {e : Indeterminate} {w w' : Filter}
    {f : Option WaveFormat} (h : SameFormat w) (hm : SameMixer w w')
    (hd : w'.device = w.device.settle caps e f) :
    SameFormat w' ↔ ∀ g ∈ f, w.device.Keeps caps e g := by
  cases f with
  | none =>
      simp only [Device.settle] at hd
      simpa using (SameFormat.congr hm ⟨by rw [hd], by rw [hd], by rw [hd]⟩).mpr h
  | some g =>
      simp only [Option.mem_def, Option.some.injEq, forall_eq']
      simp only [Device.settle] at hd
      constructor
      · rintro ⟨hc, hb, hr⟩
        rw [hm.nChannels, h.channels, hd] at hc
        rw [hm.nBitsPerSample, h.bits, hd] at hb
        rw [hm.nSamplesPerSec, h.rate, hd] at hr
        exact ⟨hr.symm, hc.symm, (Nat.eq_of_mul_eq_mul_left (by decide) hb).symm⟩
      · rintro ⟨hr, hc, hb⟩
        exact ⟨by rw [hm.nChannels, h.channels, hd, ← hc],
          by rw [hm.nBitsPerSample, h.bits, hd, ← hb],
          by rw [hm.nSamplesPerSec, h.rate, hd, ← hr]⟩

/-- After `SetMediaType` the formats agree exactly when the format suits the device. -/
theorem IsSet.sameFormat_iff {caps : Capabilities} {e : Indeterminate} {w w' : Filter}
    {f : WaveFormat} (h : IsSet caps e f w w') : SameFormat w' ↔ w.device.Suits caps e f := by
  have hd := h.device
  simp only [Device.settle] at hd
  constructor
  · rintro ⟨hc, hb, -⟩
    rw [h.nChannels, hd] at hc
    rw [h.nBitsPerSample, hd] at hb
    exact ⟨hc, hb⟩
  · rintro ⟨hc, hb⟩
    exact ⟨by rw [h.nChannels, hc, hd], by rw [h.nBitsPerSample, hb, hd],
      by rw [h.nSamplesPerSec, hd]⟩

theorem formatsAgree_congr {w w' : Filter} (h : FormatsAgree w) (hm : SameMixer w w')
    (hd : SameDevice w w') (hc : w'.pin.connected = true → w.pin.connected = true) :
    FormatsAgree w' :=
  fun hconn => (SameFormat.congr hm hd).mpr (h (hc hconn))

/-- Handing bytes to the mixer moves neither format. -/
theorem mixerReceive_sameFormat_iff {p : Platform} {s : MediaSample UInt8} {w w' : Filter}
    (h : w.mixerReceive p s = some w') : SameFormat w' ↔ SameFormat w := by
  unfold mixerReceive at h
  obtain ⟨m, hm, rfl⟩ := Option.map_eq_some_iff.mp h
  obtain ⟨hc, hr, hb, -⟩ := Mixer.receive_spec hm
  constructor
  · rintro ⟨h₁, h₂, h₃⟩
    exact ⟨hc ▸ h₁, hb ▸ h₂, hr ▸ h₃⟩
  · rintro ⟨h₁, h₂, h₃⟩
    exact ⟨hc ▸ h₁, hb ▸ h₂, hr ▸ h₃⟩

/-- An iteration of `SoundLoop` moves neither format nor the connection. -/
theorem soundLoopIteration_same {p : Platform} {frames : ℕ} {byteData : List StampedByte}
    {w w' : Filter} {call : Option (BufferDataCall StampedByte)}
    (h : w.soundLoopIteration p frames byteData = some (call, w')) :
    w'.mixer.nChannels = w.mixer.nChannels ∧ w'.mixer.nSamplesPerSec = w.mixer.nSamplesPerSec ∧
      w'.mixer.nBitsPerSample = w.mixer.nBitsPerSample ∧ w'.device = w.device ∧
      w'.pin = w.pin := by
  unfold soundLoopIteration at h
  split at h
  · obtain ⟨-, rfl⟩ := Prod.mk.inj (Option.some.inj h)
    exact ⟨rfl, rfl, rfl, rfl, rfl⟩
  · obtain ⟨⟨n, data, m⟩, hmix, hr⟩ := Option.map_eq_some_iff.mp h
    obtain ⟨hc, hrate, hb, -⟩ := Mixer.mix_spec hmix
    dsimp only at hr
    split at hr
    all_goals
      obtain ⟨-, rfl⟩ := Prod.mk.inj hr
      exact ⟨hc, hrate, hb, rfl, rfl⟩

theorem received_formatsAgree_iff {p : Platform} {caps : Capabilities} {r : Replies}
    {e e' : Indeterminate} {sample : Option PinSample} {w w' : Filter} (h : FormatsAgree w)
    (hr : Received p caps r e e' w sample w') :
    FormatsAgree w' ↔ KeepsFormats caps w (.receive r e e' sample) := by
  cases hr with
  | null => simpa [KeepsFormats] using h
  | @kept s v _ applied mixer device connected delivered =>
      have hkeeps : w.SampleKeeps caps r e e' s ↔
          ∀ f ∈ w.checkedFormat e s, w.device.Keeps caps e f := by
        have hnone : (w.appliedType caps e s).filter (MediaType.copies r.allocates) = none :=
          Option.filter_eq_none_iff.mpr fun pmt hpmt => by simp [applied pmt hpmt]
        rw [SampleKeeps, hnone]
      have hsame : SameFormat w' ↔ SameFormat v := by
        rcases delivered with rfl | hd
        · exact Iff.rfl
        · exact mixerReceive_sameFormat_iff hd
      have hconn : w'.pin.connected = w.pin.connected := by
        rcases delivered with rfl | hd
        · exact connected
        · unfold mixerReceive at hd
          obtain ⟨m, -, rfl⟩ := Option.map_eq_some_iff.mp hd
          exact connected
      simp only [FormatsAgree, KeepsFormats, hconn]
      refine forall_congr' fun hc => ?_
      rw [hsame, hkeeps]
      exact sameFormat_settle_iff (h hc) mixer device
  | @retyped s pmt block v₀ v _ applied allocates format checked set delivered =>
      have hkeeps : w.SampleKeeps caps r e e' s ↔
          v₀.device.Suits caps e' (WaveFormat.view e'.beyond block) := by
        unfold SampleKeeps
        rw [applied, Option.filter_some, if_pos allocates, checked.device]
        simp [format]
      have hsame : SameFormat w' ↔ SameFormat v := by
        rw [mixerReceive_sameFormat_iff delivered]
        exact ⟨fun ⟨a, b, c⟩ => ⟨a, b, c⟩, fun ⟨a, b, c⟩ => ⟨a, b, c⟩⟩
      have hconn : w'.pin.connected = w.pin.connected := by
        unfold mixerReceive at delivered
        obtain ⟨m, -, rfl⟩ := Option.map_eq_some_iff.mp delivered
        exact set.connected.trans (congrArg Pin.connected checked.pin)
      simp only [FormatsAgree, KeepsFormats, hconn]
      refine forall_congr' fun _ => ?_
      rw [hsame, hkeeps]
      exact set.sameFormat_iff

/-- For an operation that starts from agreeing formats, the condition is exact. -/
theorem formatsAgree_next_iff {p : Platform} {caps : Capabilities} {w w' : Filter} {op : Op}
    (h : FormatsAgree w) (hstep : next p caps w op = some w') :
    FormatsAgree w' ↔ KeepsFormats caps w op := by
  have hsame : SameStream w w' → (FormatsAgree w' ↔ True) := fun hs =>
    iff_true_intro (formatsAgree_congr h hs.mixer hs.device fun hc => hs.connected ▸ hc)
  cases op with
  | receiveConnection r e e' pmt =>
      simp only [next] at hstep
      obtain ⟨⟨hr, v⟩, hrc, rfl⟩ := Option.map_eq_some_iff.mp hstep
      rcases receiveConnection_cases hrc with ⟨hno, rfl | ⟨hconn, -⟩⟩ | ⟨hacc, hconn, hset⟩
      · exact iff_of_true h fun ha => absurd ha hno
      · exact iff_of_true (fun hc => by simp [hconn] at hc) fun ha => absurd ha hno
      · obtain ⟨block, u, hformat, hchecked, hset⟩ := hset
        simp only [FormatsAgree, hconn, KeepsFormats, hacc, forall_true_left, hformat,
          Option.mem_def, Option.some.injEq, forall_eq', ← hchecked.device]
        exact hset.sameFormat_iff
  | disconnect r =>
      obtain rfl := Option.some.inj hstep
      obtain ⟨hm, hd, hc⟩ := disconnect_same r w
      exact iff_true_intro (formatsAgree_congr h hm hd hc)
  | queryAccept e pmt =>
      obtain rfl := Option.some.inj hstep
      have hchecked := checkMediaType_isChecked caps e pmt w
      rw [queryAccept_snd]
      simp only [FormatsAgree, KeepsFormats, hchecked.pin]
      refine forall_congr' fun hc => ?_
      exact sameFormat_settle_iff (h hc) hchecked.mixer hchecked.device
  | notifyAllocator committed =>
      obtain rfl := Option.some.inj hstep
      exact hsame ⟨⟨rfl, rfl, rfl, rfl, rfl⟩, ⟨rfl, rfl, rfl⟩, rfl⟩
  | run r =>
      obtain rfl := Option.some.inj hstep
      exact hsame (run_same r w)
  | pause r =>
      obtain rfl := Option.some.inj hstep
      exact hsame (pause_same r w)
  | stop r =>
      obtain rfl := Option.some.inj hstep
      exact hsame (stop_same r w)
  | beginFlush =>
      obtain rfl := Option.some.inj hstep
      exact iff_true_intro fun hc => ⟨(h hc).channels, (h hc).bits, (h hc).rate⟩
  | endFlush =>
      obtain rfl := Option.some.inj hstep
      exact hsame ⟨⟨rfl, rfl, rfl, rfl, rfl⟩, ⟨rfl, rfl, rfl⟩, rfl⟩
  | receive r e e' sample =>
      simp only [next] at hstep
      obtain ⟨o, ho, rfl⟩ := Option.map_eq_some_iff.mp hstep
      exact received_formatsAgree_iff h (receive_cases ho)
  | soundLoopIteration frames byteData =>
      simp only [next] at hstep
      obtain ⟨⟨call, v⟩, hiter, rfl⟩ := Option.map_eq_some_iff.mp hstep
      obtain ⟨hc, hrate, hb, hd, hp⟩ := soundLoopIteration_same hiter
      refine iff_true_intro fun hconn => ?_
      have hw := h (hp ▸ hconn)
      exact ⟨by rw [hc, hd, hw.channels], by rw [hb, hd, hw.bits], by rw [hrate, hd, hw.rate]⟩

/-! ## The buffer handed to OpenAL -/

/-- Every call of `alBufferData` an iteration makes passes the length of its vector. -/
def PassesWholeBuffer (p : Platform) (w : Filter) : Op → Prop
  | .soundLoopIteration frames byteData => w.pin.connected = true →
      ∀ call w', w.soundLoopIteration p frames byteData = some (some call, w') →
        call.size = call.data.length
  | _ => True

/-- The bytes an iteration asks `Mix` for are whole frames and fit an `ALsizei`, or make up no
frame at all. -/
def RequestFits (p : Platform) (w : Filter) : Op → Prop
  | .soundLoopIteration frames _ => w.pin.connected = true →
      ∀ n ∈ w.device.bitness.mixBytes, ∀ frame, frame = w.mixer.nChannels.toNat * n →
        frame ∣ w.mixer.desired p frames n ∧ w.mixer.desired p frames n < 2 ^ 31 ∨
          w.mixer.desired p frames n < frame
  | _ => True

end Filter

theorem toALsizei_of_lt {n : ℕ} (h : n < 2 ^ 31) : toALsizei n = n := by
  unfold toALsizei
  rw [BitVec.toInt_eq_toNat_of_lt]
  · rw [BitVec.toNat_ofNat, Nat.mod_eq_of_lt (by omega)]
  · simp only [BitVec.toNat_ofNat]
    omega

theorem toALsizei_lt (n : ℕ) : toALsizei n < 2 ^ 31 := by
  unfold toALsizei
  have h := BitVec.toInt_lt (x := BitVec.ofNat 32 n)
  simpa using h

theorem elementSize_of_mixBytes {b : MediaBitness} {n : ℕ} (h : b.mixBytes = some n) :
    b.elementSize = n ∧ 0 < n := by
  cases b <;> simp_all [MediaBitness.mixBytes, MediaBitness.elementSize] <;> omega

/-- The size passed for `d` bytes cut into frames is `d` exactly when `d` is whole frames and
fits. -/
theorem toALsizei_frames_eq_iff (d frame : ℕ) :
    toALsizei (d / frame * frame) = d ↔ frame ∣ d ∧ d < 2 ^ 31 := by
  have hle := Nat.div_mul_le_self d frame
  constructor
  · intro h
    have hlt : d < 2 ^ 31 := by
      have := toALsizei_lt (d / frame * frame)
      omega
    rw [toALsizei_of_lt (by omega)] at h
    exact ⟨Nat.dvd_of_mod_eq_zero (by have := Nat.div_add_mod' d frame; omega), hlt⟩
  · rintro ⟨hdvd, hlt⟩
    rw [Nat.div_mul_cancel hdvd, toALsizei_of_lt hlt]

/-- A rate that is not negative as an `ALsizei` asks for few frames. -/
theorem framesPerBuffer_le {frequency : Int32} (h : 0 ≤ frequency) :
    (framesPerBuffer initialLatency oalBuffers frequency).toNat ≤ 17179864 := by
  have hlt := frequency.toInt_lt
  have hq : (frequency / 1000).toInt = frequency.toInt / 1000 := by
    rw [Int32.toInt_div_of_ne_right _ _ (by decide)]
    exact Int.tdiv_eq_ediv_of_nonneg (by simpa [Int32.le_iff_toInt_le] using h)
  have hpos : 0 ≤ frequency.toInt := by simpa [Int32.le_iff_toInt_le] using h
  have hnonneg : 0 ≤ frequency / 1000 := by
    rw [Int32.le_iff_toInt_le, hq]
    exact Int.ediv_nonneg hpos (by decide)
  have hnat : (frequency / 1000).toUInt32.toNat ≤ 2147483 := by
    rw [Int32.toNat_toUInt32_of_le hnonneg, ← Int32.toNat_toInt, hq]
    omega
  have hlatency : (0 : UInt32) < initialLatency := by decide
  rw [framesPerBuffer, if_pos hlatency, UInt32.toNat_div, UInt32.toNat_mul]
  simp only [initialLatency, oalBuffers, UInt32.reduceToNat]
  rw [Nat.mod_eq_of_lt (by omega)]
  omega

namespace Filter

/-- At such a rate every iteration asks for what fits. -/
theorem requestFits_of_nonneg {p : Platform} {w : Filter} {byteData : List StampedByte}
    (h : FormatsAgree w) (hrate : 0 ≤ w.device.frequency) :
    RequestFits p w (.soundLoopIteration
      (framesPerBuffer initialLatency oalBuffers w.device.frequency).toNat byteData) := by
  intro hc n hn frame hframe
  have hw := h hc
  have hle := framesPerBuffer_le hrate
  obtain ⟨hsize, -⟩ := elementSize_of_mixBytes hn
  have hchannels : w.mixer.nChannels.toNat ≤ 8 := by
    rw [hw.channels]
    cases w.device.speakerLayout <;> decide
  have hbytes : n ≤ 4 := by
    rw [← hsize]
    cases w.device.bitness <;> decide
  have hsmall : frame ≤ 32 := by
    rw [hframe]
    exact Nat.mul_le_mul hchannels hbytes
  generalize (framesPerBuffer initialLatency oalBuffers w.device.frequency).toNat = frames at hle ⊢
  have hbound : frames * frame ≤ 17179864 * 32 := Nat.mul_le_mul hle hsmall
  have hdesired : w.mixer.desired p frames n = frames * frame := by
    rw [Mixer.desired, Nat.mul_assoc, ← hframe]
    apply Platform.toSizeT_of_lt
    cases p <;> simp only [Platform.sizeBits] <;> omega
  left
  rw [hdesired]
  exact ⟨Nat.dvd_mul_left _ _, by omega⟩

/-- Where the formats agree, an iteration that returns passes its whole vector exactly when
what it asks for fits. -/
theorem passesWholeBuffer_iff {p : Platform} {caps : Capabilities} {w w' : Filter} {op : Op}
    (h : FormatsAgree w) (hstep : next p caps w op = some w') :
    PassesWholeBuffer p w op ↔ RequestFits p w op := by
  cases op with
  | soundLoopIteration frames byteData =>
      simp only [PassesWholeBuffer, RequestFits]
      refine forall_congr' fun hc => ?_
      have hw := h hc
      simp only [next] at hstep
      obtain ⟨⟨call, v⟩, hiter, -⟩ := Option.map_eq_some_iff.mp hstep
      unfold soundLoopIteration at hiter ⊢
      cases hn : w.device.bitness.mixBytes with
      | none => simp
      | some n =>
          rw [hn] at hiter
          obtain ⟨hsize, hpos⟩ := elementSize_of_mixBytes hn
          obtain ⟨⟨available, data, m⟩, hmix, -⟩ := Option.map_eq_some_iff.mp hiter
          obtain ⟨-, -, -, -, -, hlen, havail, -⟩ := Mixer.mix_spec hmix
          have hch : 0 < w.mixer.nChannels.toNat := by
            rw [hw.channels]
            cases w.device.speakerLayout <;> decide
          have hframe : getFrameSize w.device.speakerLayout w.device.bitness =
              w.mixer.nChannels.toNat * n := by
            rw [getFrameSize, ← hw.channels, hsize]
          have hframes : available = w.mixer.desired p frames n / (w.mixer.nChannels.toNat * n) := by
            rw [havail, Nat.div_div_eq_div_mul, Nat.mul_comm n]
          simp only [hmix, Option.map_some, Option.some.injEq, Option.mem_def, forall_eq',
            forall_eq]
          rcases Nat.eq_zero_or_pos available with h0 | hp
          · have hsmall : w.mixer.desired p frames n < w.mixer.nChannels.toNat * n := by
              rw [h0] at hframes
              exact (Nat.div_eq_zero_iff_lt (Nat.mul_pos hch hpos)).mp hframes.symm
            simp [h0, hsmall]
          · have hlarge : ¬ w.mixer.desired p frames n < w.mixer.nChannels.toNat * n := by
              intro hlt
              rw [Nat.div_eq_of_lt hlt] at hframes
              omega
            simp only [Nat.pos_iff_ne_zero.mp hp, if_false, hlarge, or_false, Prod.mk.injEq,
              Option.some.injEq, Device.bufferData, hframe]
            rw [← toALsizei_frames_eq_iff, ← hframes, ← hlen]
            constructor
            · intro hall
              exact hall _ _ ⟨rfl, rfl⟩
            · rintro heq call w' ⟨rfl, -⟩
              exact heq
  | _ => exact Iff.rfl

/-- Along any run from a new filter: the formats agree whenever the pin is connected, and
every iteration passes its whole vector to OpenAL, if and only if each operation of the run
keeps the formats and each iteration asks for what fits. -/
theorem formats_agree_iff (p : Platform) (caps : Capabilities) {w t : Filter}
    {steps : List (Filter × Op)} (hinit : Init w) (hrun : (system p caps).Run w steps t) :
    ((∀ u ∈ System.visited steps t, FormatsAgree u) ∧
        ∀ x ∈ steps, PassesWholeBuffer p x.1 x.2) ↔
      ∀ x ∈ steps, KeepsFormats caps x.1 x.2 ∧ RequestFits p x.1 x.2 := by
  have hw : FormatsAgree w := fun hc => by simp [hinit.connected] at hc
  have hstates := hrun.forall_visited_iff hw fun s a t hs hstep =>
    formatsAgree_next_iff hs hstep
  simp only [forall_and]
  rw [← hstates]
  refine and_congr_right fun hall => forall₂_congr fun x hx => ?_
  obtain ⟨hv, u, hu⟩ := hrun.step_of_mem hx
  exact passesWholeBuffer_iff (hall _ hv) hu

/-- The filter once `pcm16 2` is connected. -/
def stereo16 : Filter where
  pin :=
    { connected := true
      mt := pcm16 2
      connectionFormat := ⟨1, 2, 48000, 4, 16, List.replicate 16 0⟩ }
  mixer :=
    { nChannels := 2, nSamplesPerSec := 48000, nBitsPerSample := 16, isFloat := false,
      nBlockAlign := 4 }
  device := { frequency := 48000, speakerLayout := .stereo, bitness := .bit16 }

/-- A run that connects 16-bit stereo and then asks about the same type. -/
theorem formats_agree_iff_stereo16 :
    stereo16.pin.connected = true ∧ FormatsAgree stereo16 := by
  have hconnect : next .x64 ⟨false, false, false⟩ zeroed
      (.receiveConnection {} zeroes zeroes (pcm16 2)) = some stereo16 := rfl
  have hquery : next .x64 ⟨false, false, false⟩ stereo16 (.queryAccept zeroes (pcm16 2)) =
      some stereo16 := rfl
  refine ⟨rfl, ((formats_agree_iff .x64 ⟨false, false, false⟩ zeroed_init
    (.cons hconnect (.cons hquery (.nil _)))).mpr ?_).1 _ (by simp [System.visited])⟩
  simp only [List.forall_mem_cons, List.not_mem_nil, false_imp_iff, implies_true, and_true]
  refine ⟨⟨fun _ block hblock => ?_, trivial⟩, fun _ f hf => ?_, trivial⟩
  · obtain rfl := Option.some.inj hblock
    exact ⟨rfl, rfl⟩
  · obtain rfl := Option.some.inj hf
    exact ⟨rfl, rfl, rfl⟩

/-- While 16-bit mono plays, asking about 16-bit stereo changes the device's format but not the
mixer's: the next iteration passes eight bytes of a vector of four to `alBufferData`. -/
theorem queryAccept_breaks_agreement :
    ∃ w call w', (system .x64 ⟨false, false, false⟩).Reachable w ∧ w.pin.connected = true ∧
      ¬ FormatsAgree w ∧ w.soundLoopIteration .x64 2 [] = some (some call, w') ∧
      call.size = 8 ∧ call.data.length = 4 := by
  have h : (System.exec (next .x64 ⟨false, false, false⟩) (fun _ _ => True) zeroed
      [.receiveConnection {} zeroes zeroes (pcm16 1), .run {},
        .receive {} zeroes zeroes (some { data := ⟨[1, 2, 3, 4], by decide⟩ }),
        .queryAccept zeroes (pcm16 2)]).map (fun w => (w.pin.connected, w.mixer.nChannels,
          w.device.speakerLayout, (w.soundLoopIteration .x64 2 []).map fun r =>
            r.1.map fun call => (call.size, call.data.length))) =
      some (true, 1, .stereo, some (some (8, 4))) := rfl
  obtain ⟨w, hw, hprops⟩ := Option.map_eq_some_iff.mp h
  simp only [Prod.mk.injEq] at hprops
  obtain ⟨hconn, hch, hlayout, hiter⟩ := hprops
  obtain ⟨⟨r, w'⟩, hrun, hcall⟩ := Option.map_eq_some_iff.mp hiter
  obtain ⟨call, rfl, hsizes⟩ := Option.map_eq_some_iff.mp hcall
  obtain ⟨hsize, hlen⟩ := Prod.mk.inj hsizes
  refine ⟨w, call, w', reachable_of_exec hw, hconn, fun hagree => ?_, hrun, hsize, hlen⟩
  have hc := (hagree hconn).channels
  rw [hch, hlayout] at hc
  exact absurd hc (by decide)

end Filter

end OpenALRenderer
