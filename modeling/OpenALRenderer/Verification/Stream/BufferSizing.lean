import OpenALRenderer.Foundation.Words
import OpenALRenderer.Verification.Pin.Cases
import OpenALRenderer.Verification.Stream.PastFormat

/-! # The number of frames in a buffer

`frames_per_buffer` is computed from a signed rate and unsigned factors, with the division by 1000
first. -/

namespace OpenALRenderer

open Foundation

/-! ## Buffers that are well sized, and the rates that give them -/

/-- The milliseconds that the buffers are to hold together. -/
def milliseconds (latency : UInt32) : ℕ := max latency.toNat 1

/-- The buffers of a stream hold at least one frame each, as many as the same expression gives
without wrapping, and together no more than the latency asks for, or one frame each. -/
structure WellSized (rate latency frames : UInt32) : Prop where
  pos : 1 ≤ frames.toNat
  exact : frames.toNat = rate.toNat / 1000 * milliseconds latency / oalBuffers.toNat
  fits : frames.toNat * oalBuffers.toNat ≤
    max (rate.toNat * milliseconds latency / 1000) oalBuffers.toNat

/-- The rate is no negative number of Hertz, and gives whole frames for every buffer in a product
that fits. -/
structure Sizes (latency rate : UInt32) : Prop where
  signed : rate.toNat < 2 ^ 31
  enough : oalBuffers.toNat ≤ rate.toNat / 1000 * milliseconds latency
  fits : rate.toNat / 1000 * milliseconds latency < 2 ^ 32

/-! ## The expression -/

/-- A rate from `2 ^ 31` on is negative as an `ALsizei`, and its quotient wraps. -/
theorem toNat_quotient (rate : UInt32) : (rate.toInt32 / 1000).toUInt32.toNat =
    if rate.toNat < 2 ^ 31 then rate.toNat / 1000
    else (2 ^ 32 - (2 ^ 32 - rate.toNat) / 1000) % 2 ^ 32 := by
  have hlt := rate.toNat_lt
  apply Int.ofNat_inj.mp
  rw [toNat_toUInt32, Int32.toInt_div_of_ne_right _ _ (by decide), toInt_toInt32]
  change Int.tdiv _ 1000 % _ = _
  split
  · rw [Int.tdiv_eq_ediv_of_nonneg (by omega)]
    omega
  · have hneg : (rate.toNat : ℤ) - 2 ^ 32 = -((2 ^ 32 - rate.toNat : ℕ) : ℤ) := by omega
    rw [hneg, Int.neg_tdiv, Int.tdiv_eq_ediv_of_nonneg (by omega)]
    omega

theorem toNat_framesPerBuffer (latency rate : UInt32) :
    (framesPerBuffer latency oalBuffers rate.toInt32).toNat =
      (rate.toInt32 / 1000).toUInt32.toNat * milliseconds latency % 2 ^ 32 /
        oalBuffers.toNat := by
  unfold framesPerBuffer milliseconds
  split
  · next hpos =>
      have hlt : 0 < latency.toNat := UInt32.lt_iff_toNat_lt.mp hpos
      rw [Nat.max_eq_left hlt, UInt32.toNat_div, UInt32.toNat_mul]
  · next hzero =>
      have hle : latency.toNat ≤ 1 := by
        have hnot : ¬ 0 < latency.toNat := fun h => hzero (UInt32.lt_iff_toNat_lt.mpr h)
        omega
      have hlt := (rate.toInt32 / 1000).toUInt32.toNat_lt
      rw [Nat.max_eq_right hle, Int32.mul_one, UInt32.toNat_div, Nat.mul_one,
        Nat.mod_eq_of_lt hlt]

/-- Whole milliseconds hold no more frames than the same time does. -/
theorem wellSized_of_sizes {latency rate : UInt32} (h : Sizes latency rate) :
    WellSized rate latency (framesPerBuffer latency oalBuffers rate.toInt32) := by
  have hframes := toNat_framesPerBuffer latency rate
  rw [toNat_quotient, if_pos h.signed, Nat.mod_eq_of_lt h.fits] at hframes
  have hwhole : rate.toNat / 1000 * milliseconds latency ≤
      rate.toNat * milliseconds latency / 1000 := by
    rw [Nat.mul_comm, Nat.mul_comm rate.toNat]
    exact Nat.mul_div_le_mul_div_assoc _ _ _
  refine ⟨?_, hframes, ?_⟩
  · rw [hframes]
    exact Nat.div_pos h.enough (by decide)
  · rw [hframes]
    exact Nat.le_trans (Nat.le_trans (Nat.div_mul_le_self _ _) hwhole) (Nat.le_max_left _ _)

/-- The quotients of a rate and of its complement make up `2 ^ 32 / 1000`, which no number of
milliseconds turns into a whole number of turns. -/
theorem complement_div_ne {r l : ℕ} (hlo : 2 ^ 31 ≤ r) (hhi : r < 2 ^ 32) (hl : 1 ≤ l)
    (hpos : 1 ≤ (2 ^ 32 - (2 ^ 32 - r) / 1000) % 2 ^ 32 * l % 2 ^ 32 / 8) :
    (2 ^ 32 - (2 ^ 32 - r) / 1000) % 2 ^ 32 * l % 2 ^ 32 / 8 ≠ r / 1000 * l / 8 := by
  intro heq
  obtain ⟨hle, hsum, hsum'⟩ : (2 ^ 32 - r) / 1000 ≤ r / 1000 ∧
      4294966 ≤ (2 ^ 32 - r) / 1000 + r / 1000 ∧
      (2 ^ 32 - r) / 1000 + r / 1000 ≤ 4294967 := by omega
  generalize (2 ^ 32 - r) / 1000 = j at *
  generalize r / 1000 = k at *
  obtain rfl | hjpos := Nat.eq_zero_or_pos j
  · simp at hpos
  have hdiff : (2 ^ 32 - j) % 2 ^ 32 * l = 2 ^ 32 * l - j * l := by
    rw [Nat.mod_eq_of_lt (by omega), Nat.sub_mul]
  have hjl : 1 ≤ j * l := Nat.mul_pos hjpos hl
  have hfew : j * l ≤ k * l := Nat.mul_le_mul_right l hle
  rw [hdiff] at heq
  obtain hsmall | hlarge := Nat.lt_or_ge 1000 l |>.symm
  · have hbound : (j + k) * l ≤ 4294967 * 1000 := Nat.mul_le_mul hsum' hsmall
    rw [Nat.add_mul] at hbound
    omega
  · have hbound : 4294966 * 1001 ≤ (j + k) * l := Nat.mul_le_mul hsum hlarge
    rw [Nat.add_mul] at hbound
    omega

theorem not_wellSized_of_negative {latency rate : UInt32} (h : 2 ^ 31 ≤ rate.toNat) :
    ¬ WellSized rate latency (framesPerBuffer latency oalBuffers rate.toInt32) := by
  rintro ⟨hpos, hexact, -⟩
  rw [toNat_framesPerBuffer, toNat_quotient, if_neg (Nat.not_lt.mpr h)] at hpos hexact
  exact complement_div_ne h rate.toNat_lt (le_max_right _ _) hpos hexact

theorem wellSized_iff {latency rate : UInt32} :
    WellSized rate latency (framesPerBuffer latency oalBuffers rate.toInt32) ↔
      Sizes latency rate := by
  refine ⟨fun h => ?_, wellSized_of_sizes⟩
  have hsigned : rate.toNat < 2 ^ 31 := by
    by_contra hnot
    exact not_wellSized_of_negative (Nat.le_of_not_lt hnot) h
  obtain ⟨hpos, hexact, -⟩ := h
  rw [toNat_framesPerBuffer, toNat_quotient, if_pos hsigned] at hpos hexact
  change 1 ≤ _ / 8 at hpos
  change _ / 8 = _ / 8 at hexact
  exact ⟨hsigned, by change 8 ≤ _; omega, by omega⟩

/-! ## The frames that `SoundLoop` asks for -/

section Loop

variable {β : Type*}

/-- The program points before `frames_per_buffer` is computed. -/
def Pc.unsized : Pc β → Bool
  | notStarted | readFrequency | readSpeakerLayout | readBitness | queryFloat32 | queryMcFormats
  | queryRenderer | queryFixed32 | computeFrames => true
  | _ => false

theorem Pc.Follows.unsized {pc pc' : Pc β} (h : pc.Follows pc') (hpc : pc.unsized = true) :
    pc'.unsized = true ∨ pc = .computeFrames := by
  cases h with
  | computeFrames => exact .inr rfl
  | readFrequency | readSpeakerLayout | readBitness | queryFloat32 | queryMcFormats
  | queryMcFormats_missing | queryRenderer | queryFixed32 => exact .inl rfl
  | _ => cases hpc

namespace Stream

variable {s t : Stream β} {c : Choice β}

theorem loopStep_framesPerBuffer (hs : s.loopStep c = some t) :
    t.locals.framesPerBuffer = s.bufferFrames ∨
      s.pc ≠ .computeFrames ∧ t.locals.framesPerBuffer = s.locals.framesPerBuffer := by
  unfold loopStep at hs
  split at hs
  · unfold advance at hs
    split at hs
    case h_4 | h_13 =>
      cases hs
      exact .inl rfl
    case h_18 h => split at hs <;> cases hs <;> exact .inr ⟨by simp [h], rfl⟩
    case h_20 h => exact .inr ⟨by simp [h], by rw [evaluate_locals hs]⟩
    case h_22 => cases hs
    all_goals
      next h =>
        cases hs
        exact .inr ⟨by simp [h], rfl⟩
  · next x hx =>
      split at hs <;> cases hs
      refine .inr ⟨fun h => ?_, ?_⟩
      · simp [call, h] at hx
      · unfold resume
        split <;> rfl

/-- The rate is a good one, and so is the number of frames once it is computed. -/
structure Fed (s : Stream β) : Prop where
  rate : Sizes initialLatency s.frequency.toUInt32
  frames : s.pc.unsized = true ∨ s.locals.framesPerBuffer ≠ 0

/-- Every rate that is written is a good one. -/
def Rates : Label β → Prop
  | .setFrequency f => Sizes initialLatency f.toUInt32
  | _ => True

theorem bufferFrames_ne_zero (h : Sizes initialLatency s.frequency.toUInt32) :
    s.bufferFrames ≠ 0 := by
  have hpos := (wellSized_of_sizes h).pos
  intro hzero
  rw [Int32.toInt32_toUInt32] at hpos
  have hframes : framesPerBuffer initialLatency oalBuffers s.frequency = 0 := hzero
  rw [hframes] at hpos
  exact absurd hpos (by decide)

theorem Fed.loop (h : s.Fed) (hs : s.loopStep c = some t) : t.Fed := by
  refine ⟨by rw [(loopStep_settings hs).frequency]; exact h.rate, ?_⟩
  obtain hcomputed | ⟨hpc, hkept⟩ := loopStep_framesPerBuffer hs
  · exact .inr (by rw [hcomputed]; exact bufferFrames_ne_zero h.rate)
  · rw [hkept]
    refine h.frames.imp_left fun hu => ?_
    exact ((follows_loopStep hs).unsized hu).resolve_right hpc

theorem Fed.next {a : Label β} (h : s.Fed) (ha : Rates a) (hs : s.next a = some t) : t.Fed := by
  cases a with
  | loop c => exact h.loop hs
  | driver n =>
      obtain ⟨al, -, rfl⟩ := Option.map_eq_some_iff.mp hs
      exact ⟨h.rate, h.frames⟩
  | setFrequency f =>
      obtain rfl := Option.some.inj hs
      exact ⟨ha, h.frames⟩
  | setSpeakerLayout l | setBitness b | setStreaming b =>
      obtain rfl := Option.some.inj hs
      exact ⟨h.rate, h.frames⟩
  | startDevice =>
      obtain ⟨-, rfl | ⟨-, -, rfl⟩⟩ := next_startDevice hs
      · exact h
      · exact ⟨h.rate, .inl rfl⟩
  | stopDevice =>
      obtain rfl := next_stopDevice hs
      exact ⟨h.rate, h.frames⟩
  | stop =>
      obtain rfl := next_stop hs
      exact ⟨h.rate, h.frames⟩
  | destroy =>
      simp only [Stream.next, destructorStep] at hs
      split at hs
      case h_11 =>
        split at hs <;> cases hs
        exact ⟨h.rate, h.frames⟩
      case h_12 => cases hs
      all_goals
        cases hs
        exact ⟨h.rate, h.frames⟩

/-- A stream whose loop has not started, at a good rate. -/
def rated (β : Type*) : System (Stream β) (Label β) :=
  .ofNext (fun s => s.pc = .notStarted ∧ Sizes initialLatency s.frequency.toUInt32) next

theorem fed_of_reachable (h : (rated β).ReachableWhere (fun _ a => Rates a) s) : s.Fed :=
  h.invariant (fun _ hs => ⟨hs.2, .inl (by rw [hs.1]; rfl)⟩) fun _ _ _ hI ha hs => hI.next ha hs

end Stream

end Loop

/-- For a rate that `CheckMediaType` writes, both places where `SoundLoop` computes
`frames_per_buffer` size its buffers well if and only if the rate is a good one; and while every
rate written is a good one for the latency of the stream, `Mix` is never called with zero
frames. -/
theorem buffers_sized {caps : Capabilities} {e : Indeterminate} {pmt : MediaType} {w : Filter}
    {f : WaveFormat} (hf : pmt.proposal e = some f) (latency : UInt32) :
    (WellSized f.nSamplesPerSec latency (framesPerBuffer latency oalBuffers
        (w.checkMediaType caps e pmt).2.device.frequency) ↔ Sizes latency f.nSamplesPerSec) ∧
      ∀ s : Stream StampedByte, (Stream.rated _).ReachableWhere (fun _ a => Stream.Rates a) s →
        ∀ n, s.pc = .mix n → s.locals.framesPerBuffer ≠ 0 := by
  have hrate : (w.checkMediaType caps e pmt).2.device.frequency = f.nSamplesPerSec.toInt32 := by
    rw [(Filter.checkMediaType_isChecked caps e pmt w).device, hf]
    rfl
  refine ⟨by rw [hrate]; exact wellSized_iff, fun s hs n hpc => ?_⟩
  refine (Stream.fed_of_reachable hs).frames.resolve_left ?_
  rw [hpc]
  exact Bool.false_ne_true

/-! ## Two rates -/

/-- Integer samples of two channels and 16 bits, at a rate below 65536 Hertz. -/
def stereoAt (high low : UInt8) : MediaType where
  majortype := mediaTypeAudio
  subtype := subtypePcm
  formattype := formatWaveFormatEx
  format := some [1, 0, 2, 0, low, high, 0, 0, 0, 0, 0, 0, 4, 0, 16, 0, 0, 0]

theorem buffers_sized_stereo :
    (WellSized 48000 64 (framesPerBuffer 64 oalBuffers (Filter.zeroed.checkMediaType
        ⟨false, false, false⟩ Filter.zeroes (stereoAt 0xBB 0x80)).2.device.frequency) ↔
        Sizes 64 48000) ∧
      ∀ s : Stream StampedByte, (Stream.rated _).ReachableWhere (fun _ a => Stream.Rates a) s →
        ∀ n, s.pc = .mix n → s.locals.framesPerBuffer ≠ 0 :=
  buffers_sized (f := ⟨1, 2, 48000, 4, 16, List.replicate 16 0⟩) (by decide) 64

/-- A rate of 500 Hertz is accepted and gives no frames at all. -/
theorem accepted_rate_gives_no_frames :
    (Filter.zeroed.checkMediaType ⟨false, false, false⟩ Filter.zeroes (stereoAt 1 0xF4)).1 =
        .S_OK ∧
      framesPerBuffer 64 oalBuffers (Filter.zeroed.checkMediaType ⟨false, false, false⟩
        Filter.zeroes (stereoAt 1 0xF4)).2.device.frequency = 0 ∧
      ¬ WellSized 500 64 (framesPerBuffer 64 oalBuffers (Filter.zeroed.checkMediaType
        ⟨false, false, false⟩ Filter.zeroes (stereoAt 1 0xF4)).2.device.frequency) := by
  have hzero : framesPerBuffer 64 oalBuffers (Filter.zeroed.checkMediaType ⟨false, false, false⟩
      Filter.zeroes (stereoAt 1 0xF4)).2.device.frequency = 0 := by decide
  refine ⟨by decide, hzero, fun h => ?_⟩
  rw [hzero] at h
  exact absurd h.pos (by decide)

end OpenALRenderer
