import OpenALRenderer.Foundation.Frames
import OpenALRenderer.Model.Streaming
import OpenALRenderer.Verification.Mixer.Branches
import Mathlib.Logic.Relation

/-! # Whole calls of the mixer

What a complete `CMixer::Receive` or `Mix` does, and the runs of single steps behind it. -/

namespace OpenALRenderer

open Foundation

variable {β : Type*}

/-! ## The frame size of `CopyWaveform` -/

theorem mul_toNat_lt (a b : UInt16) : a.toNat * b.toNat < 2 ^ 32 := by
  have ha := a.toNat_lt
  have hb := b.toNat_lt
  calc a.toNat * b.toNat
      ≤ (2 ^ 16 - 1) * (2 ^ 16 - 1) := Nat.mul_le_mul (by omega) (by omega)
    _ < 2 ^ 32 := by decide

/-- The code's divisor is the frame size, unless the `int` product overflows on 64 bits; then
it exceeds the length of any sample. -/
theorem frameBytes_eq_or_large (p : Platform) (nChannels nBitsPerSample : UInt16) :
    frameBytes p nChannels nBitsPerSample = nChannels.toNat * nBitsPerSample.toNat / 8 ∨
      2 ^ 31 ≤ frameBytes p nChannels nBitsPerSample := by
  have hlt := mul_toNat_lt nChannels nBitsPerSample
  by_cases hsmall : nChannels.toNat * nBitsPerSample.toNat < 2 ^ 31
  · left
    rw [frameBytes, Platform.intToSizeT_of_lt hsmall]
  · cases p with
    | win32 =>
        left
        rw [frameBytes, Platform.intToSizeT_win32 hlt]
    | x64 =>
        right
        have hbig := Platform.le_intToSizeT_x64 (Nat.le_of_not_lt hsmall) hlt
        rw [frameBytes, Nat.le_div_iff_mul_le (by decide)]
        omega

/-- It is zero exactly for formats without a whole byte in a frame. -/
theorem frameBytes_ne_zero_iff (p : Platform) (nChannels nBitsPerSample : UInt16) :
    frameBytes p nChannels nBitsPerSample ≠ 0 ↔ 8 ≤ nChannels.toNat * nBitsPerSample.toNat := by
  have hlt := mul_toNat_lt nChannels nBitsPerSample
  have hpos : ∀ n : ℕ, n / 8 ≠ 0 ↔ 8 ≤ n := by
    intro n
    omega
  by_cases hsmall : nChannels.toNat * nBitsPerSample.toNat < 2 ^ 31
  · rw [frameBytes, Platform.intToSizeT_of_lt hsmall, hpos]
  · rw [frameBytes, hpos]
    refine iff_of_true ?_ (by omega)
    unfold Platform.intToSizeT
    rw [Nat.mod_eq_of_lt hlt, if_neg hsmall]
    omega

theorem MediaSample.copied_eq_wholeFrames (s : MediaSample β) (frame : ℕ) :
    s.copied frame = wholeFrames frame s.data :=
  take_sub_mod_eq_wholeFrames frame s.data

theorem MediaSample.copied_of_large (s : MediaSample β) {frame : ℕ} (h : 2 ^ 31 ≤ frame) :
    s.copied frame = [] := by
  have hlt := s.length_lt
  simp [MediaSample.copied, Nat.mod_eq_of_lt (show s.data.length < frame by omega)]

theorem MediaSample.copied_zero (s : MediaSample β) : s.copied 0 = [] := by
  simp [MediaSample.copied]

/-- Whatever the platform, the bytes pushed make up whole frames. -/
theorem MediaSample.dvd_length_copied (p : Platform) (nChannels nBitsPerSample : UInt16)
    (s : MediaSample β) : nChannels.toNat * nBitsPerSample.toNat / 8 ∣
      (s.copied (frameBytes p nChannels nBitsPerSample)).length := by
  rcases frameBytes_eq_or_large p nChannels nBitsPerSample with h | h
  · rw [h, MediaSample.copied_eq_wholeFrames]
    exact dvd_length_wholeFrames _ _
  · rw [MediaSample.copied_of_large s h]
    exact Nat.dvd_zero _

/-! ## What a call leaves -/

/-- A call of `Receive` keeps the mixer's format and appends the bytes it copied, if any. -/
theorem Mixer.receive_spec {p : Platform} {s : MediaSample β} {m m' : Mixer β}
    (h : m.receive p s = some m') :
    m'.nChannels = m.nChannels ∧ m'.nSamplesPerSec = m.nSamplesPerSec ∧
      m'.nBitsPerSample = m.nBitsPerSample ∧ m'.streaming = m.streaming ∧
      ∃ pushed, m'.sampleQueue = m.sampleQueue ++ pushed ∧
        (pushed = [] ∨ pushed = s.copied (frameBytes p m.nChannels m.nBitsPerSample)) := by
  unfold Mixer.receive at h
  dsimp only at h
  split at h
  · obtain rfl := Option.some.inj h
    exact ⟨rfl, rfl, rfl, rfl, [], by simp, .inl rfl⟩
  · split at h
    · split at h
      · cases h
      · obtain rfl := Option.some.inj h
        exact ⟨rfl, rfl, rfl, rfl, _, rfl, .inr rfl⟩
    · obtain rfl := Option.some.inj h
      exact ⟨rfl, rfl, rfl, rfl, [], by simp, .inl rfl⟩

theorem MixCall.length_resize [Inhabited β] (c : MixCall β) (n : ℕ) :
    (c.resize n).samples.length = n := by
  simp [MixCall.resize]
  omega

/-- A call of `Mix` that returns has filled its vector and counted it in frames, and has
taken what it asked for off the queue. -/
theorem Mixer.mix_spec [Inhabited β] {p : Platform} {c : MixCall β} {m m' : Mixer β}
    {frames : ℕ} {data : List β} (h : m.mix p c = some (frames, data, m')) :
    m'.nChannels = m.nChannels ∧ m'.nSamplesPerSec = m.nSamplesPerSec ∧
      m'.nBitsPerSample = m.nBitsPerSample ∧ m'.streaming = m.streaming ∧
      m'.sampleQueue = m.sampleQueue.drop (m.desired p c.numFrames c.numBytesPerSample) ∧
      data.length = m.desired p c.numFrames c.numBytesPerSample ∧
      frames = m.desired p c.numFrames c.numBytesPerSample / c.numBytesPerSample /
        m.nChannels.toNat ∧
      m.desired p c.numFrames c.numBytesPerSample ≤ p.maxVectorSize := by
  unfold Mixer.mix at h
  dsimp only at h
  split at h
  · cases h
  · rename_i hno
    push Not at hno
    obtain ⟨rfl, rfl, rfl⟩ := by simpa only [Option.some.injEq, Prod.mk.injEq] using h
    refine ⟨rfl, rfl, rfl, rfl, rfl, ?_, rfl, hno.1⟩
    simp only [List.length_append, List.length_take, List.length_drop, MixCall.length_resize]
    omega

/-! ## A call as a run of steps -/

/-- The producer alone, any number of steps. -/
def Producer.Steps (p : Platform) : Producer β × Mixer β → Producer β × Mixer β → Prop :=
  Relation.ReflTransGen fun x y => x.1.step p x.2 = some y

/-- The consumer alone, any number of steps. -/
def Consumer.Steps [Inhabited β] (p : Platform) :
    Consumer β × Mixer β → Consumer β × Mixer β → Prop :=
  Relation.ReflTransGen fun x y => x.1.step p x.2 = some y

theorem Producer.steps_push (p : Platform) (bytes : List β) :
    ∀ (n : ℕ) (m : Mixer β), Producer.Steps p (.push bytes n, m)
      (.setRendered (n + bytes.length), { m with sampleQueue := m.sampleQueue ++ bytes }) := by
  induction bytes with
  | nil =>
      intro n m
      refine .single ?_
      simp [Producer.step]
  | cons b bytes ih =>
      intro n m
      refine .head (b := (.push bytes (n + 1), { m with sampleQueue := m.sampleQueue ++ [b] }))
        (by simp [Producer.step]) ?_
      have h := ih (n + 1) { m with sampleQueue := m.sampleQueue ++ [b] }
      simp only [List.append_assoc, List.cons_append, List.nil_append, Nat.add_assoc,
        Nat.add_comm 1] at h
      exact h

/-- Once `SoundLoop` has asked for samples, the steps of the streaming thread add up to the
whole call. -/
theorem Producer.steps_receive {p : Platform} {s : MediaSample β} {m m' : Mixer β}
    (hrequest : m.requestSamples = true) (h : m.receive p s = some m') :
    Producer.Steps p (.receive s, m) (.done, m') := by
  unfold Mixer.receive at h
  dsimp only at h
  split at h
  · rename_i h0
    obtain rfl := Option.some.inj h
    exact .single (by simp [Producer.step, h0])
  rename_i h0
  refine .head (b := (.testStreaming s, { m with lastMediaSampleSize := s.data.length }))
    (by simp [Producer.step, h0]) ?_
  split at h
  · rename_i hstreaming
    split at h
    · cases h
    rename_i hframe
    obtain rfl := Option.some.inj h
    refine .head (b := (.copyWaveform s, { m with lastMediaSampleSize := s.data.length }))
      (by simp [Producer.step, hstreaming]) ?_
    refine .head (b := (.push (s.copied (frameBytes p m.nChannels m.nBitsPerSample)) 0,
      { m with lastMediaSampleSize := s.data.length })) (by simp [Producer.step, hframe]) ?_
    refine (Producer.steps_push p _ 0 _).trans ?_
    have hpos : ¬ (m.nChannels = 0 ∨ m.nBitsPerSample = 0) := by
      rintro (hz | hz) <;>
        exact hframe (by simp [frameBytes, hz, Platform.intToSizeT])
    refine .head (by simp only [Producer.step, hpos, if_false]; rfl) ?_
    refine .head (by simp only [Producer.step]; rfl) ?_
    refine .head (by simp only [Producer.step, hrequest, if_true]; rfl) ?_
    refine .single ?_
    simp [Producer.step]
  · rename_i hstreaming
    obtain rfl := Option.some.inj h
    exact .single (by simp [Producer.step, hstreaming])

/-- A step of `Mix` takes bytes off the head of the queue, or none. -/
theorem Consumer.step_suffix [Inhabited β] {p : Platform} {a a' : Consumer β} {m m' : Mixer β}
    (h : a.step p m = some (a', m')) : m'.sampleQueue <:+ m.sampleQueue := by
  cases branch_of_step h with
  | pop hi hqueue => exact ⟨[_], hqueue.symm⟩
  | _ => exact List.suffix_rfl

/-- The pop loop moves the head of the queue into the vector, and leaves the rest of the
vector alone when the queue runs out. -/
theorem Consumer.steps_pop [Inhabited β] (p : Platform) (k : ℕ) :
    ∀ (i : ℕ) (c : MixCall β) (m : Mixer β), m.desiredBytes = i + k →
      c.samples.length = m.desiredBytes →
      Consumer.Steps p (.pop c i, m)
        (.countFrames { c with
            samples := c.samples.take i ++ m.sampleQueue.take k ++
              c.samples.drop (i + (m.sampleQueue.take k).length) },
          { m with sampleQueue := m.sampleQueue.drop k }) := by
  induction k with
  | zero =>
      intro i c m hi _
      have hend : ¬ i < m.desiredBytes := by omega
      refine .single ?_
      simp [Consumer.step, hend]
  | succ k ih =>
      intro i c m hi hlen
      have hlt : i < m.desiredBytes := by omega
      cases hqueue : m.sampleQueue with
      | nil =>
          refine .head (b := (.pop c (i + 1), m)) (by simp [Consumer.step, hlt, hqueue]) ?_
          have h := ih (i + 1) c m (by omega) hlen
          rw [hqueue] at h
          have hmono : c.samples.take (i + 1) ++ c.samples.drop (i + 1) = c.samples :=
            List.take_append_drop _ _
          simpa [hmono, Consumer.Steps] using h
      | cons value queue =>
          have hi' : i < c.samples.length := by omega
          refine .head (b := (.pop { c with samples := c.samples.set i value } (i + 1),
            { m with sampleQueue := queue })) (by simp [Consumer.step, hlt, hqueue]) ?_
          have h := ih (i + 1) { c with samples := c.samples.set i value }
            { m with sampleQueue := queue } (by simp only; omega) (by simpa using hlen)
          have htake : (c.samples.set i value).take (i + 1) = c.samples.take i ++ [value] := by
            rw [List.take_succ_eq_append_getElem (by simpa using hi'), List.take_set_of_le le_rfl]
            simp
          have hdrop : ∀ n, (c.samples.set i value).drop (i + 1 + n) =
              c.samples.drop (i + (n + 1)) := by
            intro n
            rw [List.drop_set_of_lt (by omega)]
            congr 1
            omega
          simp only [htake, hdrop] at h
          simpa [Consumer.Steps] using h

/-- A mixer whose queue is short, and whose wait ends at once, has been asked for samples and
has no samples ready. -/
theorem Consumer.steps_short [Inhabited β] {p : Platform} {c : MixCall β} {m : Mixer β}
    (hshort : m.sampleQueue.length < m.desiredBytes)
    (hbits : m.streaming = true →
      p.toSizeT (c.numBytesPerSample * 8) ≠ m.nBitsPerSample.toNat)
    (hready : m.streaming = true → m.samplesReady = false) :
    Consumer.Steps p (.checkSize c, m) (.pop c 0, { m with requestSamples := true }) := by
  refine .head (b := (.setRequest c, m)) (by simp [Consumer.step, hshort]) ?_
  refine .head (b := (.waitForFrames c, { m with requestSamples := true }))
    (by simp [Consumer.step]) ?_
  by_cases hs : m.streaming = true
  · refine .head (b := (.testReady c, { m with requestSamples := true }))
      (by simp [Consumer.step, hs]) ?_
    refine .head (b := (.testStreaming c, { m with requestSamples := true }))
      (by simp [Consumer.step, hready hs]) ?_
    refine .head (b := (.testBits c, { m with requestSamples := true }))
      (by simp [Consumer.step, hs]) ?_
    exact .single (by simp [Consumer.step, hbits hs])
  · exact .single (by simp [Consumer.step, hs])

/-- The wait for the queue to fill, when it ends without new samples. -/
theorem Consumer.steps_wait [Inhabited β] {p : Platform} {c : MixCall β} {m : Mixer β}
    (hno : m.wouldWait p c.numBytesPerSample m.desiredBytes = false) :
    Consumer.Steps p (.checkSize c, m) (.pop c 0, { m with
      samplesReady := m.samplesReady &&
        !(decide (m.sampleQueue.length < m.desiredBytes) && m.streaming)
      requestSamples := m.requestSamples || decide (m.sampleQueue.length < m.desiredBytes) }) := by
  by_cases hshort : m.sampleQueue.length < m.desiredBytes
  · have hbits : m.streaming = true →
        p.toSizeT (c.numBytesPerSample * 8) ≠ m.nBitsPerSample.toNat := by
      intro hs
      simpa [Mixer.wouldWait, hshort, hs] using hno
    by_cases hready : m.streaming = true ∧ m.samplesReady = true
    · -- The wait takes the ready signal once, finds the queue short again, and gives up.
      obtain ⟨hs, hr⟩ := hready
      refine .head (b := (.setRequest c, m)) (by simp [Consumer.step, hshort]) ?_
      refine .head (b := (.waitForFrames c, { m with requestSamples := true }))
        (by simp [Consumer.step]) ?_
      refine .head (b := (.testReady c, { m with requestSamples := true }))
        (by simp [Consumer.step, hs]) ?_
      refine .head (b := (.clearReady c, { m with requestSamples := true }))
        (by simp [Consumer.step, hr]) ?_
      refine .head (b := (.checkSize c, { m with requestSamples := true, samplesReady := false }))
        (by simp [Consumer.step]) ?_
      have h := Consumer.steps_short (p := p) (c := c)
        (m := { m with requestSamples := true, samplesReady := false }) hshort hbits
        (fun _ => rfl)
      simpa [hshort, hs, Consumer.Steps] using h
    · have hready' : m.streaming = true → m.samplesReady = false := by
        intro hs
        simpa [hs] using hready
      have h := Consumer.steps_short (p := p) hshort hbits hready'
      have hkeep : (m.samplesReady && !m.streaming) = m.samplesReady := by
        cases hs : m.streaming with
        | false => simp
        | true => simp [hready' hs]
      simpa [hshort, hkeep] using h
  · refine .single ?_
    simp [Consumer.step, hshort]

/-- With nothing else running, the steps of a call that need not wait add up to the whole
call. -/
theorem Consumer.steps_mix [Inhabited β] {p : Platform} {c : MixCall β} {m m' : Mixer β}
    {frames : ℕ} {data : List β} (h : m.mix p c = some (frames, data, m')) :
    Consumer.Steps p (.mix c, m) (.returned { c with samples := data } frames, m') := by
  unfold Mixer.mix at h
  dsimp only at h
  split at h
  · cases h
  rename_i hno
  push Not at hno
  obtain ⟨hfits, hwait, hbytes, hchannels⟩ := hno
  obtain ⟨rfl, rfl, rfl⟩ := by simpa only [Option.some.injEq, Prod.mk.injEq] using h
  generalize hn : m.desired p c.numFrames c.numBytesPerSample = n at *
  have hn' : p.toSizeT (c.numFrames * m.nChannels.toNat * c.numBytesPerSample) = n := hn
  refine .head (b := (.checkSize (c.resize n), { m with desiredBytes := n }))
    (by simp [Consumer.step, hn', Nat.not_lt.mpr hfits]) ?_
  refine (Consumer.steps_wait (by simpa [Mixer.wouldWait, MixCall.resize] using hwait)).trans ?_
  refine (Consumer.steps_pop p n 0 (c.resize n) _ (by simp) (by simp [MixCall.length_resize])).trans
    (.single ?_)
  have hpos : ¬ (c.numBytesPerSample = 0 ∨ m.nChannels = 0) := by tauto
  simp [Consumer.step, MixCall.resize, hpos]

end OpenALRenderer
