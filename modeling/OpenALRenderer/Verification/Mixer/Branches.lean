import OpenALRenderer.Model.Mixer

/-! # What one step of `Receive` and of `Mix` can do

Each branch of the two step functions, with the test that leads to it. -/

namespace OpenALRenderer

variable {β : Type*}

/-- The branches of `Producer.step`. -/
inductive Producer.Branch (p : Platform) (m : Mixer β) :
    Producer β → Producer β → Mixer β → Prop where
  | receive {s} (hdata : s.data ≠ []) :
      Branch p m (receive s) (testStreaming s) { m with lastMediaSampleSize := s.data.length }
  | receive_empty {s} (hdata : s.data = []) :
      Branch p m (receive s) done { m with lastMediaSampleSize := 0 }
  | testStreaming {s} (hstreaming : m.streaming = true) :
      Branch p m (testStreaming s) (copyWaveform s) m
  | testStreaming_not {s} (hstreaming : m.streaming = false) : Branch p m (testStreaming s) done m
  | copyWaveform {s} (hframe : frameBytes p m.nChannels m.nBitsPerSample ≠ 0) :
      Branch p m (copyWaveform s)
        (push (s.copied (frameBytes p m.nChannels m.nBitsPerSample)) 0) m
  | copyWaveform_fault {s} (hframe : frameBytes p m.nChannels m.nBitsPerSample = 0) :
      Branch p m (copyWaveform s) fault m
  | push {b rest n} :
      Branch p m (push (b :: rest) n) (push rest (n + 1))
        { m with sampleQueue := m.sampleQueue ++ [b] }
  | push_none {n} : Branch p m (push [] n) (setRendered n) m
  | setRendered {n frames} (hformat : ¬ (m.nChannels = 0 ∨ m.nBitsPerSample = 0)) :
      Branch p m (setRendered n) setReady { m with renderedSamples := frames }
  | setRendered_fault {n} (hformat : m.nChannels = 0 ∨ m.nBitsPerSample = 0) :
      Branch p m (setRendered n) fault m
  | setReady : Branch p m setReady testRequest { m with samplesReady := true }
  | testRequest (hrequest : m.requestSamples = true) : Branch p m testRequest clearRequest m
  | testRequest_not (hrequest : m.requestSamples = false) : Branch p m testRequest waitRequest m
  | waitRequest : Branch p m waitRequest testRequest m
  | clearRequest : Branch p m clearRequest done { m with requestSamples := false }

theorem Producer.branch_of_step {p : Platform} {a a' : Producer β} {m m' : Mixer β}
    (h : a.step p m = some (a', m')) : Branch p m a a' m' := by
  cases a with
  | receive s =>
      simp only [step] at h
      split at h <;> cases h
      · next hzero =>
          rw [hzero]
          exact .receive_empty (List.length_eq_zero_iff.mp hzero)
      · next hpos => exact .receive fun hnil => hpos (List.length_eq_zero_iff.mpr hnil)
  | testStreaming s =>
      simp only [step] at h
      split at h <;> cases h
      · next hstreaming => exact .testStreaming hstreaming
      · next hstreaming => exact .testStreaming_not (Bool.eq_false_iff.mpr hstreaming)
  | copyWaveform s =>
      simp only [step] at h
      split at h <;> cases h
      · next hframe => exact .copyWaveform_fault hframe
      · next hframe => exact .copyWaveform hframe
  | push rest n =>
      cases rest <;> cases h
      · exact .push_none
      · exact .push
  | setRendered n =>
      simp only [step] at h
      split at h <;> cases h
      · next hformat => exact .setRendered_fault hformat
      · next hformat => exact .setRendered hformat
  | testRequest =>
      simp only [step] at h
      split at h <;> cases h
      · next hrequest => exact .testRequest hrequest
      · next hrequest => exact .testRequest_not (Bool.eq_false_iff.mpr hrequest)
  | setReady =>
      cases h
      exact .setReady
  | waitRequest =>
      cases h
      exact .waitRequest
  | clearRequest =>
      cases h
      exact .clearRequest
  | done | fault => cases h

/-- The branches of `Consumer.step`. -/
inductive Consumer.Branch [Inhabited β] (p : Platform) (m : Mixer β) :
    Consumer β → Consumer β → Mixer β → Prop where
  | mix {c n} (hn : n = p.toSizeT (c.numFrames * m.nChannels.toNat * c.numBytesPerSample))
      (hsize : n ≤ p.maxVectorSize) :
      Branch p m (mix c) (checkSize (c.resize n)) { m with desiredBytes := n }
  | mix_fault {c n} (hn : n = p.toSizeT (c.numFrames * m.nChannels.toNat * c.numBytesPerSample)) :
      Branch p m (mix c) (fault []) { m with desiredBytes := n }
  | checkSize {c} (hsize : m.desiredBytes ≤ m.sampleQueue.length) :
      Branch p m (checkSize c) (pop c 0) m
  | checkSize_short {c} (hsize : m.sampleQueue.length < m.desiredBytes) :
      Branch p m (checkSize c) (setRequest c) m
  | setRequest {c} : Branch p m (setRequest c) (waitForFrames c) { m with requestSamples := true }
  | waitForFrames {c} (hstreaming : m.streaming = true) :
      Branch p m (waitForFrames c) (testReady c) m
  | waitForFrames_not {c} (hstreaming : m.streaming = false) :
      Branch p m (waitForFrames c) (pop c 0) m
  | testReady {c} (hready : m.samplesReady = true) : Branch p m (testReady c) (clearReady c) m
  | testReady_not {c} (hready : m.samplesReady = false) :
      Branch p m (testReady c) (testStreaming c) m
  | testStreaming {c} (hstreaming : m.streaming = true) :
      Branch p m (testStreaming c) (testBits c) m
  | testStreaming_not {c} (hstreaming : m.streaming = false) :
      Branch p m (testStreaming c) (pop c 0) m
  | testBits {c} (hbits : p.toSizeT (c.numBytesPerSample * 8) = m.nBitsPerSample.toNat) :
      Branch p m (testBits c) (waitReady c) m
  | testBits_ne {c} (hbits : p.toSizeT (c.numBytesPerSample * 8) ≠ m.nBitsPerSample.toNat) :
      Branch p m (testBits c) (pop c 0) m
  | waitReady {c} : Branch p m (waitReady c) (testReady c) m
  | clearReady {c} : Branch p m (clearReady c) (checkSize c) { m with samplesReady := false }
  | pop {c i value queue} (hi : i < m.desiredBytes) (hqueue : m.sampleQueue = value :: queue) :
      Branch p m (pop c i) (pop { c with samples := c.samples.set i value } (i + 1))
        { m with sampleQueue := queue }
  | pop_empty {c i} (hi : i < m.desiredBytes) (hqueue : m.sampleQueue = []) :
      Branch p m (pop c i) (pop c (i + 1)) m
  | pop_last {c i} (hi : m.desiredBytes ≤ i) : Branch p m (pop c i) (countFrames c) m
  | countFrames {c} (hbytes : c.numBytesPerSample ≠ 0) (hchannels : m.nChannels ≠ 0) :
      Branch p m (countFrames c)
        (returned c (m.desiredBytes / c.numBytesPerSample / m.nChannels.toNat)) m
  | countFrames_fault {c} : Branch p m (countFrames c) (fault c.samples) m

theorem Consumer.branch_of_step [Inhabited β] {p : Platform} {a a' : Consumer β} {m m' : Mixer β}
    (h : a.step p m = some (a', m')) : Branch p m a a' m' := by
  cases a with
  | mix c =>
      simp only [step] at h
      split at h <;> cases h
      · exact .mix_fault rfl
      · next hsize => exact .mix rfl (Nat.le_of_not_lt hsize)
  | checkSize c =>
      simp only [step] at h
      split at h <;> cases h
      · next hsize => exact .checkSize_short hsize
      · next hsize => exact .checkSize (Nat.le_of_not_lt hsize)
  | waitForFrames c =>
      simp only [step] at h
      split at h <;> cases h
      · next hstreaming => exact .waitForFrames hstreaming
      · next hstreaming => exact .waitForFrames_not (Bool.eq_false_iff.mpr hstreaming)
  | testReady c =>
      simp only [step] at h
      split at h <;> cases h
      · next hready => exact .testReady hready
      · next hready => exact .testReady_not (Bool.eq_false_iff.mpr hready)
  | testStreaming c =>
      simp only [step] at h
      split at h <;> cases h
      · next hstreaming => exact .testStreaming hstreaming
      · next hstreaming => exact .testStreaming_not (Bool.eq_false_iff.mpr hstreaming)
  | testBits c =>
      simp only [step] at h
      split at h <;> cases h
      · next hbits => exact .testBits_ne hbits
      · next hbits => exact .testBits (not_not.mp hbits)
  | setRequest c =>
      cases h
      exact .setRequest
  | waitReady c =>
      cases h
      exact .waitReady
  | clearReady c =>
      cases h
      exact .clearReady
  | pop c i =>
      simp only [step] at h
      split at h
      · next hi =>
          split at h <;> cases h
          · next hqueue => exact .pop_empty hi hqueue
          · next value queue hqueue => exact .pop hi hqueue
      · next hi =>
          cases h
          exact .pop_last (Nat.le_of_not_lt hi)
  | countFrames c =>
      simp only [step] at h
      split at h <;> cases h
      · exact .countFrames_fault
      · next hzero => exact .countFrames (fun h => hzero (.inl h)) fun h => hzero (.inr h)
  | returned c frames | fault dequeued => cases h

end OpenALRenderer
