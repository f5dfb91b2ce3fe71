import OpenALRenderer.Foundation.System
import OpenALRenderer.Verification.Mixer.Calls

/-! # Transport of samples from `CMixer::Receive` to `CMixer::Mix` -/

namespace OpenALRenderer

open Foundation

variable {β : Type*}

/-! ## The two threads around one mixer -/

/-- A call of `Mix` that has returned. -/
structure MixReturn (β : Type*) where
  numFrames : ℕ
  numBytesPerSample : ℕ
  frames : ℕ
  buffer : List β
  deriving DecidableEq

/-- The mixer, the program points of the two threads, the vector `SoundLoop` lends to `Mix`,
and the history of the samples received and of the calls returned. -/
structure Transport (β : Type*) where
  mixer : Mixer β
  producer : Producer β
  consumer : Option (Consumer β)
  byteData : List β
  arrived : List (MediaSample β)
  returns : List (MixReturn β)

namespace Transport

/-- `receive` and `mix` are calls, `produce` and `consume` single steps of a running call,
and the rest are the accesses of the control threads. -/
inductive Label (β : Type*) where
  | receive (s : MediaSample β)
  | produce
  | mix (numFrames numBytesPerSample : ℕ)
  | consume
  | setStreaming (b : Bool)
  | setFormat (nChannels nBitsPerSample : UInt16)
  | clear

variable [Inhabited β] (p : Platform)

def next (s : Transport β) : Label β → Option (Transport β)
  | .receive sample =>
      match s.producer with
      | .done => some { s with producer := .receive sample, arrived := s.arrived ++ [sample] }
      | _ => none
  | .produce => (s.producer.step p s.mixer).map fun r => { s with producer := r.1, mixer := r.2 }
  | .mix numFrames numBytesPerSample =>
      match s.consumer with
      | none => some { s with consumer := some (.mix ⟨numFrames, numBytesPerSample, s.byteData⟩) }
      | some _ => none
  | .consume =>
      match s.consumer with
      | none => none
      | some (.returned c frames) =>
          let r := ⟨c.numFrames, c.numBytesPerSample, frames, c.samples⟩
          some { s with consumer := none, byteData := c.samples, returns := s.returns ++ [r] }
      | some c => (c.step p s.mixer).map fun r => { s with consumer := some r.1, mixer := r.2 }
  | .setStreaming b => some { s with mixer := { s.mixer with streaming := b } }
  | .setFormat nChannels nBitsPerSample =>
      let m := { s.mixer with nChannels := nChannels, nBitsPerSample := nBitsPerSample }
      some { s with mixer := m }
  | .clear => some { s with mixer := { s.mixer with sampleQueue := [] } }

/-- The branches of `next`. -/
inductive Branch (s : Transport β) : Label β → Transport β → Prop where
  | receive {sample} (hdone : s.producer = .done) :
      Branch s (.receive sample)
        { s with producer := .receive sample, arrived := s.arrived ++ [sample] }
  | produce {a m} (ha : s.producer.step p s.mixer = some (a, m)) :
      Branch s .produce { s with producer := a, mixer := m }
  | mix {numFrames numBytesPerSample} (hnone : s.consumer = none) :
      Branch s (.mix numFrames numBytesPerSample)
        { s with consumer := some (.mix ⟨numFrames, numBytesPerSample, s.byteData⟩) }
  | consume {a b m} (ha : s.consumer = some a) (hb : a.step p s.mixer = some (b, m)) :
      Branch s .consume { s with consumer := some b, mixer := m }
  | consume_returned {c frames} (hret : s.consumer = some (.returned c frames)) :
      Branch s .consume { s with
        consumer := none
        byteData := c.samples
        returns := s.returns ++ [⟨c.numFrames, c.numBytesPerSample, frames, c.samples⟩] }
  | setStreaming {b} :
      Branch s (.setStreaming b) { s with mixer := { s.mixer with streaming := b } }
  | setFormat {nChannels nBitsPerSample} :
      Branch s (.setFormat nChannels nBitsPerSample) { s with
        mixer := { s.mixer with nChannels := nChannels, nBitsPerSample := nBitsPerSample } }
  | clear : Branch s .clear { s with mixer := { s.mixer with sampleQueue := [] } }

variable {p} in
theorem branch_of_next {s t : Transport β} {l : Label β} (h : next p s l = some t) :
    Branch p s l t := by
  cases l with
  | receive sample =>
      simp only [next] at h
      split at h <;> cases h
      next hdone => exact .receive hdone
  | produce =>
      obtain ⟨⟨a, m⟩, ha, rfl⟩ := Option.map_eq_some_iff.mp h
      exact .produce ha
  | mix numFrames numBytesPerSample =>
      simp only [next] at h
      split at h <;> cases h
      next hnone => exact .mix hnone
  | consume =>
      simp only [next] at h
      split at h
      · cases h
      · next c frames hret =>
          cases h
          exact .consume_returned hret
      · next a _ ha =>
          obtain ⟨⟨b, m⟩, hb, rfl⟩ := Option.map_eq_some_iff.mp h
          exact .consume ha hb
  | setStreaming b =>
      cases h
      exact .setStreaming
  | setFormat nChannels nBitsPerSample =>
      cases h
      exact .setFormat
  | clear =>
      cases h
      exact .clear

/-- Streaming has just started: nothing is queued and no call is running. -/
structure Init (s : Transport β) : Prop where
  streaming : s.mixer.streaming = true
  queue : s.mixer.sampleQueue = []
  producer : s.producer = .done
  consumer : s.consumer = none
  arrived : s.arrived = []
  returns : s.returns = []

def system : System (Transport β) (Label β) := .ofNext Init (next p)

/-- The steps of uninterrupted streaming: both sides run, every `Mix` call asks for samples of
the mixer's bit depth, and no control thread interferes. -/
def Uninterrupted (s : Transport β) : Label β → Prop
  | .mix _ numBytesPerSample => s.mixer.nBitsPerSample.toNat = 8 * numBytesPerSample
  | .setStreaming _ => False
  | .setFormat _ _ => False
  | .clear => False
  | _ => True

instance (s : Transport β) (l : Label β) : Decidable (Uninterrupted s l) := by
  cases l <;> unfold Uninterrupted <;> infer_instance

end Transport

/-! ## What a step leaves alone -/

/-- The members that neither side of the transport writes. -/
structure Mixer.SameFormat (m m' : Mixer β) : Prop where
  nChannels : m'.nChannels = m.nChannels
  nBitsPerSample : m'.nBitsPerSample = m.nBitsPerSample
  streaming : m'.streaming = m.streaming

/-- The bytes a producer has still to push, for samples cut at `frame`. -/
def Producer.pending (frame : ℕ) : Producer β → List β
  | receive s => s.copied frame
  | testStreaming s => s.copied frame
  | copyWaveform s => s.copied frame
  | push rest _ => rest
  | _ => []

/-- A producer step appends to the queue exactly what it takes off its pending bytes. -/
theorem Producer.step_queue {p : Platform} {a a' : Producer β} {m m' : Mixer β}
    (hs : m.streaming = true) (h : a.step p m = some (a', m')) :
    m.SameFormat m' ∧ m'.desiredBytes = m.desiredBytes ∧
      m'.sampleQueue ++ a'.pending (frameBytes p m.nChannels m.nBitsPerSample) =
        m.sampleQueue ++ a.pending (frameBytes p m.nChannels m.nBitsPerSample) ∧
      m.sampleQueue.length ≤ m'.sampleQueue.length := by
  cases branch_of_step h with
  | receive_empty hdata =>
      exact ⟨⟨rfl, rfl, rfl⟩, rfl, by simp [pending, MediaSample.copied, hdata], le_rfl⟩
  | testStreaming_not hstreaming => cases hs.symm.trans hstreaming
  | copyWaveform_fault hframe =>
      exact ⟨⟨rfl, rfl, rfl⟩, rfl, by simp [pending, hframe, MediaSample.copied_zero], le_rfl⟩
  | push => exact ⟨⟨rfl, rfl, rfl⟩, rfl, by simp [pending], by simp⟩
  | _ => exact ⟨⟨rfl, rfl, rfl⟩, rfl, rfl, le_rfl⟩

/-- What a call of `Mix` knows once it has fixed its byte count and resized the vector. -/
structure MixCall.Ready (p : Platform) (m : Mixer β) (c : MixCall β) : Prop where
  bits : m.nBitsPerSample.toNat = 8 * c.numBytesPerSample
  desired : m.desiredBytes = p.toSizeT (c.numFrames * m.nChannels.toNat * c.numBytesPerSample)
  size : c.samples.length = m.desiredBytes

/-- What holds at each program point of `Mix` in uninterrupted streaming. In the popping loop
the queue still covers the rest of the request, so no `try_pop` fails. -/
def Consumer.Ok (p : Platform) (m : Mixer β) : Consumer β → Prop
  | mix c => m.nBitsPerSample.toNat = 8 * c.numBytesPerSample
  | pop c i => c.Ready p m ∧ i ≤ m.desiredBytes ∧ m.desiredBytes ≤ m.sampleQueue.length + i
  | returned c frames =>
      c.Ready p m ∧ c.numBytesPerSample ≠ 0 ∧ m.nChannels ≠ 0 ∧
        frames = m.desiredBytes / c.numBytesPerSample / m.nChannels.toNat
  | checkSize c | setRequest c | waitForFrames c | testReady c | testStreaming c | testBits c
  | waitReady c | clearReady c | countFrames c => c.Ready p m
  | fault _ => True

/-- The bytes a running call has dequeued and stored so far. -/
def Consumer.popped : Consumer β → List β
  | pop c i => c.samples.take i
  | countFrames c => c.samples
  | returned c _ => c.samples
  | fault dequeued => dequeued
  | _ => []

theorem MixCall.Ready.congr {p : Platform} {m m' : Mixer β} {c : MixCall β}
    (h : c.Ready p m) (hf : m.SameFormat m') (hd : m'.desiredBytes = m.desiredBytes) :
    c.Ready p m' :=
  ⟨by rw [hf.nBitsPerSample, h.bits], by rw [hd, hf.nChannels, h.desired], by rw [hd, h.size]⟩

theorem Consumer.Ok.congr {p : Platform} {m m' : Mixer β} {a : Consumer β} (h : a.Ok p m)
    (hf : m.SameFormat m') (hd : m'.desiredBytes = m.desiredBytes)
    (hq : m.sampleQueue.length ≤ m'.sampleQueue.length) : a.Ok p m' := by
  cases a with
  | mix c => exact (congrArg UInt16.toNat hf.nBitsPerSample).trans h
  | pop c i => exact ⟨h.1.congr hf hd, hd ▸ h.2.1, by rw [hd]; have := h.2.2; omega⟩
  | returned c frames =>
      exact ⟨h.1.congr hf hd, h.2.1, hf.nChannels ▸ h.2.2.1, by rw [hd, hf.nChannels, h.2.2.2]⟩
  | fault _ => trivial
  | checkSize c | setRequest c | waitForFrames c | testReady c | testStreaming c | testBits c
  | waitReady c | clearReady c | countFrames c => exact MixCall.Ready.congr h hf hd

/-- A consumer step moves bytes from the head of the queue to the end of the dequeued ones. -/
theorem Consumer.step_queue [Inhabited β] {p : Platform} {a a' : Consumer β} {m m' : Mixer β}
    (hs : m.streaming = true) (hok : a.Ok p m) (h : a.step p m = some (a', m')) :
    m.SameFormat m' ∧ a'.Ok p m' ∧
      a'.popped ++ m'.sampleQueue = a.popped ++ m.sampleQueue := by
  cases branch_of_step h with
  | @mix c n hn hsize => exact ⟨⟨rfl, rfl, rfl⟩, ⟨hok, hn, c.length_resize n⟩, rfl⟩
  | mix_fault hn => exact ⟨⟨rfl, rfl, rfl⟩, trivial, rfl⟩
  | checkSize hsize =>
      exact ⟨⟨rfl, rfl, rfl⟩, ⟨hok, Nat.zero_le _, hsize⟩, by simp [popped]⟩
  | waitForFrames_not hstreaming | testStreaming_not hstreaming =>
      cases hs.symm.trans hstreaming
  | @testBits_ne c hbits =>
      refine absurd ?_ hbits
      have hlt := m.nBitsPerSample.toNat_lt
      have hbits' := hok.bits
      rw [hbits', Nat.mul_comm 8]
      apply Platform.toSizeT_of_lt
      cases p <;> simp only [Platform.sizeBits] <;> omega
  | setRequest | clearReady =>
      exact ⟨⟨rfl, rfl, rfl⟩, ⟨hok.bits, hok.desired, hok.size⟩, rfl⟩
  | @pop c i value queue hi hqueue =>
      obtain ⟨hready, -, hcover⟩ := hok
      have hlen : i < c.samples.length := by rw [hready.size]; exact hi
      rw [hqueue, List.length_cons] at hcover
      refine ⟨⟨rfl, rfl, rfl⟩, ⟨⟨hready.bits, hready.desired, ?_⟩, hi, ?_⟩, ?_⟩
      · simpa using hready.size
      · simp only
        omega
      · simp only [popped, hqueue]
        rw [List.take_succ_eq_append_getElem (by simpa using hlen), List.take_set_of_le le_rfl]
        simp
  | pop_empty hi hqueue =>
      obtain ⟨-, -, hcover⟩ := hok
      rw [hqueue, List.length_nil] at hcover
      omega
  | @pop_last c i hi =>
      obtain ⟨hready, -, -⟩ := hok
      have hall : c.samples.take i = c.samples := by
        apply List.take_of_length_le
        rw [hready.size]
        exact hi
      exact ⟨⟨rfl, rfl, rfl⟩, hready, by simp [popped, hall]⟩
  | countFrames hbytes hchannels =>
      exact ⟨⟨rfl, rfl, rfl⟩, ⟨hok, hbytes, hchannels, rfl⟩, rfl⟩
  | countFrames_fault => exact ⟨⟨rfl, rfl, rfl⟩, trivial, rfl⟩
  | _ => exact ⟨⟨rfl, rfl, rfl⟩, hok, rfl⟩

/-! ## The invariant of uninterrupted streaming -/

namespace Transport

variable (p : Platform)

/-- The bytes that have left the queue, in the order they left it. -/
def dequeued (s : Transport β) : List β :=
  (s.returns.map MixReturn.buffer).flatten ++ (s.consumer.map Consumer.popped).getD []

/-- A returned call reports its byte count in frames, and its vector is full. -/
structure ReturnOk (m : Mixer β) (r : MixReturn β) : Prop where
  numBytesPerSample : r.numBytesPerSample ≠ 0
  nChannels : m.nChannels ≠ 0
  size : r.buffer.length =
    p.toSizeT (r.numFrames * m.nChannels.toNat * r.numBytesPerSample)
  frames : r.frames = r.buffer.length / r.numBytesPerSample / m.nChannels.toNat

/-- Every byte cut from an arrived sample is dequeued, queued or still to be pushed, in
arrival order. -/
structure Inv (s : Transport β) : Prop where
  streaming : s.mixer.streaming = true
  conserved : s.dequeued ++ s.mixer.sampleQueue ++
      s.producer.pending (frameBytes p s.mixer.nChannels s.mixer.nBitsPerSample) =
    (s.arrived.map fun a =>
      a.copied (frameBytes p s.mixer.nChannels s.mixer.nBitsPerSample)).flatten
  consumer : ∀ c, s.consumer = some c → c.Ok p s.mixer
  returns : ∀ r ∈ s.returns, ReturnOk p s.mixer r

variable {p}

theorem Init.inv {s : Transport β} (h : Init s) : Inv p s where
  streaming := h.streaming
  conserved := by simp [dequeued, h.returns, h.consumer, h.queue, h.producer, h.arrived,
    Producer.pending]
  consumer := by simp [h.consumer]
  returns := by simp [h.returns]

theorem ReturnOk.congr {m m' : Mixer β} {r : MixReturn β} (h : ReturnOk p m r)
    (hf : m.SameFormat m') : ReturnOk p m' r :=
  ⟨h.numBytesPerSample, hf.nChannels ▸ h.nChannels, by rw [hf.nChannels, h.size],
    by rw [hf.nChannels, h.frames]⟩

theorem Inv.produce {s : Transport β} {a : Producer β} {m : Mixer β} (h : Inv p s)
    (hstep : s.producer.step p s.mixer = some (a, m)) :
    Inv p { s with producer := a, mixer := m } := by
  obtain ⟨hf, hd, hq, hlen⟩ := Producer.step_queue h.streaming hstep
  refine ⟨by rw [hf.streaming]; exact h.streaming, ?_, ?_, ?_⟩
  · have hc := h.conserved
    rw [List.append_assoc, ← hq, ← List.append_assoc] at hc
    simpa only [dequeued, hf.nChannels, hf.nBitsPerSample] using hc
  · intro c hc
    exact (h.consumer c hc).congr hf hd hlen
  · intro r hr
    exact (h.returns r hr).congr hf

theorem Inv.consume [Inhabited β] {s : Transport β} {a b : Consumer β} {m : Mixer β}
    (h : Inv p s) (ha : s.consumer = some a) (hstep : a.step p s.mixer = some (b, m)) :
    Inv p { s with consumer := some b, mixer := m } := by
  obtain ⟨hf, hok, hq⟩ := Consumer.step_queue h.streaming (h.consumer a ha) hstep
  refine ⟨by rw [hf.streaming]; exact h.streaming, ?_, ?_, ?_⟩
  · have hc := h.conserved
    simp only [dequeued, ha, Option.map_some, Option.getD_some] at hc ⊢
    rw [List.append_assoc _ b.popped, hq, ← List.append_assoc]
    simpa only [hf.nChannels, hf.nBitsPerSample] using hc
  · intro c hc
    exact Option.some.inj hc ▸ hok
  · intro r hr
    exact (h.returns r hr).congr hf

theorem Inv.finish {s : Transport β} {c : MixCall β} {frames : ℕ} (h : Inv p s)
    (ha : s.consumer = some (.returned c frames)) :
    Inv p { s with
      consumer := none
      byteData := c.samples
      returns := s.returns ++ [⟨c.numFrames, c.numBytesPerSample, frames, c.samples⟩] } := by
  obtain ⟨hready, hnb, hch, hframes⟩ := h.consumer _ ha
  refine ⟨h.streaming, ?_, by simp, ?_⟩
  · have hc := h.conserved
    simp only [dequeued, ha, Option.map_some, Option.getD_some, Consumer.popped] at hc
    simpa [dequeued] using hc
  · intro r hr
    rcases List.mem_append.mp hr with hr | hr
    · exact h.returns r hr
    · obtain rfl := List.mem_singleton.mp hr
      exact ⟨hnb, hch, by rw [hready.size, hready.desired], by rw [hframes, hready.size]⟩

theorem Inv.next [Inhabited β] {s t : Transport β} {l : Label β} (h : Inv p s)
    (hg : Uninterrupted s l) (hstep : next p s l = some t) : Inv p t := by
  cases branch_of_next hstep with
  | receive hdone =>
      refine ⟨h.streaming, ?_, h.consumer, h.returns⟩
      have hc := h.conserved
      simp only [hdone, Producer.pending, List.append_nil] at hc
      simp only [List.map_append, List.flatten_append, ← hc]
      simp [Producer.pending, dequeued]
  | produce ha => exact h.produce ha
  | mix hnone =>
      refine ⟨h.streaming, ?_, ?_, h.returns⟩
      · simpa [dequeued, hnone, Consumer.popped] using h.conserved
      · intro c hc
        exact Option.some.inj hc ▸ hg
  | consume ha hb => exact h.consume ha hb
  | consume_returned hret => exact h.finish hret
  | setStreaming | setFormat | clear => exact hg.elim

theorem inv_of_reachable [Inhabited β] {s : Transport β}
    (h : (system p).ReachableWhere Uninterrupted s) : Inv p s :=
  h.invariant (fun _ hi => hi.inv) fun _ _ _ hi hg hs => hi.next hg hs

end Transport

/-! ## Whole frames, in order -/

theorem flatten_copied_isPrefix (p : Platform) (nChannels nBitsPerSample : UInt16)
    (samples : List (MediaSample β)) :
    (samples.map fun a => a.copied (frameBytes p nChannels nBitsPerSample)).flatten <+:
      (samples.map fun a =>
        wholeFrames (nChannels.toNat * nBitsPerSample.toNat / 8) a.data).flatten := by
  rcases frameBytes_eq_or_large p nChannels nBitsPerSample with h | h
  · rw [h]
    simp only [MediaSample.copied_eq_wholeFrames]
    exact List.prefix_rfl
  · have hnil : (samples.map fun a =>
        a.copied (frameBytes p nChannels nBitsPerSample)).flatten = [] := by
      simp [MediaSample.copied_of_large _ h]
    rw [hnil]
    exact List.nil_prefix

namespace Transport

/-- In uninterrupted streaming every call of `Mix` whose byte count fits `size_t` reports the
frames it was asked for and fills its buffer, and the buffers returned make up a prefix of
the whole frames of the samples received, in arrival order. -/
theorem mix_returns_arrived_frames [Inhabited β] (p : Platform) (s : Transport β)
    (h : (system p).ReachableWhere Uninterrupted s) :
    (∀ r ∈ s.returns,
      r.numFrames * s.mixer.nChannels.toNat * r.numBytesPerSample < 2 ^ p.sizeBits →
        r.frames = r.numFrames ∧
          r.buffer.length = r.numFrames * s.mixer.nChannels.toNat * r.numBytesPerSample) ∧
    (s.returns.map MixReturn.buffer).flatten <+:
      (s.arrived.map fun a => wholeFrames
        (s.mixer.nChannels.toNat * s.mixer.nBitsPerSample.toNat / 8) a.data).flatten := by
  have hinv := inv_of_reachable h
  constructor
  · intro r hr hfit
    have hok := hinv.returns r hr
    have hsize := hok.size
    rw [Platform.toSizeT_of_lt hfit] at hsize
    refine ⟨?_, hsize⟩
    have hch : 0 < s.mixer.nChannels.toNat := by
      apply Nat.pos_of_ne_zero
      intro hz
      exact hok.nChannels (UInt16.toNat_inj.mp hz)
    rw [hok.frames, hsize, Nat.mul_div_cancel _ (Nat.pos_of_ne_zero hok.numBytesPerSample),
      Nat.mul_div_cancel _ hch]
  · refine List.IsPrefix.trans ?_ (flatten_copied_isPrefix p _ _ s.arrived)
    rw [← hinv.conserved, dequeued, List.append_assoc, List.append_assoc]
    exact List.prefix_append _ _

/-- A mixer that has just started streaming 8-bit stereo. -/
def stereo8 : Transport UInt8 where
  mixer :=
    { nChannels := 2, nSamplesPerSec := 48000, nBitsPerSample := 8, isFloat := false,
      nBlockAlign := 2, streaming := true }
  producer := .done
  consumer := none
  byteData := []
  arrived := []
  returns := []

theorem stereo8_reachable {p : Platform} {labels : List (Label UInt8)} {s : Transport UInt8}
    (h : System.exec (next p) Uninterrupted stereo8 labels = some s) :
    (system p).ReachableWhere Uninterrupted s :=
  System.reachableWhere_of_exec labels stereo8 s (.init ⟨rfl, rfl, rfl, rfl, rfl, rfl⟩) h

/-- A sample of two frames and a stray byte, then a call of `Mix` for two frames. -/
theorem mix_returns_arrived_frames_stereo8 :
    ∃ s : Transport UInt8, s.returns = [⟨2, 1, 2, [1, 2, 3, 4]⟩] ∧
      (s.returns.map MixReturn.buffer).flatten <+:
        (s.arrived.map fun a => wholeFrames
          (s.mixer.nChannels.toNat * s.mixer.nBitsPerSample.toNat / 8) a.data).flatten := by
  have h : (System.exec (next .x64) Uninterrupted stereo8
      ([.receive ⟨[1, 2, 3, 4, 5], by decide⟩] ++ List.replicate 10 .produce ++ [.mix 2 1] ++
        List.replicate 9 .consume)).map returns = some [⟨2, 1, 2, [1, 2, 3, 4]⟩] := rfl
  obtain ⟨s, hs, hr⟩ := Option.map_eq_some_iff.mp h
  exact ⟨s, hr, (mix_returns_arrived_frames .x64 s (stereo8_reachable hs)).2⟩

/-- `m_desired_bytes` is a `size_t`: on 64 bits a request for `2 ^ 63` stereo frames wraps to
zero bytes, and `Mix` returns zero frames. -/
theorem mix_wraps_huge_request :
    ∃ s : Transport UInt8, (system .x64).ReachableWhere Uninterrupted s ∧
      s.mixer.nChannels = 2 ∧ s.returns = [⟨2 ^ 63, 1, 0, []⟩] := by
  have h : (System.exec (next .x64) Uninterrupted stereo8
      ([.mix (2 ^ 63) 1] ++ List.replicate 5 .consume)).map
        (fun s => (s.mixer.nChannels, s.returns)) = some (2, [⟨2 ^ 63, 1, 0, []⟩]) := rfl
  obtain ⟨s, hs, hr⟩ := Option.map_eq_some_iff.mp h
  obtain ⟨hch, hret⟩ := Prod.mk.inj hr
  exact ⟨s, stereo8_reachable hs, hch, hret⟩

end Transport

end OpenALRenderer
