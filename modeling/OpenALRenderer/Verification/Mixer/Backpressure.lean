import OpenALRenderer.Verification.Mixer.Transport

/-! # How far the producer runs ahead

Every push is paid for: by the sample at hand, by a request that stands, or by the request the
consumer is about to make. What can still be pushed, together with what is queued, grows only
when `Mix` finds the queue short. -/

namespace OpenALRenderer

open Foundation

variable {β : Type*}

/-! ## What may still be pushed -/

/-- The bytes a producer can push before it has to find a request, for samples that contribute
at most `size` bytes. -/
def Producer.credit (size : ℕ) : Producer β → ℕ
  | receive _ | testStreaming _ | copyWaveform _ | clearRequest | done => size
  | push rest _ => rest.length
  | setRendered _ | setReady | testRequest | waitRequest | fault => 0

/-- The sample that a standing request lets in. The request that the producer is about to clear
is its own, and one made in between is cleared with it. -/
def Producer.requested (size : ℕ) (m : Mixer β) : Producer β → ℕ
  | clearRequest => 0
  | _ => if m.requestSamples then size else 0

/-- The sample that a consumer lets in by the request it is about to make. -/
def Consumer.requesting (size : ℕ) : Consumer β → ℕ
  | setRequest _ => size
  | _ => 0

/-- The bytes that a producer's next step takes over from its sample. -/
def Producer.cut (p : Platform) (m : Mixer β) : Producer β → ℕ
  | copyWaveform s => (s.copied (frameBytes p m.nChannels m.nBitsPerSample)).length
  | _ => 0

/-- The bytes that a consumer's next step fixes as its request. -/
def Consumer.asked (p : Platform) (m : Mixer β) : Consumer β → ℕ
  | mix c => p.toSizeT (c.numFrames * m.nChannels.toNat * c.numBytesPerSample)
  | _ => 0

theorem Producer.credit_le {size : ℕ} {a : Producer β}
    (h : ∀ rest n, a = push rest n → rest.length ≤ size) : a.credit size ≤ size := by
  cases a with
  | push rest n => exact h rest n rfl
  | receive _ | testStreaming _ | copyWaveform _ | clearRequest | done => exact le_rfl
  | setRendered _ | setReady | testRequest | waitRequest | fault => exact Nat.zero_le _

theorem Producer.requested_le (size : ℕ) (m : Mixer β) (a : Producer β) :
    a.requested size m ≤ size := by
  unfold requested
  split
  · exact Nat.zero_le _
  · split <;> simp

/-- A producer step spends what it pushes, and gains a sample only by clearing a request. -/
theorem Producer.step_credit {p : Platform} {size : ℕ} {a a' : Producer β} {m m' : Mixer β}
    (hsize : a.cut p m ≤ size) (h : a.step p m = some (a', m')) :
    m'.desiredBytes = m.desiredBytes ∧
      m'.sampleQueue.length + a'.credit size + a'.requested size m' ≤
        m.sampleQueue.length + a.credit size + a.requested size m := by
  cases branch_of_step h with
  | copyWaveform hframe => exact ⟨rfl, by simpa [credit, requested, cut] using hsize⟩
  | copyWaveform_fault hframe => exact ⟨rfl, by simp [credit, requested]⟩
  | push =>
      refine ⟨rfl, le_of_eq ?_⟩
      simp only [credit, requested, List.length_append, List.length_cons, List.length_nil]
      omega
  | testRequest hrequest =>
      -- the standing request turns into the credit of the next sample
      exact ⟨rfl, by simp [credit, requested, hrequest]⟩
  | clearRequest => exact ⟨rfl, by simp [credit, requested]⟩
  | _ => exact ⟨rfl, le_rfl⟩

theorem Producer.step_push {p : Platform} {size : ℕ} {a : Producer β} {m m' : Mixer β}
    {rest : List β} {n : ℕ} (hsize : a.cut p m ≤ size)
    (hrest : ∀ rest n, a = push rest n → rest.length ≤ size)
    (h : a.step p m = some (push rest n, m')) : rest.length ≤ size := by
  cases branch_of_step h with
  | copyWaveform hframe => exact hsize
  | @push b rest k =>
      have hlen := hrest _ k rfl
      rw [List.length_cons] at hlen
      omega

/-- A consumer step only takes bytes away and makes the request it was about to make, unless it
finds the queue short. -/
theorem Consumer.step_requesting [Inhabited β] {p : Platform} {a a' : Consumer β}
    {m m' : Mixer β} (size : ℕ) (b : Producer β) (h : a.step p m = some (a', m')) :
    m'.sampleQueue.length + b.requested size m' + a'.requesting size ≤
        m.sampleQueue.length + b.requested size m + a.requesting size ∨
      (∃ c, a = checkSize c) ∧ m' = m ∧ m.sampleQueue.length < m.desiredBytes := by
  cases branch_of_step h with
  | @checkSize_short c hsize => exact .inr ⟨⟨c, rfl⟩, rfl, hsize⟩
  | setRequest =>
      left
      have hle := b.requested_le size { m with requestSamples := true }
      simp only [requesting]
      omega
  | @pop c i value queue hi hqueue =>
      left
      have hreq : b.requested size { m with sampleQueue := queue } = b.requested size m := rfl
      simp only [requesting, hqueue, hreq, List.length_cons]
      omega
  | _ => exact .inl le_rfl

/-- The request of a call is fixed by its first step. -/
theorem Consumer.step_desiredBytes [Inhabited β] {p : Platform} {a a' : Consumer β}
    {m m' : Mixer β} (h : a.step p m = some (a', m')) :
    (∃ c, a = mix c) ∧ m'.desiredBytes = a.asked p m ∨
      (∀ c, a ≠ mix c) ∧ m'.desiredBytes = m.desiredBytes := by
  cases branch_of_step h with
  | mix hn | mix_fault hn => exact .inl ⟨⟨_, rfl⟩, hn⟩
  | _ => exact .inr ⟨by simp, rfl⟩

namespace Transport

/-! ## The bound -/

/-- No call runs and nothing is queued; the flags and the format may be anything. -/
structure Idle (s : Transport β) : Prop where
  queue : s.mixer.sampleQueue = []
  producer : s.producer = .done
  consumer : s.consumer = none

/-- Both threads and the control threads, in any order of steps. -/
def sessions [Inhabited β] (p : Platform) : System (Transport β) (Label β) :=
  .ofNext Idle (next p)

/-- A call of `Mix` asks for at most `demand` bytes when it fixes its request, and a sample
contributes at most `size` bytes when it is cut into frames. -/
def Sized (p : Platform) (demand size : ℕ) (s : Transport β) : Label β → Prop
  | .produce => s.producer.cut p s.mixer ≤ size
  | .consume => s.consumer.elim 0 (·.asked p s.mixer) ≤ demand
  | _ => True

instance (p : Platform) (demand size : ℕ) (s : Transport β) (l : Label β) :
    Decidable (Sized p demand size s l) :=
  match l with
  | .produce => Nat.decLe _ _
  | .consume => Nat.decLe _ _
  | .receive _ | .mix _ _ | .setStreaming _ | .setFormat _ _ | .clear => isTrue trivial

/-- What is queued and what can still be pushed before the queue is found short again. -/
def outstanding (size : ℕ) (s : Transport β) : ℕ :=
  s.mixer.sampleQueue.length + s.producer.credit size + s.producer.requested size s.mixer +
    s.consumer.elim 0 (·.requesting size)

structure Bounded (demand size : ℕ) (s : Transport β) : Prop where
  desired : ∀ a, s.consumer = some a → (∀ c, a ≠ .mix c) → s.mixer.desiredBytes ≤ demand
  rest : ∀ rest n, s.producer = .push rest n → rest.length ≤ size
  outstanding : s.outstanding size ≤ demand + 3 * size

variable {p : Platform} {demand size : ℕ}

theorem Idle.bounded {s : Transport β} (h : Idle s) : Bounded demand size s where
  desired := by simp [h.consumer]
  rest := by simp [h.producer]
  outstanding := by
    have hle := s.producer.requested_le size s.mixer
    rw [h.producer] at hle
    simp only [Transport.outstanding, h.queue, h.producer, h.consumer, Producer.credit,
      List.length_nil, Option.elim]
    omega

theorem Bounded.produce {s : Transport β} {a : Producer β} {m : Mixer β}
    (h : Bounded demand size s) (hg : Sized p demand size s .produce)
    (hstep : s.producer.step p s.mixer = some (a, m)) :
    Bounded demand size { s with producer := a, mixer := m } := by
  obtain ⟨hdesired, hle⟩ := Producer.step_credit hg hstep
  refine ⟨fun c hc hmix => hdesired ▸ h.desired c hc hmix, fun rest n hpush => ?_, ?_⟩
  · obtain rfl : a = .push rest n := hpush
    exact Producer.step_push hg h.rest hstep
  · have hout := h.outstanding
    simp only [Transport.outstanding] at hout ⊢
    omega

theorem Bounded.consume [Inhabited β] {s : Transport β} {a b : Consumer β} {m : Mixer β}
    (h : Bounded demand size s) (hg : Sized p demand size s .consume)
    (ha : s.consumer = some a) (hstep : a.step p s.mixer = some (b, m)) :
    Bounded demand size { s with consumer := some b, mixer := m } := by
  refine ⟨fun c hc hmix => ?_, h.rest, ?_⟩
  · rcases Consumer.step_desiredBytes hstep with ⟨-, hd⟩ | ⟨hne, hd⟩
    · rw [hd]
      simpa only [Sized, ha, Option.elim] using hg
    · rw [hd]
      exact h.desired a ha hne
  · have hout := h.outstanding
    rcases Consumer.step_requesting size s.producer hstep with
      hle | ⟨⟨c, rfl⟩, rfl, hshort⟩
    · simp only [Transport.outstanding, ha, Option.elim] at hout ⊢
      omega
    · -- the queue is short, so the three samples fit on top of it
      have hdemand := h.desired _ ha (by simp)
      have hcredit := s.producer.credit_le h.rest
      have hreq := s.producer.requested_le size s.mixer
      have hnext : b.requesting size ≤ size := by
        cases b <;> simp [Consumer.requesting]
      simp only [Transport.outstanding, Option.elim]
      omega

theorem Bounded.next [Inhabited β] {s t : Transport β} {l : Label β}
    (h : Bounded demand size s) (hg : Sized p demand size s l) (hstep : next p s l = some t) :
    Bounded demand size t := by
  have hout := h.outstanding
  cases branch_of_next hstep with
  | receive hdone =>
      refine ⟨h.desired, by simp, ?_⟩
      simpa only [Transport.outstanding, hdone, Producer.credit, Producer.requested] using hout
  | produce ha => exact h.produce hg ha
  | mix hnone =>
      refine ⟨fun a ha hmix => absurd (Option.some.inj ha).symm (hmix _), h.rest, ?_⟩
      simpa only [Transport.outstanding, hnone, Option.elim, Consumer.requesting] using hout
  | consume ha hb => exact h.consume hg ha hb
  | consume_returned hret =>
      refine ⟨by simp, h.rest, ?_⟩
      simpa only [Transport.outstanding, hret, Option.elim, Consumer.requesting] using hout
  | setStreaming | setFormat => exact ⟨h.desired, h.rest, hout⟩
  | clear =>
      refine ⟨h.desired, h.rest, le_trans ?_ hout⟩
      have hreq : s.producer.requested size { s.mixer with sampleQueue := [] } =
          s.producer.requested size s.mixer := rfl
      simp only [Transport.outstanding, List.length_nil, hreq]
      omega

/-- Backpressure: however the steps of `Receive`, of `Mix` and of the control threads are
interleaved, the queue holds at most what a call of `Mix` asks for and three samples. -/
theorem queue_bounded [Inhabited β] (p : Platform) (demand size : ℕ) (s : Transport β)
    (h : (sessions p).ReachableWhere (Sized p demand size) s) :
    s.mixer.sampleQueue.length ≤ demand + 3 * size := by
  have hinv : Bounded demand size s :=
    h.invariant (fun _ hi => hi.bounded) fun _ _ _ hi hg hs => hi.next hg hs
  have hout := hinv.outstanding
  rw [Transport.outstanding] at hout
  omega

/-- While a call of `Mix` for three frames is under way, four samples of a frame each are queued,
which is more than the call asks for. -/
theorem queue_bounded_stereo8 :
    ∃ s : Transport UInt8, s.mixer.sampleQueue = [1, 2, 3, 4, 5, 6, 7, 8] ∧
      s.mixer.sampleQueue.length ≤ 6 + 3 * 2 := by
  let produced := List.replicate 9 (Label.produce (β := UInt8))
  let consumed := List.replicate 4 (Label.consume (β := UInt8))
  have h : (System.exec (next .x64) (Sized .x64 6 2) stereo8
      ([.receive ⟨[1, 2], by decide⟩] ++ produced ++
        [.mix 3 1, .consume, .consume, .consume, .produce, .produce] ++ consumed ++
        [.produce, .receive ⟨[3, 4], by decide⟩] ++ produced ++
        [.consume, .produce, .produce] ++ consumed ++
        [.produce, .receive ⟨[5, 6], by decide⟩] ++ produced ++
        [.consume, .produce, .produce, .produce, .receive ⟨[7, 8], by decide⟩] ++ produced)).map
        (fun s => s.mixer.sampleQueue) = some [1, 2, 3, 4, 5, 6, 7, 8] := rfl
  obtain ⟨s, hs, hq⟩ := Option.map_eq_some_iff.mp h
  exact ⟨s, hq, queue_bounded .x64 6 2 s
    (System.reachableWhere_of_exec _ stereo8 s (.init ⟨rfl, rfl, rfl⟩) hs)⟩

end Transport

end OpenALRenderer
