import OpenALRenderer.Verification.Mixer.Interruption

/-! # What is left when completion is announced

`EndOfStream` announces `EC_COMPLETE` as soon as it is called. Bytes are numbered as they arrive,
so that a byte accepted and a byte submitted can be told to be the same. -/

namespace OpenALRenderer

open Foundation

variable {β : Type*}

/-! ## A session -/

/-- A sample whose bytes are numbered from `n` on. -/
def MediaSample.number (n : ℕ) (s : MediaSample β) : MediaSample (β × ℕ) where
  data := s.data.zipIdx n
  length_lt := by simpa using s.length_lt

namespace Transport

/-- The label of numbered bytes; only the ones that arrive are given numbers. -/
def Label.number (n : ℕ) : Label β → Label (β × ℕ)
  | .receive s => .receive (s.number n)
  | .produce => .produce
  | .mix numFrames numBytesPerSample => .mix numFrames numBytesPerSample
  | .consume => .consume
  | .setStreaming b => .setStreaming b
  | .setFormat nChannels nBitsPerSample => .setFormat nChannels nBitsPerSample
  | .clear => .clear

def Label.arriving : Label β → ℕ
  | .receive s => s.data.length
  | _ => 0

/-- The call of `Mix` that comes back to `SoundLoop` by a step. -/
def reported (s : Transport β) : Label β → Option (MixReturn β)
  | .consume =>
      match s.consumer with
      | some (.returned c frames) => some ⟨c.numFrames, c.numBytesPerSample, frames, c.samples⟩
      | _ => none
  | _ => none

end Transport

/-- The two threads with the history of `Mix`, the call that `SoundLoop` has got back and not dealt
with, the numbers of the first byte that arrived since the last flush and of the next one to arrive,
how many bytes the calls dealt with since asked for, and what has been submitted with
`alBufferData`. -/
structure Session (β : Type*) where
  transport : Transport (β × ℕ)
  history : MixHistory (β × ℕ)
  awaiting : Option (MixReturn (β × ℕ))
  flushed : ℕ
  arrived : ℕ
  served : ℕ
  submitted : List (β × ℕ)

namespace Session

/-- A step inside `Receive` or `Mix` or of a control thread; `SoundLoop` going on with what `Mix`
has reported, in the device's format; a `BeginFlush` that has waited for `Receive`; and the
`EndOfStream` of the streaming thread. -/
inductive Label (β : Type*) where
  | transport (l : Transport.Label β)
  | bufferData (speakerLayout : SpeakerLayout) (bitness : MediaBitness)
  | flush
  | endOfStream

/-- The bytes that `alBufferData` is passed; it is not called for no frames at all. -/
def passed (frames : ℕ) (l : SpeakerLayout) (b : MediaBitness) (data : List β) : List β :=
  if frames = 0 then [] else data.take (toALsizei (frames * getFrameSize l b)).toNat

variable [Inhabited β] (p : Platform)

def next (s : Session β) : Label β → Option (Session β)
  | .transport l =>
      match s.awaiting, l with
      | some _, .mix _ _ => none
      | _, _ => (s.transport.next p (l.number s.arrived)).map fun t =>
          { s with
            transport := t
            history := Transport.note s.history s.transport (l.number s.arrived) t
            awaiting := (s.transport.reported (l.number s.arrived)).or s.awaiting
            arrived := s.arrived + l.arriving }
  | .bufferData speakerLayout bitness =>
      s.awaiting.map fun r =>
        { s with
          history := { s.history with rounds := [] }
          awaiting := none
          served := s.served + r.buffer.length
          submitted := s.submitted ++
            passed r.frames speakerLayout bitness s.transport.byteData }
  | .flush =>
      match s.transport.producer with
      | .done => some { s with
          transport := { s.transport with mixer := { s.transport.mixer with sampleQueue := [] } }
          flushed := s.arrived
          served := 0 }
      | _ => none
  | .endOfStream =>
      match s.transport.producer with
      | .done => some s
      | _ => none

/-- Nothing has arrived; numbers start at one, as the zero bytes that `resize` appends are
numbered zero. -/
structure Init (s : Session β) : Prop where
  queue : s.transport.mixer.sampleQueue = []
  producer : s.transport.producer = .done
  consumer : s.transport.consumer = none
  byteData : s.transport.byteData = []
  history : s.history = {}
  awaiting : s.awaiting = none
  flushed : s.flushed = 1
  arrived : s.arrived = 1
  served : s.served = 0
  submitted : s.submitted = []

def system : System (Session β) (Label β) := .ofNext Init (next p)

/-- Every byte that arrived since the last flush has been submitted. -/
def AllSubmitted (s : Session β) : Prop :=
  ∀ k, s.flushed ≤ k → k < s.arrived → ∃ b ∈ s.submitted, b.2 = k

end Session

/-! ## When the lengths add up -/

/-- The mixer streams when a sample is tested, and the sample is so many whole frames long. -/
def Producer.Whole (p : Platform) (m : Mixer β) : Producer β → Prop
  | testStreaming _ => m.streaming = true
  | copyWaveform s => frameBytes p m.nChannels m.nBitsPerSample ∣ s.data.length
  | _ => True

/-- `Mix` does not give up waiting, and when it counts the frames its vector is as long as so many
frames of the mixer's channels. -/
def Consumer.Whole (p : Platform) (m : Mixer β) : Consumer β → Prop
  | waitForFrames _ | testStreaming _ => m.streaming = true
  | testBits c => p.toSizeT (c.numBytesPerSample * 8) = m.nBitsPerSample.toNat
  | countFrames c => c.samples.length = c.numFrames * m.nChannels.toNat * c.numBytesPerSample
  | _ => True

/-- `Mix` has not come to its loop of `try_pop`. -/
def Consumer.Waiting : Consumer β → Prop
  | pop _ _ | countFrames _ | returned _ _ | fault _ => False
  | _ => True

namespace Session

/-- `SoundLoop` is not between the first `try_pop` of a call and its `alBufferData`. -/
structure AtRest (s : Session β) : Prop where
  awaiting : s.awaiting = none
  consumer : ∀ a ∈ s.transport.consumer, a.Waiting

/-- Samples are stored whole, the queue is cleared when it is empty, every call waits for all it
asks for, and `alBufferData` is passed as many of the device's frames as make up the vector. A flush
finds `SoundLoop` at rest. At the end of the stream the calls that have been dealt with since the
last flush have asked for as many bytes as the samples since have brought. -/
def Accounted (p : Platform) (s : Session β) : Label β → Prop
  | .transport .produce => s.transport.producer.Whole p s.transport.mixer
  | .transport .consume => ∀ a ∈ s.transport.consumer, a.Whole p s.transport.mixer
  | .transport .clear => s.transport.mixer.sampleQueue = []
  | .bufferData l b => ∀ r ∈ s.awaiting,
      r.buffer.length ≤ (toALsizei (r.numFrames * getFrameSize l b)).toNat
  | .flush => s.AtRest
  | .endOfStream => s.flushed + s.served = s.arrived
  | _ => True

/-- Nothing has arrived yet, or a flush has just dropped all that had. -/
def Fresh [Inhabited β] (p : Platform) (s : Session β) : Prop :=
  Init s ∨ ∃ r, (system p).Reachable r ∧ r.AtRest ∧ next p r .flush = some s

instance (m : Mixer β) (a : Producer β) (p : Platform) : Decidable (a.Whole p m) :=
  match a with
  | .testStreaming _ => inferInstanceAs (Decidable (m.streaming = true))
  | .copyWaveform _ => inferInstanceAs (Decidable (_ ∣ _))
  | .receive _ | .push _ _ | .setRendered _ | .setReady | .testRequest | .waitRequest
  | .clearRequest | .done | .fault => isTrue trivial

instance (m : Mixer β) (a : Consumer β) (p : Platform) : Decidable (a.Whole p m) :=
  match a with
  | .waitForFrames _ | .testStreaming _ => inferInstanceAs (Decidable (m.streaming = true))
  | .testBits _ | .countFrames _ => inferInstanceAs (Decidable (_ = _))
  | .mix _ | .checkSize _ | .setRequest _ | .testReady _ | .waitReady _ | .clearReady _
  | .pop _ _ | .returned _ _ | .fault _ => isTrue trivial

instance (a : Consumer β) : Decidable a.Waiting :=
  match a with
  | .pop _ _ | .countFrames _ | .returned _ _ | .fault _ => isFalse id
  | .mix _ | .checkSize _ | .setRequest _ | .waitForFrames _ | .testReady _ | .testStreaming _
  | .testBits _ | .waitReady _ | .clearReady _ => isTrue trivial

instance (s : Session β) : Decidable s.AtRest :=
  decidable_of_iff (s.awaiting.isNone ∧ ∀ a ∈ s.transport.consumer, a.Waiting)
    ⟨fun h => ⟨Option.isNone_iff_eq_none.mp h.1, h.2⟩,
      fun h => ⟨Option.isNone_iff_eq_none.mpr h.1, h.2⟩⟩

instance (p : Platform) (s : Session β) (l : Label β) : Decidable (Accounted p s l) :=
  match l with
  | .transport .produce => inferInstanceAs (Decidable (s.transport.producer.Whole p _))
  | .transport .consume =>
      inferInstanceAs (Decidable (∀ a ∈ s.transport.consumer, a.Whole p s.transport.mixer))
  | .transport .clear =>
      decidable_of_iff (s.transport.mixer.sampleQueue.isEmpty) List.isEmpty_iff
  | .bufferData l b => inferInstanceAs (Decidable (∀ r ∈ s.awaiting,
      r.buffer.length ≤ (toALsizei (r.numFrames * getFrameSize l b)).toNat))
  | .flush => inferInstanceAs (Decidable s.AtRest)
  | .endOfStream => inferInstanceAs (Decidable (_ = _))
  | .transport (.receive _) | .transport (.mix _ _) | .transport (.setStreaming _)
  | .transport (.setFormat _ _) => isTrue trivial

end Session

/-! ## The stream of bytes -/

theorem MediaSample.copied_of_dvd {s : MediaSample β} {frame : ℕ} (h : frame ∣ s.data.length) :
    s.copied frame = s.data := by
  simp [copied, Nat.mod_eq_zero_of_dvd h]

/-- The bytes of its sample that a producer has still to push. -/
def Producer.carried : Producer β → List β
  | receive s | testStreaming s | copyWaveform s => s.data
  | push rest _ => rest
  | setRendered _ | setReady | testRequest | waitRequest | clearRequest | done | fault => []

theorem Producer.step_carried {p : Platform} {a a' : Producer β} {m m' : Mixer β}
    (hwhole : a.Whole p m) (h : a.step p m = some (a', m')) :
    m'.sampleQueue ++ a'.carried = m.sampleQueue ++ a.carried ∧
      m'.desiredBytes = m.desiredBytes ∧ m.sampleQueue.length ≤ m'.sampleQueue.length := by
  cases branch_of_step h with
  | receive_empty hdata => exact ⟨by simp [carried, hdata], rfl, le_rfl⟩
  | testStreaming_not hstreaming =>
      have hstream : m.streaming = true := hwhole
      cases hstream.symm.trans hstreaming
  | copyWaveform hframe =>
      exact ⟨by rw [carried, carried, MediaSample.copied_of_dvd hwhole], rfl, le_rfl⟩
  | copyWaveform_fault hframe =>
      have hdata := MediaSample.copied_of_dvd hwhole
      rw [hframe, MediaSample.copied_zero] at hdata
      exact ⟨by simp [carried, ← hdata], rfl, le_rfl⟩
  | push => exact ⟨by simp [carried], rfl, by simp⟩
  | _ => exact ⟨rfl, rfl, le_rfl⟩

namespace Consumer

variable [Inhabited β] {p : Platform} {a b : Consumer β} {m m' : Mixer β} {h : MixHistory β}

/-- A consumer step moves at most the head of the queue to what the call has dequeued. -/
theorem step_stream (hstart : ∀ c, a = mix c → h.rounds = [])
    (hstep : a.step p m = some (b, m')) :
    (a.note h m b).rounds.filterMap id ++ m'.sampleQueue =
      h.rounds.filterMap id ++ m.sampleQueue := by
  cases branch_of_step hstep with
  | @mix c n hn hsize | @mix_fault c n hn => simp [note, hstart c rfl]
  | pop hi hqueue | pop_empty hi hqueue => simp [note, hi, hqueue]
  | pop_last hi => simp [note, Nat.not_lt.mpr hi]
  | _ => rfl

/-- What is known of a call that has waited for all it asks for. -/
def Supplied (m : Mixer β) : Consumer β → Prop
  | pop _ i => m.desiredBytes ≤ i + m.sampleQueue.length
  | returned c frames => frames = c.numFrames ∧ (c.numFrames = 0 → c.samples = [])
  | _ => True

omit [Inhabited β] in
theorem Supplied.congr (hs : a.Supplied m) (hd : m'.desiredBytes = m.desiredBytes)
    (hq : m.sampleQueue.length ≤ m'.sampleQueue.length) : a.Supplied m' := by
  cases a with
  | pop c i =>
      have hle : m.desiredBytes ≤ i + m.sampleQueue.length := hs
      change m'.desiredBytes ≤ i + m'.sampleQueue.length
      omega
  | _ => exact hs

/-- Every `try_pop` of such a call finds a byte, and it reports the frames it was asked for. -/
theorem Supplied.step (hs : a.Supplied m) (hlog : a.Logged m h.rounds) (hwhole : a.Whole p m)
    (hfound : ∀ x ∈ h.rounds, x ≠ none) (hstep : a.step p m = some (b, m')) :
    b.Supplied m' ∧ ∀ x ∈ (a.note h m b).rounds, x ≠ none := by
  cases branch_of_step hstep with
  | mix | mix_fault => exact ⟨trivial, by simp [note]⟩
  | checkSize hsize => exact ⟨by simpa [Supplied] using hsize, hfound⟩
  | waitForFrames_not hstreaming | testStreaming_not hstreaming =>
      have hstream : m.streaming = true := hwhole
      cases hstream.symm.trans hstreaming
  | testBits_ne hbits => exact absurd hwhole hbits
  | @pop c i value queue hi hqueue =>
      have hle : m.desiredBytes ≤ i + m.sampleQueue.length := hs
      rw [hqueue, List.length_cons] at hle
      refine ⟨?_, fun x hx => ?_⟩
      · change m.desiredBytes ≤ i + 1 + queue.length
        omega
      · simp only [note, if_pos hi, hqueue, List.head?_cons, List.mem_append,
          List.mem_singleton] at hx
        rcases hx with hx | rfl
        · exact hfound x hx
        · exact Option.some_ne_none value
  | pop_empty hi hqueue =>
      have hle : m.desiredBytes ≤ _ + m.sampleQueue.length := hs
      rw [hqueue, List.length_nil] at hle
      omega
  | pop_last hi =>
      simp only [note, if_neg (Nat.not_lt.mpr hi)]
      exact ⟨trivial, hfound⟩
  | @countFrames c hbytes hchannels =>
      obtain ⟨hlen, -⟩ := hlog
      have hlength : c.samples.length = c.numFrames * m.nChannels.toNat * c.numBytesPerSample :=
        hwhole
      have hpos : 0 < m.nChannels.toNat :=
        Nat.pos_of_ne_zero fun hzero => hchannels (UInt16.toNat_inj.mp hzero)
      refine ⟨⟨?_, fun hzero => List.length_eq_zero_iff.mp (by simp [hlength, hzero])⟩, hfound⟩
      rw [← hlen, hlength, Nat.mul_div_cancel _ (Nat.pos_of_ne_zero hbytes),
        Nat.mul_div_cancel _ hpos]
  | countFrames_fault => exact ⟨trivial, hfound⟩
  | _ => exact ⟨trivial, hfound⟩

theorem step_ne_mix (hstep : a.step p m = some (b, m')) (c : MixCall β) : b ≠ mix c := by
  rintro rfl
  cases branch_of_step hstep

end Consumer

namespace Session

variable {p : Platform} {s t : Session β}

/-- The bytes that `Mix` has dequeued in the call whose vector is not passed on yet. -/
def held (s : Session β) : List (β × ℕ) := s.history.rounds.filterMap id

/-- The bytes that are queued or still to be pushed. -/
def ahead (s : Session β) : List (β × ℕ) :=
  s.transport.mixer.sampleQueue ++ s.transport.producer.carried

/-- The bytes that have arrived and have not been submitted, in order. -/
def stream (s : Session β) : List (β × ℕ) := s.held ++ s.ahead

/-- Where `SoundLoop` is, and what it holds there. -/
structure Phased (s : Session β) : Prop where
  recorded : Transport.Recorded (s.transport, s.history)
  outside : s.transport.consumer = none → s.awaiting = none → s.history.rounds = []
  starting : ∀ c, s.transport.consumer = some (.mix c) → s.history.rounds = []
  awaiting : ∀ r, s.awaiting = some r → s.transport.consumer = none ∧
    r.buffer = s.transport.byteData ∧ s.history.rounds.length = r.buffer.length ∧
    ∀ (j : ℕ) (b : β × ℕ), s.history.rounds[j]? = some (some b) →
      s.transport.byteData[j]? = some b

/-- Since the last flush, the bytes that the calls asked for and those on their way add up to those
that arrived; and what has not been submitted of them is on its way. -/
structure Tallied (s : Session β) : Prop where
  total : s.flushed + s.served + s.stream.length = s.arrived
  covered : ∀ k, s.flushed ≤ k → k < s.arrived →
    (∃ b ∈ s.submitted, b.2 = k) ∨ ∃ b ∈ s.stream, b.2 = k
  found : ∀ x ∈ s.history.rounds, x ≠ none
  supplied : ∀ a, s.transport.consumer = some a → a.Supplied s.transport.mixer
  awaiting : ∀ r, s.awaiting = some r →
    r.frames = r.numFrames ∧ (r.numFrames = 0 → r.buffer = [])

theorem Init.phased (h : Init s) : Phased s where
  recorded := ⟨by simp [h.consumer], by simp [h.history]⟩
  outside := by simp [h.history]
  starting := by simp [h.consumer]
  awaiting := by simp [h.awaiting]

theorem Init.tallied (h : Init s) : Tallied s where
  total := by
    simp [stream, held, ahead, h.flushed, h.served, h.arrived, h.history, h.queue, h.producer,
      Producer.carried]
  covered k hlo hhi := by
    rw [h.flushed] at hlo
    rw [h.arrived] at hhi
    omega
  found := by simp [h.history]
  supplied := by simp [h.consumer]
  awaiting := by simp [h.awaiting]

/-- At rest, nothing is held. -/
theorem Phased.held_eq_nil (h : Phased s) (hrest : s.AtRest) : s.history.rounds = [] := by
  cases ha : s.transport.consumer with
  | none => exact h.outside ha hrest.awaiting
  | some a =>
      have hlog := h.recorded.running a ha
      have hwaiting := hrest.consumer a ha
      cases a with
      | mix c => exact h.starting c ha
      | pop c i | countFrames c | returned c frames | fault l => exact hwaiting.elim
      | _ => exact hlog.2

/-! ## Where `SoundLoop` is -/

variable [Inhabited β]

/-- The three things a step inside `Receive`, inside `Mix` or of a control thread comes to. -/
theorem next_transport {l : Transport.Label β} (h : next p s (.transport l) = some t) :
    ∃ u, s.transport.next p (l.number s.arrived) = some u ∧
      (∀ frames bytes, l = .mix frames bytes → s.awaiting = none) ∧
      t = { s with
        transport := u
        history := Transport.note s.history s.transport (l.number s.arrived) u
        awaiting := (s.transport.reported (l.number s.arrived)).or s.awaiting
        arrived := s.arrived + l.arriving } := by
  simp only [next] at h
  split at h
  · cases h
  · next hmix =>
      obtain ⟨u, hu, rfl⟩ := Option.map_eq_some_iff.mp h
      refine ⟨u, hu, fun frames bytes hl => ?_, rfl⟩
      cases ha : s.awaiting with
      | none => rfl
      | some r => exact absurd hl (hmix r frames bytes ha)

/-- A flush waits for `Receive` to return, and drops what is queued. -/
theorem next_flush (h : next p s .flush = some t) : s.transport.producer = .done ∧
    t = { s with
      transport := { s.transport with mixer := { s.transport.mixer with sampleQueue := [] } }
      flushed := s.arrived
      served := 0 } := by
  simp only [next] at h
  split at h
  · next hdone => exact ⟨hdone, (Option.some.inj h).symm⟩
  · cases h

theorem next_endOfStream (h : next p s .endOfStream = some t) :
    s.transport.producer = .done ∧ t = s := by
  simp only [next] at h
  split at h
  · next hdone => exact ⟨hdone, (Option.some.inj h).symm⟩
  · cases h

omit [Inhabited β] in
/-- While a call of `Mix` runs, `SoundLoop` is inside it. -/
theorem Phased.awaiting_eq_none {a : Consumer (β × ℕ)} (h : Phased s)
    (ha : s.transport.consumer = some a) : s.awaiting = none := by
  by_contra hsome
  obtain ⟨r, hr⟩ := Option.ne_none_iff_exists'.mp hsome
  cases ha.symm.trans (h.awaiting r hr).1

/-- A call that can still make a step inside `Mix` has not reported. -/
theorem reported_of_step {u : Transport (β × ℕ)} {a b : Consumer (β × ℕ)} {m : Mixer (β × ℕ)}
    (ha : u.consumer = some a) (hb : a.step p u.mixer = some (b, m)) :
    u.reported .consume = none := by
  cases a with
  | returned c frames => cases hb
  | _ => simp [Transport.reported, ha]

theorem Phased.transport {l : Transport.Label β} (h : Phased s)
    (hs : next p s (.transport l) = some t) : Phased t := by
  obtain ⟨u, hu, hmix, rfl⟩ := next_transport hs
  have hrecorded : Transport.Recorded
      (u, Transport.note s.history s.transport (l.number s.arrived) u) :=
    h.recorded.step (p := p) ⟨hu, rfl⟩
  cases l with
  | receive sample =>
      cases Transport.branch_of_next hu
      exact ⟨hrecorded, h.outside, h.starting, h.awaiting⟩
  | produce =>
      cases Transport.branch_of_next hu
      exact ⟨hrecorded, h.outside, h.starting, h.awaiting⟩
  | mix numFrames numBytesPerSample =>
      have hnone := hmix _ _ rfl
      cases Transport.branch_of_next hu with
      | mix hout =>
          exact ⟨hrecorded, fun hc => by simp at hc, fun _ _ => h.outside hout hnone,
            fun r ha => by simp [Transport.reported, Transport.Label.number, hnone] at ha⟩
  | consume =>
      cases Transport.branch_of_next hu with
      | @consume_returned c frames hret =>
          have hpopped : c.Popped c.samples.length s.history.rounds :=
            h.recorded.running _ hret
          have hnote : Transport.note s.history s.transport
              (Transport.Label.number s.arrived (.consume : Transport.Label β))
              { s.transport with
                consumer := none
                byteData := c.samples
                returns := s.transport.returns ++
                  [⟨c.numFrames, c.numBytesPerSample, frames, c.samples⟩] } = s.history := by
            simp [Transport.note, Transport.Label.number, hret]
          refine ⟨hrecorded, fun _ ha => ?_, by simp, fun r hr => ?_⟩
          · simp [Transport.reported, Transport.Label.number, hret] at ha
          · simp only [Transport.reported, Transport.Label.number, hret, Option.some_or] at hr
            obtain rfl := Option.some.inj hr
            rw [hnote]
            exact ⟨rfl, rfl, hpopped.length, hpopped.stored⟩
      | @consume a b m ha hb =>
          have hrep := reported_of_step ha hb
          refine ⟨hrecorded, fun hc => by simp at hc, fun c hc => ?_, fun r hr => ?_⟩
          · exact absurd (Option.some.inj hc) (Consumer.step_ne_mix hb c)
          · simp [Transport.Label.number, hrep, h.awaiting_eq_none ha] at hr
  | setStreaming b | setFormat nChannels nBitsPerSample | clear =>
      obtain rfl := Option.some.inj hu
      exact ⟨hrecorded, h.outside, h.starting, h.awaiting⟩

theorem Phased.next {l : Label β} (h : Phased s) (hs : next p s l = some t) : Phased t := by
  cases l with
  | transport l => exact h.transport hs
  | bufferData speakerLayout bitness =>
      obtain ⟨r, hr, rfl⟩ := Option.map_eq_some_iff.mp hs
      have hout := (h.awaiting r hr).1
      exact ⟨⟨by simp [hout], h.recorded.calls⟩, fun _ _ => rfl, by simp [hout], by simp⟩
  | flush =>
      obtain ⟨-, rfl⟩ := next_flush hs
      exact ⟨⟨fun a ha => (h.recorded.running a ha).congr rfl, h.recorded.calls⟩, h.outside,
        h.starting, h.awaiting⟩
  | endOfStream =>
      obtain ⟨-, rfl⟩ := next_endOfStream hs
      exact h

/-! ## Where the bytes are -/

omit [Inhabited β] in
theorem exists_mem_zipIdx {l : List β} {n k : ℕ} (hlo : n ≤ k) (hhi : k < n + l.length) :
    ∃ b ∈ l.zipIdx n, b.2 = k := by
  have hk : k ∈ (l.zipIdx n).map Prod.snd := by
    rw [List.zipIdx_map_snd, List.mem_range'_1]
    exact ⟨hlo, hhi⟩
  obtain ⟨b, hb, rfl⟩ := List.mem_map.mp hk
  exact ⟨b, hb, rfl⟩

/-- A flush of a loop at rest leaves nothing to account for. -/
theorem Phased.tallied_flush (h : Phased s) (hrest : s.AtRest)
    (hs : Session.next p s .flush = some t) :
    Tallied t := by
  obtain ⟨hdone, rfl⟩ := next_flush hs
  have hrounds := h.held_eq_nil hrest
  refine ⟨?_, fun k hlo hhi => absurd hhi (Nat.not_lt.mpr hlo), ?_, fun a ha => ?_, ?_⟩
  · simp [stream, held, ahead, hrounds, hdone, Producer.carried]
  · simp [hrounds]
  · have hwaiting := hrest.consumer a ha
    cases a with
    | pop c i | returned c frames => exact hwaiting.elim
    | _ => trivial
  · simp [hrest.awaiting]

omit [Inhabited β] in
/-- A step that moves bytes along the stream. -/
theorem Tallied.of_stream (h : Tallied s) (hstream : t.stream = s.stream)
    (hflushed : t.flushed = s.flushed) (hserved : t.served = s.served)
    (harrived : t.arrived = s.arrived) (hsubmitted : t.submitted = s.submitted)
    (hfound : ∀ x ∈ t.history.rounds, x ≠ none)
    (hsupplied : ∀ a, t.transport.consumer = some a → a.Supplied t.transport.mixer)
    (hawaiting : ∀ r, t.awaiting = some r →
      r.frames = r.numFrames ∧ (r.numFrames = 0 → r.buffer = [])) : Tallied t where
  total := by rw [hflushed, hserved, hstream, harrived, h.total]
  covered := by
    rw [hflushed, harrived, hsubmitted, hstream]
    exact h.covered
  found := hfound
  supplied := hsupplied
  awaiting := hawaiting

/-- A sample that arrives is put on its way. -/
theorem Tallied.receive {sample : MediaSample β} (h : Tallied s)
    (hs : next p s (.transport (.receive sample)) = some t) : Tallied t := by
  obtain ⟨u, hu, -, rfl⟩ := next_transport hs
  cases Transport.branch_of_next hu with
  | receive hdone =>
      have hstream : stream { s with
          transport := { s.transport with
            producer := .receive (sample.number s.arrived)
            arrived := s.transport.arrived ++ [sample.number s.arrived] }
          arrived := s.arrived + sample.data.length } =
          s.stream ++ sample.data.zipIdx s.arrived := by
        simp [stream, held, ahead, hdone, Producer.carried, MediaSample.number]
      have htotal := h.total
      refine ⟨?_, fun k hlo hhi => ?_, h.found, h.supplied, h.awaiting⟩
      · refine (congrArg (s.flushed + s.served + List.length ·) hstream).trans ?_
        simp only [List.length_append, List.length_zipIdx, Transport.Label.arriving]
        omega
      · refine Or.imp_right (fun hb => ?_) (?_ : (∃ b ∈ s.submitted, b.2 = k) ∨
          ∃ b ∈ s.stream ++ sample.data.zipIdx s.arrived, b.2 = k)
        · rw [← hstream] at hb
          exact hb
        · by_cases hk : k < s.arrived
          · refine (h.covered k hlo hk).imp_right ?_
            rintro ⟨b, hb, rfl⟩
            exact ⟨b, List.mem_append_left _ hb, rfl⟩
          · obtain ⟨b, hb, rfl⟩ := exists_mem_zipIdx (Nat.le_of_not_lt hk) hhi
            exact .inr ⟨b, List.mem_append_right _ hb, rfl⟩

/-- A step inside `Mix` moves the head of the queue to what the call has dequeued, or nothing. -/
theorem Tallied.consume (h : Tallied s) (hphase : Phased s)
    (hg : Accounted p s (.transport .consume)) (hs : next p s (.transport .consume) = some t) :
    Tallied t := by
  obtain ⟨u, hu, -, rfl⟩ := next_transport hs
  cases Transport.branch_of_next hu with
  | @consume_returned c frames hret =>
      simp only [Transport.note, Transport.Label.number, hret, Transport.reported,
        Option.some_or]
      refine h.of_stream rfl rfl rfl rfl rfl h.found (by simp) fun r hr => ?_
      obtain rfl := Option.some.inj hr
      exact h.supplied _ hret
  | @consume a b m ha hb =>
      have hstart : ∀ c, a = .mix c → s.history.rounds = [] := by
        rintro c rfl
        exact hphase.starting c ha
      have hrep := reported_of_step ha hb
      have hmoved := Consumer.step_stream hstart hb
      obtain ⟨hsupplied, hfound⟩ :=
        (h.supplied a ha).step (hphase.recorded.running a ha) (hg a ha) h.found hb
      have hstream : (a.note s.history s.transport.mixer b).rounds.filterMap id ++
          (m.sampleQueue ++ s.transport.producer.carried) = s.stream := by
        rw [← List.append_assoc, hmoved, List.append_assoc, stream, held, ahead]
      simp only [Transport.note, Transport.Label.number, ha, hrep, Option.none_or]
      refine h.of_stream hstream rfl rfl rfl rfl hfound (fun c hc => ?_) h.awaiting
      obtain rfl := Option.some.inj hc
      exact hsupplied

theorem Tallied.transport {l : Transport.Label β} (h : Tallied s) (hphase : Phased s)
    (hg : Accounted p s (.transport l)) (hs : next p s (.transport l) = some t) : Tallied t := by
  cases l with
  | receive sample => exact h.receive hs
  | consume => exact h.consume hphase hg hs
  | produce =>
      obtain ⟨u, hu, -, rfl⟩ := next_transport hs
      cases Transport.branch_of_next hu with
      | @produce a m ha =>
          obtain ⟨hcarried, hdesired, hlen⟩ := Producer.step_carried hg ha
          have hstream : s.held ++ (m.sampleQueue ++ a.carried) = s.stream := by
            rw [hcarried, stream, ahead]
          exact h.of_stream hstream rfl rfl rfl rfl h.found
            (fun b hb => (h.supplied b hb).congr hdesired hlen) h.awaiting
  | mix numFrames numBytesPerSample =>
      obtain ⟨u, hu, -, rfl⟩ := next_transport hs
      cases Transport.branch_of_next hu with
      | mix hnone =>
          refine h.of_stream rfl rfl rfl rfl rfl h.found (fun a ha => ?_) h.awaiting
          obtain rfl := Option.some.inj ha
          trivial
  | clear =>
      obtain ⟨u, hu, -, rfl⟩ := next_transport hs
      have hempty : s.transport.mixer.sampleQueue = [] := hg
      obtain rfl := Option.some.inj hu
      have hstream : s.held ++ ([] ++ s.transport.producer.carried) = s.stream := by
        rw [stream, ahead, hempty]
      exact h.of_stream hstream rfl rfl rfl rfl h.found
        (fun a ha => (h.supplied a ha).congr rfl (by simp [hempty])) h.awaiting
  | setStreaming b | setFormat nChannels nBitsPerSample =>
      obtain ⟨u, hu, -, rfl⟩ := next_transport hs
      obtain rfl := Option.some.inj hu
      exact h.of_stream rfl rfl rfl rfl rfl h.found
        (fun a ha => (h.supplied a ha).congr rfl le_rfl) h.awaiting

omit [Inhabited β] in
/-- What a call has dequeued is passed on with its vector. -/
theorem Tallied.held_subset_passed {r : MixReturn (β × ℕ)} {l : SpeakerLayout} {b : MediaBitness}
    (h : Tallied s) (hphase : Phased s) (hr : s.awaiting = some r)
    (hsize : r.buffer.length ≤ (toALsizei (r.numFrames * getFrameSize l b)).toNat) :
    ∀ x ∈ s.held, x ∈ passed r.frames l b s.transport.byteData := by
  intro x hx
  obtain ⟨-, hbuffer, -, hstored⟩ := hphase.awaiting r hr
  obtain ⟨hframes, hzero⟩ := h.awaiting r hr
  obtain ⟨y, hy, rfl⟩ := List.mem_filterMap.mp hx
  obtain ⟨j, hj⟩ := List.mem_iff_getElem?.mp hy
  have hmem : x ∈ s.transport.byteData := List.mem_of_getElem? (hstored j x hj)
  rw [← hbuffer] at hmem ⊢
  have hne : r.frames ≠ 0 := fun h0 => by simp [hzero (hframes ▸ h0)] at hmem
  rwa [passed, if_neg hne, hframes, List.take_of_length_le hsize]

theorem Tallied.bufferData {l : SpeakerLayout} {b : MediaBitness} (h : Tallied s)
    (hphase : Phased s) (hg : Accounted p s (.bufferData l b))
    (hs : next p s (.bufferData l b) = some t) : Tallied t := by
  obtain ⟨r, hr, rfl⟩ := Option.map_eq_some_iff.mp hs
  have hlength : s.held.length = r.buffer.length := by
    rw [held, List.length_filterMap_eq_countP, ← (hphase.awaiting r hr).2.2.1,
      List.countP_eq_length]
    exact fun x hx => Option.isSome_iff_ne_none.mpr (h.found x hx)
  have htotal := h.total
  rw [stream, List.length_append, hlength] at htotal
  refine ⟨?_, fun k hlo hhi => ?_, by simp, fun a ha => h.supplied a ha, by simp⟩
  · simp only [stream, held, ahead, List.filterMap_nil, List.nil_append] at htotal ⊢
    omega
  · rcases h.covered k hlo hhi with ⟨x, hx, rfl⟩ | ⟨x, hx, rfl⟩
    · exact .inl ⟨x, List.mem_append_left _ hx, rfl⟩
    · rcases List.mem_append.mp hx with hx | hx
      · exact .inl ⟨x, List.mem_append_right _ (h.held_subset_passed hphase hr (hg r hr) x hx),
          rfl⟩
      · exact .inr ⟨x, hx, rfl⟩

theorem Tallied.next {l : Label β} (h : Tallied s) (hphase : Phased s) (hg : Accounted p s l)
    (hs : next p s l = some t) : Tallied t := by
  cases l with
  | transport l => exact h.transport hphase hg hs
  | bufferData l b => exact h.bufferData hphase hg hs
  | flush => exact hphase.tallied_flush hg hs
  | endOfStream =>
      obtain ⟨-, rfl⟩ := next_endOfStream hs
      exact h

/-! ## The announcement -/

theorem phased_of_reachable (h : (system p).Reachable s) : Phased s :=
  h.invariant (fun _ hi => hi.phased) fun _ _ _ hphase _ hs => hphase.next hs

theorem Fresh.tallied (h : Fresh p s) : Tallied s ∧ Phased s := by
  rcases h with h | ⟨r, hr, hrest, hs⟩
  · exact ⟨h.tallied, h.phased⟩
  · have hphase := phased_of_reachable hr
    exact ⟨hphase.tallied_flush hrest hs, hphase.next hs⟩

omit [Inhabited β] in
/-- Where the lengths have added up, nothing is on its way. -/
theorem Tallied.allSubmitted (h : Tallied s) (heven : s.flushed + s.served = s.arrived) :
    s.AllSubmitted := by
  have htotal := h.total
  have hstream : s.stream = [] := List.length_eq_zero_iff.mp (by omega)
  intro k hlo hhi
  rcases h.covered k hlo hhi with hsub | ⟨b, hb, -⟩
  · exact hsub
  · simp [hstream] at hb

/-- From the start or from any flush on, as long as samples are stored whole, every call of `Mix`
waits for all it asks for and `alBufferData` is passed the whole vector: an `EC_COMPLETE` by which
as many bytes have been asked for as have arrived comes after all of them have been submitted. -/
theorem completion_after_submission {u t : Session β} {steps : List (Session β × Label β)}
    (hfresh : Fresh p u) (hrun : (system p).Run u steps t)
    (hsteps : ∀ x ∈ steps, Accounted p x.1 x.2) :
    ∀ x ∈ steps, x.2 = .endOfStream → x.1.AllSubmitted := by
  have hinv : ∀ v ∈ System.visited steps t, Tallied v ∧ Phased v := by
    refine hrun.invariant hfresh.tallied ?_
    rintro v l w ⟨htally, hphase⟩ hmem hs
    exact ⟨htally.next hphase (hsteps _ hmem) hs, hphase.next hs⟩
  intro x hx hl
  have heven : x.1.flushed + x.1.served = x.1.arrived := by
    have hg := hsteps x hx
    rwa [hl] at hg
  exact (hinv x.1 (hrun.step_of_mem hx).1).1.allSubmitted heven

/-- A session in eight-bit mono in which nothing has happened yet. -/
def mono8 : Session UInt8 where
  transport :=
    { mixer :=
        { nChannels := 1, nSamplesPerSec := 48000, nBitsPerSample := 8, isFloat := false,
          nBlockAlign := 1, streaming := true }
      producer := .done, consumer := none, byteData := [], arrived := [], returns := [] }
  history := {}
  awaiting := none
  flushed := 1
  arrived := 1
  served := 0
  submitted := []

theorem mono8_init : Init mono8 := ⟨rfl, rfl, rfl, rfl, rfl, rfl, rfl, rfl, rfl, rfl⟩

/-- `Mix` asks for two frames and waits; a sample arrives, and `Receive` returns. -/
def twoFrames (sample : MediaSample UInt8) : List (Label UInt8) :=
  let labels : List (Transport.Label UInt8) :=
    [.mix 2 1, .consume, .consume, .consume, .receive sample] ++
      List.replicate (sample.data.length + 8) .produce
  labels.map .transport

/-- `Mix` returns the two frames, and they are submitted. -/
def handOver : List (Label UInt8) :=
  List.replicate 9 (.transport .consume) ++ [.bufferData .mono .bit8]

/-- A sample of three frames and one of a single frame arrive for two calls that ask for two frames
each: all have been submitted when the stream ends. -/
theorem completion_after_submission_mono8 :
    ∃ (s t : Session UInt8) (steps : List (Session UInt8 × Label UInt8)), Fresh .x64 s ∧
      (system .x64).Run s steps t ∧ (∀ x ∈ steps, Accounted .x64 x.1 x.2) ∧
      (∃ x ∈ steps, x.2 = .endOfStream ∧ x.1.arrived = 5) ∧
      ∀ x ∈ steps, x.2 = .endOfStream → x.1.AllSubmitted := by
  have h : (System.exec (next .x64) (Accounted .x64) mono8
      (twoFrames ⟨[7, 8, 9], by decide⟩ ++ handOver ++ twoFrames ⟨[10], by decide⟩ ++ handOver)).map
        (fun t => (t.flushed, t.served, t.arrived, (next .x64 t .endOfStream).isSome)) =
      some (1, 4, 5, true) := rfl
  obtain ⟨t, ht, hfacts⟩ := Option.map_eq_some_iff.mp h
  simp only [Prod.mk.injEq] at hfacts
  obtain ⟨hflushed, hserved, harrived, hend⟩ := hfacts
  obtain ⟨u, hu⟩ := Option.isSome_iff_exists.mp hend
  obtain ⟨steps, hrun, haccounted, -⟩ := System.exists_run_of_exec _ _ _ ht
  have hrun' : (system .x64).Run mono8 (steps ++ [(t, .endOfStream)]) u := hrun.concat hu
  have hall : ∀ x ∈ steps ++ [(t, .endOfStream)], Accounted .x64 x.1 x.2 := by
    refine List.forall_mem_append.mpr ⟨haccounted, List.forall_mem_singleton.mpr ?_⟩
    change t.flushed + t.served = t.arrived
    omega
  exact ⟨mono8, u, _, .inl mono8_init, hrun', hall, ⟨(t, .endOfStream), by simp, rfl, harrived⟩,
    completion_after_submission (.inl mono8_init) hrun' hall⟩

/-- A sample of one frame arrives for a request of two: completion is announced with the byte
still queued. -/
theorem completion_announced_early :
    ∃ (s t : Session UInt8) (steps : List (Session UInt8 × Label UInt8)), Init s ∧
      (system .x64).Run s (steps ++ [(t, .endOfStream)]) t ∧
      (∀ x ∈ steps, Accounted .x64 x.1 x.2) ∧
      t.transport.mixer.sampleQueue = [(7, 1)] ∧ ¬ t.AllSubmitted := by
  have h : (System.exec (next .x64) (Accounted .x64) mono8 (twoFrames ⟨[7], by decide⟩)).map
        (fun t => (t.flushed, t.arrived, t.transport.mixer.sampleQueue, t.submitted,
          (next .x64 t .endOfStream).isSome)) =
      some (1, 2, [(7, 1)], [], true) := rfl
  obtain ⟨t, ht, hfacts⟩ := Option.map_eq_some_iff.mp h
  simp only [Prod.mk.injEq] at hfacts
  obtain ⟨hflushed, harrived, hqueue, hsubmitted, hend⟩ := hfacts
  obtain ⟨u, hu⟩ := Option.isSome_iff_exists.mp hend
  obtain ⟨-, rfl⟩ := next_endOfStream hu
  obtain ⟨steps, hrun, haccounted, -⟩ := System.exists_run_of_exec _ _ _ ht
  refine ⟨mono8, u, steps, mono8_init, hrun.concat hu, haccounted, hqueue, fun hall => ?_⟩
  obtain ⟨b, hb, -⟩ := hall 1 (Nat.le_of_eq hflushed)
    (Nat.lt_of_lt_of_eq (by decide) harrived.symm)
  simp [hsubmitted] at hb

end Session

end OpenALRenderer
