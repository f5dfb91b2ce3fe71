import OpenALRenderer.Verification.Mixer.Transport
import OpenALRenderer.Verification.Stream.Preparation

/-! # Changing the format while `SoundLoop` runs -/

namespace OpenALRenderer

open Foundation

/-! ## What else steps leave alone -/

theorem Filter.streaming_write (w : Filter) (x : Write) :
    (w.write x).mixer.streaming = w.mixer.streaming := by
  cases x <;> rfl

theorem Filter.flushing_write (w : Filter) (x : Write) :
    (w.write x).pin.flushing = w.pin.flushing := by
  cases x <;> rfl

theorem Pc.Follows.eq_selectWidth {β : Type*} {pc : Pc β} {n : ℕ} (h : pc.Follows (.mix n)) :
    pc = .selectWidth := by
  cases h with
  | selectWidth => rfl
  | check_none x _ hnext | report x _ hnext => cases x <;> cases hnext

theorem Stream.mix_loopStep {β : Type*} {s t : Stream β} {c : Choice β} {n : ℕ}
    (hs : s.loopStep c = some t) (ht : t.pc = .mix n) :
    s.pc = .selectWidth ∧ s.bitness.mixBytes = some n := by
  have hnext := follows_loopStep hs
  rw [ht] at hnext
  have hpc := hnext.eq_selectWidth
  refine ⟨hpc, ?_⟩
  simp only [Stream.loopStep, Stream.call, Stream.advance, hpc] at hs
  split at hs <;> cases hs <;> cases ht
  assumption

/-! ## The condition -/

namespace Receiving

/-- The writes still to be made. -/
def rest : Receiving → List Write
  | processing _ rest _ => rest
  | idle | delivering _ => []

/-- Some writes of a change have been made, and some have not. -/
def underway : Receiving → Bool
  | processing true (_ :: _) _ => true
  | _ => false

theorem underway_of_rest (r : Receiving) (h : r.rest = []) : r.underway = false := by
  unfold underway
  split
  · cases h
  · rfl

end Receiving

namespace Playback

/-- The loop is about to start, in a filter with one format. -/
structure Init (s : Playback) : Prop where
  starts : s.stream.Starts
  isStreaming : s.stream.streaming = s.mixer.streaming
  streaming : s.mixer.streaming = true
  flushing : s.pin.flushing = false
  uniform : s.filter.Uniform
  mix : s.mix = none
  receiving : s.receiving = .idle

def system (p : Platform) (caps : Capabilities) : System Playback Label :=
  .ofNext Init (next p caps)

/-- The step takes the loop past the comparison, or the assignment, of the frequency. -/
def Enters (s : Playback) : Prop :=
  s.stream.pc = .updateFrequency ∨
    s.stream.pc = .compareFrequency ∧
      s.stream.locals.pastFrequency = s.stream.frequency.toUInt32

instance (s : Playback) : Decidable s.Enters := inferInstanceAs (Decidable (_ ∨ _ ∧ _))

/-- Types change to playable ones, no write of a change falls between the first comparison and
the last argument of `alBufferData`, and the loop does not start comparing half-way through
one. -/
def Undisturbed (caps : Capabilities) (s : Playback) : Label → Prop
  | .loop _ => s.Enters → s.receiving.underway = false
  | .driver _ => True
  | .receive r e e' sample => sample.Playable caps r e e'
  | .pin => s.receiving.rest ≠ [] → s.stream.pc.compared = 0

instance (caps : Capabilities) (s : Playback) : ∀ a : Label, Decidable (Undisturbed caps s a)
  | .loop _ => inferInstanceAs (Decidable (_ → _))
  | .driver _ => inferInstanceAs (Decidable True)
  | .receive r e e' sample => inferInstanceAs (Decidable (sample.Playable caps r e e'))
  | .pin => inferInstanceAs (Decidable (_ → _))

/-! ## The invariant -/

/-- While `Mix` runs, its bytes have the format of the connection. -/
def Mixing (p : Platform) (s : Playback) : Prop :=
  match s.stream.pc, s.mix with
  | .mix n, none => s.mixer.nBitsPerSample.toNat = 8 * n
  | .mix _, some k => k.Ok p s.mixer ∧ ∀ x ∈ k.popped, x.format = s.pin.connectionFormat
  | _, k => k = none

/-- The bytes the producer has still to push have the format of the connection. -/
def Pushing (p : Platform) (s : Playback) : Prop :=
  ∀ a, s.receiving = .delivering a →
    ∀ x ∈ a.pending (frameBytes p s.mixer.nChannels s.mixer.nBitsPerSample),
      x.format = s.pin.connectionFormat

/-- What holds of an undisturbed playback: there is one format unless a change is underway, and
there will be one when it is complete. -/
structure Inv (p : Platform) (s : Playback) : Prop where
  tracked : s.stream.Tracked
  compared : s.stream.Compared
  labelled : s.stream.Labelled
  prepared : s.stream.Prepared
  quiet : s.stream.pc.compared ≠ 0 → s.receiving.underway = false
  streaming : s.mixer.streaming = true
  flushing : s.pin.flushing = false
  settles : (s.filter.writeAll s.receiving.rest).Uniform
  uniform : s.receiving.underway = false → s.filter.Uniform
  pushing : s.Pushing p
  mixing : s.Mixing p

variable {p : Platform} {caps : Capabilities} {s t : Playback}

theorem Init.inv (h : s.Init) : s.Inv p where
  tracked := h.starts.tracked
  compared := Stream.compared_of_zero (by rw [h.starts.pc]; rfl)
  labelled :=
    ⟨fun hp => absurd (congrArg Pc.phase h.starts.pc) hp.1, fun hr => by
      simp [h.starts.pc, Pc.restarts] at hr⟩
  prepared := by simp [Stream.Prepared, h.starts.pc]
  quiet := by simp [h.starts.pc, Pc.compared]
  streaming := h.streaming
  flushing := h.flushing
  settles := by simpa [h.receiving, Receiving.rest] using h.uniform
  uniform _ := h.uniform
  pushing := by simp [Pushing, h.receiving]
  mixing := by simp [Mixing, h.starts.pc, h.mix]

theorem Mixing.eq_none (h : s.Mixing p) (hout : ∀ n, s.stream.pc ≠ .mix n) : s.mix = none := by
  unfold Mixing at h
  split at h
  · next n hpc _ => exact absurd hpc (hout n)
  · next n _ hpc _ => exact absurd hpc (hout n)
  · exact h

/-- In the window the remembered format is the one the connection has. -/
theorem Inv.describes (h : s.Inv p) (hpc : s.stream.pc.compared = 3) :
    s.pin.connectionFormat.Describes s.stream.locals.pastSpeakerLayout
      s.stream.locals.pastBitness s.stream.locals.pastFrequency := by
  rw [h.compared.speakerLayout (by omega), h.compared.bitness (by omega),
    h.compared.frequency (by omega)]
  exact (h.uniform (h.quiet (by omega))).describes

/-- `Mix` returns with whole frames of the remembered format. -/
theorem Inv.filled (h : s.Inv p) {n : ℕ} (hpc : s.stream.pc = .mix n) {c : MixCall StampedByte}
    {frames : ℕ} (hk : s.mix = some (.returned c frames)) :
    Locals.Filled { s.stream.locals with availableFrames := frames, byteData := c.samples } := by
  have hdescribes := h.describes (by rw [hpc]; rfl)
  have huniform := h.uniform (h.quiet (by simp [hpc, Pc.compared]))
  have hmixing := h.mixing
  simp only [Mixing, hpc, hk] at hmixing
  obtain ⟨⟨hready, -, -, hframes⟩, hbytes⟩ := hmixing
  refine ⟨fun x hx => ?_, ?_⟩
  · rw [hbytes x hx]
    exact hdescribes
  · have hchannels : s.stream.locals.pastSpeakerLayout.numChannels = s.mixer.nChannels.toNat := by
      rw [← hdescribes.channels]
      exact congrArg UInt16.toNat huniform.nChannels.symm
    have hbits : s.stream.locals.pastBitness.elementSize = c.numBytesPerSample := by
      have hw : s.mixer.nBitsPerSample = s.pin.connectionFormat.wBitsPerSample :=
        huniform.nBitsPerSample
      have hb := hdescribes.bits
      rw [← hw, hready.bits] at hb
      omega
    change frames * getFrameSize _ _ ≤ c.samples.length
    rw [getFrameSize, hchannels, hbits, hready.size, hframes, Nat.div_div_eq_div_mul,
      Nat.mul_comm s.mixer.nChannels.toNat]
    exact Nat.div_mul_le_self _ _

/-! ### Steps of the loop -/

/-- The first comparison and the first assignment are the only ways into the window. -/
theorem enters_of_loopStep {c : Choice StampedByte} {u : Stream StampedByte}
    (hs : s.stream.loopStep c = some u) (h : s.stream.pc.compared = 0)
    (hu : u.pc.compared ≠ 0) : s.Enters := by
  rcases (Stream.follows_loopStep hs).compared with hle | hpc | hpc | hpc | hpc | hpc | hpc
  · omega
  · refine .inr ⟨hpc, ?_⟩
    simp only [Stream.loopStep, Stream.call, Stream.advance, hpc, Option.some.injEq] at hs
    subst hs
    by_contra hne
    simp [Stream.goto, hne, Pc.compared] at hu
  · simp [hpc, Pc.compared] at h
  · simp [hpc, Pc.compared] at h
  · exact .inl hpc
  · simp [hpc, Pc.compared] at h
  · simp [hpc, Pc.compared] at h

/-- A step of the loop outside `Mix`, or its return. -/
theorem Inv.stream (h : s.Inv p) {c : Choice StampedByte} {u : Stream StampedByte}
    (hg : s.Enters → s.receiving.underway = false)
    (hfilled : ∀ n, s.stream.pc = .mix n →
      Locals.Filled { s.stream.locals with availableFrames := c.frames, byteData := c.data })
    (hs : s.stream.loopStep c = some u) : Inv p { s with stream := u, mix := none } := by
  have hset := Stream.loopStep_settings hs
  have hfilter : filter { s with stream := u, mix := none } = s.filter := by
    simp only [filter, hset.frequency, hset.speakerLayout, hset.bitness, hset.runThread]
  refine ⟨h.tracked.next (a := .loop c) trivial hs, h.compared.loopStep hs,
    h.labelled.loopStep h.tracked (fun hpc => ?_) hs,
    h.prepared.loopStep h.tracked h.compared hfilled hs, fun hne => ?_, h.streaming, h.flushing,
    hfilter ▸ h.settles, hfilter ▸ h.uniform, h.pushing, ?_⟩
  · have hprepared := h.prepared
    simpa only [Stream.Prepared, hpc] using hprepared
  · by_cases hzero : s.stream.pc.compared = 0
    · exact hg (enters_of_loopStep hs hzero hne)
    · exact h.quiet hzero
  · unfold Mixing
    split
    · next n hpc _ =>
        obtain ⟨hselect, hn⟩ := Stream.mix_loopStep hs hpc
        have huniform := h.uniform (h.quiet (by simp [hselect, Pc.compared]))
        calc s.mixer.nBitsPerSample.toNat
            = s.filter.pin.connectionFormat.wBitsPerSample.toNat :=
              congrArg UInt16.toNat huniform.nBitsPerSample
          _ = 8 * s.stream.bitness.elementSize := huniform.describes.bits
          _ = 8 * n := by rw [(elementSize_of_mixBytes hn).1]
    · next hnone => cases hnone
    · rfl

/-- A step inside `Mix`. -/
theorem Inv.consume (h : s.Inv p) {n : ℕ} (hpc : s.stream.pc = .mix n)
    {k k' : Consumer StampedByte} {m : Mixer StampedByte} (hk : s.mix = some k)
    (hs : k.step p s.mixer = some (k', m)) : Inv p { s with mix := some k', mixer := m } := by
  have hmixing := h.mixing
  simp only [Mixing, hpc, hk] at hmixing
  obtain ⟨hsame, hok, hqueue⟩ := Consumer.step_queue h.streaming hmixing.1 hs
  have huniform := h.uniform (h.quiet (by simp [hpc, Pc.compared]))
  have hdrains : s.filter.Drains (filter { s with mix := some k', mixer := m }) :=
    ⟨hsame.nChannels, hsame.nBitsPerSample, rfl, rfl, rfl, rfl,
      fun x hx => (Consumer.step_suffix hs).subset hx⟩
  refine ⟨h.tracked, h.compared, h.labelled, h.prepared, h.quiet, hsame.streaming.trans h.streaming,
    h.flushing, h.settles.drains (hdrains.writeAll _), fun hu => (h.uniform hu).drains hdrains,
    ?_, ?_⟩
  · intro a ha
    dsimp only at ha ⊢
    rw [hsame.nChannels, hsame.nBitsPerSample]
    exact h.pushing a ha
  · simp only [Mixing, hpc]
    refine ⟨hok, fun x hx => ?_⟩
    have hmem : x ∈ k.popped ++ s.mixer.sampleQueue := by
      rw [← hqueue]
      exact List.mem_append_left _ hx
    rcases List.mem_append.mp hmem with hx | hx
    · exact hmixing.2 x hx
    · exact huniform.queue x hx

theorem Inv.loop (h : s.Inv p) {c : Choice StampedByte}
    (hg : s.Enters → s.receiving.underway = false) (hs : s.loopStep p c = some t) : t.Inv p := by
  have hmixing := h.mixing
  unfold loopStep at hs
  split at hs
  · next n hpc hk =>
      cases hs
      simp only [Mixing, hpc, hk] at hmixing
      refine ⟨h.tracked, h.compared, h.labelled, h.prepared, h.quiet, h.streaming, h.flushing,
        h.settles, h.uniform, h.pushing, ?_⟩
      simp only [Mixing, hpc]
      exact ⟨hmixing, nofun⟩
  · next n call frames hpc hk =>
      obtain ⟨u, hu, rfl⟩ := Option.map_eq_some_iff.mp hs
      exact h.stream hg (fun _ hpc' => h.filled hpc' hk) hu
  · next n k _ hpc hk =>
      obtain ⟨⟨k', m⟩, hstep, rfl⟩ := Option.map_eq_some_iff.mp hs
      exact h.consume hpc hk hstep
  · next hnone _ hsome =>
      obtain ⟨u, hu, rfl⟩ := Option.map_eq_some_iff.mp hs
      have hout : ∀ n, s.stream.pc ≠ .mix n := by
        intro n hpc
        cases hk : s.mix with
        | none => exact hnone n hpc hk
        | some k => exact hsome n k hpc hk
      rw [h.mixing.eq_none hout]
      exact h.stream hg (fun n hpc => absurd hpc (hout n)) hu

/-! ### Steps of the driver and of the streaming thread -/

theorem Inv.driver (h : s.Inv p) {n : ℕ} {al : OpenAL StampedByte}
    (hf : s.stream.al.finish n = some al) :
    Inv p { s with stream := s.stream.setAl al } := by
  have hnext : s.stream.next (.driver n) = some (s.stream.setAl al) := by
    simp [Stream.next, hf, Stream.setAl]
  exact ⟨h.tracked.next (a := .driver n) trivial hnext, ⟨h.compared.frequency,
    h.compared.bitness, h.compared.speakerLayout⟩, h.labelled.driven hf, h.prepared.driven hf,
    h.quiet, h.streaming, h.flushing, h.settles, h.uniform, h.pushing, h.mixing⟩

theorem pushing_of_not_delivering (h : ∀ a, s.receiving ≠ .delivering a) : Pushing p s :=
  fun a ha => absurd ha (h a)

theorem Inv.receive (h : s.Inv p) {r : Replies} {e e' : Indeterminate} {sample : PinSample}
    {q : Processing} (hidle : s.receiving = .idle) (hp : sample.Playable caps r e e')
    (hq : s.filter.process caps r e e' sample = some q) :
    Inv p { s with
      pin := { s.pin with sampleProps := q.sampleProps }
      receiving := .processing false q.writes q.sample } := by
  have huniform := h.uniform (by rw [hidle]; rfl)
  refine ⟨h.tracked, h.compared, h.labelled, h.prepared, fun _ => rfl, h.streaming, h.flushing,
    huniform.process h.flushing hp hq q.sampleProps, fun _ => ?_,
    pushing_of_not_delivering (by simp), h.mixing⟩
  exact ⟨huniform.describes, huniform.nChannels, huniform.nBitsPerSample, huniform.queue⟩

theorem filter_setFilter_write (s : Playback) (x : Write) :
    (s.setFilter (s.filter.write x)).filter = s.filter.write x := by
  cases x <;> rfl

/-- A write made while the loop compares nothing. -/
theorem Inv.write (h : s.Inv p) {begun : Bool} {x : Write} {rest : List Write}
    {sample : Option (MediaSample UInt8)} (hr : s.receiving = .processing begun (x :: rest) sample)
    (hzero : s.stream.pc.compared = 0) :
    Inv p { s.setFilter (s.filter.write x) with receiving := .processing true rest sample } := by
  have hfilter := filter_setFilter_write s x
  have hsettles := h.settles
  rw [hr] at hsettles
  have hdone : rest = [] → (s.filter.write x).Uniform := by
    rintro rfl
    exact hsettles
  refine ⟨⟨h.tracked.owned.congr rfl rfl rfl, h.tracked.counted, h.tracked.arranged⟩,
    Stream.compared_of_zero hzero, ⟨h.labelled.queued, h.labelled.restarting⟩, h.prepared,
    fun hne => absurd hzero hne, (s.filter.streaming_write x).trans h.streaming,
    (s.filter.flushing_write x).trans h.flushing, ?_, fun hu => ?_,
    pushing_of_not_delivering (by simp), ?_⟩
  · change Filter.Uniform (Filter.writeAll (filter (s.setFilter _)) rest)
    rw [hfilter]
    exact hsettles
  · change Filter.Uniform (filter (s.setFilter _))
    rw [hfilter]
    cases rest with
    | nil => exact hdone rfl
    | cons y rest => cases hu
  · have hout : ∀ n, s.stream.pc ≠ .mix n := by
      intro n hpc
      simp [hpc, Pc.compared] at hzero
    have hnone := h.mixing.eq_none hout
    unfold Mixing
    split
    · next n hpc _ => exact absurd hpc (hout n)
    · next n _ hpc _ => exact absurd hpc (hout n)
    · exact hnone

/-- The bytes of a sample are stamped with the format of the connection. -/
theorem format_of_mem_copied {sample : MediaSample UInt8} {w : Filter} {frame : ℕ}
    {x : StampedByte} (hx : x ∈ (w.stamp sample).copied frame) :
    x.format = w.pin.connectionFormat := by
  have hmem : x ∈ (w.stamp sample).data := List.mem_of_mem_take hx
  simp only [Filter.stamp, List.mem_map] at hmem
  obtain ⟨b, -, rfl⟩ := hmem
  rfl

/-- A step of the producer. -/
theorem Inv.produce (h : s.Inv p) {a a' : Producer StampedByte} {m : Mixer StampedByte}
    (hr : s.receiving = .delivering a) (hs : a.step p s.mixer = some (a', m)) :
    Inv p { s with receiving := .delivering a', mixer := m } := by
  obtain ⟨hsame, hdesired, hqueue, hlen⟩ := Producer.step_queue h.streaming hs
  have huniform := h.uniform (by rw [hr]; rfl)
  have hbytes : ∀ x ∈ s.mixer.sampleQueue ++
      a.pending (frameBytes p s.mixer.nChannels s.mixer.nBitsPerSample),
      x.format = s.pin.connectionFormat := by
    intro x hx
    rcases List.mem_append.mp hx with hx | hx
    · exact huniform.queue x hx
    · exact h.pushing a hr x hx
  rw [← hqueue] at hbytes
  have huniform' : Filter.Uniform (filter { s with receiving := .delivering a', mixer := m }) :=
    ⟨huniform.describes, hsame.nChannels.trans huniform.nChannels,
      hsame.nBitsPerSample.trans huniform.nBitsPerSample,
      fun x hx => hbytes x (List.mem_append_left _ hx)⟩
  refine ⟨h.tracked, h.compared, h.labelled, h.prepared, fun _ => rfl,
    hsame.streaming.trans h.streaming, h.flushing, huniform', fun _ => huniform', ?_, ?_⟩
  · intro b hb x hx
    cases hb
    dsimp only at hx
    rw [hsame.nChannels, hsame.nBitsPerSample] at hx
    exact hbytes x (List.mem_append_right _ hx)
  · have hmixing := h.mixing
    unfold Mixing at hmixing ⊢
    dsimp only
    split at hmixing
    · exact (congrArg UInt16.toNat hsame.nBitsPerSample).trans hmixing
    · exact ⟨hmixing.1.congr hsame hdesired hlen, hmixing.2⟩
    · exact hmixing

/-- The streaming thread goes on with no write left to make. -/
theorem Inv.turn (h : s.Inv p) {r : Receiving} (hr : s.receiving.rest = []) (hr' : r.rest = [])
    (hpush : Pushing p { s with receiving := r }) : Inv p { s with receiving := r } := by
  have huniform : s.filter.Uniform := by
    have hsettles := h.settles
    rwa [hr] at hsettles
  refine ⟨h.tracked, h.compared, h.labelled, h.prepared, fun _ => r.underway_of_rest hr',
    h.streaming, h.flushing, ?_, fun _ => huniform, hpush, h.mixing⟩
  change (Filter.writeAll s.filter r.rest).Uniform
  rw [hr']
  exact huniform

theorem Inv.pin (h : s.Inv p) (hg : s.receiving.rest ≠ [] → s.stream.pc.compared = 0)
    (hs : s.receiveStep p = some t) : t.Inv p := by
  unfold receiveStep at hs
  split at hs
  · cases hs
  · next begun x rest sample hr =>
      cases hs
      exact h.write hr (hg (by simp [hr, Receiving.rest]))
  · next begun hr =>
      cases hs
      exact h.turn (by rw [hr]; rfl) rfl (pushing_of_not_delivering (by simp))
  · next begun sample hr =>
      cases hs
      refine h.turn (by rw [hr]; rfl) rfl fun a ha x hx => ?_
      cases ha
      exact format_of_mem_copied hx
  · next hr =>
      cases hs
      exact h.turn (by rw [hr]; rfl) rfl (pushing_of_not_delivering (by simp))
  · next a _ hr =>
      obtain ⟨⟨a', m⟩, hstep, rfl⟩ := Option.map_eq_some_iff.mp hs
      exact h.produce hr hstep

theorem Inv.next (h : s.Inv p) {a : Label} (hg : Undisturbed caps s a)
    (hs : s.next p caps a = some t) : t.Inv p := by
  cases a with
  | loop c => exact h.loop hg hs
  | driver n =>
      obtain ⟨al, hf, rfl⟩ := Option.map_eq_some_iff.mp hs
      exact h.driver hf
  | receive r e e' sample =>
      simp only [Playback.next] at hs
      split at hs
      · next hidle =>
          obtain ⟨q, hq, rfl⟩ := Option.map_eq_some_iff.mp hs
          exact h.receive hidle hg hq
      · cases hs
  | pin => exact h.pin hg hs

theorem inv_of_reachable (h : (system p caps).ReachableWhere (Undisturbed caps) s) : s.Inv p :=
  h.invariant (fun _ hs => hs.inv) fun _ _ _ hI hg hs => hI.next hg hs

end Playback

/-! ## The buffers handed to OpenAL -/

/-- A call of `alBufferData` that a format change has not spoilt: it reads no more than there is,
in the format of every buffer queued, and its bytes were received under that format. -/
structure Stream.Unspoilt (s : Stream StampedByte) (call : BufferDataCall StampedByte) : Prop where
  size : call.size ≤ call.data.length
  queued : ∀ b ∈ s.al.queue s.source, ∃ call', s.al.data b = some call' ∧
    call'.format = call.format ∧ call'.frequency = call.frequency
  received : ∃ l b, call.format = generateFormatString l b ∧
    ∀ x ∈ call.data, x.format.Describes l b call.frequency.toUInt32

namespace Playback

/-- As long as types change to playable ones, between two passes of the loop through its
comparisons and arguments, every call of `alBufferData` is unspoilt. -/
theorem bufferData_unspoilt (p : Platform) (caps : Capabilities) (s : Playback)
    (h : (system p caps).ReachableWhere (Undisturbed caps) s)
    (call : BufferDataCall StampedByte) (hpc : s.stream.pc = .bufferData call) :
    s.stream.Unspoilt call := by
  have hinv := inv_of_reachable h
  have hprepared := hinv.prepared
  simp only [Stream.Prepared, hpc] at hprepared
  obtain ⟨⟨hformat, hfrequency⟩, hbytes, hsize⟩ := hprepared
  refine ⟨hsize, fun b hb => ?_, _, _, hformat, hfrequency ▸ hbytes⟩
  have hp : s.stream.ring.phase = .room := congrArg Pc.phase hpc
  rw [s.stream.queue_source] at hb
  obtain ⟨call', hdata, hpast⟩ := hinv.labelled.queued (by rw [hp]; decide) b hb
  refine ⟨call', hdata, hpast.format.trans hformat.symm, ?_⟩
  exact Int32.toBitVec.inj
    (congrArg UInt32.toBitVec (hpast.frequency.trans hfrequency.symm))

/-! ### Two schedules -/

/-- Mono samples of two bytes at 8 kHz. -/
def pcm16 : MediaType where
  majortype := mediaTypeAudio
  subtype := subtypePcm
  formattype := formatWaveFormatEx
  format := some [1, 0, 1, 0, 0x40, 0x1F, 0, 0, 0x80, 0x3E, 0, 0, 2, 0, 16, 0, 0, 0]

/-- The loop is about to start, while mono samples of one byte at 8 kHz stream. -/
def mono8 : Playback where
  stream := { Stream.starting with frequency := 8000, speakerLayout := .mono, bitness := .bit8 }
  state := .running
  pin :=
    { connected := true
      connectionFormat := ⟨1, 1, 8000, 1, 8, List.replicate 16 0⟩ }
  mixer :=
    { nChannels := 1, nSamplesPerSec := 8000, nBitsPerSample := 8, isFloat := false,
      nBlockAlign := 1, streaming := true }

theorem mono8_init : mono8.Init :=
  ⟨⟨rfl, rfl, ⟨rfl, rfl, rfl⟩, rfl, rfl⟩, rfl, rfl, rfl,
    ⟨⟨rfl, rfl, rfl, by decide⟩, rfl, rfl, nofun⟩, rfl, rfl⟩

/-- A sample of 64 frames that announces the new type. -/
def retyped : Label :=
  .receive {} Filter.zeroes Filter.zeroes
    { data := ⟨List.replicate 128 1, by simp⟩, mediaType := some pcm16 }

/-- The steps of the loop among those of a stream. -/
def loops (l : List (Stream.Label StampedByte)) : List Label :=
  l.filterMap fun
    | .loop c => some (.loop c)
    | _ => none

def prologue : List Label := loops (Stream.prologue [1, 2, 3, 4, 5, 6, 7, 8] 1)

def arguments : List Label := loops (Stream.queueing.take 7)

/-- `alBufferData` is about to read `size` bytes of a vector of `length`. -/
def passes (length : ℕ) (size : Int) (s : Playback) : Bool :=
  match s.stream.pc with
  | .bufferData call => call.data.length == length && call.size == size
  | _ => false

theorem exists_of_passes {guard : Playback → Label → Prop} [∀ s a, Decidable (guard s a)]
    {length : ℕ} {size : Int} {labels : List Label}
    (h : (System.exec (next .x64 ⟨false, false, false⟩) guard mono8 labels).any
      fun s => passes length size s) :
    ∃ s call, (system .x64 ⟨false, false, false⟩).ReachableWhere guard s ∧
      s.stream.pc = .bufferData call ∧ call.data.length = length ∧ call.size = size := by
  obtain ⟨s, hs, hpasses⟩ := System.exists_reachableWhere_of_exec
    (P := fun s => passes length size s = true) labels mono8_init (by simpa using h)
  unfold passes at hpasses
  split at hpasses
  · next call hpc =>
      obtain ⟨hlength, hsize⟩ := Bool.and_eq_true_iff.mp hpasses
      exact ⟨s, call, hs, hpc, eq_of_beq hlength, eq_of_beq hsize⟩
  · cases hpasses

/-- A sample of 64 frames of one byte. -/
def received : Label :=
  .receive {} Filter.zeroes Filter.zeroes { data := ⟨List.replicate 64 2, by simp⟩ }

/-- One buffer of 64 bytes is queued. The type changes before the loop compares again, and the
buffer that follows its regeneration is unspoilt. -/
theorem bufferData_unspoilt_mono16 : ∃ (s : Playback) (call : BufferDataCall StampedByte),
    s.stream.pc = .bufferData call ∧ (call.data.length = 128 ∧ call.size = 128) ∧
      s.stream.Unspoilt call := by
  have hrun : (System.exec (next .x64 ⟨false, false, false⟩)
      (Undisturbed ⟨false, false, false⟩) mono8
      (prologue ++ List.replicate 16 (.loop {}) ++ [received] ++ List.replicate 74 .pin ++
        List.replicate 71 (.loop {}) ++ arguments ++ List.replicate 8 (.loop {}) ++
        [retyped] ++ List.replicate 150 .pin ++ List.replicate 7 (.loop {}) ++
        [.loop { names := [1, 2, 3, 4, 5, 6, 7, 8] }] ++ List.replicate 143 (.loop {}) ++
        arguments)).any fun s => passes 128 128 s := by
    decide +kernel
  obtain ⟨s, call, hs, hpc, hpasses⟩ := exists_of_passes hrun
  exact ⟨s, call, hpc, hpasses, bufferData_unspoilt _ _ s hs call hpc⟩

/-- Samples change from one byte to two while `Mix` waits: the wait ends, the vector keeps its 64
bytes, and `alBufferData` reads 128. -/
theorem format_change_overreads : ∃ (s : Playback) (call : BufferDataCall StampedByte),
    (system .x64 ⟨false, false, false⟩).Reachable s ∧ s.stream.pc = .bufferData call ∧
      (call.data.length = 64 ∧ call.size = 128) ∧ ¬ s.stream.Unspoilt call := by
  have hrun : (System.exec (next .x64 ⟨false, false, false⟩) (fun _ _ => True) mono8
      (prologue ++ List.replicate 16 (.loop {}) ++ [retyped] ++ List.replicate 14 .pin ++
        List.replicate 71 (.loop {}) ++ arguments)).any fun s => passes 64 128 s := by
    decide +kernel
  obtain ⟨s, call, hs, hpc, hlength, hsize⟩ := exists_of_passes hrun
  refine ⟨s, call, hs, hpc, ⟨hlength, hsize⟩, fun h => ?_⟩
  have hle := h.size
  rw [hlength, hsize] at hle
  omega

end Playback

end OpenALRenderer
