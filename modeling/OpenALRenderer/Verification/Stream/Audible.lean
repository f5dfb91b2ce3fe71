import OpenALRenderer.Verification.Stream.FormatChange
import OpenALRenderer.Verification.Stream.SampleTime
import OpenALRenderer.Verification.Stream.Waiting

/-! # From the samples received to what is heard -/

namespace OpenALRenderer

open Foundation

/-! ## The number of frames of a call of `Mix` -/

namespace Consumer

variable {β : Type*}

/-- The frames that a running call was asked for. -/
def numFrames : Consumer β → ℕ
  | mix c | checkSize c | setRequest c | waitForFrames c | testReady c | testStreaming c
  | testBits c | waitReady c | clearReady c | pop c _ | countFrames c | returned c _ => c.numFrames
  | fault _ => 0

theorem numFrames_step [Inhabited β] {p : Platform} {a b : Consumer β} {m m' : Mixer β}
    (h : a.step p m = some (b, m')) : b.numFrames ≤ a.numFrames := by
  cases branch_of_step h with
  | mix_fault | countFrames_fault => exact Nat.zero_le _
  | _ => exact le_rfl

end Consumer

/-- The number of frames only changes where it is computed. -/
theorem Stream.framesPerBuffer_of_ne {β : Type*} {s t : Stream β} {c : Choice β}
    (hs : s.loopStep c = some t) (hpc : s.pc ≠ .computeFrames) (hpc' : s.pc ≠ .recomputeFrames) :
    t.locals.framesPerBuffer = s.locals.framesPerBuffer := by
  unfold loopStep at hs
  split at hs
  · unfold advance at hs
    split at hs
    case h_4 h => exact absurd h hpc
    case h_13 h => exact absurd h hpc'
    case h_18 => split at hs <;> cases hs <;> rfl
    case h_20 => rw [evaluate_locals hs]
    case h_22 => cases hs
    all_goals
      cases hs
      rfl
  · split at hs <;> cases hs
    unfold resume
    split <;> rfl

/-! ## The history -/

/-- The bytes of the samples handed to the mixer, what the buffers held that the driver has played
to their end, and whether audio has been thrown away. -/
structure Hearing where
  accepted : List StampedByte := []
  heard : List (BufferDataCall StampedByte) := []
  discarded : Bool := false

namespace Playback

/-- What a sample adds to the queue of the mixer. -/
def cut (p : Platform) (s : Playback) (sample : MediaSample UInt8) : List StampedByte :=
  (s.filter.stamp sample).copied (frameBytes p s.mixer.nChannels s.mixer.nBitsPerSample)

def note (p : Platform) (h : Hearing) (s : Playback) (a : Label) (_ : Playback) : Hearing :=
  match a, s.receiving with
  | .loop _, _ => { h with discarded := h.discarded || s.stream.discards }
  | .driver n, _ => { h with heard := h.heard ++ (s.stream.playing n).toList }
  | .pin, .processing _ (.clearQueue :: _) _ => { h with discarded := true }
  | .pin, .processing _ [] (some sample) => { h with accepted := h.accepted ++ s.cut p sample }
  | _, _ => h

/-- The history begins: what the mixer holds counts as accepted. -/
def Begins (x : Playback × Hearing) : Prop :=
  x.1.Init ∧ x.2 = { accepted := x.1.mixer.sampleQueue }

def audition (p : Platform) (caps : Capabilities) : System (Playback × Hearing) Label :=
  .ofNext Begins (System.record (next p caps) (note p))

/-- What has been accepted and not been heard: on the source, in the hands of the loop, in its call
of `Mix`, in the queue of the mixer, and in the call of `Receive`. -/
def mixed (s : Playback) : List StampedByte := s.mix.elim [] Consumer.popped

def arriving (p : Platform) (s : Playback) : List StampedByte :=
  match s.receiving with
  | .delivering a => a.pending (frameBytes p s.mixer.nChannels s.mixer.nBitsPerSample)
  | _ => []

def underway (p : Platform) (s : Playback) : List StampedByte :=
  s.stream.waiting.flatMap BufferDataCall.bytes ++ s.stream.inHand ++ s.mixed ++
    s.mixer.sampleQueue ++ s.arriving p

/-! ## The condition -/

/-- Playback is undisturbed, `alSourcePlay` finds no processed buffer, and buffers are sized for a
rate that is no negative number. -/
def Plays (caps : Capabilities) (x : Playback × Hearing) (a : Label) : Prop :=
  Undisturbed caps x.1 a ∧
    match a with
    | .loop _ => (x.1.stream.pc = .play → x.1.stream.al.played x.1.stream.source = 0) ∧
        (x.1.stream.pc = .computeFrames ∨ x.1.stream.pc = .recomputeFrames →
          0 ≤ x.1.stream.frequency.toInt)
    | _ => True

instance (caps : Capabilities) (x : Playback × Hearing) : ∀ a : Label, Decidable (Plays caps x a)
  | .loop _ => inferInstanceAs (Decidable (_ ∧ (_ → _) ∧ (_ ∨ _ → _)))
  | .driver _ | .receive _ _ _ _ | .pin => inferInstanceAs (Decidable (_ ∧ True))

/-! ## Sizes -/

/-- The most frames that a buffer is sized for. -/
def maxFrames : ℕ := 17179864

theorem bufferFrames_le {s : Stream StampedByte} (h : 0 ≤ s.frequency.toInt) :
    s.bufferFrames.toNat ≤ maxFrames := by
  have hrate : s.frequency.toUInt32.toNat < 2 ^ 31 := by
    have hlt := s.frequency.toInt_lt
    have hnat := toNat_toUInt32 s.frequency
    omega
  have hframes := toNat_framesPerBuffer initialLatency s.frequency.toUInt32
  rw [toNat_quotient, if_pos hrate] at hframes
  change (framesPerBuffer _ _ s.frequency.toUInt32.toInt32).toNat ≤ _
  rw [hframes]
  have hms : milliseconds initialLatency = 64 := rfl
  have hbuffers : oalBuffers.toNat = 8 := rfl
  rw [hms, hbuffers, maxFrames]
  omega

theorem numChannels_le (l : SpeakerLayout) : l.numChannels ≤ 8 := by
  cases l <;> decide

theorem elementSize_le (b : MediaBitness) : b.elementSize ≤ 4 := by
  cases b <;> decide

variable {p : Platform} {caps : Capabilities} {s t : Playback}

/-- `Mix` returns just the frames it was asked for. -/
theorem Inv.exact (h : s.Inv p) {n : ℕ} (hpc : s.stream.pc = .mix n) {c : MixCall StampedByte}
    {frames : ℕ} (hk : s.mix = some (.returned c frames)) (hframes : c.numFrames ≤ maxFrames) :
    Locals.Exact { s.stream.locals with availableFrames := frames, byteData := c.samples } := by
  have hdescribes := h.describes (by rw [hpc]; rfl)
  have huniform := h.uniform (h.quiet (by simp [hpc, Pc.compared]))
  have hmixing := h.mixing
  simp only [Mixing, hpc, hk] at hmixing
  obtain ⟨⟨hready, hbytes, hchannels, hreturn⟩, -⟩ := hmixing
  have hnum : s.mixer.nChannels.toNat = s.stream.locals.pastSpeakerLayout.numChannels := by
    rw [← hdescribes.channels]
    exact congrArg UInt16.toNat huniform.nChannels
  have hsize : c.numBytesPerSample = s.stream.locals.pastBitness.elementSize := by
    have hw : s.mixer.nBitsPerSample = s.pin.connectionFormat.wBitsPerSample :=
      huniform.nBitsPerSample
    have hb := hdescribes.bits
    rw [← hw, hready.bits] at hb
    omega
  have hfew : c.numFrames * s.mixer.nChannels.toNat * c.numBytesPerSample ≤
      maxFrames * 8 * 4 := by
    rw [hnum, hsize]
    exact Nat.mul_le_mul (Nat.mul_le_mul hframes (numChannels_le _)) (elementSize_le _)
  have hfits : c.numFrames * s.mixer.nChannels.toNat * c.numBytesPerSample < 2 ^ 31 :=
    lt_of_le_of_lt hfew (by decide)
  have hdesired : s.mixer.desiredBytes =
      c.numFrames * s.mixer.nChannels.toNat * c.numBytesPerSample := by
    have hword := Stream.two_pow_le_sizeBits p
    rw [hready.desired, Platform.toSizeT_of_lt (by omega)]
  have hpos : 0 < s.mixer.nChannels.toNat := Nat.pos_of_ne_zero fun hz =>
    hchannels (UInt16.toNat_inj.mp hz)
  refine ⟨?_, ?_⟩
  · change c.samples.length = frames * getFrameSize _ _
    rw [hready.size, hreturn, hdesired, Nat.mul_div_cancel _ (Nat.pos_of_ne_zero hbytes),
      Nat.mul_div_cancel _ hpos, getFrameSize, ← hnum, ← hsize, Nat.mul_assoc]
  · change c.samples.length < 2 ^ 31
    rw [hready.size, hdesired]
    exact hfits

/-! ## The invariant -/

/-- The audio `l` is in `accepted` in its order, and is all of it unless some was discarded. -/
structure Preserved (discarded : Bool) (l accepted : List StampedByte) : Prop where
  sublist : l.Sublist accepted
  complete : discarded = false → l = accepted

/-- What holds of a playback and its history. -/
structure Heard (p : Platform) (x : Playback × Hearing) : Prop where
  inv : x.1.Inv p
  frames : x.1.stream.locals.framesPerBuffer.toNat ≤ maxFrames
  asked : ∀ k, x.1.mix = some k → k.numFrames ≤ maxFrames
  sized : x.1.stream.Sized
  coming : x.1.stream.AllReceived
  heard : ∀ call ∈ x.2.heard, call.Received
  preserved : Preserved x.2.discarded
    (x.2.heard.flatMap BufferDataCall.bytes ++ x.1.underway p) x.2.accepted

theorem Init.heard (h : s.Init) : Heard p (s, { accepted := s.mixer.sampleQueue }) := by
  have hpc := h.starts.pc
  have hwaiting : s.stream.waiting = [] := by
    simp [Stream.waiting, Ring.unplayed, Stream.ring, hpc, Pc.phase, Phase.HasSource]
  refine ⟨h.inv, ?_, by simp [h.mix], ?_, ?_, List.forall_mem_nil _, ?_⟩
  · simp [h.starts.locals]
  · simp [Stream.Sized, hpc]
  · simp [Stream.AllReceived, hwaiting, Stream.filling, hpc]
  · have hunderway : s.underway p = s.mixer.sampleQueue := by
      simp [underway, hwaiting, Stream.inHand, hpc, mixed, h.mix, arriving, h.receiving]
    exact ⟨by simp [hunderway], fun _ => by simp [hunderway]⟩

variable {g : Hearing}

/-- What follows once some of the audio is discarded. -/
theorem Preserved.discard {d : Bool} {l l' acc : List StampedByte} (h : Preserved d l acc)
    (hsub : l'.Sublist l) : Preserved true l' acc :=
  ⟨hsub.trans h.sublist, nofun⟩

theorem Preserved.congr {d : Bool} {l l' acc : List StampedByte} (h : Preserved d l acc)
    (heq : l' = l) : Preserved d l' acc := heq ▸ h

/-- Nothing is discarded that is all there. -/
theorem Preserved.weaken {d : Bool} {l acc : List StampedByte} (h : Preserved d l acc)
    (d' : Bool) : Preserved (d || d') l acc :=
  ⟨h.sublist, fun hd => h.complete (Bool.or_eq_false_iff.mp hd).1⟩

/-- A step of the loop outside `Mix`, or its return. -/
theorem Heard.stream (h : Heard p (s, g)) {c : Choice StampedByte} {u : Stream StampedByte}
    (hg : s.Enters → s.receiving.underway = false)
    (hplay : s.stream.pc = .play → s.stream.al.played s.stream.source = 0)
    (hrate : s.stream.pc = .computeFrames ∨ s.stream.pc = .recomputeFrames →
      0 ≤ s.stream.frequency.toInt)
    (hfilled : ∀ n, s.stream.pc = .mix n →
      Locals.Filled { s.stream.locals with availableFrames := c.frames, byteData := c.data })
    (hexact : ∀ n, s.stream.pc = .mix n →
      Locals.Exact { s.stream.locals with availableFrames := c.frames, byteData := c.data })
    (htakes : s.mixed = s.stream.takes c) (hs : s.stream.loopStep c = some u) :
    Heard p ({ s with stream := u, mix := none },
      { g with discarded := g.discarded || s.stream.discards }) := by
  have hinv := h.inv.stream hg hfilled hs
  obtain ⟨hsized, hhand⟩ := Stream.inHand_loopStep h.inv.prepared h.sized h.inv.tracked
    h.inv.compared hexact hs
  have hwaiting := Stream.waiting_loopStep h.inv.tracked hs hplay
  refine ⟨hinv, ?_, by simp, hsized, ?_, h.heard, ?_⟩
  · by_cases hpc : s.stream.pc = .computeFrames ∨ s.stream.pc = .recomputeFrames
    · rcases Stream.loopStep_framesPerBuffer hs with heq | ⟨-, heq⟩
      · exact heq ▸ bufferFrames_le (hrate hpc)
      · exact heq ▸ h.frames
    · obtain ⟨hne, hne'⟩ := not_or.mp hpc
      exact Stream.framesPerBuffer_of_ne hs hne hne' ▸ h.frames
  · exact h.coming.loopStep h.inv.tracked hinv.prepared hs hplay
  · have hmixed : mixed { s with stream := u, mix := none } = [] := rfl
    have harriving : arriving p { s with stream := u, mix := none } = s.arriving p := rfl
    have hmoved : s.stream.queues.toList.flatMap BufferDataCall.bytes ++ u.inHand =
        s.stream.inHand ++ s.mixed := by
      rw [htakes, ← hhand]
      cases s.stream.queues <;> simp
    dsimp only [underway]
    rw [hmixed, harriving]
    rcases hwaiting with heq | ⟨hdiscards, hnone, hnil⟩
    · refine (h.preserved.congr ?_).weaken _
      simp only [underway, heq, List.flatMap_append, List.append_assoc, List.nil_append]
      rw [← List.append_assoc _ u.inHand, hmoved, List.append_assoc]
    · rw [hnone, Option.toList_none, List.flatMap_nil, List.nil_append] at hmoved
      rw [hdiscards, Bool.or_true]
      refine h.preserved.discard ?_
      simp only [underway, hnil, hmoved, List.flatMap_nil, List.nil_append, List.append_assoc]
      exact (List.sublist_append_right _ _).append_left _

/-- A step inside `Mix`. -/
theorem Heard.consume (h : Heard p (s, g)) {n : ℕ} (hpc : s.stream.pc = .mix n)
    {k k' : Consumer StampedByte} {m : Mixer StampedByte} (hk : s.mix = some k)
    (hs : k.step p s.mixer = some (k', m)) (d : Bool) :
    Heard p ({ s with mix := some k', mixer := m }, { g with discarded := g.discarded || d }) := by
  have hmixing := h.inv.mixing
  simp only [Mixing, hpc, hk] at hmixing
  obtain ⟨hsame, -, hqueue⟩ := Consumer.step_queue h.inv.streaming hmixing.1 hs
  refine ⟨h.inv.consume hpc hk hs, h.frames, fun k₂ hk₂ => ?_, h.sized, h.coming, h.heard, ?_⟩
  · obtain rfl := Option.some.inj hk₂
    exact (Consumer.numFrames_step hs).trans (h.asked k hk)
  · refine (h.preserved.congr ?_).weaken _
    have hmixed : s.mixed = k.popped := by rw [mixed, hk]; rfl
    have hmixed' : mixed { s with mix := some k', mixer := m } = k'.popped := rfl
    have harriving : arriving p { s with mix := some k', mixer := m } = s.arriving p := by
      unfold arriving
      dsimp only
      rw [hsame.nChannels, hsame.nBitsPerSample]
    dsimp only [underway]
    rw [harriving, hmixed, hmixed', List.append_assoc _ k'.popped, hqueue, ← List.append_assoc _ k.popped]

theorem Heard.loop (h : Heard p (s, g)) {c : Choice StampedByte}
    (hg : s.Enters → s.receiving.underway = false)
    (hplay : s.stream.pc = .play → s.stream.al.played s.stream.source = 0)
    (hrate : s.stream.pc = .computeFrames ∨ s.stream.pc = .recomputeFrames →
      0 ≤ s.stream.frequency.toInt)
    (hs : s.loopStep p c = some t) :
    Heard p (t, { g with discarded := g.discarded || s.stream.discards }) := by
  have hinv := h.inv.loop hg hs
  unfold loopStep at hs
  split at hs
  · next n hpc hk =>
      cases hs
      refine ⟨hinv, h.frames, fun k hk' => ?_, h.sized, h.coming, h.heard, ?_⟩
      · obtain rfl := Option.some.inj hk'
        exact h.frames
      · refine (h.preserved.congr ?_).weaken _
        unfold underway
        rw [mixed, mixed, hk]
        rfl
  · next n call frames hpc hk =>
      obtain ⟨u, hu, rfl⟩ := Option.map_eq_some_iff.mp hs
      refine h.stream hg hplay hrate (fun _ hpc' => h.inv.filled hpc' hk)
        (fun _ hpc' => h.inv.exact hpc' hk (h.asked _ hk)) ?_ hu
      simp [mixed, hk, Stream.takes, hpc, Consumer.popped]
  · next n k _ hpc hk =>
      obtain ⟨⟨k', m⟩, hstep, rfl⟩ := Option.map_eq_some_iff.mp hs
      exact h.consume hpc hk hstep _
  · next hnone _ hsome =>
      obtain ⟨u, hu, rfl⟩ := Option.map_eq_some_iff.mp hs
      have hout : ∀ n, s.stream.pc ≠ .mix n := by
        intro n hpc
        cases hk : s.mix with
        | none => exact hnone n hpc hk
        | some k => exact hsome n k hpc hk
      have hmix := h.inv.mixing.eq_none hout
      have htakes : s.mixed = s.stream.takes c := by
        rw [mixed, hmix]
        unfold Stream.takes
        split
        · next n hpc => exact absurd hpc (hout n)
        · rfl
      have hresult := h.stream hg hplay hrate (fun n hpc => absurd hpc (hout n))
        (fun n hpc => absurd hpc (hout n)) htakes hu
      rwa [← hmix] at hresult

/-! ### Steps of the driver and of the streaming thread -/

theorem Heard.driver (h : Heard p (s, g)) {n : ℕ} {al : OpenAL StampedByte}
    (hf : s.stream.al.finish n = some al) :
    Heard p ({ s with stream := s.stream.setAl al },
      { g with heard := g.heard ++ (s.stream.playing n).toList }) := by
  have hwaiting := Stream.waiting_finish hf
  obtain ⟨hhand, hfilling⟩ := Stream.inHand_setAl hf
  refine ⟨h.inv.driver hf, h.frames, h.asked, h.sized, ?_, ?_, ?_⟩
  · intro call hcall
    refine h.coming call ?_
    rw [hwaiting, List.append_assoc]
    exact List.mem_append_right _ (hfilling ▸ hcall)
  · refine List.forall_mem_append.mpr ⟨h.heard, fun call hcall => h.coming call ?_⟩
    rw [hwaiting, List.append_assoc]
    exact List.mem_append_left _ hcall
  · refine h.preserved.congr ?_
    simp only [underway, hwaiting, hhand, List.flatMap_append, List.append_assoc]
    rfl

/-- A step of the streaming thread that changes neither the stream nor the call of `Mix`. -/
theorem Heard.pin_step (h : Heard p (s, g)) (hinv : t.Inv p) (hstream : t.stream = s.stream)
    (hmix : t.mix = s.mix) {more : List StampedByte}
    (hmoved : t.mixer.sampleQueue ++ t.arriving p =
      s.mixer.sampleQueue ++ s.arriving p ++ more) :
    Heard p (t, { g with accepted := g.accepted ++ more }) := by
  refine ⟨hinv, hstream ▸ h.frames, hmix ▸ h.asked, hstream ▸ h.sized, hstream ▸ h.coming,
    h.heard, ?_, fun hd => ?_⟩
  all_goals
    have hunderway : t.underway p = s.underway p ++ more := by
      unfold underway mixed
      rw [hstream, hmix, List.append_assoc _ t.mixer.sampleQueue, hmoved]
      simp only [List.append_assoc]
    dsimp only
    rw [hunderway, ← List.append_assoc]
  · exact h.preserved.sublist.append (.refl _)
  · rw [h.preserved.complete hd]

theorem Heard.write (h : Heard p (s, g)) {begun : Bool} {x : Write} {rest : List Write}
    {sample : Option (MediaSample UInt8)} (hr : s.receiving = .processing begun (x :: rest) sample)
    (hzero : s.stream.pc.compared = 0) :
    Heard p ({ s.setFilter (s.filter.write x) with receiving := .processing true rest sample },
      note p g s .pin t) := by
  have hinv := h.inv.write hr hzero
  have harriving : s.arriving p = [] := by simp only [arriving, hr]
  cases x with
  | clearQueue =>
      have hnote : note p g s .pin t = { g with discarded := true } := by simp only [note, hr]
      rw [hnote]
      refine ⟨hinv, h.frames, h.asked, h.sized, h.coming, h.heard, h.preserved.discard ?_⟩
      refine List.Sublist.append_left ?_ _
      change (s.stream.waiting.flatMap _ ++ s.stream.inHand ++ s.mixed ++ [] ++ []).Sublist
        (s.stream.waiting.flatMap _ ++ s.stream.inHand ++ s.mixed ++ _ ++ _)
      simp only [List.append_assoc, List.append_nil]
      exact ((List.sublist_append_left _ _).append_left _).append_left _
  | _ =>
      have hnote : note p g s .pin t = g := by simp only [note, hr]
      rw [hnote]
      refine ⟨hinv, h.frames, h.asked, h.sized, h.coming, h.heard, h.preserved.congr ?_⟩
      simp only [underway, harriving]
      rfl

theorem Heard.pin (h : Heard p (s, g)) (hg : s.receiving.rest ≠ [] → s.stream.pc.compared = 0)
    (hs : s.receiveStep p = some t) : Heard p (t, note p g s .pin t) := by
  have hinv := h.inv.pin hg hs
  unfold receiveStep at hs
  split at hs
  · cases hs
  · next begun x rest sample hr =>
      cases hs
      exact h.write hr (hg (by simp [hr, Receiving.rest]))
  · next begun hr =>
      cases hs
      have hnote : ∀ t, note p g s .pin t = { g with accepted := g.accepted ++ [] } := by
        simp [note, hr]
      rw [hnote]
      exact h.pin_step hinv rfl rfl (by simp [arriving, hr])
  · next begun sample hr =>
      cases hs
      have hnote : ∀ t, note p g s .pin t =
          { g with accepted := g.accepted ++ s.cut p sample } := by simp [note, hr]
      rw [hnote]
      exact h.pin_step hinv rfl rfl (by simp [arriving, hr, cut, Producer.pending])
  · next hr =>
      cases hs
      have hnote : ∀ t, note p g s .pin t = { g with accepted := g.accepted ++ [] } := by
        simp [note, hr]
      rw [hnote]
      exact h.pin_step hinv rfl rfl (by simp [arriving, hr, Producer.pending])
  · next a _ hr =>
      obtain ⟨⟨a', m⟩, hstep, rfl⟩ := Option.map_eq_some_iff.mp hs
      obtain ⟨hsame, -, hqueue, -⟩ := Producer.step_queue h.inv.streaming hstep
      have hnote : ∀ t, note p g s .pin t = { g with accepted := g.accepted ++ [] } := by
        simp [note, hr]
      rw [hnote]
      refine h.pin_step hinv rfl rfl ?_
      simp only [arriving, hr, hsame.nChannels, hsame.nBitsPerSample, List.append_nil]
      exact hqueue

theorem Heard.next (h : Heard p (s, g)) {a : Label} (hg : Plays caps (s, g) a)
    (hs : s.next p caps a = some t) : Heard p (t, note p g s a t) := by
  cases a with
  | loop c => exact h.loop hg.1 hg.2.1 hg.2.2 hs
  | driver n =>
      obtain ⟨al, hf, rfl⟩ := Option.map_eq_some_iff.mp hs
      exact h.driver hf
  | receive r e e' sample =>
      have hinv := h.inv.next hg.1 hs
      simp only [Playback.next] at hs
      split at hs
      · next hidle =>
          obtain ⟨q, hq, rfl⟩ := Option.map_eq_some_iff.mp hs
          have hnote : ∀ t, note p g s (.receive r e e' sample) t =
            { g with accepted := g.accepted ++ [] } := by simp [note]
          rw [hnote]
          exact h.pin_step hinv rfl rfl (by simp [arriving, hidle])
      · cases hs
  | pin => exact h.pin hg.1 hs

theorem heard_of_reachable {x : Playback × Hearing}
    (h : (audition p caps).ReachableWhere (Plays caps) x) : Heard p x := by
  refine h.invariant ?_ ?_
  · rintro ⟨s, g⟩ ⟨hinit, hg⟩
    dsimp only at hg
    subst hg
    exact hinit.heard
  · rintro ⟨s, g⟩ a x hI hg hs
    obtain ⟨t, ht, rfl⟩ := Option.map_eq_some_iff.mp hs
    exact hI.next hg ht

/-- As long as playback is undisturbed and the source never runs dry between two queries, every
byte heard was accepted under the format it is played in, and is heard once, in the order in which
it was accepted; until audio is discarded, what has not been heard is still underway. -/
theorem heard_in_order (p : Platform) (caps : Capabilities) (x : Playback × Hearing)
    (h : (audition p caps).ReachableWhere (Plays caps) x) :
    (∀ call ∈ x.2.heard, call.Received) ∧
      (x.2.heard.flatMap BufferDataCall.bytes ++ x.1.underway p).Sublist x.2.accepted ∧
      (x.2.discarded = false →
        x.2.heard.flatMap BufferDataCall.bytes ++ x.1.underway p = x.2.accepted) :=
  have hheard := heard_of_reachable h
  ⟨hheard.heard, hheard.preserved.sublist, hheard.preserved.complete⟩

/-- A sample of 64 frames is received, mixed, queued and played. -/
theorem heard_in_order_mono8 : ∃ x : Playback × Hearing,
    (x.2.heard.flatMap BufferDataCall.bytes).length = 64 ∧
      (∀ call ∈ x.2.heard, call.Received) ∧
      x.2.heard.flatMap BufferDataCall.bytes ++ x.1.underway .x64 = x.2.accepted := by
  have hrun : (System.exec (System.record (next .x64 ⟨false, false, false⟩) (note .x64))
      (Plays ⟨false, false, false⟩) (mono8, {})
      ([.receive {} Filter.zeroes Filter.zeroes { data := ⟨List.replicate 64 1, by simp⟩ }] ++
        List.replicate 75 .pin ++ prologue ++ List.replicate 78 (.loop {}) ++ arguments ++
        List.replicate 7 (.loop {}) ++ [.driver 1])).any
      fun x => (x.2.heard.flatMap BufferDataCall.bytes).length = 64 ∧ x.2.discarded = false := by
    decide +kernel
  have hbegins : Begins (mono8, {}) := ⟨mono8_init, rfl⟩
  obtain ⟨x, hx, hlength, hdiscarded⟩ := System.exists_reachableWhere_of_exec _ hbegins hrun
  obtain ⟨hreceived, -, hall⟩ := heard_in_order .x64 _ x hx
  exact ⟨x, hlength, hreceived, hall hdiscarded⟩

end Playback

end OpenALRenderer
