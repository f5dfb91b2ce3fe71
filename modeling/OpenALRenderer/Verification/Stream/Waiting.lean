import OpenALRenderer.Verification.Stream.BufferSizing
import OpenALRenderer.Verification.Stream.Preparation

/-! # The audio on its way from `Mix` to the driver

What `SoundLoop` has taken from the mixer is in its hands until the buffer that holds it is queued,
and then waits on the source until the driver has played it. -/

namespace OpenALRenderer

variable {β : Type*}

/-! ## Names -/

namespace Ring

/-- The buffers queued on the source that the driver has still to play. -/
def unplayed (r : Ring) : List ℕ :=
  if r.phase.HasSource then r.source.queue.drop r.source.played else []

variable {r r' : Ring}

theorem unplayed_of_phase {p : Phase} (hp : r.phase = p) (hs : p.HasSource) :
    r.unplayed = r.source.queue.drop r.source.played := if_pos (hp ▸ hs)

theorem unplayed_of_empty (h : r.source.queue = []) : r.unplayed = [] := by
  simp [unplayed, h]

theorem mem_queue_of_mem_unplayed {b : ℕ} (h : b ∈ r.unplayed) :
    r.phase.HasSource ∧ b ∈ r.source.queue := by
  unfold unplayed at h
  split at h
  · next hp => exact ⟨hp, List.mem_of_mem_drop h⟩
  · cases h

theorem unplayed_mk {p : Phase} {src : Source} {names : List ℕ} {queued next : UInt32}
    {processed : ℕ} (hs : p.HasSource) :
    unplayed ⟨p, src, names, queued, next, processed⟩ = src.queue.drop src.played := if_pos hs

/-- A step that leaves the source alone leaves the same names unplayed. -/
theorem unplayed_keep {p p' : Phase} {names : List ℕ} {queued next : UInt32} {processed : ℕ}
    (hp : r.phase = p) (hs : p.HasSource) (hs' : p'.HasSource) :
    unplayed ⟨p', r.source, names, queued, next, processed⟩ = r.unplayed := by
  rw [unplayed_mk hs', unplayed_of_phase hp hs]

/-- What a step of the loop does to the names on their way to the driver. -/
inductive Moves (r r' : Ring) : Prop where
  | keep (hne : r.phase = .room → r'.phase ≠ .appended) (h : r'.unplayed = r.unplayed)
  | append (hp : r.phase = .room) (hp' : r'.phase = .appended)
      (h : r'.unplayed = r.unplayed ++ [r.nextName])
  | drop (hp : r'.phase = .stopped ∨ r'.phase = .emptied) (hne : r'.phase ≠ r.phase)
      (h : r'.unplayed = [])

/-- Nothing waiting is lost but by stopping the source, and nothing is played again unless
`alSourcePlay` finds processed buffers. -/
theorem Step.moves (h : Step r r') (hc : r.Counted)
    (hempty : r'.phase = .emptied → r'.source.queue = [])
    (hplay : r.phase = .stalled → r.source.played = 0) : r.Moves r' := by
  cases h with
  | idle => exact .keep (by simp +contextual) rfl
  | forget source names hp | name names hp => 
      exact .keep (by simp [hp]) (by simp [unplayed, hp, Phase.HasSource])
  | create hp => exact .keep (by simp [hp]) (by simp [unplayed, hp, Phase.HasSource, Source.fresh])
  | stop hp =>
      by_cases hinit : r.source.state = .initial
      · have hsrc : r.source.stop = r.source := by simp [Source.stop, hinit]
        rw [hsrc]
        exact .keep (by simp [hp]) (unplayed_keep hp (by decide) (by decide))
      · refine .drop (.inl rfl) (by simp [hp]) ((unplayed_mk (by decide)).trans ?_)
        simp [Source.stop, hinit]
  | detach hp => exact .drop (.inr rfl) (by simp [hp]) (unplayed_of_empty (hempty rfl))
  | unqueue hp =>
      simp only [Counted, hp] at hc
      refine .keep (by simp [hp]) ((unplayed_mk (by decide)).trans ?_)
      rw [unplayed_of_phase hp (by decide)]
      simp only [Source.queue_unqueue hc.2.2.1, Source.played_unqueue hc.2.2.1, List.drop_drop,
        Nat.add_sub_cancel' hc.2.2.1]
  | enqueue hp =>
      refine .append hp rfl ((unplayed_mk (by decide)).trans ?_)
      rw [unplayed_of_phase hp (by decide)]
      exact List.drop_append_of_le_length r.source.played_le
  | play hp =>
      refine .keep (by simp [hp]) ((unplayed_mk (by decide)).trans ?_)
      rw [unplayed_of_phase hp (by decide)]
      simp only [Source.queue_play, hplay hp]
      unfold Source.play
      split
      · rw [hplay hp]
      · rfl
  | delete hp | rename _ hp | reset hp | poll hp | full hp | ready hp | take hp
  | countUnqueued hp | giveUp hp | countQueued hp | running hp | stall hp =>
      exact .keep (by simp [hp]) (unplayed_keep hp (by decide) (by decide))

/-- The driver plays the first of the names it has not played yet. -/
theorem unplayed_finish {src : Source} (hf : r.source.finish = some src)
    (hp : r.phase.HasSource) :
    r.unplayed.head? = r.source.queue[r.source.played]? ∧
      unplayed { r with source := src } = r.unplayed.tail := by
  obtain ⟨-, hqueue, hplayed, -⟩ := Source.finish_eq_some hf
  rw [unplayed_of_phase rfl hp, List.head?_drop]
  refine ⟨rfl, (unplayed_mk hp).trans ?_⟩
  rw [hqueue, hplayed, List.tail_drop]

end Ring

/-! ## Bytes -/

/-- The bytes that OpenAL reads in a call. -/
def BufferDataCall.bytes (call : BufferDataCall β) : List β := call.data.take call.size.toNat

theorem Pc.eq_play {pc : Pc β} (h : pc.phase = .stalled) : pc = .play := by
  cases pc with
  | play => rfl
  | check x | report x => cases x <;> cases h
  | _ => cases h

namespace Stream

/-- What the buffers that wait on the source were filled with. -/
def waiting (s : Stream β) : List (BufferDataCall β) := s.ring.unplayed.filterMap fun b => s.al.data b

/-- The bytes that the loop has taken from the mixer and not queued yet. -/
def inHand (s : Stream β) : List β :=
  match s.pc with
  | .arguments _ | .getEnumValue _ _ => s.locals.byteData
  | .bufferData call => call.bytes
  | .check .buffering | .report .buffering | .queueBuffer =>
      (s.al.data s.nextName).elim [] BufferDataCall.bytes
  | _ => []

/-- The call that fills a buffer, until the buffer is queued. -/
def filling (s : Stream β) : Option (BufferDataCall β) :=
  match s.pc with
  | .bufferData call => some call
  | .check .buffering | .report .buffering | .queueBuffer => s.al.data s.nextName
  | _ => none

/-- The loop is about to stop its source, or to take the buffers from it. -/
def discards (s : Stream β) : Bool :=
  match s.pc with
  | .stopSource | .detachBuffers => true
  | _ => false

variable {s t : Stream β} {c : Choice β}

theorem discards_of_phase (hs : s.loopStep c = some t)
    (hp : t.ring.phase = .stopped ∨ t.ring.phase = .emptied) (hne : t.ring.phase ≠ s.ring.phase) :
    s.discards = true := by
  have hnext := follows_loopStep hs
  unfold discards
  change t.pc.phase = .stopped ∨ t.pc.phase = .emptied at hp
  change t.pc.phase ≠ s.pc.phase at hne
  generalize s.pc = pc at *
  generalize t.pc = pc' at *
  cases hnext with
  | stopSource | detachBuffers => rfl
  | check x => exact absurd rfl hne
  | check_none x _ hnext | report x _ hnext =>
      subst hnext
      exact absurd x.phase_next hne
  | _ => rcases hp with hp | hp <;> cases hp

/-- A step of the loop changes no data of a buffer that waits. -/
theorem data_of_mem_unplayed (hr : s.Tracked) (hs : s.loopStep c = some t) {b : ℕ}
    (hb : b ∈ s.ring.unplayed) : t.al.data b = s.al.data b := by
  obtain ⟨hp, hmem⟩ := Ring.mem_queue_of_mem_unplayed hb
  have hempty := fun hphase => List.ne_nil_of_mem hmem (hr.owned.emptied hphase)
  refine data_loopStep hs ⟨?_, ?_, ?_⟩ ?_
  · exact fun hpc => hp.2.1 (congrArg Pc.phase hpc)
  · exact fun hpc => hempty (.inr (.inl (congrArg Pc.phase hpc)))
  · exact fun hpc => hempty (.inl (congrArg Pc.phase hpc))
  · rintro call hpc rfl
    exact hr.ringSpec.unattached call hpc (s.queue_source ▸ hmem)

/-- What the loop queues in its next step. -/
def queues (s : Stream β) : Option (BufferDataCall β) :=
  match s.pc with
  | .queueBuffer => s.al.data s.nextName
  | _ => none

theorem filling_of_queues {call : BufferDataCall β} (h : s.queues = some call) :
    s.filling = some call := by
  unfold queues at h
  split at h
  · next hpc => simp only [filling, hpc, h]
  · cases h

theorem phase_of_queueBuffer (hs : s.loopStep c = some t) (hpc : s.pc = .queueBuffer) :
    t.ring.phase = .appended := by
  have hnext := follows_loopStep hs
  rw [hpc] at hnext
  change t.pc.phase = .appended
  generalize t.pc = pc' at hnext
  cases hnext
  rfl

/-- What a step of the loop does to the buffers on their way to the driver. -/
theorem waiting_loopStep (hr : s.Tracked) (hs : s.loopStep c = some t)
    (hplay : s.pc = .play → s.al.played s.source = 0) :
    t.waiting = s.waiting ++ s.queues.toList ∨
      s.discards = true ∧ s.queues = none ∧ t.waiting = [] := by
  obtain ⟨howned, hstep⟩ := hr.owned.loopStep hs
  have hplay' : s.ring.phase = .stalled → s.ring.source.played = 0 := by
    intro hp
    rw [← (hr.owned.holds hp (by decide) (by decide)).played]
    exact hplay (Pc.eq_play hp)
  have hqueues : s.pc ≠ .queueBuffer → s.queues = none := by
    intro hpc
    unfold queues
    split
    · next h => exact absurd h hpc
    · rfl
  cases hstep.moves hr.counted (fun hp => howned.emptied (.inl hp)) hplay' with
  | keep hne h =>
      have hpc : s.pc ≠ .queueBuffer :=
        fun hpc => hne (congrArg Pc.phase hpc) (phase_of_queueBuffer hs hpc)
      left
      rw [hqueues hpc]
      unfold waiting
      rw [h, Option.toList_none, List.append_nil]
      exact List.filterMap_congr fun b hb => data_of_mem_unplayed hr hs hb
  | append hp hp' h =>
      have hpc := (follows_loopStep hs).eq_queueBuffer hp hp'
      left
      unfold waiting
      rw [h, List.filterMap_append,
        List.filterMap_congr fun b hb => data_of_mem_unplayed hr hs hb]
      have hdata : t.al.data s.nextName = s.al.data s.nextName :=
        data_loopStep hs (by simp [hpc]) (by simp [hpc])
      have hname : s.ring.nextName = s.nextName := rfl
      simp only [queues, hpc, hname]
      cases hcall : s.al.data s.nextName <;> simp [hdata, hcall]
  | drop hp hne h =>
      have hdiscards := discards_of_phase hs hp hne
      refine .inr ⟨hdiscards, hqueues fun hpc => ?_, by simp [waiting, h]⟩
      simp [discards, hpc] at hdiscards

end Stream

/-! ## From the return of `Mix` to the queue -/

/-- `byte_data` holds just the frames that `Mix` has reported, and no more than an `ALsizei` can
count. -/
structure Locals.Exact (l : Locals β) : Prop where
  length : l.byteData.length = l.availableFrames * getFrameSize l.pastSpeakerLayout l.pastBitness
  fits : l.byteData.length < 2 ^ 31

/-- Once every operand is there, the call reads all of `byte_data`. -/
theorem Operands.Past.bytes {l : Locals β} {o : Operands} (h : o.Past l) (hl : l.Exact)
    {call : BufferDataCall β} (hc : o.call l.availableFrames l.byteData = some call) :
    call.bytes = l.byteData := by
  unfold Operands.call at hc
  split at hc
  · next format layout bitness frequency h₁ h₂ h₃ h₄ =>
      obtain rfl := Option.some.inj hc
      have hsize : l.availableFrames * getFrameSize layout bitness = l.byteData.length := by
        rw [h.sizeLayout _ h₂, h.sizeBitness _ h₃, hl.length]
      simp [BufferDataCall.bytes, hsize, toALsizei_of_lt hl.fits]
  · cases hc

namespace Stream

/-- While the arguments of `alBufferData` are evaluated, `byte_data` is exact. -/
def Sized (s : Stream β) : Prop :=
  match s.pc with
  | .arguments _ | .getEnumValue _ _ => s.locals.Exact
  | _ => True

/-- What the loop takes from the mixer in its next step. -/
def takes (c : Choice β) (s : Stream β) : List β :=
  match s.pc with
  | .mix _ => c.data
  | _ => []

theorem inHand_operands {s : Stream β} {o : Operands} (ho : o.Past s.locals)
    (hl : s.locals.Exact) :
    (s.goto (o.pc s.locals.availableFrames s.locals.byteData)).Sized ∧
      (s.goto (o.pc s.locals.availableFrames s.locals.byteData)).inHand = s.locals.byteData := by
  unfold Operands.pc
  split
  · next call hcall => exact ⟨trivial, ho.bytes hl hcall⟩
  · exact ⟨hl, rfl⟩

variable {s t : Stream StampedByte} {c : Choice StampedByte}

/-- Evaluating an operand keeps what has been mixed. -/
theorem inHand_evaluate {o : Operands} {x : Operand} (hc : s.Compared)
    (hpc : s.pc.compared = 3) (ho : o.Past s.locals) (hl : s.locals.Exact)
    (hs : s.evaluate o x = some t) : t.Sized ∧ t.inHand = s.locals.byteData := by
  have hfrequency := hc.frequency (by omega)
  have hbitness := hc.bitness (by omega)
  have hlayout := hc.speakerLayout (by omega)
  cases x <;> simp only [evaluate] at hs <;> split at hs <;> cases hs
  case formatLayout => exact inHand_operands { ho with formatLayout := by simp [hlayout] } hl
  case formatBitness => exact inHand_operands { ho with formatBitness := by simp [hbitness] } hl
  case h_1 => exact ⟨hl, rfl⟩
  case sizeLayout => exact inHand_operands { ho with sizeLayout := by simp [hlayout] } hl
  case sizeBitness => exact inHand_operands { ho with sizeBitness := by simp [hbitness] } hl
  case frequency => exact inHand_operands { ho with frequency := by simp [hfrequency] } hl

/-- A step that queues nothing and takes nothing keeps what is in hand. -/
theorem inHand_of_idle (hqueues : s.queues = none) (htakes : s.takes c = [])
    (h : t.Sized ∧ t.inHand = s.inHand) : t.Sized ∧
      s.queues.elim [] BufferDataCall.bytes ++ t.inHand = s.inHand ++ s.takes c := by
  rw [hqueues, htakes, List.append_nil]
  exact h

/-- Around an error check the loop has filled the next buffer, or nothing. -/
theorem Checking.filling {e : Check} (h : s.Checking e) :
    s.filling = if e = .buffering then s.al.data s.nextName else none := by
  unfold Stream.filling
  rcases h with hpc | hpc | hpc <;> rw [hpc] <;> cases e <;> rfl

theorem Checking.inHand {e : Check} (h : s.Checking e) :
    s.inHand = s.filling.elim [] BufferDataCall.bytes := by
  unfold Stream.inHand Stream.filling
  rcases h with hpc | hpc | hpc <;> rw [hpc] <;> cases e <;> rfl

theorem Checking.sized {e : Check} (h : s.Checking e) : s.Sized := by
  unfold Sized
  rcases h with hpc | hpc | hpc <;> rw [hpc] <;> cases e <;> trivial

/-- An error check fills nothing and queues nothing. -/
theorem filling_check {e : Check} (hpc : s.pc = .check e ∨ s.pc = .report e)
    (hs : s.loopStep c = some t) : t.filling = s.filling := by
  have hchecking : s.Checking e := hpc.imp_right .inl
  obtain ⟨hnext, -, hname, hdata⟩ := checking_loopStep hpc hs
  rw [hnext.filling, hchecking.filling, hname, hdata]

theorem inHand_check {e : Check} (hpc : s.pc = .check e ∨ s.pc = .report e)
    (hs : s.loopStep c = some t) : t.Sized ∧
      s.queues.elim [] BufferDataCall.bytes ++ t.inHand = s.inHand ++ s.takes c := by
  have hchecking : s.Checking e := hpc.imp_right .inl
  have hnext := (checking_loopStep hpc hs).1
  refine inHand_of_idle ?_ ?_ ⟨hnext.sized, ?_⟩
  · rcases hpc with hpc | hpc <;> simp only [queues, hpc]
  · rcases hpc with hpc | hpc <;> simp only [takes, hpc]
  · rw [hnext.inHand, hchecking.inHand, filling_check hpc hs]

/-- What a step of the loop takes from the mixer is in its hands, until it queues it. -/
theorem inHand_loopStep (h : s.Prepared) (hsized : s.Sized) (hr : s.Tracked) (hc : s.Compared)
    (hmix : ∀ n, s.pc = .mix n →
      Locals.Exact { s.locals with availableFrames := c.frames, byteData := c.data })
    (hs : s.loopStep c = some t) :
    t.Sized ∧
      s.queues.elim [] BufferDataCall.bytes ++ t.inHand = s.inHand ++ s.takes c := by
  cases hpc : s.pc with
  | queueBuffer =>
      have hnext := follows_loopStep hs
      rw [hpc] at hnext
      generalize hpc' : t.pc = pc' at hnext
      unfold Sized inHand takes queues
      cases hnext
      simp only [hpc, hpc', and_self]
  | mix n =>
      have hexact := hmix n hpc
      have hqueues : s.queues = none := by simp only [queues, hpc]
      have hin : s.inHand = [] := by simp only [inHand, hpc]
      have htakes : s.takes c = c.data := by simp only [takes, hpc]
      rw [hqueues, hin, htakes]
      simp only [Stream.loopStep, Stream.call, Stream.advance, hpc, Option.some.injEq] at hs
      subst hs
      split
      · next hzero =>
          refine ⟨trivial, ?_⟩
          have hlen := hexact.length
          simp only [hzero, Nat.zero_mul] at hlen
          exact (List.eq_nil_of_length_eq_zero hlen).symm
      · exact ⟨hexact, rfl⟩
  | arguments o =>
      have hin : s.inHand = s.locals.byteData := by simp only [inHand, hpc]
      refine inHand_of_idle (by simp only [queues, hpc]) (by simp only [takes, hpc]) ?_
      rw [hin]
      simp only [Prepared, hpc] at h
      simp only [Sized, hpc] at hsized
      simp only [Stream.loopStep, Stream.call, Stream.advance, hpc] at hs
      exact inHand_evaluate hc (by rw [hpc]; rfl) h.2 hsized hs
  | getEnumValue o name =>
      have hin : s.inHand = s.locals.byteData := by simp only [inHand, hpc]
      refine inHand_of_idle (by simp only [queues, hpc]) (by simp only [takes, hpc]) ?_
      rw [hin]
      simp only [Prepared, hpc] at h
      simp only [Sized, hpc] at hsized
      simp only [Stream.loopStep, Stream.call, hpc] at hs
      split at hs <;> cases hs
      simp only [Stream.resume, pc_setAl, hpc]
      obtain ⟨-, ho, rfl⟩ := h
      exact inHand_operands (s := s.setAl _) (o := { o with format := some _ })
        { ho with format := fun x hx => (Option.some.inj hx).symm } hsized
  | bufferData call =>
      have hdata := data_nextName (c := c) hr hpc
      have hin : s.inHand = call.bytes := by simp only [inHand, hpc]
      refine inHand_of_idle (by simp only [queues, hpc]) (by simp only [takes, hpc]) ?_
      rw [hin]
      simp only [Stream.loopStep, Stream.call, hpc] at hs
      split at hs <;> cases hs
      simp only [Stream.resume, pc_setAl, hpc]
      exact ⟨trivial, congrArg (fun x => x.elim [] BufferDataCall.bytes) hdata⟩
  | check e => exact inHand_check (.inl hpc) hs
  | report e => exact inHand_check (.inr hpc) hs
  | _ =>
      have hnext := follows_loopStep hs
      have hin : s.inHand = [] := by simp only [inHand, hpc]
      refine inHand_of_idle (by simp only [queues, hpc]) (by simp only [takes, hpc]) ?_
      rw [hin]
      rw [hpc] at hnext
      generalize hpc' : t.pc = pc' at hnext
      unfold Sized inHand
      cases hnext <;> simp only [hpc', and_self]

/-! ### The format of what is queued -/

/-- A buffer that is being filled stays filled as it is. -/
theorem filling_loopStep (hr : s.Tracked) (hs : s.loopStep c = some t) :
    t.filling = s.filling ∨ t.filling = none ∨
      ∃ call, t.pc = .bufferData call ∧ t.filling = some call := by
  cases hpc : s.pc with
  | bufferData call =>
      have hdata := data_nextName (c := c) hr hpc
      have hfilling : s.filling = some call := by simp only [filling, hpc]
      simp only [Stream.loopStep, Stream.call, hpc] at hs
      split at hs <;> cases hs
      simp only [Stream.resume, pc_setAl, hpc]
      exact .inl (hfilling ▸ hdata)
  | check e => exact .inl (filling_check (.inl hpc) hs)
  | report e => exact .inl (filling_check (.inr hpc) hs)
  | _ =>
      have hnext := follows_loopStep hs
      rw [hpc] at hnext
      generalize hpc' : t.pc = pc' at hnext
      unfold filling
      cases hnext <;> simp [hpc']

end Stream

/-- Every byte of the call was received under the format that the call passes. -/
def BufferDataCall.Received (call : BufferDataCall StampedByte) : Prop :=
  ∃ l b, call.format = generateFormatString l b ∧
    ∀ x ∈ call.data, x.format.Describes l b call.frequency.toUInt32

theorem Locals.Passes.received {l : Locals StampedByte} {call : BufferDataCall StampedByte}
    (h : l.Passes call) : call.Received :=
  ⟨_, _, h.past.format, h.past.frequency ▸ h.bytes⟩

namespace Stream

variable {s t : Stream StampedByte} {c : Choice StampedByte}

/-- What waits on the source, and what is about to, has the format it was received with. -/
def AllReceived (s : Stream StampedByte) : Prop :=
  ∀ call ∈ s.waiting ++ s.filling.toList, call.Received

theorem AllReceived.loopStep (h : s.AllReceived) (hr : s.Tracked) (ht : t.Prepared)
    (hs : s.loopStep c = some t) (hplay : s.pc = .play → s.al.played s.source = 0) :
    t.AllReceived := by
  have hfilling : ∀ call ∈ t.filling, call.Received := by
    intro call hcall
    rcases filling_loopStep hr hs with heq | hnone | ⟨call', hpc, heq⟩
    · exact h call (List.mem_append_right _ (Option.mem_toList.mpr (heq ▸ hcall)))
    · simp [hnone] at hcall
    · obtain rfl : call' = call := by simpa [heq] using hcall
      simp only [Prepared, hpc] at ht
      exact ht.received
  have hwaiting : ∀ call ∈ t.waiting, call.Received := by
    intro call hcall
    rcases waiting_loopStep hr hs hplay with heq | ⟨-, -, hnil⟩
    · rw [heq] at hcall
      refine (List.mem_append.mp hcall).elim (fun hmem => h call (List.mem_append_left _ hmem))
        fun hmem => h call (List.mem_append_right _ ?_)
      exact Option.mem_toList.mpr (filling_of_queues (Option.mem_toList.mp hmem))
    · simp [hnil] at hcall
  intro call hcall
  exact (List.mem_append.mp hcall).elim (hwaiting call)
    fun hmem => hfilling call (Option.mem_toList.mp hmem)

/-! ### Steps of the driver -/

section

variable {s : Stream β} {n : ℕ} {al : OpenAL β}

/-- What the buffer was filled with that source `n` plays next, when it is the source that this
run of the loop has made. -/
def playing (n : ℕ) (s : Stream β) : Option (BufferDataCall β) :=
  if n = s.source ∧ s.ring.phase.HasSource then
    ((s.al.sources n).bind fun src => src.queue[src.played]?).bind fun b => s.al.data b
  else none

/-- What the driver plays is the first that waits. -/
theorem waiting_finish (hf : s.al.finish n = some al) :
    s.waiting = (s.playing n).toList ++ (s.setAl al).waiting := by
  by_cases hp : s.ring.phase.HasSource
  · obtain ⟨src', hsrc', rfl⟩ := Option.map_eq_some_iff.mp hf
    obtain ⟨src, hsrc, hfin⟩ := Option.bind_eq_some_iff.mp hsrc'
    by_cases hn : n = s.source
    · subst hn
      have hring : s.ring.source = src := by simp [ring, hsrc]
      obtain ⟨hhead, htail⟩ := Ring.unplayed_finish (hring ▸ hfin) hp
      have hplaying : s.playing s.source = s.ring.unplayed.head?.bind fun b => s.al.data b := by
        rw [hhead, hring]
        simp [playing, hp, hsrc]
      rw [hplaying]
      unfold waiting
      rw [ring_update_source, htail]
      cases s.ring.unplayed with
      | nil => rfl
      | cons b names =>
          change List.filterMap _ _ = _ ++ List.filterMap (fun b => s.al.data b) names
          cases hb : s.al.data b <;> simp [hb]
    · have hnone : s.playing n = none := if_neg fun h => hn h.1
      unfold waiting
      rw [hnone, ring_update_other fun e => hn e.symm]
      rfl
  · have hnone : s.playing n = none := if_neg fun h => hp h.2
    have hp' : ¬ (s.setAl al).ring.phase.HasSource := hp
    simp [waiting, Ring.unplayed, hp, hp', hnone]

end

/-- The driver leaves what the loop has in its hands. -/
theorem inHand_setAl {n : ℕ} {al : OpenAL StampedByte} (hf : s.al.finish n = some al) :
    (s.setAl al).inHand = s.inHand ∧ (s.setAl al).filling = s.filling := by
  have hname : (s.setAl al).nextName = s.nextName := rfl
  unfold inHand filling
  rw [pc_setAl, hname]
  constructor <;> split <;> first | rfl | rw [← data_finish hf]; rfl

end Stream

end OpenALRenderer
