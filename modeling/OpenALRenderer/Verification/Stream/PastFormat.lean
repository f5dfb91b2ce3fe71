import OpenALRenderer.Verification.Pin.Writes
import OpenALRenderer.Verification.Stream.BufferRing
import OpenALRenderer.Verification.Stream.ControlFlow

/-! # The format `SoundLoop` remembers, and the buffers it has filled under it -/

namespace OpenALRenderer

variable {β : Type*}

/-! ## The data of buffers -/

namespace OpenAL

/-- What the last `alBufferData` of a buffer passed. -/
def data (b : ℕ) (al : OpenAL β) : Option (BufferDataCall β) := (al.buffers b).bind Buffer.data

variable (al : OpenAL β)

theorem data_release (names : List ℕ) (b : ℕ) : (al.release names).data b = al.data b := by
  cases h : al.buffers b <;> simp [data, release, h]

theorem data_queueBuffer (s b b' : ℕ) : (al.queueBuffer s b).data b' = al.data b' := by
  by_cases h : b' = b
  · subst h
    cases hb : al.buffers b' <;> simp [data, queueBuffer, updateBuffer, updateSource, hb]
  · simp [data, queueBuffer, updateBuffer, updateSource, h]

theorem data_bufferData_of_ne {b b' : ℕ} (h : b' ≠ b) (call : BufferDataCall β) :
    (al.bufferData b call).data b' = al.data b' := by
  unfold bufferData
  split
  · rfl
  · simp [data, updateBuffer, h]

theorem data_bufferData_self {b : ℕ} (h : al.attached b = some 0) (call : BufferDataCall β) :
    (al.bufferData b call).data b = some call := by
  have hfree : al.isAttached b = false := by simp [isAttached_of_attached h]
  obtain ⟨x, hx, -⟩ := Option.map_eq_some_iff.mp h
  simp [bufferData, hfree, data, updateBuffer, hx]

end OpenAL

/-- A call keeps the data of every buffer it neither generates, deletes nor fills. -/
theorem ALCall.data_perform {names : List ℕ} {al : OpenAL β} {x : ALCall β} {b : ℕ}
    (hgen : ∀ n, x ≠ .genBuffers n) (hdel : ∀ l, x ≠ .deleteBuffers l)
    (hfill : ∀ call, x ≠ .bufferData b call) : (x.perform names al).2.data b = al.data b := by
  unfold perform
  split
  · cases x with
    | genBuffers n => exact absurd rfl (hgen n)
    | deleteBuffers l => exact absurd rfl (hdel l)
    | detachBuffers s =>
        simp only [effect, OpenAL.detach]
        split
        · exact (al.updateSource s .detach).data_release _ _
        · rfl
    | unqueueBuffers s n =>
        simp only [effect, OpenAL.unqueue]
        split
        · exact (al.updateSource s (.unqueue n)).data_release _ _
        · rfl
    | bufferData b' call =>
        have hb : b ≠ b' := by
          rintro rfl
          exact hfill call rfl
        exact al.data_bufferData_of_ne hb call
    | queueBuffer s b' => exact al.data_queueBuffer s b' b
    | _ => rfl
  · rfl

/-! ## The queue across a step of the ring -/

namespace Ring

variable {r r' : Ring}

/-- What is queued after a step was queued before it, but for the buffer `enqueue` adds. -/
theorem Step.mem_queue (h : Step r r') (hp : r'.phase.HasSource) {b : ℕ}
    (hb : b ∈ r'.source.queue) (hempty : r'.phase = .emptied → r'.source.queue = []) :
    r.phase.HasSource ∧ b ∈ r.source.queue ∨ r.phase = .room ∧ r'.phase = .appended ∧
      b = r.nextName := by
  cases h with
  | idle => exact .inl ⟨hp, hb⟩
  | create => cases hb
  | detach =>
      have hnil := hempty rfl
      dsimp only at hnil
      rw [hnil] at hb
      cases hb
  | stop h => exact .inl ⟨by rw [h]; decide, by simpa using hb⟩
  | play h => exact .inl ⟨by rw [h]; decide, by simpa using hb⟩
  | unqueue h =>
      refine .inl ⟨by rw [h]; decide, ?_⟩
      simp only [Source.unqueue] at hb
      split at hb
      · exact List.mem_of_mem_drop hb
      · exact hb
  | enqueue h =>
      simp only [Source.queue_enqueue, List.mem_append, List.mem_singleton] at hb
      rcases hb with hb | hb
      · exact .inl ⟨by rw [h]; decide, hb⟩
      · exact .inr ⟨h, rfl, hb⟩
  | forget => exact absurd rfl hp.2.1
  | name => exact absurd rfl hp.2.2
  | delete h | rename _ h | reset h | poll h | full h | ready h | take h | countUnqueued h
  | giveUp h | countQueued h | running h | stall h =>
      exact .inl ⟨by rw [h]; decide, hb⟩

end Ring

/-! ## The format the loop remembers -/

/-- The call passes the format in `past_speaker_layout`, `past_bitness` and
`past_frequency`. -/
structure Locals.Past (l : Locals β) (call : BufferDataCall β) : Prop where
  format : call.format = generateFormatString l.pastSpeakerLayout l.pastBitness
  frequency : call.frequency.toUInt32 = l.pastFrequency

/-- The remembered format is the same. -/
structure Locals.SamePast (l l' : Locals β) : Prop where
  frequency : l'.pastFrequency = l.pastFrequency
  speakerLayout : l'.pastSpeakerLayout = l.pastSpeakerLayout
  bitness : l'.pastBitness = l.pastBitness

theorem Locals.Past.congr {l l' : Locals β} {call : BufferDataCall β} (h : l.Past call)
    (hs : l.SamePast l') : l'.Past call :=
  ⟨by rw [hs.speakerLayout, hs.bitness, h.format], by rw [hs.frequency, h.frequency]⟩

def Check.compared : Check → ℕ
  | .unqueuing => 3
  | _ => 0

/-- How many members of the remembered format are known to be the current ones: in this order,
those for the frequency, the bitness and the layout. -/
def Pc.compared : Pc β → ℕ
  | compareBitness | updateBitness => 1
  | compareSpeakerLayout | updateSpeakerLayout => 2
  | getProcessed | getState | unqueue | countUnqueued | selectWidth | mix _ | arguments _
  | getEnumValue _ _ => 3
  | check c | report c => c.compared
  | _ => 0

theorem Check.compared_next (c : Check) : (c.next : Pc β).compared = c.compared := by
  cases c <;> rfl

/-- The statements that assign a member of the remembered format. -/
def Pc.assignsPast : Pc β → Bool
  | readFrequency | readSpeakerLayout | readBitness | updateFrequency | updateBitness
  | updateSpeakerLayout => true
  | _ => false

/-- The end of the regeneration branch, after the counters are reset. -/
def Pc.restarts : Pc β → Bool
  | recomputeFrames | updateFrequency | updateBitness | updateSpeakerLayout => true
  | _ => false

namespace Pc

variable {pc pc' : Pc β}

/-- Only the three comparisons and the three assignments add to what is known. -/
theorem Follows.compared (h : pc.Follows pc') :
    pc'.compared ≤ pc.compared ∨
      pc = .compareFrequency ∨ pc = .compareBitness ∨ pc = .compareSpeakerLayout ∨
      pc = .updateFrequency ∨ pc = .updateBitness ∨ pc = .updateSpeakerLayout := by
  cases h with
  | compareFrequency | compareBitness | compareSpeakerLayout | updateFrequency | updateBitness
  | updateSpeakerLayout => simp
  | check_none x _ hnext | report x _ hnext => exact .inl (hnext ▸ x.compared_next.le)
  | _ => first
    | exact .inl (Nat.zero_le _)
    | exact .inl le_rfl

/-- Only `alSourceQueueBuffers` leads to the phase with one buffer more. -/
theorem Follows.eq_queueBuffer (h : pc.Follows pc') (hp : pc.phase = .room)
    (hp' : pc'.phase = .appended) : pc = .queueBuffer := by
  cases h with
  | queueBuffer => rfl
  | check x => cases hp.symm.trans hp'
  | check_none x _ hnext | report x _ hnext =>
      subst hnext
      cases hp.symm.trans (x.phase_next.symm.trans hp')
  | _ => cases hp'

theorem Follows.restarts (h : pc.Follows pc') (ht : pc'.restarts = true) :
    pc = .resetCounters ∨ pc.restarts = true := by
  cases h with
  | resetCounters => exact .inl rfl
  | recomputeFrames | updateFrequency | updateBitness => exact .inr rfl
  | check_none x _ hnext | report x _ hnext => cases x <;> cases hnext <;> cases ht
  | _ => cases ht

theorem phase_of_restarts (h : pc.restarts = true) : pc.phase = .settled := by
  unfold Pc.restarts at h
  split at h <;> first
    | rfl
    | cases h

end Pc

namespace Stream

variable {s t : Stream β} {c : Choice β}

theorem evaluate_locals {o : Operands} {x : Operand} (hs : s.evaluate o x = some t) :
    t.locals = s.locals := by
  cases x <;> simp only [evaluate] at hs <;> split at hs <;> cases hs <;> rfl

theorem loopStep_samePast (hs : s.loopStep c = some t) (hpc : s.pc.assignsPast = false) :
    s.locals.SamePast t.locals := by
  unfold loopStep at hs
  split at hs
  · unfold advance at hs
    split at hs
    case h_1 h | h_2 h | h_3 h | h_14 h | h_15 h | h_16 h => simp [h, Pc.assignsPast] at hpc
    case h_18 => split at hs <;> cases hs <;> exact ⟨rfl, rfl, rfl⟩
    case h_20 =>
      rw [evaluate_locals hs]
      exact ⟨rfl, rfl, rfl⟩
    case h_22 => cases hs
    all_goals
      cases hs
      exact ⟨rfl, rfl, rfl⟩
  · split at hs <;> cases hs
    unfold resume
    split <;> exact ⟨rfl, rfl, rfl⟩

/-! ### Comparing and assigning -/

/-- The members of the remembered format that the loop has just compared or assigned are the
current ones. -/
structure Compared (s : Stream β) : Prop where
  frequency : 1 ≤ s.pc.compared → s.locals.pastFrequency = s.frequency.toUInt32
  bitness : 2 ≤ s.pc.compared → s.locals.pastBitness = s.bitness
  speakerLayout : 3 ≤ s.pc.compared → s.locals.pastSpeakerLayout = s.speakerLayout

theorem compared_of_zero (h : s.pc.compared = 0) : s.Compared := by
  constructor <;> intro hle <;> omega

theorem Compared.loopStep (h : s.Compared) (hs : s.loopStep c = some t) : t.Compared := by
  have hset := loopStep_settings hs
  have hle := (follows_loopStep hs).compared
  cases hpc : s.pc with
  | readFrequency | readSpeakerLayout | readBitness =>
      simp only [Stream.loopStep, Stream.call, Stream.advance, hpc, Option.some.injEq] at hs
      subst hs
      exact compared_of_zero rfl
  | compareFrequency =>
      simp only [Stream.loopStep, Stream.call, Stream.advance, hpc, Option.some.injEq] at hs
      subst hs
      split
      · exact compared_of_zero rfl
      · next heq =>
          refine ⟨fun _ => not_not.mp heq, fun h2 => ?_, fun h3 => ?_⟩
          · simp [goto, Pc.compared] at h2
          · simp [goto, Pc.compared] at h3
  | compareBitness =>
      simp only [Stream.loopStep, Stream.call, Stream.advance, hpc, Option.some.injEq] at hs
      subst hs
      split
      · exact compared_of_zero rfl
      · next heq =>
          refine ⟨fun _ => h.frequency (by simp [hpc, Pc.compared]), fun _ => not_not.mp heq,
            fun h3 => ?_⟩
          simp [goto, Pc.compared] at h3
  | compareSpeakerLayout =>
      simp only [Stream.loopStep, Stream.call, Stream.advance, hpc, Option.some.injEq] at hs
      subst hs
      split
      · exact compared_of_zero rfl
      · next heq =>
          exact ⟨fun _ => h.frequency (by simp [hpc, Pc.compared]),
            fun _ => h.bitness (by simp [hpc, Pc.compared]), fun _ => not_not.mp heq⟩
  | updateFrequency =>
      simp only [Stream.loopStep, Stream.call, Stream.advance, hpc, Option.some.injEq] at hs
      subst hs
      refine ⟨fun _ => rfl, fun h2 => ?_, fun h3 => ?_⟩
      · simp [goto, Pc.compared] at h2
      · simp [goto, Pc.compared] at h3
  | updateBitness =>
      simp only [Stream.loopStep, Stream.call, Stream.advance, hpc, Option.some.injEq] at hs
      subst hs
      refine ⟨fun _ => h.frequency (by simp [hpc, Pc.compared]), fun _ => rfl, fun h3 => ?_⟩
      simp [goto, Pc.compared] at h3
  | updateSpeakerLayout =>
      simp only [Stream.loopStep, Stream.call, Stream.advance, hpc, Option.some.injEq] at hs
      subst hs
      exact ⟨fun _ => h.frequency (by simp [hpc, Pc.compared]),
        fun _ => h.bitness (by simp [hpc, Pc.compared]), fun _ => rfl⟩
  | _ =>
      replace hle := hle.resolve_right (by simp [hpc])
      have hsame := loopStep_samePast hs (by rw [hpc]; rfl)
      refine ⟨fun h1 => ?_, fun h2 => ?_, fun h3 => ?_⟩
      · rw [hsame.frequency, hset.frequency, h.frequency (h1.trans hle)]
      · rw [hsame.bitness, hset.bitness, h.bitness (h2.trans hle)]
      · rw [hsame.speakerLayout, hset.speakerLayout, h.speakerLayout (h3.trans hle)]

/-! ### The queue -/

/-- The buffer holds data passed in the remembered format. -/
def HoldsPast (s : Stream β) (b : ℕ) : Prop := ∃ call, s.al.data b = some call ∧ s.locals.Past call

/-- Every queued buffer holds data in the remembered format, and the queue is empty while that
format is replaced. -/
structure Labelled (s : Stream β) : Prop where
  queued : s.ring.phase.HasSource → ∀ b ∈ s.ring.source.queue, s.HoldsPast b
  restarting : s.pc.restarts = true → s.ring.source.queue = []

theorem HoldsPast.congr {b : ℕ} (h : s.HoldsPast b) (hdata : t.al.data b = s.al.data b)
    (hsame : s.locals.SamePast t.locals) : t.HoldsPast b := by
  obtain ⟨call, hcall, hpast⟩ := h
  exact ⟨call, hdata.trans hcall, hpast.congr hsame⟩

theorem data_loopStep {b : ℕ} (hs : s.loopStep c = some t)
    (hgen : s.pc ≠ .genBuffers ∧ s.pc ≠ .regenBuffers ∧ s.pc ≠ .deleteBuffers)
    (hfill : ∀ call, s.pc = .bufferData call → b ≠ s.nextName) : t.al.data b = s.al.data b := by
  unfold loopStep at hs
  split at hs
  · rw [(advance_names hs).1]
  · next x hx =>
      split at hs <;> cases hs
      rw [al_resume]
      unfold Stream.call at hx
      refine ALCall.data_perform ?_ ?_ ?_
      · rintro n rfl
        split at hx <;> simp_all
      · rintro l rfl
        split at hx <;> simp_all
      · rintro call rfl
        split at hx <;> simp_all

theorem Labelled.loopStep (h : s.Labelled) (hr : s.Tracked)
    (hfilled : s.pc = .queueBuffer → s.HoldsPast s.nextName) (hs : s.loopStep c = some t) :
    t.Labelled := by
  obtain ⟨howned, hstep⟩ := hr.owned.loopStep hs
  have hmem := fun hp b hb => hstep.mem_queue hp (b := b) hb fun hp => howned.emptied (.inl hp)
  refine ⟨fun hp b hb => ?_, fun ht => ?_⟩
  · rcases hmem hp b hb with ⟨hp', hb'⟩ | ⟨hroom, happended, rfl⟩
    · have hnil : s.ring.source.queue ≠ [] := List.ne_nil_of_mem hb'
      have hempty := fun hphase => hnil (hr.owned.emptied hphase)
      refine (h.queued hp' b hb').congr (data_loopStep hs ⟨?_, ?_, ?_⟩ ?_)
        (loopStep_samePast hs ?_)
      · exact fun hpc => hp'.2.1 (congrArg Pc.phase hpc)
      · exact fun hpc => hempty (.inr (.inl (congrArg Pc.phase hpc)))
      · exact fun hpc => hempty (.inl (congrArg Pc.phase hpc))
      · rintro call hpc rfl
        exact hr.ringSpec.unattached call hpc (s.queue_source ▸ hb')
      · by_contra hassigns
        cases hpc : s.pc with
        | readFrequency | readSpeakerLayout | readBitness =>
            exact hp'.1 (congrArg Pc.phase hpc)
        | updateFrequency | updateBitness | updateSpeakerLayout =>
            exact hnil (h.restarting (by rw [hpc]; rfl))
        | _ => exact hassigns (by rw [hpc]; rfl)
    · have hpc := (follows_loopStep hs).eq_queueBuffer hroom happended
      refine (hfilled hpc).congr (data_loopStep hs ?_ ?_) (loopStep_samePast hs (by rw [hpc]; rfl))
      · simp [hpc]
      · simp [hpc]
  · rw [List.eq_nil_iff_forall_not_mem]
    intro b hb
    have hsettled : t.ring.phase = .settled := Pc.phase_of_restarts ht
    rcases hmem (by rw [hsettled]; decide) b hb with ⟨-, hb'⟩ | ⟨-, happended, -⟩
    · rcases (follows_loopStep hs).restarts ht with hpc | hrestarts
      · rw [hr.owned.emptied (.inr (.inr (congrArg Pc.phase hpc)))] at hb'
        cases hb'
      · rw [h.restarting hrestarts] at hb'
        cases hb'
    · cases hsettled.symm.trans happended

/-- The driver changes no data and no queue. -/
theorem data_finish {n b : ℕ} {al : OpenAL β} (hf : s.al.finish n = some al) :
    al.data b = s.al.data b := by
  obtain ⟨src, -, rfl⟩ := Option.map_eq_some_iff.mp hf
  rfl

theorem Labelled.driven (h : s.Labelled) {n : ℕ} {al : OpenAL β}
    (hf : s.al.finish n = some al) : (s.setAl al).Labelled := by
  have hqueue := (ring_driven hf).queue
  refine ⟨fun hp b hb => ?_, fun hr => hqueue.trans (h.restarting hr)⟩
  rw [hqueue] at hb
  exact (h.queued hp b hb).congr (data_finish hf) ⟨rfl, rfl, rfl⟩

end Stream

end OpenALRenderer
