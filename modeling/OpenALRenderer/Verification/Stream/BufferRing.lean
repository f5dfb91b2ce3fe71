import OpenALRenderer.Foundation.Ring
import OpenALRenderer.Verification.Stream.Ownership

/-! # One run of `SoundLoop`: the counters follow the queue around the ring -/

namespace OpenALRenderer

open Foundation

/-! ## The counters -/

/-- The phases in which `num_buffers_queued` is up to date: the source exists, and no statement
that counts what an OpenAL call has done is still to come. -/
def Phase.IsCurrent (p : Phase) : Prop :=
  p.HasSource ∧ p ≠ .emptied ∧ p ≠ .deleted ∧ p ≠ .regenerated ∧ p ≠ .taken ∧ p ≠ .appended

namespace Ring

/-- How `num_buffers_queued` stands to the queue of the source, phase by phase. -/
def Counted (r : Ring) : Prop :=
  match r.phase with
  | .starting | .unnamed | .buffered => r.queued = 0
  | .settled | .stopped | .counted | .stalled =>
      r.queued.toNat = r.source.queue.length ∧ r.queued.toNat ≤ oalBuffers.toNat
  | .emptied | .deleted | .regenerated => r.source.queue = []
  | .polled =>
      r.queued.toNat = r.source.queue.length ∧ r.queued.toNat ≤ oalBuffers.toNat ∧
        r.processed ≤ r.source.played
  | .taking =>
      r.queued.toNat = r.source.queue.length ∧ r.queued.toNat ≤ oalBuffers.toNat ∧
        r.processed ≤ r.source.played ∧ r.processed ≠ 0
  | .taken =>
      r.queued.toNat = r.source.queue.length + r.processed ∧ r.queued.toNat ≤ oalBuffers.toNat ∧
        r.processed ≠ 0
  | .room => r.queued.toNat = r.source.queue.length ∧ r.queued.toNat < oalBuffers.toNat
  | .appended => r.source.queue.length = r.queued.toNat + 1 ∧ r.queued.toNat < oalBuffers.toNat

variable {r r' : Ring}

theorem Counted.of_isCurrent (h : r.Counted) (hp : r.phase.IsCurrent) :
    r.queued.toNat = r.source.queue.length ∧ r.queued.toNat ≤ oalBuffers.toNat := by
  cases hphase : r.phase with
  | settled | stopped | counted | stalled =>
      simpa only [Counted, hphase] using h
  | polled | taking =>
      simp only [Counted, hphase] at h
      exact ⟨h.1, h.2.1⟩
  | room =>
      simp only [Counted, hphase] at h
      exact ⟨h.1, h.2.le⟩
  | _ => simp [Phase.IsCurrent, Phase.HasSource, hphase] at hp

/-- The queue never holds more than the ring. -/
theorem Counted.length_le (h : r.Counted) (hp : r.phase.HasSource) :
    r.source.queue.length ≤ oalBuffers.toNat := by
  by_cases hcur : r.phase.IsCurrent
  · obtain ⟨hlen, hle⟩ := h.of_isCurrent hcur
    exact hlen ▸ hle
  · cases hphase : r.phase with
    | emptied | deleted | regenerated =>
        simp only [Counted, hphase] at h
        simp [h]
    | taken =>
        simp only [Counted, hphase] at h
        omega
    | appended =>
        simp only [Counted, hphase] at h
        omega
    | _ => simp [Phase.IsCurrent, hphase, Phase.HasSource] at hcur hp

theorem toNat_oalBuffers : oalBuffers.toNat = 8 := rfl

theorem toNat_sub_toUInt32 {x : UInt32} {n : ℕ} (h : n ≤ x.toNat) :
    (x - n.toUInt32).toNat = x.toNat - n := by
  have hx : x.toNat < 2 ^ 32 := x.toNat_lt
  have hn : n.toUInt32.toNat = n := UInt32.toNat_ofNat_of_lt (lt_of_le_of_lt h hx)
  rw [UInt32.toNat_sub_of_le _ _ (UInt32.le_iff_toNat_le.mpr (hn.symm ▸ h)), hn]

theorem toNat_succ {x : UInt32} (h : x.toNat < oalBuffers.toNat) : (x + 1).toNat = x.toNat + 1 := by
  rw [toNat_oalBuffers] at h
  rw [UInt32.toNat_add]
  exact Nat.mod_eq_of_lt (by simp; omega)

/-- One step keeps the count, given that the source it detaches lets go of its buffers. -/
theorem Step.counted (h : Step r r') (hr : r.Counted)
    (hempty : r'.phase = .emptied → r'.source.queue = []) : r'.Counted := by
  cases h with
  | idle => exact hr
  | create hp =>
      have hq : r.queued = 0 := by simpa [Counted, hp] using hr
      simp [Counted, hq, Source.fresh]
  | detach hp => exact hempty rfl
  | reset hp =>
      have hq : r.source.queue = [] := by simpa [Counted, hp] using hr
      simp [Counted, hq]
  | poll hp =>
      simp only [Counted, hp] at hr
      exact ⟨hr.1, hr.2, le_rfl⟩
  | full hp hq hn =>
      simp only [Counted, hp] at hr
      exact ⟨hr.1, hr.2.1⟩
  | ready hp hq hn =>
      simp only [Counted, hp] at hr
      refine ⟨hr.1, lt_of_le_of_ne hr.2.1 fun heq => hq (UInt32.toNat_inj.mp heq)⟩
  | take hp hn =>
      simp only [Counted, hp] at hr
      exact ⟨hr.1, hr.2.1, hr.2.2, hn⟩
  | unqueue hp =>
      simp only [Counted, hp] at hr
      obtain ⟨h1, h2, h3, h4⟩ := hr
      have hlen := r.source.played_le
      refine ⟨?_, h2, h4⟩
      simp only [Source.queue_unqueue h3, List.length_drop]
      omega
  | countUnqueued hp =>
      simp only [Counted, hp] at hr
      obtain ⟨h1, h2, h3⟩ := hr
      have hsub : (r.queued - r.processed.toUInt32).toNat = r.queued.toNat - r.processed :=
        toNat_sub_toUInt32 (by omega)
      simp only [Counted, hsub]
      omega
  | giveUp hp =>
      simp only [Counted, hp] at hr
      exact ⟨hr.1, hr.2.le⟩
  | enqueue hp =>
      simp only [Counted, hp] at hr
      refine ⟨?_, hr.2⟩
      simp [hr.1]
  | countQueued hp =>
      simp only [Counted, hp] at hr
      have hsucc := toNat_succ hr.2
      simp only [Counted, hsucc]
      omega
  | forget _ _ hp | name _ hp | stop hp | delete hp | rename _ hp | running hp | stall hp
  | play hp => simpa [Counted, hp] using hr

theorem Driven.counted (h : Driven r r') (hr : r.Counted) : r'.Counted := by
  cases h with
  | other => exact hr
  | finish src hf =>
      obtain ⟨-, hqueue, hplayed, -⟩ := Source.finish_eq_some hf
      cases hp : r.phase with
      | polled =>
          simp only [Counted, hp, hqueue, hplayed] at hr ⊢
          exact ⟨hr.1, hr.2.1, Nat.le_succ_of_le hr.2.2⟩
      | taking =>
          simp only [Counted, hp, hqueue, hplayed] at hr ⊢
          exact ⟨hr.1, hr.2.1, Nat.le_succ_of_le hr.2.2.1, hr.2.2.2⟩
      | _ => simpa only [Counted, hp, hqueue] using hr

/-! ## The order of the queue -/

def slot (r : Ring) (i : ℕ) : ℕ := r.names.getD i 0

/-- The slot after the last one queued. -/
def tail (r : Ring) : ℕ := if r.phase = .appended then r.next.toNat + 1 else r.next.toNat

/-- The queue is the stretch of the ring that ends before its tail. -/
def Arranged (r : Ring) : Prop :=
  r.phase.HasSource → r.source.queue =
    segment r.slot oalBuffers.toNat (r.tail + oalBuffers.toNat - r.source.queue.length)
      r.source.queue.length

/-- An empty queue is arranged in any ring. -/
theorem arranged_of_empty (h : r.source.queue = []) : r.Arranged := by
  intro _
  rw [h]
  rfl

/-- A step that moves neither the queue nor the tail keeps the arrangement. -/
theorem Arranged.keep (hr : r.Arranged) (hp : r.phase.HasSource)
    (hqueue : r'.source.queue = r.source.queue) (hnames : r'.names = r.names)
    (htail : r'.tail = r.tail) : r'.Arranged := by
  intro _
  have hslot : r'.slot = r.slot := by
    funext i
    rw [slot, slot, hnames]
  rw [hqueue, hslot, htail]
  exact hr hp

/-- What is unqueued leaves the far end of the stretch. -/
theorem Arranged.unqueue (hr : r.Arranged) (hc : r.Counted) (hp : r.phase = .taking) :
    Arranged { r with phase := .taken, source := r.source.unqueue r.processed } := by
  intro _
  simp only [Counted, hp] at hc
  obtain ⟨hlen, hle, hplayed, -⟩ := hc
  have hplayed' := r.source.played_le
  have htail : r.tail = r.next.toNat := by simp [tail, hp]
  have hqueue := hr (by rw [hp]; decide)
  simp only [Source.queue_unqueue hplayed, List.length_drop]
  conv_lhs => rw [hqueue, drop_segment]
  have hstart : r.tail + oalBuffers.toNat - r.source.queue.length + r.processed =
      r.next.toNat + oalBuffers.toNat - (r.source.queue.length - r.processed) := by omega
  rw [hstart]
  rfl

/-- The name at the index that comes next lengthens the stretch. -/
theorem Arranged.enqueue (hr : r.Arranged) (hc : r.Counted) (hp : r.phase = .room)
    (hnext : r.next.toNat < oalBuffers.toNat) :
    Arranged { r with phase := .appended, source := r.source.enqueue r.nextName } := by
  intro _
  simp only [Counted, hp] at hc
  have htail : r.tail = r.next.toNat := by simp [tail, hp]
  have hqueue := hr (by rw [hp]; decide)
  simp only [Source.queue_enqueue, List.length_append, List.length_singleton]
  have hstart : r.next.toNat + 1 + oalBuffers.toNat - (r.source.queue.length + 1) =
      r.tail + oalBuffers.toNat - r.source.queue.length := by omega
  have hslot : (r.tail + oalBuffers.toNat - r.source.queue.length + r.source.queue.length) %
      oalBuffers.toNat = r.next.toNat := by
    rw [toNat_oalBuffers] at hnext hc ⊢
    omega
  change r.source.queue ++ [r.nextName] = segment r.slot oalBuffers.toNat
    (r.next.toNat + 1 + oalBuffers.toNat - (r.source.queue.length + 1)) _
  rw [hstart, segment_succ, ← hqueue, hslot]
  rfl

/-- Counting the new buffer moves the index past its slot. -/
theorem Arranged.countQueued (hr : r.Arranged) (hc : r.Counted) (hp : r.phase = .appended)
    (hnext : r.next.toNat < oalBuffers.toNat) :
    Arranged { r with
      phase := .counted
      queued := r.queued + 1
      next := (r.next + 1) % oalBuffers } := by
  intro _
  simp only [Counted, hp] at hc
  have htail : r.tail = r.next.toNat + 1 := by simp [tail, hp]
  have hqueue := hr (by rw [hp]; decide)
  have hsucc : (r.next + 1).toNat = r.next.toNat + 1 := toNat_succ hnext
  have hmod : ((r.next + 1) % oalBuffers).toNat = (r.next.toNat + 1) % oalBuffers.toNat := by
    rw [UInt32.toNat_mod, hsucc]
  change r.source.queue = segment r.slot oalBuffers.toNat
    (((r.next + 1) % oalBuffers).toNat + oalBuffers.toNat - r.source.queue.length) _
  rw [hmod]
  refine hqueue.trans (segment_congr _ _ ?_ _)
  rw [htail]
  rw [toNat_oalBuffers] at hnext hc ⊢
  omega

theorem Step.arranged (h : Step r r') (hc : r.Counted) (hr : r.Arranged)
    (hnext : r.next.toNat < oalBuffers.toNat)
    (hempty : r'.phase = .emptied → r'.source.queue = []) : r'.Arranged := by
  cases h with
  | idle => exact hr
  | forget source names hp => exact nofun
  | name names hp hn => exact nofun
  | create hp => exact arranged_of_empty rfl
  | stop hp => exact hr.keep (by rw [hp]; decide) (by simp) rfl (by simp [tail, hp])
  | play hp => exact hr.keep (by rw [hp]; decide) (by simp) rfl (by simp [tail, hp])
  | detach hp => exact arranged_of_empty (hempty rfl)
  | rename names hp hn => exact arranged_of_empty (by simpa [Counted, hp] using hc)
  | reset hp => exact arranged_of_empty (by simpa [Counted, hp] using hc)
  | delete hp | poll hp | countUnqueued hp | giveUp hp | full hp | ready hp | take hp
  | running hp | stall hp => exact hr.keep (by rw [hp]; decide) rfl rfl (by simp [tail, hp])
  | unqueue hp => exact hr.unqueue hc hp
  | enqueue hp => exact hr.enqueue hc hp hnext
  | countQueued hp => exact hr.countQueued hc hp hnext

theorem Driven.arranged (h : Driven r r') (hr : r.Arranged) : r'.Arranged := by
  have hqueue := h.queue
  cases h with
  | other => exact hr
  | finish src hf => exact fun hp => hr.keep hp hqueue rfl rfl hp

/-- Distinct slots of the ring hold distinct names. -/
theorem slot_injective (h : IsRing r.names) (i j : ℕ) (hi : i < oalBuffers.toNat)
    (hj : j < oalBuffers.toNat) (hij : r.slot i = r.slot j) : i = j := by
  rw [← h.1] at hi hj
  rw [slot, slot, List.getD_eq_getElem _ _ hi, List.getD_eq_getElem _ _ hj] at hij
  exact (h.2.getElem_inj_iff).mp hij

/-- No buffer is queued twice. -/
theorem Arranged.nodup (h : r.Arranged) (hc : r.Counted) (hp : r.phase.HasSource)
    (hn : r.phase.HasBuffers → IsRing r.names) : r.source.queue.Nodup := by
  by_cases hb : r.phase.HasBuffers
  · rw [h hp]
    exact nodup_segment (slot_injective (hn hb)) (hc.length_le hp)
  · have hdeleted : r.phase = .deleted := by
      by_contra hd
      exact hb ⟨hp.1, hp.2.1, hd⟩
    simp only [Counted, hdeleted] at hc
    simp [hc]

/-- With room in the ring, the next buffer to fill is not in the queue. -/
theorem Arranged.nextName_not_mem (h : r.Arranged) (hc : r.Counted) (hp : r.phase = .room)
    (hn : IsRing r.names) (hnext : r.next.toNat < oalBuffers.toNat) :
    r.nextName ∉ r.source.queue := by
  simp only [Counted, hp] at hc
  have htail : r.tail = r.next.toNat := by simp [tail, hp]
  have hfree : r.slot ((r.tail + oalBuffers.toNat - r.source.queue.length +
      r.source.queue.length) % oalBuffers.toNat) ∉
      segment r.slot oalBuffers.toNat (r.tail + oalBuffers.toNat - r.source.queue.length)
        r.source.queue.length := next_not_mem_segment (slot_injective hn) (by omega)
  rw [← h (by rw [hp]; decide)] at hfree
  have hslot : (r.tail + oalBuffers.toNat - r.source.queue.length + r.source.queue.length) %
      oalBuffers.toNat = r.next.toNat := by
    rw [toNat_oalBuffers] at hnext hc ⊢
    omega
  rwa [hslot] at hfree

end Ring

/-! ## The stream -/

namespace Stream

variable {β : Type*} {s t : Stream β} {a : Label β}

/-- The loop is about to start on a stream with no buffer counted. -/
structure Starts (s : Stream β) : Prop where
  pc : s.pc = .readFrequency
  locals : s.locals = {}
  usable : s.al.Usable
  zero : s.al.sources 0 = none
  queued : s.numBuffersQueued = 0

/-- What happens within one run of the loop: nobody restarts, stops or destroys the stream. -/
def Label.InRun : Label β → Prop
  | .startDevice | .stop | .destroy => False
  | .loop _ | .driver _ | .setFrequency _ | .setSpeakerLayout _ | .setBitness _ | .setStreaming _
  | .stopDevice => True

instance : ∀ a : Label β, Decidable a.InRun
  | .startDevice | .stop | .destroy => isFalse id
  | .loop _ | .driver _ | .setFrequency _ | .setSpeakerLayout _ | .setBitness _ | .setStreaming _
  | .stopDevice => isTrue trivial

/-- One run of the loop, whatever the driver and the threads that write the format do. -/
def run (β : Type*) : System (Stream β) (Label β) := .ofNext Starts next

/-- A step within a run moves the loop, or the driver, or neither. -/
theorem Owned.next_inRun (h : s.Owned) (ha : a.InRun) (hs : s.next a = some t) :
    t.Owned ∧ (Ring.Step s.ring t.ring ∨ Ring.Driven s.ring t.ring) := by
  cases a with
  | loop c => exact (h.loopStep hs).imp_right .inl
  | driver n =>
      obtain ⟨al, hal, rfl⟩ := Option.map_eq_some_iff.mp hs
      exact ⟨h.driven hal, .inr (ring_driven hal)⟩
  | setFrequency f | setSpeakerLayout l | setBitness b | setStreaming b =>
      cases hs
      exact (h.idle rfl rfl rfl).imp_right .inl
  | stopDevice =>
      simp only [next] at hs
      split at hs <;> cases hs
      exact (h.idle rfl rfl rfl).imp_right .inl
  | startDevice | stop | destroy => exact absurd ha id

/-- What the loop knows of its ring. -/
structure Tracked (s : Stream β) : Prop where
  owned : s.Owned
  counted : s.ring.Counted
  arranged : s.ring.Arranged

theorem Starts.tracked (h : s.Starts) : s.Tracked := by
  have hp : s.ring.phase = .starting := congrArg Pc.phase h.pc
  refine ⟨owned_of_starting hp h.usable h.zero ?_, ?_, fun hs => absurd hp hs.1⟩
  · simp [ring, h.locals, oalBuffers]
  · have hq : s.ring.queued = 0 := h.queued
    simp [Ring.Counted, hp, hq]

theorem Tracked.next (h : s.Tracked) (ha : a.InRun) (hs : s.next a = some t) : t.Tracked := by
  obtain ⟨howned, hstep | hdriven⟩ := h.owned.next_inRun ha hs
  · have hempty : t.ring.phase = .emptied → t.ring.source.queue = [] :=
      fun hp => howned.emptied (.inl hp)
    exact ⟨howned, hstep.counted h.counted hempty,
      hstep.arranged h.counted h.arranged h.owned.next_lt hempty⟩
  · exact ⟨howned, hdriven.counted h.counted, hdriven.arranged h.arranged⟩

theorem tracked_of_reachable (h : (run β).ReachableWhere (fun _ a => a.InRun) s) : s.Tracked :=
  h.invariant (fun _ hs => hs.tracked) fun _ _ _ hI ha hs => hI.next ha hs

/-! ## The invariant in the words of the source -/

/-- The ring of buffers, in every state of a run. The fields from `unqueued` to `regenerated` say
what the statements still to come will count. -/
structure RingSpec (s : Stream β) : Prop where
  counted : s.ring.phase.IsCurrent →
    s.numBuffersQueued.toNat = (s.al.queue s.source).length ∧
      s.numBuffersQueued.toNat ≤ oalBuffers.toNat
  arranged : s.ring.phase.IsCurrent →
    s.al.queue s.source = segment (s.buffers.getD · 0) oalBuffers.toNat
      (s.locals.nextBuffer.toNat + oalBuffers.toNat - s.numBuffersQueued.toNat)
      s.numBuffersQueued.toNat
  unqueued : s.ring.phase = .taken →
    s.numBuffersQueued.toNat = (s.al.queue s.source).length + s.locals.numBuffersProcessed
  appended : s.ring.phase = .appended →
    (s.al.queue s.source).length = s.numBuffersQueued.toNat + 1
  regenerated : s.ring.phase = .emptied ∨ s.ring.phase = .deleted ∨ s.ring.phase = .regenerated →
    s.al.queue s.source = []
  bounded : s.ring.phase.HasSource → (s.al.queue s.source).length ≤ oalBuffers.toNat
  distinct : s.ring.phase.HasSource → (s.al.queue s.source).Nodup
  unattached : ∀ call, s.pc = .bufferData call → s.nextName ∉ s.al.queue s.source
  subtracts : s.pc = .countUnqueued →
    s.locals.numBuffersProcessed ≤ s.numBuffersQueued.toNat
  fits : s.pc = .unqueue → s.locals.numBuffersProcessed ≤ oalBuffers.toNat

theorem queue_source (s : Stream β) : s.al.queue s.source = s.ring.source.queue := by
  unfold OpenAL.queue ring
  cases s.al.sources s.source <;> rfl

theorem Tracked.ringSpec (h : s.Tracked) : s.RingSpec := by
  have hqueue := s.queue_source
  constructor
  · intro hp
    rw [hqueue]
    exact h.counted.of_isCurrent hp
  · intro hp
    have htail : s.ring.tail = s.locals.nextBuffer.toNat := if_neg hp.2.2.2.2.2
    have hlen : s.numBuffersQueued.toNat = s.ring.source.queue.length :=
      (h.counted.of_isCurrent hp).1
    rw [hqueue, hlen, ← htail]
    exact h.arranged hp.1
  · intro hp
    have hc := h.counted
    simp only [Ring.Counted, hp] at hc
    rw [hqueue]
    exact hc.1
  · intro hp
    have hc := h.counted
    simp only [Ring.Counted, hp] at hc
    rw [hqueue]
    exact hc.1
  · intro hp
    rw [hqueue]
    exact h.owned.emptied hp
  · intro hp
    rw [hqueue]
    exact h.counted.length_le hp
  · intro hp
    rw [hqueue]
    exact h.arranged.nodup h.counted hp h.owned.names
  · intro call hpc
    have hp : s.ring.phase = .room := congrArg Pc.phase hpc
    rw [hqueue]
    exact h.arranged.nextName_not_mem h.counted hp (h.owned.names (by rw [hp]; decide))
      h.owned.next_lt
  · intro hpc
    have hp : s.ring.phase = .taken := congrArg Pc.phase hpc
    have hc := h.counted
    simp only [Ring.Counted, hp] at hc
    change s.ring.processed ≤ s.ring.queued.toNat
    omega
  · intro hpc
    have hp : s.ring.phase = .taking := congrArg Pc.phase hpc
    have hc := h.counted
    simp only [Ring.Counted, hp] at hc
    exact (hc.2.2.1.trans s.ring.source.played_le).trans (hc.1 ▸ hc.2.1)

/-- Whatever the driver finishes and `Mix` returns, and whenever the format changes, the counters
of a run follow the queue of its source around the ring. -/
theorem ring_invariant (s : Stream β) (h : (run β).ReachableWhere (fun _ a => a.InRun) s) :
    s.RingSpec := (tracked_of_reachable h).ringSpec

/-! ## A schedule -/

/-- From the start of the loop to its head. -/
def prologue (names : List ℕ) (source : ℕ) : List (Label β) :=
  List.replicate 4 (.loop {}) ++ [.loop { reply := true }] ++ List.replicate 4 (.loop {}) ++
    [.loop { names := names }, .loop {}, .loop { names := [source] }, .loop {}, .loop {}]

/-- From the head of the loop through the call of `Mix`, which returns `data`. -/
def mixing (taking : Bool) (data : List β) : List (Label β) :=
  List.replicate (if taking then 10 else 7) (.loop {}) ++
    [.loop {}, .loop { frames := data.length, data := data }]

/-- From the arguments of `alBufferData` to the query of the state. -/
def queueing : List (Label β) :=
  [.loop { operand := .formatLayout }, .loop { operand := .formatBitness }, .loop {}, .loop {},
    .loop { operand := .sizeLayout }, .loop { operand := .sizeBitness },
    .loop { operand := .frequency }] ++ List.replicate 5 (.loop {})

/-- A stream whose loop is about to start while the filter runs. -/
def starting : Stream β := { constructed with
  pc := .readFrequency, runThread := true, streaming := true }

theorem starts_starting : (starting : Stream β).Starts :=
  ⟨rfl, rfl, ⟨rfl, rfl, rfl⟩, rfl, rfl⟩

theorem ring_invariant_one_buffer : ∃ s : Stream Unit,
    (s.numBuffersQueued = 1 ∧ s.al.queue s.source = [1]) ∧ s.RingSpec := by
  have hrun : (System.exec next (fun _ a => a.InRun) (starting : Stream Unit)
      (prologue [1, 2, 3, 4, 5, 6, 7, 8] 1 ++ mixing false [()] ++ queueing)).any
      fun s => s.numBuffersQueued = 1 ∧ s.al.queue s.source = [1] := by decide +kernel
  obtain ⟨s, hs, hqueue⟩ := System.exists_reachableWhere_of_exec _ starts_starting hrun
  exact ⟨s, hqueue, ring_invariant s hs⟩

end Stream

end OpenALRenderer
