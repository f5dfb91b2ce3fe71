import OpenALRenderer.Verification.Stream.BufferRing

/-! # Starting, stopping and restarting: when the ring survives -/

namespace OpenALRenderer

open Foundation

variable {β : Type*}

/-! ## Phases along the steps of the ring -/

namespace Ring

variable {r r' : Ring}

theorem Step.hasSource (h : Step r r') (hr : r.phase.HasSource) : r'.phase.HasSource := by
  cases h with
  | idle => exact hr
  | forget source names hp => exact absurd hp hr.1
  | name names hp hn => exact absurd hp hr.2.1
  | _ => simp [Phase.HasSource]

/-- The buffers go away only where the regeneration branch deletes them. -/
theorem Step.hasBuffers (h : Step r r') (hr : r.phase.HasBuffers) :
    r'.phase.HasBuffers ∨ r.phase = .emptied := by
  cases h with
  | idle => exact .inl hr
  | forget source names hp => exact absurd hp hr.1
  | delete hp => exact .inr hp
  | _ => exact .inl (by simp [Phase.HasBuffers])

/-- `Stop` has emptied a queue that the loop is about to unqueue as a whole. -/
structure Drained (r : Ring) : Prop where
  phase : r.phase = .polled ∨ r.phase = .taking
  queue : r.source.queue = []
  queued : r.queued.toNat = r.processed
  queued_le : r.queued.toNat ≤ oalBuffers.toNat
  processed : r.processed ≠ 0

/-- The unqueuing fails, and the loop counts the buffers as unqueued all the same. -/
theorem Step.drained (h : Step r r') (hr : r.Drained) : r'.Drained ∨ r'.Counted := by
  obtain ⟨hphase, hqueue, hqueued, hle, hproc⟩ := hr
  have hplayed : r.source.played = 0 := by
    have hlen := r.source.played_le
    rw [hqueue] at hlen
    exact Nat.le_zero.mp hlen
  cases h with
  | idle => exact .inl ⟨hphase, hqueue, hqueued, hle, hproc⟩
  | full hp hq hn => exact absurd hn hproc
  | ready hp hq hn => exact absurd hn hproc
  | take hp hn => exact .inl ⟨.inr rfl, hqueue, hqueued, hle, hproc⟩
  | unqueue hp =>
      have hsame : r.source.unqueue r.processed = r.source := if_neg (by omega)
      rw [hsame]
      refine .inr ⟨?_, hle, hproc⟩
      simp [hqueue, hqueued]
  | _ => simp_all

theorem Driven.drained (h : Driven r r') (hr : r.Drained) : r'.Drained := by
  have hqueue := h.queue.trans hr.queue
  cases h with
  | other => exact hr
  | finish src hf => exact ⟨hr.phase, hqueue, hr.queued, hr.queued_le, hr.processed⟩

theorem Counted.stop (h : r.Counted) (hq : r.source.queue = []) :
    Counted { r with source := r.source.stop.detach } := by
  have hqueue := Stream.queue_stop_detach r.source
  have hplayed : r.source.played = 0 := by
    have hlen := r.source.played_le
    rw [hq] at hlen
    exact Nat.le_zero.mp hlen
  cases hp : r.phase with
  | polled =>
      simp only [Counted, hp, hq, hplayed, hqueue] at h ⊢
      exact ⟨h.1, h.2.1, h.2.2.trans (Nat.zero_le _)⟩
  | taking =>
      simp only [Counted, hp, hq, hplayed, hqueue] at h ⊢
      exact ⟨h.1, h.2.1, h.2.2.1.trans (Nat.zero_le _), h.2.2.2⟩
  | emptied | deleted | regenerated => simp only [Counted, hqueue]
  | _ => simpa only [Counted, hp, hq, hqueue] using h

end Ring

namespace Stream

variable {s t : Stream β} {a : Label β} {c : Choice β}

/-! ## Nothing is left behind -/

/-- Every source and every buffer alive is one the loop still knows. -/
structure Alone (s : Stream β) : Prop where
  sources : ∀ n, (s.al.sources n).isSome → s.ring.phase.HasSource ∧ n = s.source
  buffers : ∀ b, (s.al.buffers b).isSome → s.ring.phase.HasBuffers ∧ b ∈ s.buffers

theorem pc_eq_deleteBuffers (h : s.ring.phase = .emptied) : s.pc = .deleteBuffers := by
  have hp : s.pc.phase = .emptied := h
  cases hpc : s.pc with
  | deleteBuffers => rfl
  | check e | report e => cases e <;> simp [Pc.phase, Check.phase, hpc] at hp
  | _ => simp [Pc.phase, hpc] at hp

theorem Alone.advance (h : s.Alone) (hstep : Ring.Step s.ring t.ring)
    (hs : s.advance c = some t) : t.Alone := by
  obtain ⟨hal, hnames⟩ := advance_names hs
  have hreset : s.ring.phase ≠ .starting → s.pc ≠ .resetNames :=
    fun hp hpc => hp (congrArg Pc.phase hpc)
  refine ⟨fun n hn => ?_, fun b hb => ?_⟩
  · rw [hal] at hn
    obtain ⟨hp, rfl⟩ := h.sources n hn
    exact ⟨hstep.hasSource hp, (hnames (hreset hp.1)).1.symm⟩
  · rw [hal] at hb
    obtain ⟨hp, hmem⟩ := h.buffers b hb
    refine ⟨?_, (hnames (hreset hp.1)).2.symm ▸ hmem⟩
    rcases hstep.hasBuffers hp with hp' | hempty
    · exact hp'
    · simp [Stream.advance, pc_eq_deleteBuffers hempty] at hs

theorem call_genSources {n : ℕ} (h : s.call = some (.genSources n)) : s.pc = .genSources := by
  unfold Stream.call at h
  split at h <;> cases h
  assumption

theorem call_genBuffers {n : ℕ} (h : s.call = some (.genBuffers n)) :
    s.pc = .genBuffers ∨ s.pc = .regenBuffers := by
  unfold Stream.call at h
  split at h <;> cases h
  · exact .inl ‹_›
  · exact .inr ‹_›

theorem Alone.resume_sources (h : s.Alone) (ho : s.Owned) {x : ALCall β} (hc : s.call = some x)
    (hs : s.loopStep c = some t) (n : ℕ) (hn : (t.al.sources n).isSome) :
    t.ring.phase.HasSource ∧ n = t.source := by
  obtain ⟨-, hstep⟩ := ho.loopStep hs
  obtain ⟨hm, -, -, ht⟩ := ho.loopStep_call hc hs
  have hal : t.al = (x.effect c.names s.al).2 := by rw [ht, al_resume, setAl]
  rw [hal] at hn
  by_cases hgen : s.pc = .genSources
  · have hp : s.ring.phase = .buffered := congrArg Pc.phase hgen
    simp only [Stream.call, hgen, Option.some.injEq] at hc
    subst hc
    simp only [Stream.resume, pc_setAl, hgen] at ht
    obtain ⟨m, hm⟩ := List.length_eq_one_iff.mp hm.1
    have hsource : t.source = m := by
      rw [ht]
      simp [ALCall.effect, hm]
    have hphase : t.ring.phase = .settled := by rw [ht]; rfl
    refine ⟨hphase ▸ by decide, ?_⟩
    by_contra hne
    have hsome : (s.al.sources n).isSome := by
      simpa [ALCall.effect, OpenAL.genSources, hm, hsource ▸ hne] using hn
    exact (h.sources n hsome).1.2.2 hp
  · have hx : ∀ k, x ≠ .genSources k := fun k hk => hgen (call_genSources (hk ▸ hc))
    obtain ⟨hp, rfl⟩ := h.sources n (ALCall.isSome_sources_of_effect hx hn)
    have hsource := (resume_names c (x.effect c.names s.al).1
      (s.setAl (x.effect c.names s.al).2)).1 hgen
    rw [← ht] at hsource
    exact ⟨hstep.hasSource hp, hsource.symm⟩

theorem Alone.resume_buffers (h : s.Alone) (ho : s.Owned) {x : ALCall β} (hc : s.call = some x)
    (hs : s.loopStep c = some t) (b : ℕ) (hb : (t.al.buffers b).isSome) :
    t.ring.phase.HasBuffers ∧ b ∈ t.buffers := by
  obtain ⟨-, hstep⟩ := ho.loopStep hs
  obtain ⟨hm, -, -, ht⟩ := ho.loopStep_call hc hs
  have hal : t.al = (x.effect c.names s.al).2 := by rw [ht, al_resume, setAl]
  rw [hal] at hb
  by_cases hgen : s.pc = .genBuffers ∨ s.pc = .regenBuffers
  · have hcall : s.call = some (.genBuffers oalBuffers.toNat) := by
      rcases hgen with hpc | hpc <;> simp [Stream.call, hpc]
    obtain rfl := Option.some.inj (hc.symm.trans hcall)
    have hnone : ¬ s.ring.phase.HasBuffers := by
      have hp : s.ring.phase = s.pc.phase := rfl
      rcases hgen with hpc | hpc <;> simp [hp, hpc, Pc.phase, Phase.HasBuffers]
    have hmem : b ∈ c.names := by
      by_contra hne
      exact hnone (h.buffers b (by simpa [ALCall.effect, OpenAL.genBuffers, hne] using hb)).1
    rcases hgen with hpc | hpc <;> simp only [Stream.resume, pc_setAl, hpc] at ht <;> subst ht
    · exact ⟨(by decide : Phase.buffered.HasBuffers), hmem⟩
    · exact ⟨(by decide : Phase.regenerated.HasBuffers), hmem⟩
  · have hx : ∀ k, x ≠ .genBuffers k := fun k hk => hgen (call_genBuffers (hk ▸ hc))
    obtain ⟨hp, hmem⟩ := h.buffers b (ALCall.isSome_buffers_of_effect hx hb)
    have hbuffers := (resume_names c (x.effect c.names s.al).1
      (s.setAl (x.effect c.names s.al).2)).2 (fun e => hgen (.inl e)) fun e => hgen (.inr e)
    rw [← ht] at hbuffers
    refine ⟨?_, hbuffers.symm ▸ hmem⟩
    rcases hstep.hasBuffers hp with hp' | hempty
    · exact hp'
    · -- The buffers are not attached any more, so that the deletion succeeds.
      have hpc := pc_eq_deleteBuffers hempty
      simp only [Stream.call, hpc, Option.some.injEq] at hc
      subst hc
      have hfree : s.buffers.any s.al.isAttached = false := by
        rw [List.any_eq_false]
        intro b' hb'
        have hat := ho.attached (hempty ▸ by decide) b' hb'
        rw [ho.emptied (.inl hempty)] at hat
        simp [OpenAL.isAttached_of_attached hat]
      simp [ALCall.effect, OpenAL.deleteBuffers, hfree, hmem] at hb

theorem Alone.loopStep (h : s.Alone) (ho : s.Owned) (hs : s.loopStep c = some t) : t.Alone := by
  cases hc : s.call with
  | none =>
      have hstep := (ho.loopStep hs).2
      unfold Stream.loopStep at hs
      rw [hc] at hs
      exact h.advance hstep hs
  | some x => exact ⟨h.resume_sources ho hc hs, h.resume_buffers ho hc hs⟩

theorem Alone.driven (h : s.Alone) {n : ℕ} {al : OpenAL β} (hf : s.al.finish n = some al) :
    (s.setAl al).Alone := by
  obtain ⟨src, hsrc, rfl⟩ := Option.map_eq_some_iff.mp hf
  obtain ⟨src₀, hsrc₀, -⟩ := Option.bind_eq_some_iff.mp hsrc
  refine ⟨fun m hm => ?_, h.buffers⟩
  by_cases he : m = n
  · subst he
    exact h.sources m (by simp [hsrc₀])
  · exact h.sources m (by simpa [setAl, he] using hm)

theorem Alone.perform (h : s.Alone) {x : ALCall β} (hs : ∀ n, x ≠ .genSources n)
    (hb : ∀ n, x ≠ .genBuffers n) : (s.setAl (x.perform [] s.al).2).Alone := by
  unfold ALCall.perform
  split
  · exact ⟨fun n hn => h.sources n (ALCall.isSome_sources_of_effect hs hn),
      fun b hb' => h.buffers b (ALCall.isSome_buffers_of_effect hb hb')⟩
  · exact h

theorem Alone.stop (h : s.Alone) : s.stop.Alone := by
  have hstop : (s.setAl ((ALCall.sourceStop s.source).perform [] s.al).2).Alone :=
    h.perform (by simp) (by simp)
  have hdetach := hstop.perform (x := ALCall.detachBuffers s.source) (by simp) (by simp)
  exact ⟨hdetach.sources, hdetach.buffers⟩

/-! ## The counter -/

/-- A step that does not desynchronize the counter and the queue: the loop is not started a second
time, and `Stop` is called when the queue is empty, when every queued buffer is about to be
unqueued, when the loop has ended, or when it has just decided to regenerate its buffers. -/
def Label.KeepsCount (s : Stream β) : Label β → Prop
  | .startDevice => s.runThread ∨ s.pc = .notStarted
  | .stop => s.al.queue s.source = [] ∨
      (s.pc = .getState ∨ s.pc = .unqueue) ∧
        (s.al.queue s.source).length = s.locals.numBuffersProcessed ∨
      s.pc = .exited ∨ s.pc = .stopSource ∨ s.pc = .detachBuffers
  | .destroy => False
  | _ => True

/-- The counter is right, or will be once the loop has gone through what it has begun, or the
loop has ended. -/
def Consistent (s : Stream β) : Prop :=
  s.ring.Counted ∨ s.ring.Drained ∨
    s.pc = .exited ∨ s.pc = .stopSource ∨ s.pc = .detachBuffers

theorem Consistent.loopStep (h : s.Consistent) (ho : s.Owned) (hs : s.loopStep c = some t) :
    t.Consistent := by
  obtain ⟨ho', hstep⟩ := ho.loopStep hs
  have hempty : t.ring.phase = .emptied → t.ring.source.queue = [] :=
    fun hp => ho'.emptied (.inl hp)
  rcases h with hcount | hdrained | hpc | hpc | hpc
  · exact .inl (hstep.counted hcount hempty)
  · exact (hstep.drained hdrained).elim (fun h => .inr (.inl h)) .inl
  · simp [Stream.loopStep, Stream.call, Stream.advance, hpc] at hs
  · have hc : s.call = some (.sourceStop s.source) := by simp [Stream.call, hpc]
    obtain ⟨-, -, -, ht⟩ := ho.loopStep_call hc hs
    simp only [Stream.resume, pc_setAl, hpc] at ht
    exact .inr (.inr (.inr (.inr (ht ▸ rfl))))
  · have hc : s.call = some (.detachBuffers s.source) := by simp [Stream.call, hpc]
    obtain ⟨-, -, -, ht⟩ := ho.loopStep_call hc hs
    simp only [Stream.resume, pc_setAl, hpc] at ht
    have hp : t.ring.phase = .emptied := by rw [ht]; rfl
    refine .inl ?_
    simp only [Ring.Counted, hp]
    exact hempty hp

theorem Consistent.driven (h : s.Consistent) {n : ℕ} {al : OpenAL β}
    (hf : s.al.finish n = some al) : (s.setAl al).Consistent := by
  have hdriven := ring_driven hf
  rcases h with hcount | hdrained | hpc
  · exact .inl (hdriven.counted hcount)
  · exact .inr (.inl (hdriven.drained hdrained))
  · exact .inr (.inr hpc)

theorem Consistent.stop (h : s.Consistent) (ho : s.Owned)
    (hk : (Label.stop : Label β).KeepsCount s) : s.stop.Consistent := by
  have hring := ho.stop.2
  have hqueue := queue_stop_detach s.ring.source
  simp only [Label.KeepsCount, queue_source] at hk
  unfold Consistent
  rw [hring]
  rcases h with hcount | hdrained | hpc
  · rcases hk with hempty | ⟨hpc, hall⟩ | hpc
    · exact .inl (hcount.stop hempty)
    · have hphase : s.ring.phase = .polled ∨ s.ring.phase = .taking :=
        hpc.imp (congrArg Pc.phase) (congrArg Pc.phase)
      have hcurrent : s.ring.phase.IsCurrent := by
        rcases hphase with hp | hp <;> simp [Phase.IsCurrent, Phase.HasSource, hp]
      obtain ⟨hlen, hle⟩ := hcount.of_isCurrent hcurrent
      by_cases hzero : s.ring.processed = 0
      · exact .inl (hcount.stop (List.length_eq_zero_iff.mp (hall.trans hzero)))
      · exact .inr (.inl ⟨hphase, hqueue, hlen.trans hall, hle, hzero⟩)
    · exact .inr (.inr hpc)
  · exact .inr (.inl ⟨hdrained.phase, hqueue, hdrained.queued, hdrained.queued_le,
      hdrained.processed⟩)
  · exact .inr (.inr hpc)

/-- The stream a stream object can be in: what it owns is all there is, and is counted. -/
structure Sound (s : Stream β) : Prop where
  owned : s.Owned
  alone : s.Alone
  consistent : s.Consistent

theorem sound_constructed : (constructed : Stream β).Sound := by
  have ho : (constructed : Stream β).Owned :=
    owned_of_starting rfl ⟨rfl, rfl, rfl⟩ rfl (by decide : (0 : UInt32).toNat < 8)
  exact ⟨ho, ⟨nofun, nofun⟩, .inl rfl⟩

/-- The first start of the loop. -/
theorem Sound.start (h : s.Sound) (hpc : s.pc = .notStarted) :
    Sound { s with runThread := true, pc := .readFrequency, locals := {} } := by
  obtain ⟨ho, hal, hc⟩ := h
  have hp : s.ring.phase = .starting := congrArg Pc.phase hpc
  have ho' : Owned { s with runThread := true, pc := .readFrequency, locals := {} } :=
    owned_of_starting rfl ho.usable ho.zero (by decide : (0 : UInt32).toNat < 8)
  refine ⟨ho', ⟨fun n hn => ?_, fun b hb => ?_⟩, .inl ?_⟩
  · exact absurd hp (hal.sources n hn).1.1
  · exact absurd hp (hal.buffers b hb).1.1
  · rcases hc with hcount | hdrained | hpc' | hpc' | hpc'
    · simp only [Ring.Counted, hp] at hcount
      exact hcount
    · rcases hdrained.phase with hp' | hp' <;> cases hp.symm.trans hp'
    all_goals cases hpc.symm.trans hpc'

theorem Sound.next (h : s.Sound) (hk : a.KeepsCount s) (hs : s.next a = some t) : t.Sound := by
  obtain ⟨ho, hal, hc⟩ := h
  cases a with
  | loop c => exact ⟨(ho.loopStep hs).1, hal.loopStep ho hs, hc.loopStep ho hs⟩
  | driver n =>
      obtain ⟨al, hf, rfl⟩ := Option.map_eq_some_iff.mp hs
      exact ⟨ho.driven hf, hal.driven hf, hc.driven hf⟩
  | setFrequency f | setSpeakerLayout l | setBitness b | setStreaming b =>
      cases hs
      exact ⟨ho.congr rfl rfl rfl, ⟨hal.sources, hal.buffers⟩, hc⟩
  | startDevice =>
      rcases next_startDevice hs with ⟨-, rfl | ⟨hrun, -, rfl⟩⟩
      · exact ⟨ho, hal, hc⟩
      · exact Sound.start ⟨ho, hal, hc⟩ (hk.resolve_left hrun)
  | stopDevice =>
      obtain rfl := next_stopDevice hs
      exact ⟨ho.congr rfl rfl rfl, ⟨hal.sources, hal.buffers⟩, hc⟩
  | stop =>
      obtain rfl := next_stop hs
      exact ⟨ho.stop.1, hal.stop, hc.stop ho hk⟩
  | destroy => exact absurd hk id

/-! ## The life of a stream -/

/-- A stream from its construction on. -/
def life (β : Type*) : System (Stream β) (Label β) := .ofNext (· = constructed) next

theorem sound_of_reachable (h : (life β).ReachableWhere (fun s a => a.KeepsCount s) s) : s.Sound :=
  h.invariant (fun _ hs => hs ▸ sound_constructed) fun _ _ _ hI hk hs => hI.next hk hs

/-- What the loop relies on at its head, and what the stream leaves alive. -/
structure HeadSpec (s : Stream β) : Prop where
  counted : s.pc = .head → s.numBuffersQueued.toNat = (s.al.queue s.source).length
  not_stuck : s.pc = .head → ¬ (s.numBuffersQueued = oalBuffers ∧ s.al.queue s.source = [])
  one_source : ∀ n m, (s.al.sources n).isSome → (s.al.sources m).isSome → n = m
  one_ring : ∀ b, (s.al.buffers b).isSome → b ∈ s.buffers ∧ s.buffers.length = oalBuffers.toNat

/-- In a life whose every step keeps the count, the bookkeeping of the loop survives. -/
theorem bookkeeping_survives (s : Stream β)
    (h : (life β).ReachableWhere (fun s a => a.KeepsCount s) s) : s.HeadSpec := by
  obtain ⟨ho, hal, hc⟩ := sound_of_reachable h
  have hcounted : s.pc = .head →
      s.numBuffersQueued.toNat = (s.al.queue s.source).length := by
    intro hpc
    have hp : s.ring.phase = .settled := congrArg Pc.phase hpc
    rw [queue_source]
    rcases hc with hcount | hdrained | hpc' | hpc' | hpc'
    · simp only [Ring.Counted, hp] at hcount
      exact hcount.1
    · rcases hdrained.phase with hp' | hp' <;> cases hp.symm.trans hp'
    all_goals cases hpc.symm.trans hpc'
  refine ⟨hcounted, ?_, ?_, ?_⟩
  · rintro hpc ⟨hfull, hempty⟩
    have hlen := hcounted hpc
    rw [hfull, hempty] at hlen
    cases hlen
  · intro n m hn hm
    rw [(hal.sources n hn).2, (hal.sources m hm).2]
  · intro b hb
    obtain ⟨hp, hmem⟩ := hal.buffers b hb
    exact ⟨hmem, (ho.names hp).1⟩

instance [DecidableEq β] (s : Stream β) : ∀ a : Label β, Decidable (a.KeepsCount s)
  | .startDevice => inferInstanceAs (Decidable (_ ∨ _))
  | .stop => inferInstanceAs (Decidable (_ ∨ _))
  | .destroy => isFalse id
  | .loop _ | .driver _ | .setFrequency _ | .setSpeakerLayout _ | .setBitness _ | .setStreaming _
  | .stopDevice => isTrue trivial

/-- One buffer queued, and back to the head of the loop. -/
def iteration (underrun : Bool) : List (Label Unit) :=
  mixing false [()] ++ queueing ++ List.replicate (if underrun then 3 else 1) (.loop {})

/-- Two buffers are queued and played to their end, the loop unqueues them and mixes nothing more,
and `Stop` is called. -/
theorem bookkeeping_survives_stop : ∃ s : Stream Unit,
    (s.pc = .head ∧ s.locals.nextBuffer = 2) ∧ s.HeadSpec := by
  have hrun : (System.exec next (fun s a => a.KeepsCount s) (constructed : Stream Unit)
      ([.setStreaming true, .startDevice] ++ prologue [1, 2, 3, 4, 5, 6, 7, 8] 1 ++
        iteration true ++ iteration false ++ [.driver 1, .driver 1] ++ mixing true [] ++
        [.stop])).any fun s => s.pc = .head ∧ s.locals.nextBuffer = 2 := by decide +kernel
  obtain ⟨s, hs, hspec⟩ : ∃ s, (life Unit).ReachableWhere (fun s a => a.KeepsCount s) s ∧
      s.pc = .head ∧ s.locals.nextBuffer = 2 := System.exists_reachableWhere_of_exec _ rfl hrun
  exact ⟨s, hspec, bookkeeping_survives s hs⟩

/-- Restarted with a full ring, the loop counts eight buffers on the empty queue of a second
source, and the first source is still alive. -/
theorem restart_keeps_stale_count : ∃ s : Stream Unit,
    (life Unit).ReachableWhere (fun _ a => a ≠ .destroy) s ∧ s.pc = .head ∧
      s.numBuffersQueued = oalBuffers ∧ s.al.queue s.source = [] ∧ s.source = 2 ∧
      (s.al.sources 2).isSome ∧ (s.al.sources 1).isSome := by
  have hrun : (System.exec next (fun _ a => a ≠ .destroy) (constructed : Stream Unit)
      ([.setStreaming true, .startDevice] ++ prologue [1, 2, 3, 4, 5, 6, 7, 8] 1 ++
        iteration true ++ (List.replicate 7 (iteration false)).flatten ++
        [.stopDevice, .loop {}, .startDevice] ++ prologue [9, 10, 11, 12, 13, 14, 15, 16] 2)).any
      fun s => s.pc = .head ∧ s.numBuffersQueued = oalBuffers ∧ s.al.queue s.source = [] ∧
        s.source = 2 ∧ (s.al.sources 2).isSome ∧ (s.al.sources 1).isSome := by decide +kernel
  exact System.exists_reachableWhere_of_exec _ rfl hrun

end Stream

end OpenALRenderer
