import OpenALRenderer.Verification.Stream.Phases
import Mathlib.Data.List.GetD

/-! # What the loop owns, and why its steps are steps of the ring -/

namespace OpenALRenderer

variable {β : Type*}

/-! ## One source and the buffers queued on it -/

namespace OpenAL

/-- Source `s` is `src`, the buffers `names` exist, and only `src` holds on to them. -/
structure Holds (al : OpenAL β) (s : ℕ) (names : List ℕ) (src : Source) : Prop where
  source : al.sources s = some src
  attached : ∀ b ∈ names, al.attached b = some (src.queue.count b)

namespace Holds

variable {al : OpenAL β} {s : ℕ} {names : List ℕ} {src : Source}

theorem queue (h : al.Holds s names src) : al.queue s = src.queue := by
  simp [OpenAL.queue, h.source]

theorem played (h : al.Holds s names src) : al.played s = src.played := by
  simp [OpenAL.played, h.source]

/-- An operation on the source that leaves its queue alone. -/
theorem update (h : al.Holds s names src) {f : Source → Source}
    (hf : (f src).queue = src.queue) : (al.updateSource s f).Holds s names (f src) where
  source := by simp [h.source]
  attached b hb := by simpa [hf] using h.attached b hb

theorem detach (h : al.Holds s names src) : (al.detach s).Holds s names src.detach := by
  have hq : (al.updateSource s .detach).queue s = src.detach.queue := by
    simp [OpenAL.queue, h.source]
  unfold OpenAL.detach
  dsimp only
  rw [hq, h.queue]
  by_cases hs : src.state = .playing ∨ src.state = .paused
  · have hd : src.detach = src := by simp [Source.detach, hs]
    rw [hd]
    split
    · next hnil =>
        refine ⟨by simp [h.source, hd], fun b hb => ?_⟩
        simp [h.attached b hb, hnil]
    · exact h
  · have hd : src.detach.queue = [] := by simp [Source.detach, hs]
    rw [if_pos hd]
    refine ⟨by simp [h.source], fun b hb => ?_⟩
    simp [h.attached b hb, hd]

theorem unqueue (h : al.Holds s names src) (n : ℕ) :
    (al.unqueue s n).Holds s names (src.unqueue n) := by
  unfold OpenAL.unqueue
  rw [h.played, h.queue]
  split
  · next hn =>
      refine ⟨by simp [h.source], fun b hb => ?_⟩
      have hsplit : src.queue.count b = (src.queue.take n).count b + (src.queue.drop n).count b := by
        rw [← List.count_append, List.take_append_drop]
      rw [attached_release, attached_updateSource, h.attached b hb, Source.queue_unqueue hn,
        hsplit]
      simp
  · next hn => simpa [Source.unqueue, hn] using h

theorem bufferData (h : al.Holds s names src) (b : ℕ) (call : BufferDataCall β) :
    (al.bufferData b call).Holds s names src where
  source := by simpa using h.source
  attached b' hb' := by simpa using h.attached b' hb'

theorem queueBuffer (h : al.Holds s names src) (b : ℕ) :
    (al.queueBuffer s b).Holds s names (src.enqueue b) where
  source := by simp [h.source]
  attached b' hb' := by
    rw [attached_queueBuffer, h.attached b' hb', Source.queue_enqueue, List.count_append,
      List.count_singleton]
    by_cases hbb : b' = b
    · simp [hbb]
    · have hbb' : b ≠ b' := fun e => hbb e.symm
      simp [hbb, hbb']

theorem genBuffers (h : al.Holds s names src) (hq : src.queue = []) (fresh : List ℕ) :
    (al.genBuffers fresh).Holds s fresh src where
  source := by simpa using h.source
  attached b hb := by simp [attached_genBuffers, hb, hq]

theorem deleteBuffers (h : al.Holds s names src) (l : List ℕ) :
    (al.deleteBuffers l).Holds s [] src where
  source := by simpa using h.source
  attached := by simp

end Holds

end OpenAL

/-! ## Ownership -/

/-- The phases in which the buffers named in `m_buffers` exist. -/
def Phase.HasBuffers (p : Phase) : Prop := p ≠ .starting ∧ p ≠ .unnamed ∧ p ≠ .deleted

/-- The phases in which the source named by `m_source` exists. -/
def Phase.HasSource (p : Phase) : Prop := p ≠ .starting ∧ p ≠ .unnamed ∧ p ≠ .buffered

/-- The phases that ask nothing of the source but that the loop owns it. -/
def Phase.IsPlain (p : Phase) : Prop :=
  p.HasSource ∧ p.HasBuffers ∧ p ≠ .stopped ∧ p ≠ .emptied ∧ p ≠ .regenerated

instance (p : Phase) : Decidable p.HasBuffers := inferInstanceAs (Decidable (_ ∧ _ ∧ _))

instance (p : Phase) : Decidable p.HasSource := inferInstanceAs (Decidable (_ ∧ _ ∧ _))

instance (p : Phase) : Decidable p.IsPlain := inferInstanceAs (Decidable (_ ∧ _ ∧ _))

/-- What the loop relies on when it calls OpenAL: `n` is the name of its source. -/
structure Owns (al : OpenAL β) (n : ℕ) (r : Ring) : Prop where
  usable : al.Usable
  zero : al.sources 0 = none
  next_lt : r.next.toNat < oalBuffers.toNat
  unnamed : r.phase = .unnamed ∨ r.phase = .buffered → n = 0
  source : r.phase.HasSource → al.sources n = some r.source
  names : r.phase.HasBuffers → IsRing r.names
  attached : r.phase.HasBuffers → ∀ b ∈ r.names, al.attached b = some (r.source.queue.count b)
  stopped : r.phase = .stopped → r.source.state ≠ .playing ∧ r.source.state ≠ .paused
  emptied : r.phase = .emptied ∨ r.phase = .deleted ∨ r.phase = .regenerated →
    r.source.queue = []

def Stream.Owned (s : Stream β) : Prop := Owns s.al s.source s.ring

namespace Owns

variable {al al' : OpenAL β} {n : ℕ} {r r' : Ring}

theorem holds (h : Owns al n r) {p : Phase} (hp : r.phase = p) (hs : p.HasSource)
    (hb : p.HasBuffers) : al.Holds n r.names r.source :=
  ⟨h.source (hp ▸ hs), h.attached (hp ▸ hb)⟩

/-- Ownership once the source and the buffers exist. -/
theorem of_holds {p : Phase} (hp : r.phase = p) (hs : p.HasSource) (usable : al.Usable)
    (zero : al.sources 0 = none) (next_lt : r.next.toNat < oalBuffers.toNat)
    (names : IsRing r.names) (h : al.Holds n r.names r.source)
    (stopped : p = .stopped → r.source.state ≠ .playing ∧ r.source.state ≠ .paused)
    (emptied : p = .emptied ∨ p = .deleted ∨ p = .regenerated → r.source.queue = []) :
    Owns al n r := by
  subst hp
  refine ⟨usable, zero, next_lt, ?_, fun _ => h.source, fun _ => names, fun _ => h.attached,
    stopped, emptied⟩
  rintro (hp | hp)
  · exact absurd hp hs.2.1
  · exact absurd hp hs.2.2

/-- Ownership in a phase that asks for nothing else. -/
theorem of_isPlain {p : Phase} (hp : r.phase = p) (hplain : p.IsPlain) (usable : al.Usable)
    (zero : al.sources 0 = none) (next_lt : r.next.toNat < oalBuffers.toNat)
    (names : IsRing r.names) (h : al.Holds n r.names r.source) : Owns al n r := by
  obtain ⟨hs, hb, hstop, hempty, hregen⟩ := hplain
  refine of_holds hp hs usable zero next_lt names h (fun h => absurd h hstop) ?_
  rintro (h | h | h)
  · exact absurd h hempty
  · exact absurd h hb.2.2
  · exact absurd h hregen

end Owns

namespace Stream

variable {s t : Stream β} {c : Choice β}

theorem ring_source {s : Stream β} {names : List ℕ} {src : Source}
    (h : s.al.Holds s.source names src) : s.ring.source = src := by
  simp [ring, h.source]

/-- A loop that has forgotten nothing yet needs no more than a context. -/
theorem owned_of_starting (hp : s.ring.phase = .starting) (usable : s.al.Usable)
    (zero : s.al.sources 0 = none) (next_lt : s.ring.next.toNat < oalBuffers.toNat) :
    s.Owned := by
  refine ⟨usable, zero, next_lt, ?_, fun h => absurd hp h.1, fun h => absurd hp h.1,
    fun h => absurd hp h.1, ?_, ?_⟩ <;> simp [hp]

/-- Ownership depends on the ring and on the OpenAL objects only. -/
theorem Owned.congr (h : s.Owned) (hring : t.ring = s.ring) (hal : t.al = s.al)
    (hsource : t.source = s.source) : t.Owned := by
  unfold Owned
  rw [hring, hal, hsource]
  exact h

/-- The buffer the loop is about to fill or to queue is one of the ring. -/
theorem Owned.nextName_mem (h : s.Owned) (hb : s.ring.phase.HasBuffers) :
    s.nextName ∈ s.buffers := by
  have hlt : s.locals.nextBuffer.toNat < s.buffers.length := by
    have hlen : s.buffers.length = oalBuffers.toNat := (h.names hb).1
    rw [hlen]
    exact h.next_lt
  unfold nextName
  rw [List.getD_eq_getElem _ _ hlt]
  exact List.getElem_mem hlt

/-! ## No call on a deleted object -/

/-- The only source the loop ever names is its own, once it exists. -/
theorem sources_call {x : ALCall β} (hc : s.call = some x) :
    ∀ n ∈ x.sources, n = s.source ∧ s.ring.phase.HasSource := by
  have hphase : s.ring.phase = s.pc.phase := rfl
  unfold Stream.call at hc
  split at hc <;> cases hc <;>
    simp_all [ALCall.sources, Pc.phase, Phase.HasSource]

/-- The only buffers the loop ever names are its own, once they exist. -/
theorem buffers_call {x : ALCall β} (hc : s.call = some x) :
    ∀ b ∈ x.buffers, (b = s.nextName ∨ b ∈ s.buffers) ∧ s.ring.phase.HasBuffers := by
  have hphase : s.ring.phase = s.pc.phase := rfl
  unfold Stream.call at hc
  split at hc <;> cases hc <;>
    simp_all [ALCall.buffers, Pc.phase, Phase.HasBuffers]

theorem Owned.valid (h : s.Owned) {x : ALCall β} (hc : s.call = some x) : x.Valid s.al := by
  refine ⟨h.usable, fun n hn => ?_, fun b hb => ?_⟩
  · obtain ⟨rfl, hp⟩ := sources_call hc n hn
    rw [h.source hp]
    rfl
  · obtain ⟨hmem, hp⟩ := buffers_call hc b hb
    rcases hmem with rfl | hmem
    · exact OpenAL.isSome_of_attached (h.attached hp _ (h.nextName_mem hp))
    · exact OpenAL.isSome_of_attached (h.attached hp b hmem)

/-! ## Steps of the loop that call no OpenAL function -/

theorem ring_goto {pc : Pc β} (h : pc.phase = s.pc.phase) : (s.goto pc).ring = s.ring := by
  simp [ring, goto, h]

/-- A step that leaves the ring and the OpenAL objects alone. -/
theorem Owned.idle (h : s.Owned) (hring : t.ring = s.ring) (hal : t.al = s.al)
    (hsource : t.source = s.source) : t.Owned ∧ Ring.Step s.ring t.ring :=
  ⟨h.congr hring hal hsource, hring ▸ .idle _⟩

/-- A step between plain phases that leaves the OpenAL objects alone. -/
theorem Owned.move (h : s.Owned) {p : Phase} (hp : s.ring.phase = p) (hplain : p.IsPlain)
    (q : Phase) (hq : t.ring.phase = q) (hplain' : q.IsPlain) (hstep : Ring.Step s.ring t.ring)
    (hal : t.al = s.al) (hsource : t.source = s.source) (hn : t.buffers = s.buffers)
    (hnext : t.ring.next.toNat < oalBuffers.toNat) : t.Owned ∧ Ring.Step s.ring t.ring := by
  refine ⟨?_, hstep⟩
  have hs : t.ring.source = s.ring.source := by simp [ring, hal, hsource]
  have hn' : t.ring.names = s.ring.names := hn
  unfold Owned
  rw [hal, hsource]
  refine Owns.of_isPlain hq hplain' h.usable h.zero hnext ?_ ?_
  · rw [hn']
    exact h.names (hp ▸ hplain.2.1)
  · rw [hn', hs]
    exact h.holds hp hplain.1 hplain.2.1

theorem evaluate_idle {o : Operands} {x : Operand} (hpc : s.pc = .arguments o)
    (hs : s.evaluate o x = some t) :
    t.ring = s.ring ∧ t.al = s.al ∧ t.source = s.source := by
  have hnext : ∀ o' : Operands,
      (s.goto (o'.pc s.locals.availableFrames s.locals.byteData)).ring = s.ring := by
    intro o'
    refine ring_goto ?_
    rw [hpc]
    unfold Operands.pc
    split <;> rfl
  cases x <;> simp only [evaluate] at hs <;> split at hs <;> cases hs
  all_goals
    refine ⟨?_, rfl, rfl⟩
    first
    | exact hnext _
    | exact ring_goto (by rw [hpc]; rfl)

theorem Owned.advance (h : s.Owned) (hs : s.advance c = some t) :
    t.Owned ∧ Ring.Step s.ring t.ring := by
  cases hpc : s.pc with
  | readFrequency | readSpeakerLayout | readBitness | computeFrames | recomputeFrames
  | updateFrequency | updateBitness | updateSpeakerLayout =>
      simp only [Stream.advance, hpc, Option.some.injEq] at hs
      subst hs
      exact h.idle (by simp [ring, goto, setLocals, hpc, Pc.phase]) rfl rfl
  | head | testStreaming | sleep | compareFrequency | compareBitness | compareSpeakerLayout =>
      simp only [Stream.advance, hpc, Option.some.injEq] at hs
      subst hs
      refine h.idle (ring_goto ?_) rfl rfl
      rw [hpc]
      first
      | rfl
      | split <;> rfl
  | resetNames =>
      simp only [Stream.advance, hpc, Option.some.injEq] at hs
      subst hs
      have hp : s.ring.phase = .starting := congrArg Pc.phase hpc
      have hb : ¬ Phase.HasBuffers .unnamed := by decide
      have hn : ¬ Phase.HasSource .unnamed := by decide
      refine ⟨⟨h.usable, h.zero, h.next_lt, fun _ => rfl, fun hp => absurd hp hn,
        fun hp => absurd hp hb, fun hp => absurd hp hb, fun hp => ?_, fun hp => ?_⟩,
        .forget s.ring _ _ hp⟩
      · exact absurd hp (by decide : Phase.unnamed ≠ .stopped)
      · rcases hp with hp | hp | hp <;> cases hp
  | resetCounters =>
      simp only [Stream.advance, hpc, Option.some.injEq] at hs
      subst hs
      have hp : s.ring.phase = .regenerated := congrArg Pc.phase hpc
      have hsrc := h.holds hp (by decide) (by decide)
      have hn := h.names (hp ▸ by decide)
      refine ⟨Owns.of_isPlain rfl ?_ h.usable h.zero ?_ hn hsrc, .reset s.ring hp⟩
      · exact (by decide : Phase.settled.IsPlain)
      · exact (by decide : (0 : UInt32).toNat < oalBuffers.toNat)
  | countUnqueued =>
      simp only [Stream.advance, hpc, Option.some.injEq] at hs
      subst hs
      have hp : s.ring.phase = .taken := congrArg Pc.phase hpc
      exact h.move hp (by decide) .room rfl (by decide) (.countUnqueued s.ring hp) rfl rfl rfl
        h.next_lt
  | selectWidth =>
      have hp : s.ring.phase = .room := congrArg Pc.phase hpc
      simp only [Stream.advance, hpc] at hs
      split at hs <;> cases hs
      · exact h.move hp (by decide) .settled rfl (by decide) (.giveUp s.ring hp) rfl rfl rfl
          h.next_lt
      · exact h.idle (ring_goto (by rw [hpc]; rfl)) rfl rfl
  | mix n =>
      have hp : s.ring.phase = .room := congrArg Pc.phase hpc
      simp only [Stream.advance, hpc, Option.some.injEq] at hs
      subst hs
      split
      · exact h.move hp (by decide) .settled rfl (by decide) (.giveUp s.ring hp) rfl rfl rfl
          h.next_lt
      · exact h.idle (by simp [ring, goto, setLocals, hpc, Pc.phase]) rfl rfl
  | arguments o =>
      simp only [Stream.advance, hpc] at hs
      obtain ⟨hring, hal, hsource⟩ := evaluate_idle hpc hs
      exact h.idle hring hal hsource
  | countQueued =>
      simp only [Stream.advance, hpc, Option.some.injEq] at hs
      subst hs
      have hp : s.ring.phase = .appended := congrArg Pc.phase hpc
      refine h.move hp (by decide) .counted rfl (by decide) (.countQueued s.ring hp) rfl rfl rfl ?_
      exact Nat.mod_lt _ (by decide)
  | _ => simp [Stream.advance, hpc] at hs

/-! ## Steps of the loop that call OpenAL -/

/-- A call of the loop takes effect, and leaves the context usable. -/
theorem Owned.loopStep_call (h : s.Owned) {x : ALCall β} (hc : s.call = some x)
    (hs : s.loopStep c = some t) :
    x.MayReturn c.names s.al ∧ (x.effect c.names s.al).2.Usable ∧
      (x.effect c.names s.al).2.sources 0 = none ∧
      t = (s.setAl (x.effect c.names s.al).2).resume c (x.effect c.names s.al).1 := by
  unfold Stream.loopStep at hs
  simp only [hc, ALCall.perform_of_valid (h.valid hc)] at hs
  split at hs
  · next hm =>
      exact ⟨hm, (ALCall.usable_effect ..).mpr h.usable, ALCall.effect_zero hm h.zero,
        (Option.some.inj hs).symm⟩
  · cases hs

/-- The state after a step that acts on the source, as the ring sees it. -/
theorem act {names : List ℕ} {src : Source} (hsrc : t.al.Holds t.source names src)
    (hstep : Ring.Step s.ring { t.ring with source := src })
    (howns : Owns t.al t.source { t.ring with source := src }) :
    t.Owned ∧ Ring.Step s.ring t.ring := by
  have hring : { t.ring with source := src } = t.ring := by rw [← ring_source hsrc]
  rw [hring] at hstep howns
  exact ⟨howns, hstep⟩

theorem Owned.loopStep_genBuffers (h : s.Owned) (hpc : s.pc = .genBuffers)
    (hs : s.loopStep c = some t) : t.Owned ∧ Ring.Step s.ring t.ring := by
  obtain ⟨hm, hu, hz, ht⟩ := h.loopStep_call (by rw [Stream.call, hpc]) hs
  simp only [Stream.resume, pc_setAl, hpc] at ht
  subst ht
  have hp : s.ring.phase = .unnamed := congrArg Pc.phase hpc
  have hn : IsRing c.names := ⟨hm.1, hm.2.1⟩
  have hsource : s.ring.source = .fresh := by simp [ring, h.unnamed (.inl hp), h.zero]
  refine ⟨⟨hu, hz, h.next_lt, fun _ => h.unnamed (.inl hp), fun hs => ?_, fun _ => hn,
    fun _ b hb => ?_, fun hp => ?_, fun hp => ?_⟩, .name s.ring c.names hp hn⟩
  · exact absurd hs (by decide : ¬ Phase.HasSource .buffered)
  · have hb' : b ∈ c.names := hb
    change (s.al.genBuffers c.names).attached b = some (s.ring.source.queue.count b)
    simp [OpenAL.attached_genBuffers, hb', hsource, Source.fresh]
  · exact absurd hp (by decide : Phase.buffered ≠ .stopped)
  · rcases hp with hp | hp | hp <;> cases hp

theorem Owned.loopStep_genSources (h : s.Owned) (hpc : s.pc = .genSources)
    (hs : s.loopStep c = some t) : t.Owned ∧ Ring.Step s.ring t.ring := by
  obtain ⟨hm, hu, hz, ht⟩ := h.loopStep_call (by rw [Stream.call, hpc]) hs
  simp only [Stream.resume, pc_setAl, hpc] at ht
  have hp : s.ring.phase = .buffered := congrArg Pc.phase hpc
  subst ht
  have hsource : s.ring.source = .fresh := by simp [ring, h.unnamed (.inr hp), h.zero]
  have hsrc : (s.al.genSources c.names).Holds (c.names.headD s.source) s.buffers .fresh := by
    obtain ⟨n, hn⟩ := List.length_eq_one_iff.mp hm.1
    refine ⟨by simp [hn, OpenAL.genSources], fun b hb => ?_⟩
    have hat := h.attached (hp ▸ by decide) b hb
    rwa [hsource] at hat
  exact act hsrc (.create s.ring hp) <|
    .of_isPlain rfl (by decide : Phase.settled.IsPlain) hu hz h.next_lt
      (h.names (hp ▸ by decide)) hsrc

theorem Owned.loopStep_stopSource (h : s.Owned) (hpc : s.pc = .stopSource)
    (hs : s.loopStep c = some t) : t.Owned ∧ Ring.Step s.ring t.ring := by
  obtain ⟨-, hu, hz, ht⟩ := h.loopStep_call (by rw [Stream.call, hpc]) hs
  simp only [Stream.resume, pc_setAl, hpc] at ht
  subst ht
  have hp : s.ring.phase = .settled := congrArg Pc.phase hpc
  have hsrc := (h.holds hp (by decide) (by decide)).update s.ring.source.queue_stop
  refine act hsrc (.stop s.ring hp) <|
    .of_holds rfl (by decide : Phase.stopped.HasSource) hu hz h.next_lt
      (h.names (hp ▸ by decide)) hsrc (fun _ => ?_) (fun hp => ?_)
  · exact ⟨s.ring.source.state_stop_ne_playing, s.ring.source.state_stop_ne_paused⟩
  · rcases hp with hp | hp | hp <;> cases hp

theorem Owned.loopStep_detachBuffers (h : s.Owned) (hpc : s.pc = .detachBuffers)
    (hs : s.loopStep c = some t) : t.Owned ∧ Ring.Step s.ring t.ring := by
  obtain ⟨-, hu, hz, ht⟩ := h.loopStep_call (by rw [Stream.call, hpc]) hs
  simp only [Stream.resume, pc_setAl, hpc] at ht
  subst ht
  have hp : s.ring.phase = .stopped := congrArg Pc.phase hpc
  have hsrc := (h.holds hp (by decide) (by decide)).detach
  refine act hsrc (.detach s.ring hp) <|
    .of_holds rfl (by decide : Phase.emptied.HasSource) hu hz h.next_lt
      (h.names (hp ▸ by decide)) hsrc (fun hp => ?_) (fun _ => ?_)
  · cases hp
  · exact Source.queue_detach (h.stopped hp).1 (h.stopped hp).2

theorem Owned.loopStep_deleteBuffers (h : s.Owned) (hpc : s.pc = .deleteBuffers)
    (hs : s.loopStep c = some t) : t.Owned ∧ Ring.Step s.ring t.ring := by
  obtain ⟨-, hu, hz, ht⟩ := h.loopStep_call (by rw [Stream.call, hpc]) hs
  simp only [Stream.resume, pc_setAl, hpc] at ht
  subst ht
  have hp : s.ring.phase = .emptied := congrArg Pc.phase hpc
  have hsrc := (h.holds hp (by decide) (by decide)).deleteBuffers s.buffers
  have hb : ¬ Phase.HasBuffers .deleted := by decide
  refine act hsrc (.delete s.ring hp)
    ⟨hu, hz, h.next_lt, fun hp => ?_, fun _ => hsrc.source, fun hp => absurd hp hb,
      fun hp => absurd hp hb, fun hp => ?_, fun _ => h.emptied (.inl hp)⟩
  · rcases hp with hp | hp <;> cases hp
  · cases hp

theorem Owned.loopStep_regenBuffers (h : s.Owned) (hpc : s.pc = .regenBuffers)
    (hs : s.loopStep c = some t) : t.Owned ∧ Ring.Step s.ring t.ring := by
  obtain ⟨hm, hu, hz, ht⟩ := h.loopStep_call (by rw [Stream.call, hpc]) hs
  simp only [Stream.resume, pc_setAl, hpc] at ht
  subst ht
  have hp : s.ring.phase = .deleted := congrArg Pc.phase hpc
  have hempty := h.emptied (.inr (.inl hp))
  have hn : IsRing c.names := ⟨hm.1, hm.2.1⟩
  have hsrc : s.al.Holds s.source [] s.ring.source := ⟨h.source (hp ▸ by decide), by simp⟩
  have hsrc' := hsrc.genBuffers hempty c.names
  refine act hsrc' (.rename s.ring c.names hp hn) <|
    .of_holds rfl (by decide : Phase.regenerated.HasSource) hu hz h.next_lt hn hsrc'
      (fun hp => ?_) fun _ => hempty
  cases hp

theorem Owned.loopStep_getProcessed (h : s.Owned) (hpc : s.pc = .getProcessed)
    (hs : s.loopStep c = some t) : t.Owned ∧ Ring.Step s.ring t.ring := by
  obtain ⟨-, -, -, ht⟩ := h.loopStep_call (by rw [Stream.call, hpc]) hs
  simp only [Stream.resume, pc_setAl, hpc] at ht
  subst ht
  have hp : s.ring.phase = .settled := congrArg Pc.phase hpc
  have hstep := Ring.Step.poll s.ring hp
  rw [← (h.holds hp (by decide) (by decide)).played] at hstep
  exact h.move hp (by decide) .polled rfl (by decide) hstep rfl rfl rfl h.next_lt

theorem Owned.loopStep_getState (h : s.Owned) (hpc : s.pc = .getState)
    (hs : s.loopStep c = some t) : t.Owned ∧ Ring.Step s.ring t.ring := by
  obtain ⟨-, -, -, ht⟩ := h.loopStep_call (by rw [Stream.call, hpc]) hs
  simp only [Stream.resume, pc_setAl, hpc] at ht
  have hp : s.ring.phase = .polled := congrArg Pc.phase hpc
  split at ht
  · next hfull =>
      subst ht
      exact h.move hp (by decide) .settled rfl (by decide)
        (.full s.ring hp hfull.1 hfull.2) rfl rfl rfl h.next_lt
  · next hfull =>
      split at ht
      · next hnone =>
          subst ht
          have hq : s.numBuffersQueued ≠ oalBuffers := fun hq => hfull ⟨hq, hnone⟩
          exact h.move hp (by decide) .room rfl (by decide)
            (.ready s.ring hp hq hnone) rfl rfl rfl h.next_lt
      · next hsome =>
          subst ht
          exact h.move hp (by decide) .taking rfl (by decide)
            (.take s.ring hp hsome) rfl rfl rfl h.next_lt

theorem Owned.loopStep_unqueue (h : s.Owned) (hpc : s.pc = .unqueue)
    (hs : s.loopStep c = some t) : t.Owned ∧ Ring.Step s.ring t.ring := by
  obtain ⟨-, hu, hz, ht⟩ := h.loopStep_call (by rw [Stream.call, hpc]) hs
  simp only [Stream.resume, pc_setAl, hpc] at ht
  subst ht
  have hp : s.ring.phase = .taking := congrArg Pc.phase hpc
  have hsrc := (h.holds hp (by decide) (by decide)).unqueue s.locals.numBuffersProcessed
  exact act hsrc (.unqueue s.ring hp) <|
    .of_isPlain rfl (by decide : Phase.taken.IsPlain) hu hz h.next_lt
      (h.names (hp ▸ by decide)) hsrc

theorem Owned.loopStep_bufferData (h : s.Owned) {call : BufferDataCall β}
    (hpc : s.pc = .bufferData call) (hs : s.loopStep c = some t) : t.Owned ∧ Ring.Step s.ring t.ring := by
  obtain ⟨-, hu, hz, ht⟩ := h.loopStep_call (by rw [Stream.call, hpc]) hs
  simp only [Stream.resume, pc_setAl, hpc] at ht
  subst ht
  have hp : s.ring.phase = .room := congrArg Pc.phase hpc
  have hsrc := (h.holds hp (by decide) (by decide)).bufferData s.nextName call
  have hidle : Ring.Step s.ring { s.ring with phase := .room } := hp ▸ .idle s.ring
  exact act hsrc hidle <|
    .of_isPlain rfl (by decide : Phase.room.IsPlain) hu hz h.next_lt
      (h.names (hp ▸ by decide)) hsrc

theorem Owned.loopStep_queueBuffer (h : s.Owned) (hpc : s.pc = .queueBuffer)
    (hs : s.loopStep c = some t) : t.Owned ∧ Ring.Step s.ring t.ring := by
  obtain ⟨-, hu, hz, ht⟩ := h.loopStep_call (by rw [Stream.call, hpc]) hs
  simp only [Stream.resume, pc_setAl, hpc] at ht
  subst ht
  have hp : s.ring.phase = .room := congrArg Pc.phase hpc
  have hsrc := (h.holds hp (by decide) (by decide)).queueBuffer s.nextName
  exact act hsrc (.enqueue s.ring hp) <|
    .of_isPlain rfl (by decide : Phase.appended.IsPlain) hu hz h.next_lt
      (h.names (hp ▸ by decide)) hsrc

theorem Owned.loopStep_getStateAgain (h : s.Owned) (hpc : s.pc = .getStateAgain)
    (hs : s.loopStep c = some t) : t.Owned ∧ Ring.Step s.ring t.ring := by
  obtain ⟨-, -, -, ht⟩ := h.loopStep_call (by rw [Stream.call, hpc]) hs
  have hp : s.ring.phase = .counted := congrArg Pc.phase hpc
  simp only [Stream.resume, pc_setAl, hpc, ALCall.effect, h.source (hp ▸ by decide),
    Option.map_some, Option.some_or, Option.some.injEq] at ht
  split at ht
  · next hplaying =>
      subst ht
      exact h.move hp (by decide) .settled rfl (by decide)
        (.running s.ring hp hplaying) rfl rfl rfl h.next_lt
  · next hplaying =>
      subst ht
      exact h.move hp (by decide) .stalled rfl (by decide)
        (.stall s.ring hp hplaying) rfl rfl rfl h.next_lt

theorem Owned.loopStep_play (h : s.Owned) (hpc : s.pc = .play) (hs : s.loopStep c = some t) :
    t.Owned ∧ Ring.Step s.ring t.ring := by
  obtain ⟨-, hu, hz, ht⟩ := h.loopStep_call (by rw [Stream.call, hpc]) hs
  simp only [Stream.resume, pc_setAl, hpc] at ht
  subst ht
  have hp : s.ring.phase = .stalled := congrArg Pc.phase hpc
  have hsrc := (h.holds hp (by decide) (by decide)).update s.ring.source.queue_play
  exact act hsrc (.play s.ring hp) <|
    .of_isPlain rfl (by decide : Phase.settled.IsPlain) hu hz h.next_lt
      (h.names (hp ▸ by decide)) hsrc

/-- A call that only reads, after which the loop goes on in the same phase. -/
theorem Owned.loopStep_quiet (h : s.Owned) {x : ALCall β} (hc : s.call = some x)
    (hquiet : x.effect c.names s.al = ({}, s.al))
    (hresume : ∃ pc, s.resume c {} = s.goto pc ∧ pc.phase = s.pc.phase)
    (hs : s.loopStep c = some t) : t.Owned ∧ Ring.Step s.ring t.ring := by
  obtain ⟨pc, hgoto, hphase⟩ := hresume
  obtain ⟨-, -, -, ht⟩ := h.loopStep_call hc hs
  rw [hquiet] at ht
  replace ht : t = s.resume c {} := ht
  rw [hgoto] at ht
  subst ht
  exact h.idle (ring_goto hphase) rfl rfl

/-- A call of the loop keeps what it owns, and is a step of the ring. -/
theorem Owned.resume (h : s.Owned) {x : ALCall β} (hc : s.call = some x)
    (hs : s.loopStep c = some t) : t.Owned ∧ Ring.Step s.ring t.ring := by
  cases hpc : s.pc with
  | queryFloat32 | queryMcFormats | queryRenderer | queryFixed32 | clearError | setGain =>
      simp only [Stream.call, hpc, Option.some.injEq] at hc
      subst hc
      refine h.loopStep_quiet (by rw [Stream.call, hpc]) rfl ⟨_, by rw [Stream.resume, hpc], ?_⟩ hs
      rw [hpc]
      first
      | rfl
      | split <;> rfl
  | getEnumValue o name =>
      simp only [Stream.call, hpc, Option.some.injEq] at hc
      subst hc
      refine h.loopStep_quiet (by rw [Stream.call, hpc]) rfl ⟨_, by rw [Stream.resume, hpc], ?_⟩ hs
      rw [hpc]
      unfold Operands.pc
      split <;> rfl
  | check e =>
      simp only [Stream.call, hpc, Option.some.injEq] at hc
      subst hc
      refine h.loopStep_quiet (by rw [Stream.call, hpc]) rfl ⟨_, by rw [Stream.resume, hpc], ?_⟩ hs
      rw [hpc]
      split
      · rfl
      · exact e.phase_next
  | report e =>
      simp only [Stream.call, hpc, Option.some.injEq] at hc
      subst hc
      refine h.loopStep_quiet (by rw [Stream.call, hpc]) rfl ⟨_, by rw [Stream.resume, hpc], ?_⟩ hs
      rw [hpc]
      exact e.phase_next
  | genBuffers => exact h.loopStep_genBuffers hpc hs
  | genSources => exact h.loopStep_genSources hpc hs
  | stopSource => exact h.loopStep_stopSource hpc hs
  | detachBuffers => exact h.loopStep_detachBuffers hpc hs
  | deleteBuffers => exact h.loopStep_deleteBuffers hpc hs
  | regenBuffers => exact h.loopStep_regenBuffers hpc hs
  | getProcessed => exact h.loopStep_getProcessed hpc hs
  | getState => exact h.loopStep_getState hpc hs
  | unqueue => exact h.loopStep_unqueue hpc hs
  | bufferData call => exact h.loopStep_bufferData hpc hs
  | queueBuffer => exact h.loopStep_queueBuffer hpc hs
  | getStateAgain => exact h.loopStep_getStateAgain hpc hs
  | play => exact h.loopStep_play hpc hs
  | _ => simp [Stream.call, hpc] at hc

/-- Every step of the loop keeps what it owns, and is a step of the ring. -/
theorem Owned.loopStep (h : s.Owned) (hs : s.loopStep c = some t) :
    t.Owned ∧ Ring.Step s.ring t.ring := by
  cases hc : s.call with
  | none =>
      unfold Stream.loopStep at hs
      rw [hc] at hs
      exact h.advance hs
  | some x => exact h.resume hc hs

/-! ## Steps of the driver and of the other threads -/

theorem ring_update_source (s : Stream β) (src : Source) :
    Stream.ring (s.setAl { s.al with
      sources := Function.update s.al.sources s.source (some src) }) =
      { s.ring with source := src } := by
  simp [ring, setAl]

theorem ring_update_other {n : ℕ} (hn : s.source ≠ n) (src : Source) :
    Stream.ring (s.setAl { s.al with sources := Function.update s.al.sources n (some src) }) =
      s.ring := by
  simp [ring, setAl, hn]

theorem ring_driven {n : ℕ} {al : OpenAL β} (hf : s.al.finish n = some al) :
    Ring.Driven s.ring (s.setAl al).ring := by
  obtain ⟨src, hsrc, rfl⟩ := Option.map_eq_some_iff.mp hf
  obtain ⟨src₀, hsrc₀, hfin⟩ := Option.bind_eq_some_iff.mp hsrc
  by_cases hn : s.source = n
  · subst hn
    rw [ring_update_source]
    exact .finish _ _ (by simpa [ring, hsrc₀] using hfin)
  · rw [ring_update_other hn]
    exact .other _

theorem Owned.driven (h : s.Owned) {n : ℕ} {al : OpenAL β} (hf : s.al.finish n = some al) :
    (s.setAl al).Owned := by
  have hdriven := ring_driven hf
  have hqueue := hdriven.queue
  obtain ⟨src, hsrc, rfl⟩ := Option.map_eq_some_iff.mp hf
  obtain ⟨src₀, hsrc₀, -⟩ := Option.bind_eq_some_iff.mp hsrc
  have hzero : 0 ≠ n := by
    rintro rfl
    rw [h.zero] at hsrc₀
    cases hsrc₀
  refine ⟨h.usable, ?_, h.next_lt, h.unnamed, ?_, h.names, ?_, ?_, ?_⟩
  · exact (Function.update_of_ne hzero _ _).trans h.zero
  · intro hp
    have hsome := h.source hp
    change Function.update s.al.sources n (some src) s.source =
      some ((Function.update s.al.sources n (some src) s.source).getD .fresh)
    by_cases hn : s.source = n
    · subst hn
      rw [Function.update_self, Option.getD_some]
    · rw [Function.update_of_ne hn]
      exact hsome
  · intro hp b hb
    rw [hqueue]
    exact h.attached hp b hb
  · intro hp
    rw [hdriven.of_not_playing (h.stopped hp).1]
    exact h.stopped hp
  · intro hp
    rw [hqueue]
    exact h.emptied hp

/-- A call of another thread that acts on the source of the loop as `f` does. -/
theorem Owned.onSource (h : s.Owned) {x : ALCall β} (hx : x.MayReturn [] s.al)
    (hsources : x.sources = [s.source]) (hbuffers : x.buffers = []) {f : Source → Source}
    (heffect : ∀ names src, s.al.Holds s.source names src →
      (x.effect [] s.al).2.Holds s.source names (f src))
    (hfresh : f .fresh = .fresh)
    (hstate : ∀ src, src.state ≠ .playing ∧ src.state ≠ .paused →
      (f src).state ≠ .playing ∧ (f src).state ≠ .paused)
    (hqueue : ∀ src, src.queue = [] → (f src).queue = []) :
    (s.setAl (x.perform [] s.al).2).Owned ∧
      (s.setAl (x.perform [] s.al).2).ring = { s.ring with source := f s.ring.source } := by
  cases hsrc : s.al.sources s.source with
  | none =>
      have hx : ¬ x.Valid s.al := by simp [ALCall.Valid, hsources, hsrc]
      have hring : s.ring.source = .fresh := by simp [ring, hsrc]
      have hsame : { s.ring with source := f s.ring.source } = s.ring := by
        rw [hring, hfresh]
        exact congrArg (fun src => { s.ring with source := src }) hring.symm
      rw [ALCall.perform, if_neg hx, hsame]
      exact ⟨h, rfl⟩
  | some src =>
      have hvalid : x.Valid s.al := by simp [ALCall.Valid, hsources, hbuffers, hsrc, h.usable]
      have hring : s.ring.source = src := by simp [ring, hsrc]
      have hall : s.ring.phase.HasBuffers → s.al.Holds s.source s.buffers src :=
        fun hp => ⟨hsrc, hring ▸ h.attached hp⟩
      have hone := heffect [] src ⟨hsrc, by simp⟩
      rw [ALCall.perform_of_valid hvalid]
      have hring' : (s.setAl (x.effect [] s.al).2).ring =
          { s.ring with source := f s.ring.source } := by
        rw [hring]
        simp [ring, setAl, hone.source]
      refine ⟨?_, hring'⟩
      unfold Owned
      rw [hring', hring]
      refine ⟨(ALCall.usable_effect ..).mpr h.usable, ALCall.effect_zero hx h.zero, h.next_lt,
        h.unnamed, fun _ => hone.source, h.names, fun hp => (heffect _ _ (hall hp)).attached,
        fun hp => ?_, fun hp => ?_⟩
      · exact hstate src (hring ▸ h.stopped hp)
      · exact hqueue src (hring ▸ h.emptied hp)

theorem Owned.sourceStop (h : s.Owned) :
    (s.setAl ((ALCall.sourceStop s.source).perform [] s.al).2).Owned ∧
      (s.setAl ((ALCall.sourceStop s.source).perform [] s.al).2).ring =
        { s.ring with source := s.ring.source.stop } :=
  h.onSource (x := .sourceStop s.source) trivial rfl rfl
    (fun _ src hsrc => hsrc.update src.queue_stop) rfl
    (fun src _ => ⟨src.state_stop_ne_playing, src.state_stop_ne_paused⟩)
    fun src hq => src.queue_stop.trans hq

theorem Owned.detachBuffers (h : s.Owned) :
    (s.setAl ((ALCall.detachBuffers s.source).perform [] s.al).2).Owned ∧
      (s.setAl ((ALCall.detachBuffers s.source).perform [] s.al).2).ring =
        { s.ring with source := s.ring.source.detach } := by
  refine h.onSource (x := .detachBuffers s.source) trivial rfl rfl (fun _ _ hsrc => hsrc.detach)
    rfl (fun src hs => ?_) fun src hq => ?_
  · unfold Source.detach
    split <;> exact hs
  · unfold Source.detach
    split
    · exact hq
    · rfl

/-- After `Stop` the queue of the source is empty. -/
theorem queue_stop_detach (src : Source) : src.stop.detach.queue = [] :=
  Source.queue_detach src.state_stop_ne_playing src.state_stop_ne_paused

/-- `Stop` stops the source and takes its buffers away. -/
theorem Owned.stop (h : s.Owned) :
    s.stop.Owned ∧ s.stop.ring = { s.ring with source := s.ring.source.stop.detach } := by
  obtain ⟨hstop, hring⟩ := h.sourceStop
  obtain ⟨hdetach, hring'⟩ := hstop.detachBuffers
  rw [hring] at hring'
  exact ⟨hdetach.congr rfl rfl rfl, hring'⟩

end Stream

end OpenALRenderer
