import OpenALRenderer.Verification.Stream.Restart

/-! # Destroying a stream while its loop still runs -/

namespace OpenALRenderer

open Foundation

variable {β : Type*}

/-! ## Waiting for the loop -/

/-- The step of the destructor deletes an object, forgets its name, or takes the context away. -/
def Destructor.Deletes : Destructor → Prop
  | .deleteSource | .clearSource | .deleteBuffers | .releaseContext | .destroyContext
  | .closeDevice => True
  | _ => False

namespace Stream

variable {s t : Stream β} {a : Label β} {c : Choice β}

/-- With `m_run_thread` false, the loop ends from here without another OpenAL call. -/
def Quiet (s : Stream β) : Prop :=
  s.pc = .notStarted ∨ s.pc = .head ∨ s.pc = .sleep ∨ s.pc = .exited

/-- The destructor takes nothing away before the loop is done calling OpenAL. -/
def Label.WaitsForLoop (s : Stream β) : Label β → Prop
  | .destroy => Destructor.Deletes s.destructor → s.Quiet
  | _ => True

theorem Quiet.call_eq_none (h : s.Quiet) : s.call = none := by
  rcases h with h | h | h | h <;> simp [Stream.call, h]

theorem Quiet.loopStep (h : s.Quiet) (hr : s.runThread = false) (hs : s.loopStep c = some t) :
    t.Quiet := by
  have hcall := h.call_eq_none
  simp only [Stream.loopStep, hcall] at hs
  rcases h with h | h | h | h <;> simp only [Stream.advance, h, reduceCtorEq] at hs
  · simp only [hr, Bool.false_eq_true, if_false, Option.some.injEq] at hs
    exact hs ▸ .inr (.inr (.inr rfl))
  · exact (Option.some.inj hs) ▸ .inr (.inl rfl)

/-! ## The invariant -/

/-- Once the destructor has begun, the loop will end; and the loop owns what it names until it is
done calling OpenAL. -/
structure Guarded (s : Stream β) : Prop where
  ending : s.destructor ≠ .notCalled → s.runThread = false
  owned : s.Owned ∨ s.destructor ≠ .notCalled ∧ s.Quiet

theorem Guarded.loop (h : s.Guarded) (hs : s.loopStep c = some t) : t.Guarded := by
  have hset := loopStep_settings hs
  refine ⟨?_, ?_⟩
  · rw [hset.destructor, hset.runThread]
    exact h.ending
  · rcases h.owned with ho | ⟨hd, hq⟩
    · exact .inl (ho.loopStep hs).1
    · rw [hset.destructor]
      exact .inr ⟨hd, hq.loopStep (h.ending hd) hs⟩

/-- A step of the destructor that only looks at OpenAL, or stops the source. -/
theorem Guarded.keep (h : s.Guarded) (hrun : t.runThread = false)
    (hd : t.destructor ≠ .notCalled) (hpc : t.pc = s.pc) (ho : s.Owned → t.Owned) :
    t.Guarded := by
  refine ⟨fun _ => hrun, h.owned.imp ho fun hq => ⟨hd, ?_⟩⟩
  have hquiet := hq.2
  unfold Quiet at hquiet ⊢
  rwa [hpc]

/-- A step of the destructor that takes something away while the loop is quiet. -/
theorem Guarded.delete (hq : s.Quiet) (hrun : t.runThread = false)
    (hd : t.destructor ≠ .notCalled) (hpc : t.pc = s.pc) : t.Guarded := by
  refine ⟨fun _ => hrun, .inr ⟨hd, ?_⟩⟩
  unfold Quiet at hq ⊢
  rwa [hpc]

theorem Guarded.destroy (h : s.Guarded) (hw : (Label.destroy : Label β).WaitsForLoop s)
    (hs : s.destructorStep = some t) : t.Guarded := by
  have hrun : s.destructor ≠ .notCalled → s.runThread = false := h.ending
  cases hd : s.destructor with
  | notCalled =>
      simp only [destructorStep, hd, Option.some.injEq] at hs
      subst hs
      exact h.keep rfl (by dsimp only; split <;> simp) rfl fun ho => ho.congr rfl rfl rfl
  | testSource =>
      simp only [destructorStep, hd, Option.some.injEq] at hs
      subst hs
      exact h.keep (hrun (by simp [hd])) (by dsimp only; split <;> simp) rfl
        fun ho => ho.congr rfl rfl rfl
  | stopSource =>
      simp only [destructorStep, hd, Option.some.injEq] at hs
      subst hs
      exact h.keep (hrun (by simp [hd])) (by simp) rfl fun ho => ho.sourceStop.1.congr rfl rfl rfl
  | detachBuffers =>
      simp only [destructorStep, hd, Option.some.injEq] at hs
      subst hs
      exact h.keep (hrun (by simp [hd])) (by simp) rfl
        fun ho => ho.detachBuffers.1.congr rfl rfl rfl
  | deleteSource | clearSource | deleteBuffers | releaseContext | destroyContext | closeDevice =>
      have hq : s.Quiet := hw (by rw [hd]; trivial)
      simp only [destructorStep, hd, Option.some.injEq] at hs
      subst hs
      exact .delete hq (hrun (by simp [hd])) (by simp) rfl
  | join =>
      simp only [destructorStep, hd] at hs
      split at hs <;> cases hs
      exact h.keep (hrun (by simp [hd])) (by simp) rfl fun ho => ho.congr rfl rfl rfl
  | returned => simp [destructorStep, hd] at hs

theorem Guarded.next (h : s.Guarded) (hw : a.WaitsForLoop s) (hs : s.next a = some t) :
    t.Guarded := by
  cases a with
  | loop c => exact h.loop hs
  | driver n =>
      obtain ⟨al, hf, rfl⟩ := Option.map_eq_some_iff.mp hs
      exact ⟨h.ending, h.owned.imp_left fun ho => ho.driven hf⟩
  | setFrequency f | setSpeakerLayout l | setBitness b | setStreaming b =>
      cases hs
      exact ⟨h.ending, h.owned.imp_left fun ho => ho.congr rfl rfl rfl⟩
  | startDevice =>
      obtain ⟨hd, rfl | ⟨-, -, rfl⟩⟩ := next_startDevice hs
      · exact h
      · have ho : s.Owned := h.owned.resolve_right fun hq => hq.1 hd
        exact ⟨fun hne => absurd hd hne, .inl
          (owned_of_starting rfl ho.usable ho.zero (by decide : (0 : UInt32).toNat < 8))⟩
  | stopDevice =>
      obtain rfl := next_stopDevice hs
      exact ⟨fun _ => rfl, h.owned.imp_left fun ho => ho.congr rfl rfl rfl⟩
  | stop =>
      obtain rfl := next_stop hs
      exact ⟨h.ending, h.owned.imp_left fun ho => ho.stop.1⟩
  | destroy => exact h.destroy hw hs

theorem guarded_of_reachable (h : (life β).ReachableWhere (fun s a => a.WaitsForLoop s) s) :
    s.Guarded :=
  h.invariant (fun _ hs => hs ▸ ⟨fun hd => absurd rfl hd, .inl sound_constructed.owned⟩)
    fun _ _ _ hI hw hs => hI.next hw hs

/-- In a life whose destructor waits for the loop before it takes anything away, every OpenAL call
the loop is about to make finds the context, the source and the buffers it names alive. -/
theorem teardown_safe (s : Stream β)
    (h : (life β).ReachableWhere (fun s a => a.WaitsForLoop s) s) {x : ALCall β}
    (hc : s.call = some x) : x.Valid s.al := by
  rcases (guarded_of_reachable h).owned with ho | ⟨-, hq⟩
  · exact ho.valid hc
  · rw [hq.call_eq_none] at hc
    cases hc

instance (d : Destructor) : Decidable d.Deletes := by
  unfold Destructor.Deletes
  split <;> infer_instance

instance [DecidableEq β] (s : Stream β) : Decidable s.Quiet := inferInstanceAs (Decidable (_ ∨ _))

instance [DecidableEq β] (s : Stream β) : ∀ a : Label β, Decidable (a.WaitsForLoop s)
  | .destroy => inferInstanceAs (Decidable (_ → _))
  | .loop _ | .driver _ | .setFrequency _ | .setSpeakerLayout _ | .setBitness _ | .setStreaming _
  | .startDevice | .stopDevice | .stop => isTrue trivial

/-- The destructor has stopped the source while the loop is about to ask for its buffers. -/
theorem teardown_safe_at_query : ∃ s : Stream Unit, s.destructor = .deleteSource ∧
    s.call = some (.buffersProcessed s.source) ∧
      (ALCall.buffersProcessed s.source : ALCall Unit).Valid s.al := by
  have hrun : (System.exec next (fun s a => a.WaitsForLoop s) (constructed : Stream Unit)
      ([.setStreaming true, .startDevice] ++ prologue [1, 2, 3, 4, 5, 6, 7, 8] 1 ++
        List.replicate 5 (.loop {}) ++ List.replicate 4 .destroy)).any
      fun s => s.destructor = .deleteSource ∧ s.pc = .getProcessed := by decide +kernel
  obtain ⟨s, hs, hd, hpc⟩ : ∃ s, (life Unit).ReachableWhere (fun s a => a.WaitsForLoop s) s ∧
      s.destructor = .deleteSource ∧ s.pc = .getProcessed :=
    System.exists_reachableWhere_of_exec _ rfl hrun
  have hcall : s.call = some (.buffersProcessed s.source) := by simp [Stream.call, hpc]
  exact ⟨s, hd, hcall, teardown_safe s hs hcall⟩

/-- The destructor closes the device while the loop is blocked in `Mix`; the loop then fills a
deleted buffer. -/
theorem teardown_leaves_dangling_calls : ∃ (s : Stream Unit) (x : ALCall Unit),
    (life Unit).Reachable s ∧ s.call = some x ∧ x.buffers = [1] ∧ (s.al.buffers 1).isNone ∧
      s.al.context = false ∧ s.al.device = false := by
  have hrun : (System.exec next (fun _ _ => True) (constructed : Stream Unit)
      ([.setStreaming true, .startDevice] ++ prologue [1, 2, 3, 4, 5, 6, 7, 8] 1 ++
        List.replicate 8 (.loop {}) ++ List.replicate 10 .destroy ++
        [.loop { frames := 1, data := [()] }] ++ queueing.take 7)).any
      fun s => (s.call.any fun x => x.buffers = [1]) ∧ (s.al.buffers 1).isNone ∧
        s.al.context = false ∧ s.al.device = false := by decide +kernel
  obtain ⟨s, hs, hcall, hdead⟩ : ∃ s, (life Unit).Reachable s ∧
      (s.call.any fun x => x.buffers = [1]) ∧ (s.al.buffers 1).isNone ∧
        s.al.context = false ∧ s.al.device = false :=
    System.exists_reachableWhere_of_exec _ rfl hrun
  obtain ⟨x, hx, hbuffers⟩ := (Option.any_eq_true _ _).mp hcall
  exact ⟨s, x, hs, hx, of_decide_eq_true hbuffers, hdead⟩

end Stream

end OpenALRenderer
