import OpenALRenderer.Verification.Clock.Pending

/-! # The destructor and the thread

The destructor sets `m_bAbort` before it triggers the thread, so the thread meets the flag on
whichever side of its wait it is. -/

namespace OpenALRenderer

open Foundation

/-- How many statements the thread can still make once it is to end. -/
def AdvisePc.rank : AdvisePc → ℕ
  | ended => 0
  | testAbort | woken => 1
  | wait | advise _ => 2
  | getPrivateTime => 3

theorem AdvisePc.rank_le (pc : AdvisePc) : pc.rank ≤ 3 := by
  cases pc <;> simp [rank]

namespace AdviseClock

variable {p : Platform} {s t : AdviseClock}

/-- What the destructor has done so far, whatever the thread does. -/
structure Destructing (s : AdviseClock) : Prop where
  bAbort : s.destruction ≠ .notCalled → s.bAbort = true
  awake : s.destruction = .triggered → s.pc = .wait → s.schedule.ev = true
  joined : s.destruction = .joined → s.pc = .ended

theorem Destructing.of_notCalled (h : s.destruction = .notCalled) : s.Destructing where
  bAbort hne := absurd h hne
  awake htriggered := by cases h.symm.trans htriggered
  joined hjoined := by cases h.symm.trans hjoined

theorem destruction_called {a : Label} (h : s.called p a = some t) :
    t.destruction = s.destruction := by
  rcases exists_schedule_of_called h with ⟨c, rfl⟩ | ⟨dwTime, rfl⟩ | ⟨delta, rfl⟩
  · rfl
  · cases h
    rfl
  · cases h
    simp only [setTimeDelta]
    split <;> rfl

theorem destruction_threadStep {x : Turn} (h : s.threadStep x = some t) :
    t.destruction = s.destruction := by
  cases statement_of_threadStep h <;> rfl

/-- A statement of the thread once `m_bAbort` is set. -/
theorem threadStep_of_bAbort {x : Turn} (habort : s.bAbort = true)
    (h : s.threadStep x = some t) :
    t.bAbort = true ∧ t.pc ≠ .wait ∧ t.pc.rank + 1 = s.pc.rank := by
  cases statement_of_threadStep h with
  | testAbort hpc | woken hpc => simp [habort, hpc, AdvisePc.rank]
  | signalled hpc | timedOut hpc | getPrivateTime hpc | advise hpc =>
      exact ⟨habort, by simp, by rw [hpc]; rfl⟩

theorem threadStep_of_ended {x : Turn} (hpc : s.pc = .ended) : s.threadStep x = none := by
  simp [threadStep, hpc]

theorem Destructing.thread {x : Turn} (h : s.Destructing) (hstep : s.threadStep x = some t) :
    t.Destructing := by
  have hsame := destruction_threadStep hstep
  by_cases hcalled : s.destruction = .notCalled
  · exact .of_notCalled (hsame.trans hcalled)
  · obtain ⟨habort, hwait, -⟩ := threadStep_of_bAbort (h.bAbort hcalled) hstep
    refine ⟨fun _ => habort, fun _ hpc => absurd hpc hwait, fun hjoined => ?_⟩
    have hended := h.joined (hsame.symm.trans hjoined)
    cases (threadStep_of_ended hended).symm.trans hstep

theorem Destructing.destroy (h : s.Destructing) (hstep : s.destroy = some t) :
    t.Destructing := by
  obtain ⟨-, rfl⟩ | ⟨hd, rfl⟩ | ⟨hd, hended, rfl⟩ := destroy_cases hstep
  · exact ⟨fun _ => rfl, nofun, nofun⟩
  · exact ⟨fun _ => h.bAbort (by simp [hd]), fun _ _ => rfl, nofun⟩
  · exact ⟨fun _ => h.bAbort (by simp [hd]), nofun, fun _ => hended⟩

theorem Destructing.next {a : Label} (h : s.Destructing) (hnext : s.next p a = some t) :
    t.Destructing := by
  cases a with
  | thread x => exact h.thread hnext
  | destroy => exact h.destroy hnext
  | _ =>
      simp only [AdviseClock.next] at hnext
      split at hnext
      · next hnot => exact .of_notCalled ((destruction_called hnext).trans hnot)
      · cases hnext

theorem destructing_of_reachable {guard : AdviseClock → Label → Prop}
    (h : (system p).ReachableWhere guard s) : s.Destructing :=
  h.invariant (fun _ hs => .of_notCalled hs.destruction) fun _ _ _ hI _ hnext => hI.next hnext

/-! ## The end -/

/-- The destructor has triggered the thread. -/
def Dying (s : AdviseClock) : Prop :=
  s.Destructing ∧ (s.destruction = .triggered ∨ s.destruction = .joined)

/-- How many steps are left of the thread and the destructor. -/
def remainingSteps (s : AdviseClock) : ℕ :=
  if s.destruction = .joined then 0 else s.pc.rank + 1

theorem Dying.next {a : Label} (h : s.Dying) (hnext : s.next p a = some t) :
    t.Dying ∧ t.remainingSteps + 1 ≤ s.remainingSteps := by
  obtain ⟨hs, htriggered | hjoined⟩ := h
  · have ht := hs.next hnext
    cases a with
    | thread x =>
        have hsame := (destruction_threadStep hnext).trans htriggered
        obtain ⟨-, -, hrank⟩ := threadStep_of_bAbort (hs.bAbort (by simp [htriggered])) hnext
        refine ⟨⟨ht, .inl hsame⟩, ?_⟩
        simp only [remainingSteps, hsame, htriggered]
        simp [hrank]
    | destroy =>
        simp only [AdviseClock.next, AdviseClock.destroy, htriggered] at hnext
        split at hnext
        · obtain ⟨_, -, rfl⟩ := Option.map_eq_some_iff.mp hnext
          exact ⟨⟨ht, .inr rfl⟩, by simp [remainingSteps, htriggered]⟩
        · cases hnext
    | _ => simp [AdviseClock.next, htriggered] at hnext
  · have hended := hs.joined hjoined
    cases a with
    | thread x => cases (threadStep_of_ended hended).symm.trans hnext
    | destroy => simp [AdviseClock.next, AdviseClock.destroy, hjoined] at hnext
    | _ => simp [AdviseClock.next, hjoined] at hnext

/-- The thread that has been triggered can make its next statement, and the destructor goes on
when it has ended. -/
theorem Dying.exists_next {es : List (Entry Advisee)} (h : s.Dying) (hes : s.schedule.Pending es)
    (htriggered : s.destruction = .triggered) (hearly : s.pc.Early)
    (hlength : es.length < 2 ^ 32) : ∃ a, (s.next p a).isSome := by
  cases hpc : s.pc with
  | testAbort | woken | getPrivateTime =>
      exact ⟨.thread {}, by simp [AdviseClock.next, threadStep, hpc]⟩
  | wait =>
      have hev := h.1.awake htriggered hpc
      exact ⟨.thread {}, by simp [AdviseClock.next, threadStep, hpc, hev]⟩
  | advise rtNow =>
      rw [hpc] at hearly
      obtain ⟨n, r, es', hr, -⟩ := hes.exists_advise (by rw [toInt_told hearly]; exact hearly)
      exact ⟨.thread { rounds := n }, by simp [AdviseClock.next, threadStep, hpc, hr]⟩
  | ended =>
      obtain ⟨heap, hheap, -⟩ := hes.exists_destroy hlength
      exact ⟨.destroy, by simp [AdviseClock.next, AdviseClock.destroy, htriggered, hpc, hheap]⟩

/-- Wherever the thread is when the destructor triggers it, the two are done after at most four more
steps, and until then one of them can be made. -/
theorem destructor_joins (p : Platform) (s : AdviseClock)
    (h : (system p).ReachableWhere (Sound p) s) (htriggered : s.destruction = .triggered) :
    (∀ steps t, (system p).Run s steps t → steps.length ≤ 4) ∧
      ∃ ls cs es, s.schedule.Spells ls cs [] es ∧
        (s.pc.Early → es.length < 2 ^ 32 → ∃ a, (s.next p a).isSome) := by
  have hdying : s.Dying := ⟨destructing_of_reachable h, .inl htriggered⟩
  obtain ⟨es, hes⟩ := pending_of_reachable h
  obtain ⟨ls, cs, hspells⟩ := hes.spells
  refine ⟨fun steps t hrun => ?_, ls, cs, es, hspells, hdying.exists_next hes htriggered⟩
  have hstep : ∀ u a v, u.Dying → (system p).step u a v →
      v.Dying ∧ v.remainingSteps + (if true then 1 else 0) ≤ u.remainingSteps :=
    fun u a v hu hs => hu.next hs
  obtain ⟨-, hle⟩ : t.Dying ∧ steps.countP (fun _ => true) + t.remainingSteps ≤
      s.remainingSteps := hrun.countP_add_le hdying hstep
  have hrank := s.pc.rank_le
  have hrest : s.remainingSteps = s.pc.rank + 1 := by simp [remainingSteps, htriggered]
  rw [List.countP_true] at hle
  omega

/-- The thread is on its way to `Advise` when it is triggered. -/
theorem destructor_joins_threeRequests : ∃ (s t : AdviseClock) (steps : List (AdviseClock × Label)),
    (s.destruction = .triggered ∧ s.schedule.adviseCount = 3) ∧
      (system .x64).Run s steps t ∧ t.destruction = .joined ∧ steps.length ≤ 4 := by
  have hrun : (System.exec (next .x64) (Sound .x64) started
      (threeRequests.take 6 ++ [.destroy, .destroy])).any fun s =>
        (s.destruction = .triggered ∧ s.schedule.adviseCount = 3) ∧
          (System.exec (next .x64) (fun _ _ => True) s
            [.thread { dwTime := 3 }, .thread { rounds := 3 }, .thread {}, .destroy]).any
              fun t => t.destruction = .joined := by
    decide +kernel
  obtain ⟨s, hs, htriggered, hrest⟩ := System.exists_reachableWhere_of_exec _ started_init hrun
  obtain ⟨t, ht, hjoined⟩ := (Option.any_eq_true _ _).mp hrest
  obtain ⟨steps, hsteps, -⟩ := System.exists_run_of_exec _ _ _ ht
  have hlength := (destructor_joins .x64 s hs htriggered.1).1 steps t hsteps
  exact ⟨s, t, steps, htriggered, hsteps, of_decide_eq_true hjoined, hlength⟩

end AdviseClock

end OpenALRenderer
