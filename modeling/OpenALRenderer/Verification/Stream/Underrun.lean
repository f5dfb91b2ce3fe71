import OpenALRenderer.Verification.Stream.BufferRing
import OpenALRenderer.Verification.Stream.ControlFlow

/-! # Resuming after an underrun: when `alSourcePlay` replays a buffer -/

namespace OpenALRenderer

open Foundation

variable {β : Type*}

/-! ## Running dry -/

/-- The driver finishes the last buffer queued on the source of the loop. -/
def Stream.exhausts (s : Stream β) : Stream.Label β → Bool
  | .driver n =>
      n == s.source && ((s.al.sources n).bind Source.finish).any fun src => src.state = .stopped
  | _ => false

/-- The loop asks for `AL_BUFFERS_PROCESSED`. -/
def Stream.polls (s : Stream β) (a : Stream.Label β) : Bool :=
  match a, s.pc with
  | .loop _, .getProcessed => true
  | _, _ => false

/-- A stream, and whether its source ran out of data since the loop last asked for
`AL_BUFFERS_PROCESSED`. -/
structure Watched (β : Type*) where
  stream : Stream β
  ranDry : Bool

def Watched.next (w : Watched β) (a : Stream.Label β) : Option (Watched β) :=
  (w.stream.next a).map fun t =>
    ⟨t, if w.stream.polls a then false else w.ranDry || w.stream.exhausts a⟩

def Watched.run (β : Type*) : System (Watched β) (Stream.Label β) :=
  .ofNext (fun w => w.stream.Starts) next

/-! ## The processed buffers of the ring -/

namespace Ring

/-- From the query to `alSourcePlay`, the buffers processed beyond those the query reported are
there exactly when the source ran dry, or still plays. -/
def Watches (dry : Bool) (r : Ring) : Prop :=
  match r.phase with
  | .polled | .taking =>
      r.processed ≤ r.source.played ∧ (dry = true → r.processed < r.source.played) ∧
        (dry = false → r.source.state = .playing ∨ r.source.played = r.processed)
  | .taken | .room | .appended | .counted =>
      (dry = true → 0 < r.source.played) ∧
        (dry = false → r.source.state = .playing ∨ r.source.played = 0)
  | .stalled =>
      r.source.state ≠ .playing ∧ (dry = true → 0 < r.source.played) ∧
        (dry = false → r.source.played = 0)
  | _ => True

variable {r r' : Ring} {dry : Bool}

theorem Step.watches_poll (h : Step r r') (hp : r.phase = .settled) (hp' : r'.phase = .polled) :
    r'.Watches false := by
  cases h with
  | idle => cases hp.symm.trans hp'
  | poll => exact ⟨le_rfl, nofun, fun _ => .inr rfl⟩
  | _ => cases hp'

theorem Step.watches (h : Step r r') (hr : r.Watches dry)
    (hpoll : r.phase = .settled → r'.phase ≠ .polled) : r'.Watches dry := by
  cases h with
  | idle => exact hr
  | poll hp => exact absurd rfl (hpoll hp)
  | ready hp hq hn =>
      simp only [Watches, hp, hn] at hr
      exact hr.2
  | take hp hn => simpa only [Watches, hp] using hr
  | unqueue hp =>
      simp only [Watches, hp] at hr
      simp only [Watches, Source.played_unqueue hr.1, Source.state_unqueue]
      obtain ⟨hle, hdry, hwet⟩ := hr
      refine ⟨fun h => Nat.sub_pos_of_lt (hdry h), fun h => (hwet h).imp_right fun heq => ?_⟩
      rw [heq, Nat.sub_self]
  | countUnqueued hp => simpa only [Watches, hp] using hr
  | enqueue hp =>
      simpa only [Watches, hp, Source.played_enqueue, Source.state_enqueue] using hr
  | countQueued hp => simpa only [Watches, hp] using hr
  | stall hp hs =>
      simp only [Watches, hp] at hr
      exact ⟨hs, hr.1, fun h => (hr.2 h).resolve_left hs⟩
  | _ => trivial

/-- The driver finishes a buffer of the source. -/
theorem Watches.finish (hr : r.Watches dry) {src : Source} (hf : r.source.finish = some src) :
    Watches (dry || src.state = .stopped) { r with source := src } := by
  obtain ⟨hplaying, -, hplayed, hstate⟩ := Source.finish_eq_some hf
  have hwet : (dry || decide (src.state = .stopped)) = false → src.state = .playing := by
    intro h
    have hne : src.state ≠ .stopped := of_decide_eq_false (Bool.or_eq_false_iff.mp h).2
    rw [hstate] at hne ⊢
    split at hne
    · exact absurd rfl hne
    · next hlast => exact if_neg hlast
  cases hp : r.phase with
  | polled | taking =>
      simp only [Watches, hp] at hr ⊢
      rw [hplayed]
      exact ⟨Nat.le_succ_of_le hr.1, fun _ => Nat.lt_succ_of_le hr.1, fun h => .inl (hwet h)⟩
  | taken | room | appended | counted =>
      simp only [Watches]
      rw [hplayed]
      exact ⟨fun _ => Nat.succ_pos _, fun h => .inl (hwet h)⟩
  | stalled =>
      simp only [Watches, hp] at hr
      exact absurd hplaying hr.1
  | _ => simp only [Watches]

end Ring

/-! ## The stream -/

/-- Only the query leads from a settled phase to the one after the query. -/
theorem Pc.Follows.eq_getProcessed {pc pc' : Pc β} (h : pc.Follows pc')
    (hp : pc.phase = .settled) (hp' : pc'.phase = .polled) : pc = .getProcessed := by
  cases h with
  | getProcessed => rfl
  | check x => cases hp.symm.trans hp'
  | check_none x _ hnext | report x _ hnext =>
      subst hnext
      cases hp.symm.trans (x.phase_next.symm.trans hp')
  | _ => cases hp'

namespace Stream

variable {s t : Stream β} {c : Choice β}

theorem polls_loop (c : Choice β) (s : Stream β) :
    s.polls (.loop c) = true ↔ s.pc = .getProcessed := by
  cases hpc : s.pc <;> simp [polls, hpc]

theorem phase_of_polls (hs : s.loopStep c = some t) (hpc : s.pc = .getProcessed) :
    t.ring.phase = .polled := by
  simp only [loopStep, Stream.call, hpc] at hs
  split at hs <;> cases hs
  simp [ring, Stream.resume, hpc, goto, Pc.phase]

end Stream

namespace Watched

variable {w u : Watched β} {a : Stream.Label β}

/-- What the loop knows of its source when it decides to play it. -/
structure Tracked (w : Watched β) : Prop where
  owned : w.stream.Owned
  watches : w.stream.ring.Watches w.ranDry

theorem Tracked.loop (h : w.Tracked) {c : Choice β} {t : Stream β}
    (hs : w.stream.loopStep c = some t) :
    Tracked ⟨t, if w.stream.polls (.loop c) then false else w.ranDry⟩ := by
  obtain ⟨ho, hstep⟩ := h.owned.loopStep hs
  refine ⟨ho, ?_⟩
  dsimp only
  split
  · next hpoll =>
      have hpc := (Stream.polls_loop c w.stream).mp hpoll
      exact hstep.watches_poll (congrArg Pc.phase hpc) (Stream.phase_of_polls hs hpc)
  · next hpoll =>
      refine hstep.watches h.watches fun hp hp' => hpoll ?_
      exact (Stream.polls_loop c w.stream).mpr ((Stream.follows_loopStep hs).eq_getProcessed hp hp')

theorem Tracked.driver (h : w.Tracked) {n : ℕ} {al : OpenAL β}
    (hf : w.stream.al.finish n = some al) :
    Tracked ⟨w.stream.setAl al, w.ranDry || w.stream.exhausts (.driver n)⟩ := by
  refine ⟨h.owned.driven hf, ?_⟩
  obtain ⟨src, hsrc, rfl⟩ := Option.map_eq_some_iff.mp hf
  by_cases hn : w.stream.source = n
  · subst hn
    have hdry : w.stream.exhausts (.driver w.stream.source) = decide (src.state = .stopped) := by
      simp [Stream.exhausts, hsrc]
    obtain ⟨src₀, hsrc₀, hfin⟩ := Option.bind_eq_some_iff.mp hsrc
    dsimp only
    rw [Stream.ring_update_source, hdry]
    exact h.watches.finish (by simpa [Stream.ring, hsrc₀] using hfin)
  · have hn' : n ≠ w.stream.source := fun e => hn e.symm
    have hdry : w.stream.exhausts (.driver n) = false := by simp [Stream.exhausts, hn']
    dsimp only
    rw [Stream.ring_update_other hn, hdry, Bool.or_false]
    exact h.watches

theorem Tracked.other (h : w.Tracked) {t : Stream β} (hring : t.ring = w.stream.ring)
    (hal : t.al = w.stream.al) (hsource : t.source = w.stream.source) :
    Tracked ⟨t, w.ranDry || false⟩ := by
  rw [Bool.or_false]
  exact ⟨h.owned.congr hring hal hsource, hring ▸ h.watches⟩

theorem Tracked.next (h : w.Tracked) (ha : a.InRun) (hs : w.next a = some u) : u.Tracked := by
  obtain ⟨t, ht, rfl⟩ := Option.map_eq_some_iff.mp hs
  cases a with
  | loop c =>
      have hdry : w.stream.exhausts (.loop c) = false := rfl
      rw [hdry, Bool.or_false]
      exact h.loop ht
  | driver n =>
      obtain ⟨al, hf, rfl⟩ := Option.map_eq_some_iff.mp ht
      exact h.driver hf
  | setFrequency f | setSpeakerLayout l | setBitness b | setStreaming b =>
      cases ht
      exact h.other rfl rfl rfl
  | stopDevice =>
      simp only [Stream.next] at ht
      split at ht <;> cases ht
      exact h.other rfl rfl rfl
  | startDevice | stop | destroy => exact absurd ha id

theorem tracked_of_reachable (h : (run β).ReachableWhere (fun _ a => a.InRun) w) :
    w.Tracked := by
  refine h.invariant (fun w hw => ⟨hw.tracked.owned, ?_⟩) fun _ _ _ hI ha hs => hI.next ha hs
  have hp : w.stream.ring.phase = .starting := congrArg Pc.phase hw.pc
  simp only [Ring.Watches, hp]

/-- Whenever `alSourcePlay` is called, the queue is free of processed buffers if and only if the
source has not run dry since the loop asked for `AL_BUFFERS_PROCESSED`. -/
theorem nothing_replayed_iff (w : Watched β)
    (h : (run β).ReachableWhere (fun _ a => a.InRun) w) (hpc : w.stream.pc = .play) :
    w.stream.al.played w.stream.source = 0 ↔ w.ranDry = false := by
  obtain ⟨ho, hw⟩ := tracked_of_reachable h
  have hp : w.stream.ring.phase = .stalled := congrArg Pc.phase hpc
  rw [(ho.holds hp (by decide) (by decide)).played]
  simp only [Ring.Watches, hp] at hw
  obtain ⟨-, hdry, hwet⟩ := hw
  refine ⟨fun hzero => ?_, hwet⟩
  by_contra hne
  have hpos := hdry (Bool.eq_true_of_not_eq_false hne)
  omega

/-- The source finishes its only buffer, the loop unqueues it and starts the source again with the
next one. -/
theorem nothing_replayed_next : ∃ w : Watched Unit,
    (w.stream.pc = .play ∧ w.stream.al.queue w.stream.source = [2]) ∧
      (w.stream.al.played w.stream.source = 0 ↔ w.ranDry = false) := by
  have hrun : (System.exec next (fun _ a => a.InRun) (⟨Stream.starting, false⟩ : Watched Unit)
      (Stream.prologue [1, 2, 3, 4, 5, 6, 7, 8] 1 ++ Stream.mixing false [()] ++
        Stream.queueing ++ List.replicate 3 (.loop {}) ++ [.driver 1] ++
        Stream.mixing true [()] ++ Stream.queueing ++ [.loop {}])).any
      fun w => w.stream.pc = .play ∧ w.stream.al.queue w.stream.source = [2] := by
    decide +kernel
  obtain ⟨w, hw, hpc, hqueue⟩ : ∃ w, (run Unit).ReachableWhere (fun _ a => a.InRun) w ∧
      w.stream.pc = .play ∧ w.stream.al.queue w.stream.source = [2] :=
    System.exists_reachableWhere_of_exec _ Stream.starts_starting hrun
  exact ⟨w, ⟨hpc, hqueue⟩, nothing_replayed_iff w hw hpc⟩

/-- The source finishes its only buffer while `Mix` is running: the loop plays that buffer
again. -/
theorem underrun_replays_buffer : ∃ w : Watched Unit,
    (run Unit).ReachableWhere (fun _ a => a.InRun) w ∧ w.stream.pc = .play ∧
      w.stream.al.queue w.stream.source = [1, 2] ∧ w.stream.al.played w.stream.source = 1 := by
  have hrun : (System.exec next (fun _ a => a.InRun) (⟨Stream.starting, false⟩ : Watched Unit)
      (Stream.prologue [1, 2, 3, 4, 5, 6, 7, 8] 1 ++ Stream.mixing false [()] ++
        Stream.queueing ++ List.replicate 3 (.loop {}) ++ List.replicate 8 (.loop {}) ++
        [.driver 1, .loop { frames := 1, data := [()] }] ++ Stream.queueing ++ [.loop {}])).any
      fun w => w.stream.pc = .play ∧ w.stream.al.queue w.stream.source = [1, 2] ∧
        w.stream.al.played w.stream.source = 1 := by decide +kernel
  exact System.exists_reachableWhere_of_exec _ Stream.starts_starting hrun

end Watched

end OpenALRenderer
