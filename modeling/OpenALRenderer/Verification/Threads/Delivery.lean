import OpenALRenderer.Verification.Mixer.Transport
import OpenALRenderer.Verification.Threads.Handshake

/-! # What becomes of a sample that `Receive` accepts

`Receive` decides by the filter's state whether to accept a sample, and by `m_bStreaming` whether
to store it. The two are written at different moments and under different locks. -/

namespace OpenALRenderer

open Foundation

/-! ## What is appended to the queue -/

abbrev FilterThreads (τ : Type) := Threads τ Lock (Producer StampedByte) HRESULT Shared

/-- The bytes that a step adds behind what the queue held. -/
def appended (s s' : Shared) : List StampedByte :=
  s'.filter.mixer.sampleQueue.drop s.filter.mixer.sampleQueue.length

variable {τ : Type} [DecidableEq τ]

/-- The bytes that the moves in `P` append along a run that ends in `S`. -/
def appendedBy (P : Move τ → Bool) (steps : List (FilterThreads τ × Move τ))
    (S : FilterThreads τ) : List StampedByte :=
  (System.trace (fun S m S' => if P m then appended S.shared S'.shared else []) steps S).flatten

/-- The bytes that the source pushes at a program point. -/
def Producer.pushes {β : Type*} : Producer β → List β
  | push (b :: _) _ => [b]
  | _ => []

theorem appended_eq_nil {s s' : Shared}
    (h : s'.filter.mixer.sampleQueue.length ≤ s.filter.mixer.sampleQueue.length) :
    appended s s' = [] :=
  List.drop_eq_nil_of_le h

theorem FeedsNothing.appended {s s' : Shared} (h : FeedsNothing s s') : appended s s' = [] := by
  refine appended_eq_nil ?_
  rcases h.sampleQueue with hq | hq <;> simp [hq]

theorem SoundLoopStep.appended {p : Platform} {s s' : Shared} (h : SoundLoopStep p s s') :
    appended s s' = [] := by
  refine appended_eq_nil ?_
  cases h with
  | call outside c => exact le_rfl
  | step inside h => exact (Consumer.step_suffix h).length_le
  | finish inside => exact le_rfl

theorem producerMachine_step {p : Platform} {a a' : Producer StampedByte} {s s' : Shared}
    (h : (producerMachine p).step a s = some (a', s')) :
    ∃ m, a.step p s.filter.mixer = some (a', m) ∧
      s' = { s with filter := { s.filter with mixer := m } } := by
  obtain ⟨⟨b, m⟩, hm, hfin⟩ := Option.map_eq_some_iff.mp h
  obtain ⟨rfl, rfl⟩ := Prod.mk.inj hfin
  exact ⟨m, hm, rfl⟩

/-- A producer appends what it is about to push. -/
theorem producerMachine_appended {p : Platform} {a a' : Producer StampedByte} {s s' : Shared}
    (h : (producerMachine p).step a s = some (a', s')) : appended s s' = a.pushes := by
  obtain ⟨m, hm, rfl⟩ := producerMachine_step h
  have hkeep : m.sampleQueue = s.filter.mixer.sampleQueue ++ a.pushes := by
    cases Producer.branch_of_step hm with
    | push => rfl
    | _ => simp [Producer.pushes]
  simp [appended, hkeep]

/-! ## Stored, or nothing of it -/

section Fate

variable (p : Platform) (caps : Capabilities) (t : τ) (s : MediaSample StampedByte)
  (S : FilterThreads τ) (steps : List (FilterThreads τ × Move τ)) (T : FilterThreads τ)

/-- The move is the test of `m_bStreaming` in thread `t`'s `CMixer::Receive`. -/
def TestsStreaming (x : FilterThreads τ × Move τ) : Prop :=
  x.2 = .thread t ∧ ∃ s, (x.1.prog t).active = some (.testStreaming s)

/-- From where `CopyWaveform` computes its frame to where it has pushed the last byte, the whole
frames of the sample are all that anyone appends; before and after, the thread appends nothing. -/
def Stored : Prop :=
  ∃ pre mid post U V, steps = pre ++ mid ++ post ∧ (threads τ p caps).Run S pre U ∧
    (threads τ p caps).Run U mid V ∧ (threads τ p caps).Run V post T ∧
    mid.head? = some (U, .thread t) ∧ (U.prog t).active = some (.copyWaveform s) ∧
    let frame := frameBytes p U.shared.filter.mixer.nChannels U.shared.filter.mixer.nBitsPerSample
    frame ≠ 0 ∧ appendedBy (fun _ => true) mid V = s.copied frame ∧
      appendedBy (Move.isThread t) mid V = s.copied frame ∧
      appendedBy (Move.isThread t) pre U = [] ∧ appendedBy (Move.isThread t) post T = []

/-- What becomes of a sample is decided when `m_bStreaming` is tested: it is stored, or nothing
of it is. An empty sample is not tested. -/
structure Settled : Prop where
  tested : s.data ≠ [] → ∃ x ∈ steps, TestsStreaming t x
  empty : s.data = [] → appendedBy (Move.isThread t) steps T = []
  stored : ∀ x ∈ steps, TestsStreaming t x → x.1.shared.filter.mixer.streaming = true →
    Stored p caps t s S steps T
  dropped : ∀ x ∈ steps, TestsStreaming t x → x.1.shared.filter.mixer.streaming = false →
    appendedBy (Move.isThread t) steps T = []

end Fate

/-! ## What a move appends -/

section Moves

variable {p : Platform} {caps : Capabilities} {S S' T U : FilterThreads τ} {m : Move τ} {t : τ}
  {steps steps' : List (FilterThreads τ × Move τ)} {P : Move τ → Bool}

theorem orderly_unfed (h : (threads τ p caps).Reachable S) : Threads.Orderly unfed S :=
  Threads.orderly_of_reachable (fun _ hc => hc.obeys_unfed) h

/-- A thread that runs no machine appends nothing. -/
theorem appended_of_inactive {free : Lock → Prop} {q q' : Code} {s s' : Shared} {hs : List Lock}
    (h : Prog.Step (producerMachine p) free q s q' s') (hlive : q.Live unfed hs)
    (hq : q.active = none) : appended s s' = [] := by
  rcases h.effect hlive with ⟨hframe, -⟩ | ⟨a, -, ha, -⟩ | ⟨rfl, -⟩
  · exact FeedsNothing.appended hframe
  · cases hq.symm.trans ha
  · exact appended_eq_nil le_rfl

/-- While one thread is in `CMixer::Receive`, no other move appends anything. -/
theorem appended_of_other {a : Producer StampedByte} (h : (threads τ p caps).Reachable S)
    (hs : (threads τ p caps).step S m S') (ha : (S.prog t).active = some a)
    (hm : m ≠ .thread t) : appended S.shared S'.shared = [] := by
  cases hs with
  | start idle hp => exact appended_eq_nil le_rfl
  | @thread u q s hstep =>
      refine appended_of_inactive hstep ((orderly_unfed h).live u) ?_
      by_contra hactive
      obtain ⟨a', ha'⟩ := Option.ne_none_iff_exists'.mp hactive
      obtain rfl := (orderly_unfed h).active_unique ha ha'
      exact hm rfl
  | environment henv => exact henv.appended

theorem appendedBy_cons (hrun : (threads τ p caps).Run U steps T) :
    appendedBy P ((S, m) :: steps) T =
      (if P m then appended S.shared U.shared else []) ++ appendedBy P steps T := by
  rw [appendedBy, hrun.trace_cons]
  rfl

theorem appendedBy_append (hrun : (threads τ p caps).Run U steps' T)
    (steps : List (FilterThreads τ × Move τ)) :
    appendedBy P (steps ++ steps') T = appendedBy P steps U ++ appendedBy P steps' T := by
  rw [appendedBy, hrun.trace_append, List.flatten_append]
  rfl

omit [DecidableEq τ] in
theorem appendedBy_eq_nil (h : ∀ x ∈ steps, P x.2 = false) : appendedBy P steps T = [] := by
  induction steps with
  | nil => rfl
  | cons x steps ih =>
      obtain ⟨hx, hrest⟩ := List.forall_mem_cons.mp h
      have hrest' := ih hrest
      unfold appendedBy at hrest' ⊢
      simp [System.trace, hx, hrest']

end Moves

/-! ## After the copy -/

/-- Past the point where the frame is computed. -/
def Producer.Copying {β : Type*} : Producer β → Prop
  | receive _ | testStreaming _ | copyWaveform _ => False
  | push _ _ | setRendered _ | setReady | testRequest | waitRequest | clearRequest | done
  | fault => True

theorem Producer.Copying.step {β : Type*} {p : Platform} {a a' : Producer β} {m m' : Mixer β}
    (h : a.Copying) (hs : a.step p m = some (a', m')) (frame : ℕ) :
    a'.Copying ∧ a.pending frame = a.pushes ++ a'.pending frame := by
  cases Producer.branch_of_step hs with
  | receive | receive_empty | testStreaming | testStreaming_not | copyWaveform
  | copyWaveform_fault => exact h.elim
  | _ => exact ⟨trivial, rfl⟩

section Phases

variable {p : Platform} {caps : Capabilities} {S T : FilterThreads τ} {t : τ}
  {steps : List (FilterThreads τ × Move τ)}

/-- A thread that calls no machine tests nothing and appends nothing. -/
theorem silent_run (h : (threads τ p caps).Reachable S) (hrun : (threads τ p caps).Run S steps T)
    (hstart : ∀ x ∈ steps, x.2 ≠ .start t) (hsilent : (S.prog t).Silent) :
    (∀ x ∈ steps, ¬ TestsStreaming t x) ∧ appendedBy (Move.isThread t) steps T = [] := by
  induction hrun with
  | nil S => exact ⟨by simp, rfl⟩
  | @cons S m S' steps T hs hrun ih =>
      obtain ⟨hm, hrest⟩ := List.forall_mem_cons.mp hstart
      have hreach := h.step trivial hs
      have hnone := hsilent.active_eq_none
      have htest : ¬ TestsStreaming t (S, m) := by
        rintro ⟨-, s, hs⟩
        cases hnone.symm.trans hs
      rw [appendedBy_cons hrun]
      rcases hs.thread_cases hm with ⟨rfl, hstep⟩ | ⟨hother, hprog⟩
      · obtain ⟨htests, happended⟩ := ih hreach hrest (hstep.silent hsilent)
        refine ⟨List.forall_mem_cons.mpr ⟨htest, htests⟩, ?_⟩
        rw [happended, appended_of_inactive hstep ((orderly_unfed h).live t) hnone]
        simp
      · obtain ⟨htests, happended⟩ := ih hreach hrest (hprog ▸ hsilent)
        refine ⟨List.forall_mem_cons.mpr ⟨htest, htests⟩, ?_⟩
        rw [happended, Move.isThread_of_ne hother]
        simp

omit [DecidableEq τ] in
/-- While thread `t` is in its call, another thread's move is not its test. -/
theorem not_testsStreaming {S : FilterThreads τ} {m : Move τ}
    (h : ∀ s, (S.prog t).active ≠ some (.testStreaming s)) : ¬ TestsStreaming t (S, m) :=
  fun ⟨_, s, hs⟩ => h s hs

theorem Producer.Copying.ne_testStreaming {a : Producer StampedByte} (h : a.Copying)
    (s : MediaSample StampedByte) : a ≠ .testStreaming s := by
  rintro rfl
  exact h

/-- A call of `CopyWaveform` that returns has pushed what it had still to push, in a stretch in
which nothing else is appended, and pushes nothing after it. -/
theorem copying_run (h : (threads τ p caps).Reachable S) (hrun : (threads τ p caps).Run S steps T)
    (hstart : ∀ x ∈ steps, x.2 ≠ .start t) {a : Producer StampedByte}
    (ha : (S.prog t).active = some a) (hcall : (S.prog t).InCall) (hcopy : a.Copying)
    {hr : HRESULT} (hret : T.prog t = .ret hr) (frame : ℕ) :
    a ≠ .fault ∧ (∀ x ∈ steps, ¬ TestsStreaming t x) ∧
      ∃ mid post V, steps = mid ++ post ∧ (threads τ p caps).Run S mid V ∧
        (threads τ p caps).Run V post T ∧
        appendedBy (fun _ => true) mid V = a.pending frame ∧
        appendedBy (Move.isThread t) mid V = a.pending frame ∧
        appendedBy (Move.isThread t) post T = [] := by
  induction hrun generalizing a with
  | nil S =>
      rw [hret] at hcall
      exact hcall.elim
  | @cons S m S' steps T hs hrun ih =>
      obtain ⟨hm, hrest⟩ := List.forall_mem_cons.mp hstart
      have hreach := h.step trivial hs
      have htest : ¬ TestsStreaming t (S, m) :=
        not_testsStreaming fun s hs => hcopy.ne_testStreaming s (Option.some.inj (ha.symm.trans hs))
      rcases hs.thread_cases hm with ⟨rfl, hstep⟩ | ⟨hother, hprog⟩
      · rcases hstep.inCall hcall with ⟨b, a', hb, ha', hmachine, hcall'⟩ |
          ⟨b, hb, hend, hshared, hsilent⟩
        · obtain rfl := Option.some.inj (ha.symm.trans hb)
          obtain ⟨x, hx, -⟩ := producerMachine_step hmachine
          obtain ⟨hcopy', hpending⟩ := hcopy.step hx frame
          obtain ⟨-, htests, mid, post, V, rfl, hmid, hpost, hall, hmine, hafter⟩ :=
            ih hreach hrest ha' hcall' hcopy' hret
          refine ⟨?_, List.forall_mem_cons.mpr ⟨htest, htests⟩, (S, .thread t) :: mid, post, V,
            rfl, .cons hs hmid, hpost, ?_, ?_, hafter⟩
          · rintro rfl
            cases hx
          · rw [appendedBy_cons hmid, producerMachine_appended hmachine, hall, hpending]
            rfl
          · rw [appendedBy_cons hmid, producerMachine_appended hmachine, hmine, hpending]
            simp
        · obtain rfl := Option.some.inj (ha.symm.trans hb)
          obtain rfl : a = .done := hend
          obtain ⟨htests, hafter⟩ := silent_run hreach hrun hrest hsilent
          refine ⟨by simp, List.forall_mem_cons.mpr ⟨htest, htests⟩, [], (S, .thread t) :: steps,
            S, rfl, .nil S, .cons hs hrun, rfl, rfl, ?_⟩
          rw [appendedBy_cons hrun, hafter, hshared, appended_eq_nil le_rfl]
          simp
      · obtain ⟨hne, htests, mid, post, V, rfl, hmid, hpost, hall, hmine, hafter⟩ :=
          ih hreach hrest (hprog ▸ ha) (hprog ▸ hcall) hcopy hret
        refine ⟨hne, List.forall_mem_cons.mpr ⟨htest, htests⟩, (S, m) :: mid, post, V, rfl,
          .cons hs hmid, hpost, ?_, ?_, hafter⟩
        · rw [appendedBy_cons hmid, appended_of_other h hs ha hother, hall]
          rfl
        · rw [appendedBy_cons hmid, Move.isThread_of_ne hother, hmine]
          rfl

/-! ## Before the copy -/

variable {s : MediaSample StampedByte} {S₀ : FilterThreads τ}
  {front : List (FilterThreads τ × Move τ)}

theorem Stored.prepend (h : Stored p caps t s S steps T)
    (hfront : (threads τ p caps).Run S₀ front S)
    (hnone : appendedBy (Move.isThread t) front S = []) :
    Stored p caps t s S₀ (front ++ steps) T := by
  obtain ⟨pre, mid, post, U, V, rfl, hpre, hmid, hpost, hhead, hcopy, hframe, hall, hmine, hbefore,
    hafter⟩ := h
  refine ⟨front ++ pre, mid, post, U, V, by simp, hfront.append hpre, hmid, hpost, hhead, hcopy,
    hframe, hall, hmine, ?_, hafter⟩
  rw [appendedBy_append hpre, hnone, hbefore]
  rfl

theorem Settled.prepend (h : Settled p caps t s S steps T)
    (hrun : (threads τ p caps).Run S steps T) (hfront : (threads τ p caps).Run S₀ front S)
    (htests : ∀ x ∈ front, ¬ TestsStreaming t x)
    (hnone : appendedBy (Move.isThread t) front S = []) :
    Settled p caps t s S₀ (front ++ steps) T := by
  have hsplit : appendedBy (Move.isThread t) (front ++ steps) T =
      appendedBy (Move.isThread t) steps T := by
    rw [appendedBy_append hrun, hnone]
    rfl
  have hmem : ∀ x ∈ front ++ steps, TestsStreaming t x → x ∈ steps := fun x hx ht =>
    (List.mem_append.mp hx).resolve_left fun hx => htests x hx ht
  refine ⟨fun hne => ?_, fun hnil => hsplit.trans (h.empty hnil), fun x hx ht hstream => ?_,
    fun x hx ht hstream => hsplit.trans (h.dropped x (hmem x hx ht) ht hstream)⟩
  · obtain ⟨x, hx, ht⟩ := h.tested hne
    exact ⟨x, List.mem_append_right _ hx, ht⟩
  · exact (h.stored x (hmem x hx ht) ht hstream).prepend hfront hnone

/-- A run of a call cut at the first step that its thread takes, from `a` to `a'`. -/
structure FirstStep (p : Platform) (caps : Capabilities) (t : τ) (a a' : Producer StampedByte)
    (S : FilterThreads τ) (pre : List (FilterThreads τ × Move τ)) (U V : FilterThreads τ)
    (post : List (FilterThreads τ × Move τ)) (T : FilterThreads τ) : Prop where
  before : (threads τ p caps).Run S pre U
  step : (threads τ p caps).step U (.thread t) V
  after : (threads τ p caps).Run V post T
  reachable : (threads τ p caps).Reachable V
  active : (U.prog t).active = some a
  machine : (producerMachine p).step a U.shared = some (a', V.shared)
  next : (V.prog t).active = some a'
  inCall : (V.prog t).InCall
  quiet : ∀ x ∈ pre, x.2 ≠ .thread t
  rest : ∀ x ∈ post, x.2 ≠ .start t

/-- A thread that returns from a call in which it runs `a` takes a step of it first, unless `a` is
done. -/
theorem exists_firstStep (h : (threads τ p caps).Reachable S)
    (hrun : (threads τ p caps).Run S steps T) (hstart : ∀ x ∈ steps, x.2 ≠ .start t)
    {a : Producer StampedByte} (ha : (S.prog t).active = some a) (hcall : (S.prog t).InCall)
    {hr : HRESULT} (hret : T.prog t = .ret hr) (hdone : a ≠ .done) :
    ∃ pre post U V a', steps = pre ++ (U, .thread t) :: post ∧
      FirstStep p caps t a a' S pre U V post T := by
  have hne : T.prog t ≠ S.prog t := by
    intro heq
    rw [← heq, hret] at hcall
    exact hcall
  obtain ⟨pre, post, U, V, rfl, hpre, hs, hpost, hU, hquiet⟩ := Threads.first_step hrun hstart hne
  have hrest : ∀ x ∈ post, x.2 ≠ .start t := fun x hx =>
    hstart x (List.mem_append_right _ (List.mem_cons_of_mem _ hx))
  have haU : (U.prog t).active = some a := hU ▸ ha
  rcases hs.thread_cases (t := t) (by simp) with ⟨-, hstep⟩ | ⟨hother, -⟩
  · rcases hstep.inCall (hU ▸ hcall) with ⟨b, a', hb, ha', hmachine, hcall'⟩ | ⟨b, hb, hend, -⟩
    · obtain rfl := Option.some.inj (haU.symm.trans hb)
      exact ⟨pre, post, U, V, a', rfl, hpre, hs, hpost, (hpre.reachable h).step trivial hs, haU,
        hmachine, ha', hcall', hquiet, hrest⟩
    · obtain rfl := Option.some.inj (haU.symm.trans hb)
      exact absurd hend hdone
  · exact absurd rfl hother

section FirstStep

variable {a a' : Producer StampedByte} {pre post : List (FilterThreads τ × Move τ)}
  {U V : FilterThreads τ}

theorem FirstStep.branch (h : FirstStep p caps t a a' S pre U V post T) :
    ∃ m, Producer.Branch p U.shared.filter.mixer a a' m := by
  obtain ⟨m, hm, -⟩ := producerMachine_step h.machine
  exact ⟨m, Producer.branch_of_step hm⟩

theorem FirstStep.appendedBy_before (h : FirstStep p caps t a a' S pre U V post T) :
    appendedBy (Move.isThread t) pre U = [] :=
  appendedBy_eq_nil fun x hx => Move.isThread_of_ne (h.quiet x hx)

/-- Up to its first step and with it, a thread appends what the step pushes. -/
theorem FirstStep.appendedBy (h : FirstStep p caps t a a' S pre U V post T) :
    appendedBy (Move.isThread t) (pre ++ [(U, .thread t)]) V = a.pushes := by
  have hnil : (threads τ p caps).Run V [] V := .nil V
  rw [appendedBy_append (.cons h.step hnil), appendedBy_cons hnil,
    producerMachine_appended h.machine, h.appendedBy_before]
  simp [OpenALRenderer.appendedBy, System.trace]

/-- Unless the thread goes on to test, its first step is the only test there can be. -/
theorem FirstStep.eq_of_testsStreaming (h : FirstStep p caps t a a' S pre U V post T)
    (htests : ∀ x ∈ post, ¬ TestsStreaming t x) :
    ∀ x ∈ pre ++ (U, .thread t) :: post, TestsStreaming t x → x = (U, .thread t) := by
  intro x hx ht
  rcases List.mem_append.mp hx with hx | hx
  · exact absurd ht.1 (h.quiet x hx)
  · exact (List.mem_cons.mp hx).resolve_right fun hx => htests x hx ht

/-- A step that is not the test is not one. -/
theorem FirstStep.not_testsStreaming (h : FirstStep p caps t a a' S pre U V post T)
    (ha : ∀ s, a ≠ .testStreaming s) : ¬ TestsStreaming t (U, .thread t) := by
  rintro ⟨-, s, hs⟩
  exact ha s (Option.some.inj (h.active.symm.trans hs))

end FirstStep

/-- A call that has nothing to push appends nothing. -/
theorem done_run (h : (threads τ p caps).Reachable S) (hrun : (threads τ p caps).Run S steps T)
    (hstart : ∀ x ∈ steps, x.2 ≠ .start t) (ha : (S.prog t).active = some .done)
    (hcall : (S.prog t).InCall) {hr : HRESULT} (hret : T.prog t = .ret hr) :
    (∀ x ∈ steps, ¬ TestsStreaming t x) ∧ appendedBy (Move.isThread t) steps T = [] := by
  obtain ⟨-, htests, mid, post, V, rfl, hmid, hpost, -, hmine, hafter⟩ :=
    copying_run h hrun hstart ha hcall trivial hret 0
  refine ⟨htests, ?_⟩
  rw [appendedBy_append hpost, hmine, hafter]
  rfl

/-- `CopyWaveform` stores the whole sample if it returns. -/
theorem copy_run (h : (threads τ p caps).Reachable S) (hrun : (threads τ p caps).Run S steps T)
    (hstart : ∀ x ∈ steps, x.2 ≠ .start t) (ha : (S.prog t).active = some (.copyWaveform s))
    (hcall : (S.prog t).InCall) {hr : HRESULT} (hret : T.prog t = .ret hr) :
    (∀ x ∈ steps, ¬ TestsStreaming t x) ∧ Stored p caps t s S steps T := by
  obtain ⟨pre, post, U, V, a', rfl, hfirst⟩ :=
    exists_firstStep h hrun hstart ha hcall hret (by simp)
  obtain ⟨m, hbranch⟩ := hfirst.branch
  cases hbranch with
  | copyWaveform_fault hframe =>
      exact absurd rfl (copying_run hfirst.reachable hfirst.after hfirst.rest hfirst.next
        hfirst.inCall trivial hret 0).1
  | copyWaveform hframe =>
      obtain ⟨-, htests, mid, post, W, rfl, hmid, hpost, hall, hmine, hafter⟩ :=
        copying_run hfirst.reachable hfirst.after hfirst.rest hfirst.next hfirst.inCall trivial
          hret 0
      constructor
      · intro x hx htest
        obtain rfl := hfirst.eq_of_testsStreaming htests x hx htest
        exact hfirst.not_testsStreaming (by simp) htest
      · refine ⟨pre, (U, .thread t) :: mid, post, U, W, by simp, hfirst.before,
          .cons hfirst.step hmid, hpost, rfl, hfirst.active, hframe, ?_, ?_,
          hfirst.appendedBy_before, hafter⟩
        · rw [appendedBy_cons hmid, producerMachine_appended hfirst.machine, hall]
          rfl
        · rw [appendedBy_cons hmid, producerMachine_appended hfirst.machine, hmine]
          simp [Producer.pushes, Producer.pending]

/-- The test of `m_bStreaming` settles what becomes of a sample. -/
theorem test_run (h : (threads τ p caps).Reachable S) (hrun : (threads τ p caps).Run S steps T)
    (hstart : ∀ x ∈ steps, x.2 ≠ .start t) (ha : (S.prog t).active = some (.testStreaming s))
    (hcall : (S.prog t).InCall) {hr : HRESULT} (hret : T.prog t = .ret hr) (hdata : s.data ≠ []) :
    Settled p caps t s S steps T := by
  obtain ⟨pre, post, U, V, a', rfl, hfirst⟩ :=
    exists_firstStep h hrun hstart ha hcall hret (by simp)
  have htested : ∃ x ∈ pre ++ (U, .thread t) :: post, TestsStreaming t x :=
    ⟨_, List.mem_append_right _ List.mem_cons_self, rfl, s, hfirst.active⟩
  obtain ⟨m, hbranch⟩ := hfirst.branch
  cases hbranch with
  | testStreaming hstreaming =>
      obtain ⟨htests, hstored⟩ :=
        copy_run hfirst.reachable hfirst.after hfirst.rest hfirst.next hfirst.inCall hret
      refine ⟨fun _ => htested, fun hnil => absurd hnil hdata, fun x hx ht _ => ?_,
        fun x hx ht hno => ?_⟩
      · simpa using hstored.prepend (hfirst.before.concat hfirst.step) hfirst.appendedBy
      · obtain rfl := hfirst.eq_of_testsStreaming htests x hx ht
        cases hstreaming.symm.trans hno
  | testStreaming_not hstreaming =>
      obtain ⟨htests, hafter⟩ :=
        done_run hfirst.reachable hfirst.after hfirst.rest hfirst.next hfirst.inCall hret
      refine ⟨fun _ => htested, fun hnil => absurd hnil hdata, fun x hx ht hyes => ?_,
        fun x hx ht _ => ?_⟩
      · obtain rfl := hfirst.eq_of_testsStreaming htests x hx ht
        cases hstreaming.symm.trans hyes
      · have hsplit := appendedBy_append (P := Move.isThread t) hfirst.after
          (pre ++ [(U, .thread t)])
        rw [hfirst.appendedBy, hafter] at hsplit
        simpa [Producer.pushes] using hsplit

/-- `CMixer::Receive` settles what becomes of a sample. -/
theorem receive_run (h : (threads τ p caps).Reachable S) (hrun : (threads τ p caps).Run S steps T)
    (hstart : ∀ x ∈ steps, x.2 ≠ .start t) (ha : (S.prog t).active = some (.receive s))
    (hcall : (S.prog t).InCall) {hr : HRESULT} (hret : T.prog t = .ret hr) :
    Settled p caps t s S steps T := by
  obtain ⟨pre, post, U, V, a', rfl, hfirst⟩ :=
    exists_firstStep h hrun hstart ha hcall hret (by simp)
  have hsettled : Settled p caps t s V post T := by
    obtain ⟨m, hbranch⟩ := hfirst.branch
    cases hbranch with
    | receive hdata =>
        exact test_run hfirst.reachable hfirst.after hfirst.rest hfirst.next hfirst.inCall hret hdata
    | receive_empty hdata =>
        obtain ⟨htests, hafter⟩ :=
          done_run hfirst.reachable hfirst.after hfirst.rest hfirst.next hfirst.inCall hret
        exact ⟨fun hne => absurd hdata hne, fun _ => hafter,
          fun x hx ht => absurd ht (htests x hx), fun x hx ht => absurd ht (htests x hx)⟩
  have hsteps : pre ++ (U, .thread t) :: post = pre ++ [(U, .thread t)] ++ post := by simp
  rw [hsteps]
  refine hsettled.prepend hfirst.after (hfirst.before.concat hfirst.step) (fun x hx ht => ?_)
    hfirst.appendedBy
  rcases List.mem_append.mp hx with hx | hx
  · exact hfirst.quiet x hx ht.1
  · obtain rfl := List.mem_singleton.mp hx
    exact hfirst.not_testsStreaming (by simp) ht

/-- A thread that has `CMixer::Receive` before it, and returns `S_OK`, has been through it. -/
theorem calls_run {data : MediaSample UInt8} (h : (threads τ p caps).Reachable S)
    (hrun : (threads τ p caps).Run S steps T) (hstart : ∀ x ∈ steps, x.2 ≠ .start t)
    (hcalls : (S.prog t).CallsOnce (fun a => ∃ w : Filter, a = .receive (w.stamp data))
      fun hr => hr.failed = true)
    (hret : T.prog t = .ret .S_OK) :
    ∃ w : Filter, Settled p caps t (w.stamp data) S steps T := by
  induction hrun with
  | nil S =>
      rw [hret] at hcalls
      cases hcalls
  | @cons S m S' steps T hs hrun ih =>
      obtain ⟨hm, hrest⟩ := List.forall_mem_cons.mp hstart
      have hreach := h.step trivial hs
      have hnone := hcalls.active_eq_none
      have hsingle : (threads τ p caps).Run S [(S, m)] S' := .cons hs (.nil S')
      have hnil : (threads τ p caps).Run S' [] S' := .nil S'
      -- nothing is running yet, so nothing is tested and nothing appended
      have htest : ∀ x ∈ [(S, m)], ¬ TestsStreaming t x :=
        List.forall_mem_singleton.mpr (not_testsStreaming fun s hs => by cases hnone.symm.trans hs)
      have hquiet : appendedBy (Move.isThread t) [(S, m)] S' = [] := by
        rw [appendedBy_cons hnil]
        rcases hs.thread_cases hm with ⟨rfl, hstep⟩ | ⟨hother, -⟩
        · rw [appended_of_inactive hstep ((orderly_unfed h).live t) hnone]
          simp [appendedBy, System.trace]
        · rw [Move.isThread_of_ne hother]
          rfl
      have hlater : ∃ w : Filter, Settled p caps t (w.stamp data) S' steps T := by
        rcases hs.thread_cases hm with ⟨-, hstep⟩ | ⟨-, hprog⟩
        · rcases hstep.callsOnce hcalls with hcalls' | ⟨a, ⟨w, rfl⟩, ha, hcall⟩
          · exact ih hreach hrest hcalls' hret
          · exact ⟨w, receive_run hreach hrun hrest ha hcall hret⟩
        · exact ih hreach hrest (hprog ▸ hcalls) hret
      obtain ⟨w, hw⟩ := hlater
      exact ⟨w, hw.prepend hrun hsingle htest hquiet⟩

end Phases

/-! ## Any sample -/

section Receive

variable {p : Platform} {caps : Capabilities} {r : Replies} {e e' : Indeterminate}
  {sample : PinSample}

/-- `Receive` returns without having called `CMixer::Receive` only with a failure code. -/
theorem Code.receive_callsOnce :
    (Code.receive caps r e e' (some sample) .ret).CallsOnce
      (fun a => ∃ w : Filter, a = .receive (w.stamp sample.data)) fun hr => hr.failed = true := by
  refine .inr ⟨.inl ⟨fun _ => ?_, fun hr => ?_⟩, fun hr => ⟨trivial, id⟩⟩
  · dsimp only
    split
    · trivial
    · intro _
      dsimp only
      split
      · trivial
      · intro _
        dsimp only
        split
        · trivial
        · refine ⟨fun _ => ?_, fun hr => ?_⟩
          · dsimp only
            split <;> trivial
          · dsimp only
            split
            · trivial
            · exact fun _ => trivial
  · dsimp only
    split
    · next hfailed => exact hfailed
    · exact fun _ => .inr ⟨⟨⟨_, rfl⟩, trivial⟩, fun hr => ⟨trivial, id⟩⟩

/-- In any interleaving, of every sample for which `Receive` returns `S_OK`: if `CMixer::Receive`
finds `m_bStreaming` true, all its whole frames are appended exactly once, in order and with
nothing in between; if it finds it false, or the sample is empty, nothing of it is. -/
theorem receive_settles {t : τ} {S T : FilterThreads τ}
    {steps : List (FilterThreads τ × Move τ)} (h : (threads τ p caps).Reachable S)
    (hcall : S.prog t = Code.receive caps r e e' (some sample) .ret)
    (hrun : (threads τ p caps).Run S steps T) (hstart : ∀ x ∈ steps, x.2 ≠ .start t)
    (hret : T.prog t = .ret .S_OK) :
    ∃ s : MediaSample StampedByte, s.data.map StampedByte.value = sample.data.data ∧
      Settled p caps t s S steps T := by
  obtain ⟨w, hw⟩ := calls_run h hrun hstart (hcall ▸ Code.receive_callsOnce) hret
  exact ⟨_, by simp [Filter.stamp, Function.comp_def], hw⟩

end Receive

/-! ## Two samples -/

instance (p : Platform) : DecidablePred (producerMachine p).ended := fun a =>
  match a with
  | .done => isTrue rfl
  | .receive _ | .testStreaming _ | .copyWaveform _ | .push _ _ | .setRendered _ | .setReady
  | .testRequest | .waitRequest | .clearRequest | .fault => isFalse fun h => by cases h

/-- A single thread that can begin an operation can go through it. -/
theorem exists_run_operation {p : Platform} {caps : Capabilities} {guard : Shared → Bool} {n : ℕ}
    {c : Code} {r hr : HRESULT} {s s' : Shared} (hop : Code.Operation caps c)
    (hreach : (threads Unit p caps).Reachable ⟨fun _ => .ret r, s⟩)
    (h : Prog.advances (producerMachine p) guard n c s = some (.ret hr, s')) :
    (threads Unit p caps).Reachable ⟨fun _ => c, s⟩ ∧
      ∃ steps, (threads Unit p caps).Run ⟨fun _ => c, s⟩ steps ⟨fun _ => .ret hr, s'⟩ ∧
        ∀ x ∈ steps, x.2 = .thread () ∧ guard x.1.shared = true := by
  have hupdate : ∀ a b : Code, Function.update (fun _ : Unit => a) () b = fun _ => b := by
    intro a b
    funext u
    simp
  constructor
  · have hstart := hreach.step trivial (.start (t := ()) rfl hop)
    simpa [hupdate] using hstart
  · have hrun : ∃ steps, (threads Unit p caps).Run ⟨fun _ => c, s⟩ steps
        ⟨Function.update (fun _ => c) () (.ret hr), s'⟩ ∧
          ∀ x ∈ steps, x.2 = .thread () ∧ guard x.1.shared = true :=
      Threads.exists_run_of_advances (fun l u hu => absurd rfl hu) h
    rwa [hupdate] at hrun

/-- A filter as constructed, whose mixer happens to hold a format of eight-bit stereo. -/
def Filter.stereo8 : Filter :=
  { Filter.zeroed with
    mixer := { Filter.zeroed.mixer with nChannels := 2, nBitsPerSample := 8 }
    pin := { Filter.zeroed.pin with connectionFormat := ⟨0, 2, 0, 0, 8, []⟩ } }

theorem Filter.stereo8_init : Filter.stereo8.Init :=
  ⟨rfl, rfl, rfl, rfl, rfl, rfl, rfl, rfl, rfl, rfl, rfl, rfl⟩

/-- A driver that supports no format beyond the ones every driver does. -/
def plainDriver : Capabilities := ⟨false, false, false⟩

theorem stereo8_reachable (p : Platform) : (threads Unit p plainDriver).Reachable
    ⟨fun _ => .ret .S_OK, ⟨Filter.stereo8, none⟩⟩ :=
  .init ⟨fun _ => ⟨_, rfl⟩, Filter.stereo8_init, rfl⟩

/-- `Receive` on a sample of one frame. -/
def receiveFrame : Code :=
  Code.receive plainDriver {} Filter.zeroes Filter.zeroes
    (some { data := ⟨[1, 2], by decide⟩ }) .ret

theorem receiveFrame_operation : Code.Operation plainDriver receiveFrame := .receive _ _ _ _

/-- The filter runs, and `SoundLoop` waits in `Mix` for two frames. -/
def waitingForFrames : Shared where
  filter := { Filter.stereo8 with
    state := .running
    mixer := { Filter.stereo8.mixer with
      streaming := true, desiredBytes := 4, requestSamples := true }
    device := { runThread := true, soundLoops := 1 } }
  mix := some (.waitForFrames ⟨2, 1, [default, default, default, default]⟩)

theorem waitingForFrames_reachable :
    (threads Unit .x64 plainDriver).Reachable ⟨fun _ => .ret .S_OK, waitingForFrames⟩ := by
  have hrun : Prog.advances (producerMachine .x64) (fun _ => true) 18 (Code.run {} .ret)
      ⟨Filter.stereo8, none⟩ = some (.ret .S_OK, ⟨{ Filter.stereo8 with
        state := .running
        mixer := { Filter.stereo8.mixer with streaming := true }
        device := { runThread := true, soundLoops := 1 } }, none⟩) := rfl
  obtain ⟨hreach, steps, hsteps, -⟩ := exists_run_operation (.run {}) (stereo8_reachable .x64) hrun
  have hidle := hsteps.reachable hreach
  have hcall := hidle.step trivial (.environment (.call rfl ⟨2, 1, []⟩))
  have hsize := hcall.step trivial (.environment (.step rfl rfl))
  have hrequest := hsize.step trivial (.environment (.step rfl rfl))
  exact hrequest.step trivial (.environment (.step rfl rfl))

/-- A sample that finds the filter streaming, and `SoundLoop` waiting for it. -/
theorem receive_settles_streaming :
    ∃ (S T : FilterThreads Unit) (steps : List (FilterThreads Unit × Move Unit))
      (s : MediaSample StampedByte), S.prog () = receiveFrame ∧ T.prog () = .ret .S_OK ∧
        s.data.map StampedByte.value = [1, 2] ∧ Stored .x64 plainDriver () s S steps T := by
  let guard : Shared → Bool := fun s => s.filter.mixer.streaming
  have hreceive : (Prog.advances (producerMachine .x64) guard 22 receiveFrame
      waitingForFrames).map (fun x => x.1.result?) = some (some .S_OK) := rfl
  obtain ⟨⟨q, s⟩, hadvance, hq⟩ := Option.map_eq_some_iff.mp hreceive
  obtain rfl : q = .ret .S_OK := Prog.eq_ret_of_result? hq
  obtain ⟨hstart, steps, hrun, hsteps⟩ :=
    exists_run_operation receiveFrame_operation waitingForFrames_reachable hadvance
  obtain ⟨w, hdata, hw⟩ :=
    receive_settles hstart rfl hrun (fun x hx => by simp [(hsteps x hx).1]) rfl
  obtain ⟨x, hx, ht⟩ := hw.tested fun hnil => by simp [hnil] at hdata
  exact ⟨_, _, steps, w, rfl, rfl, hdata, hw.stored x hx ht (hsteps x hx).2⟩

/-- A sample that arrives while the filter is paused is accepted, and nothing of it is stored. -/
theorem paused_sample_dropped :
    ∃ (S T : FilterThreads Unit) (steps : List (FilterThreads Unit × Move Unit)),
      (threads Unit .x64 plainDriver).Reachable S ∧ S.prog () = receiveFrame ∧
      (threads Unit .x64 plainDriver).Run S steps T ∧ (∀ x ∈ steps, x.2 ≠ .start ()) ∧
      T.prog () = .ret .S_OK ∧
      (∀ x ∈ steps, x.1.shared.filter.state = .paused ∧ x.1.shared.filter.pin.flushing = false ∧
        frameBytes .x64 x.1.shared.filter.mixer.nChannels
          x.1.shared.filter.mixer.nBitsPerSample = 2) ∧
      appendedBy (Move.isThread ()) steps T = [] := by
  let guard : Shared → Bool := fun s => s.filter.state = .paused ∧ s.filter.pin.flushing = false ∧
    frameBytes .x64 s.filter.mixer.nChannels s.filter.mixer.nBitsPerSample = 2 ∧
    s.filter.mixer.streaming = false
  have hpause : Prog.advances (producerMachine .x64) (fun _ => true) 6 (Code.pause {} .ret)
      ⟨Filter.stereo8, none⟩ =
        some (.ret .S_OK, ⟨{ Filter.stereo8 with state := .paused }, none⟩) := rfl
  have hreceive : (Prog.advances (producerMachine .x64) guard 14 receiveFrame
      ⟨{ Filter.stereo8 with state := .paused }, none⟩).map (fun x => x.1.result?) =
        some (some .S_OK) := rfl
  obtain ⟨hreach, steps, hrun, -⟩ := exists_run_operation (.pause {}) (stereo8_reachable .x64) hpause
  obtain ⟨⟨q, s⟩, hadvance, hq⟩ := Option.map_eq_some_iff.mp hreceive
  obtain rfl : q = .ret .S_OK := Prog.eq_ret_of_result? hq
  obtain ⟨hstart, steps', hrun', hsteps⟩ :=
    exists_run_operation receiveFrame_operation (hrun.reachable hreach) hadvance
  have hguard : ∀ x ∈ steps', guard x.1.shared = true := fun x hx => (hsteps x hx).2
  simp only [guard, decide_eq_true_eq] at hguard
  refine ⟨_, _, steps', hstart, rfl, hrun', fun x hx => ?_, rfl, fun x hx => ?_, ?_⟩
  · simp [(hsteps x hx).1]
  · obtain ⟨hstate, hflushing, hframe, -⟩ := hguard x hx
    exact ⟨hstate, hflushing, hframe⟩
  · obtain ⟨w, hw⟩ := calls_run hstart hrun' (fun x hx => by simp [(hsteps x hx).1])
      Code.receive_callsOnce rfl
    obtain ⟨x, hx, ht⟩ := hw.tested (by simp [Filter.stamp])
    exact hw.dropped x hx ht (hguard x hx).2.2.2

end OpenALRenderer
