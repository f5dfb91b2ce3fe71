import OpenALRenderer.Verification.Mixer.Branches
import OpenALRenderer.Verification.Stream.ControlFlow
import OpenALRenderer.Verification.Stream.FormatChange

/-! # Stopping: `SoundLoop` comes to its end once both flags are cleared

`m_bStreaming` ends a call of `Mix` that waits, and `m_run_thread` the loop around it. The rank of a
program point bounds the steps that are left. -/

namespace OpenALRenderer

open Foundation

variable {β : Type*}

/-! ## The rank of a program point -/

/-- The operands still to be evaluated. -/
def Operands.missing (o : Operands) : ℕ :=
  o.formatLayout.isNone.toNat + o.formatBitness.isNone.toNat + o.format.isNone.toNat +
    o.sizeLayout.isNone.toNat + o.sizeBitness.isNone.toNat + o.frequency.isNone.toNat

def Check.rank : Check → ℕ
  | .resuming => 2
  | .generatingSources => 3
  | .generatingBuffers => 6
  | .queuing => 7
  | .buffering => 10
  | .unqueuing => 29
  | .regenerating => 39

/-- How many steps the loop can still make outside `Mix` once its thread is to end. -/
def Pc.rank : Pc β → ℕ
  | notStarted | exited => 0
  | head => 1
  | sleep | setGain => 2
  | play => 4
  | getStateAgain | genSources => 5
  | countQueued => 6
  | genBuffers => 8
  | queueBuffer | clearError => 9
  | resetNames => 10
  | computeFrames => 11
  | bufferData _ | queryFixed32 => 12
  | queryRenderer => 13
  | queryMcFormats => 14
  | queryFloat32 => 15
  | readBitness => 16
  | readSpeakerLayout => 17
  | readFrequency => 18
  | arguments o => 13 + 2 * o.missing
  | getEnumValue o name => 14 + 2 * { o with format := some name }.missing
  | mix _ => 26
  | selectWidth => 27
  | countUnqueued => 28
  | unqueue => 31
  | getState => 32
  | getProcessed => 33
  | updateSpeakerLayout => 34
  | updateBitness => 35
  | updateFrequency => 36
  | recomputeFrames => 37
  | resetCounters => 38
  | regenBuffers => 41
  | deleteBuffers => 42
  | detachBuffers => 43
  | stopSource => 44
  | compareSpeakerLayout => 45
  | compareBitness => 46
  | compareFrequency => 47
  | testStreaming => 48
  | report c => c.rank
  | check c => c.rank + 1

theorem Check.rank_next (c : Check) : (c.next : Pc β).rank < c.rank := by
  cases c <;> simp [Check.next, Pc.rank, rank]

theorem Operands.missing_le (o : Operands) : o.missing ≤ 6 := by
  have h : ∀ b : Bool, b.toNat ≤ 1 := Bool.toNat_le
  have h₁ := h o.formatLayout.isNone
  have h₂ := h o.formatBitness.isNone
  have h₃ := h o.format.isNone
  have h₄ := h o.sizeLayout.isNone
  have h₅ := h o.sizeBitness.isNone
  have h₆ := h o.frequency.isNone
  unfold Operands.missing
  omega

theorem Check.rank_le (c : Check) : c.rank ≤ 39 := by
  cases c <;> decide

theorem Pc.rank_le (pc : Pc β) : pc.rank ≤ 48 := by
  cases pc with
  | arguments o =>
      have h := o.missing_le
      simp only [rank]
      omega
  | getEnumValue o name =>
      have h := Operands.missing_le { o with format := some name }
      simp only [rank]
      omega
  | check c | report c =>
      have h := c.rank_le
      simp only [rank]
      omega
  | _ => simp [rank]

theorem Operands.rank_pc (o : Operands) (frames : ℕ) (data : List β) :
    (o.pc frames data).rank ≤ 13 + 2 * o.missing := by
  unfold Operands.pc
  split
  · exact Nat.le_add_right_of_le (Nat.le_succ 12)
  · exact le_rfl

namespace Stream

variable {s t : Stream β} {c : Choice β}

/-- Evaluating an operand leaves one fewer. -/
theorem rank_evaluate {o : Operands} {x : Operand} (hs : s.evaluate o x = some t) :
    t.pc.rank < 13 + 2 * o.missing := by
  have hnext : ∀ o' : Operands, o'.missing < o.missing →
      (o'.pc s.locals.availableFrames s.locals.byteData).rank < 13 + 2 * o.missing :=
    fun o' hlt => lt_of_le_of_lt (o'.rank_pc _ _) (by omega)
  cases x <;> simp only [evaluate] at hs <;> split at hs <;> cases hs
  case h_1 hformat _ _ =>
    simp [goto, Pc.rank, Operands.missing, hformat]
    omega
  all_goals
    next hnone =>
      refine hnext _ ?_
      simp [Operands.missing, Option.isNone_iff_eq_none.mp hnone]

/-- Between the head of the loop and the operands every statement leads on. -/
theorem rank_follows {pc pc' : Pc β} (h : pc.Follows pc') (hhead : pc ≠ .head)
    (hargs : ∀ o, pc ≠ .arguments o) (hname : ∀ o name, pc ≠ .getEnumValue o name) :
    pc'.rank < pc.rank := by
  cases h with
  | head | head_stopped => exact absurd rfl hhead
  | arguments o | arguments_name o | arguments_last o => exact absurd rfl (hargs o)
  | getEnumValue o name | getEnumValue_last o name => exact absurd rfl (hname o name)
  | mix n => exact (by decide : (Pc.arguments {} : Pc Unit).rank < 26)
  | check x => exact Nat.lt_succ_self _
  | check_none x _ hnext => exact hnext ▸ Nat.lt_succ_of_lt x.rank_next
  | report x _ hnext => exact hnext ▸ x.rank_next
  | _ => simp [Pc.rank, Check.rank]

/-- Once the thread is to end, every step of the loop brings it closer to its end. -/
theorem rank_loopStep (hrun : s.runThread = false) (hs : s.loopStep c = some t) :
    t.pc.rank < s.pc.rank := by
  have hnext := follows_loopStep hs
  cases hpc : s.pc with
  | head =>
      simp only [loopStep, call, advance, hpc, hrun, Option.some.injEq] at hs
      subst hs
      exact Nat.zero_lt_one
  | arguments o =>
      simp only [loopStep, call, advance, hpc] at hs
      exact rank_evaluate hs
  | getEnumValue o name =>
      simp only [loopStep, call, hpc] at hs
      split at hs <;> cases hs
      simp only [resume, pc_setAl, hpc]
      refine lt_of_le_of_lt (Operands.rank_pc { o with format := some name } _ _) ?_
      simp only [Pc.rank]
      omega
  | _ =>
      rw [hpc] at hnext
      exact rank_follows hnext (by simp) (by simp) (by simp)

/-! ## A step is always left -/

/-- An operand of the call is missing. -/
def Argued (s : Stream β) : Prop :=
  ∀ o, s.pc = .arguments o →
    o.format = none ∨ o.sizeLayout = none ∨ o.sizeBitness = none ∨ o.frequency = none

theorem argued_operands {s : Stream β} (o : Operands) :
    (s.goto (o.pc s.locals.availableFrames s.locals.byteData)).Argued := by
  intro o' hpc
  unfold Operands.pc Operands.call goto at hpc
  split at hpc
  · cases hpc
  · next hnone =>
      obtain rfl := Pc.arguments.inj hpc
      split at hnone
      · cases hnone
      · next hmissing =>
          by_contra hall
          simp only [not_or, ← ne_eq, Option.ne_none_iff_exists'] at hall
          obtain ⟨⟨a, ha⟩, ⟨b, hb⟩, ⟨c, hc⟩, ⟨d, hd⟩⟩ := hall
          exact hmissing _ _ _ _ ha hb hc hd

theorem argued_evaluate {o : Operands} {x : Operand} (hs : s.evaluate o x = some t) :
    t.Argued := by
  cases x <;> simp only [evaluate] at hs <;> split at hs <;> cases hs
  case h_1 =>
    intro o' hpc
    simp [goto] at hpc
  all_goals exact argued_operands _

/-- The evaluation of the arguments starts with none of them. -/
theorem follows_arguments {pc : Pc β} {o : Operands} (h : pc.Follows (.arguments o)) :
    o = {} ∨ (∃ o', pc = .arguments o') ∨ ∃ o' name, pc = .getEnumValue o' name := by
  cases h with
  | mix => exact .inl rfl
  | arguments o' => exact .inr (.inl ⟨o', rfl⟩)
  | getEnumValue o' name => exact .inr (.inr ⟨o', name, rfl⟩)
  | check_none x _ hnext | report x _ hnext => cases x <;> cases hnext

theorem argued_loopStep (hs : s.loopStep c = some t) : t.Argued := by
  intro o hpc
  have hnext := follows_loopStep hs
  rw [hpc] at hnext
  rcases follows_arguments hnext with rfl | ⟨o', hpc'⟩ | ⟨o', name, hpc'⟩
  · exact .inl rfl
  · simp only [loopStep, call, advance, hpc'] at hs
    exact argued_evaluate hs o hpc
  · simp only [loopStep, call, hpc'] at hs
    split at hs <;> cases hs
    simp only [resume, pc_setAl, hpc'] at hpc
    exact argued_operands _ o hpc

end Stream

/-! ## The calls of `Mix` -/

namespace Consumer

/-- The call is taking a byte from the queue. -/
def popping (n : ℕ) : Consumer β → Bool
  | pop _ i => decide (i < n)
  | _ => false

/-- How many steps a call of `Mix` can still make once the mixer streams no more, when it asks for
`n` bytes and each of them counts for `w`; before it does so it may come to ask for as many as a
vector holds. -/
def rank (w : ℕ) (p : Platform) (n : ℕ) : Consumer β → ℕ
  | mix _ => w * p.maxVectorSize + 6
  | checkSize _ => w * n + 5
  | setRequest _ => w * n + 4
  | waitForFrames _ | testStreaming _ => w * n + 3
  | testReady _ => w * n + 7
  | testBits _ => w * n + 9
  | waitReady _ => w * n + 8
  | clearReady _ => w * n + 6
  | pop _ i => w * (n - i) + 2
  | countFrames _ => 1
  | returned _ _ | fault _ => 0

/-- Whatever it is doing, a call asks for no more than a vector holds. -/
def Bounded (p : Platform) (n : ℕ) : Consumer β → Prop
  | mix _ | fault _ => True
  | _ => n ≤ p.maxVectorSize

theorem Bounded.rank_le {p : Platform} {n : ℕ} {a : Consumer β} (h : a.Bounded p n) (w : ℕ) :
    a.rank w p n ≤ w * p.maxVectorSize + 9 := by
  have hmul : n ≤ p.maxVectorSize → w * n ≤ w * p.maxVectorSize := Nat.mul_le_mul_left w
  cases a with
  | pop c i =>
      have hpops : w * (n - i) ≤ w * p.maxVectorSize :=
        Nat.mul_le_mul_left w ((Nat.sub_le n i).trans h)
      simp only [rank]
      omega
  | _ =>
      simp only [Bounded] at h
      simp only [rank]
      omega

variable [Inhabited β] {p : Platform} {a b : Consumer β} {m m' : Mixer β}

theorem Bounded.step (h : a.Bounded p m.desiredBytes) (hs : a.step p m = some (b, m')) :
    b.Bounded p m'.desiredBytes := by
  cases branch_of_step hs with
  | mix hn hsize => exact hsize
  | mix_fault | countFrames_fault => trivial
  | _ => exact h

/-- Without streaming, every step of `Mix` brings it closer to its return. -/
theorem rank_step (w : ℕ) (hstreaming : m.streaming = false) (hs : a.step p m = some (b, m')) :
    b.rank w p m'.desiredBytes + (if a.popping m.desiredBytes then w else 1) ≤
      a.rank w p m.desiredBytes := by
  cases branch_of_step hs with
  | mix hn hsize =>
      have hmul := Nat.mul_le_mul_left w hsize
      simp only [rank, popping, Bool.false_eq_true, if_false]
      omega
  | pop hi | pop_empty hi =>
      have hpop : ∀ n i, i < n → w * (n - (i + 1)) + w = w * (n - i) := fun n i hi => by
        rw [← Nat.mul_succ]
        congr 1
        omega
      simp only [rank, popping, hi, decide_true, if_true]
      have hone := hpop _ _ hi
      omega
  | pop_last hi =>
      simp only [rank, popping, Nat.not_lt.mpr hi, decide_false, Bool.false_eq_true, if_false]
      omega
  | waitForFrames h | testStreaming h => cases h.symm.trans hstreaming
  | _ =>
      simp only [rank, popping, Bool.false_eq_true, if_false, Nat.sub_zero]
      omega

theorem streaming_step (hs : a.step p m = some (b, m')) : m'.streaming = m.streaming := by
  cases branch_of_step hs <;> rfl

end Consumer

/-! ## The whole thread -/

namespace Playback

def Label.isLoop : Label → Bool
  | .loop _ => true
  | _ => false

/-- The loop is taking a byte from the queue. -/
def popping (s : Playback) : Bool := s.mix.any fun k => k.popping s.mixer.desiredBytes

/-- The steps that the loop still has to make, where every byte it takes counts for `w`. -/
def remaining (w : ℕ) (p : Platform) (s : Playback) : ℕ :=
  s.stream.pc.rank +
    match s.mix with
    | some k => k.rank w p s.mixer.desiredBytes
    | none => if s.stream.pc.rank < 26 then 0 else w * p.maxVectorSize + 7

/-- The two copies of `m_bStreaming`: what `IsStreaming` answers, and what the mixer itself
reads. -/
def Agrees (s : Playback) : Prop := s.stream.streaming = s.mixer.streaming

/-- `Mix` is running only where the loop calls it, and asks for no more than a vector holds. -/
structure Calling (p : Platform) (s : Playback) : Prop where
  argued : s.stream.Argued
  within : s.mix ≠ none → ∃ n, s.stream.pc = .mix n
  bounded : ∀ k, s.mix = some k → k.Bounded p s.mixer.desiredBytes

variable {p : Platform} {caps : Capabilities} {s t : Playback}

theorem Calling.loop (h : s.Calling p) {c : Choice StampedByte} (hs : s.loopStep p c = some t) :
    t.Calling p := by
  unfold loopStep at hs
  split at hs
  · next n hpc hk =>
      cases hs
      exact ⟨h.argued, fun _ => ⟨n, hpc⟩, fun k hk => by cases hk; trivial⟩
  · next n call frames hpc hk =>
      obtain ⟨u, hu, rfl⟩ := Option.map_eq_some_iff.mp hs
      exact ⟨Stream.argued_loopStep hu, by simp, by simp⟩
  · next n k _ hpc hk =>
      obtain ⟨⟨k', m⟩, hstep, rfl⟩ := Option.map_eq_some_iff.mp hs
      refine ⟨h.argued, fun _ => ⟨n, hpc⟩, fun k₂ hk₂ => ?_⟩
      obtain rfl := Option.some.inj hk₂
      exact (h.bounded k hk).step hstep
  · next hnone _ hsome =>
      obtain ⟨u, hu, rfl⟩ := Option.map_eq_some_iff.mp hs
      have hmix : s.mix = none := by
        by_contra hne
        obtain ⟨n, hpc⟩ := h.within hne
        cases hk : s.mix with
        | none => exact hne hk
        | some k => exact hsome n k hpc hk
      exact ⟨Stream.argued_loopStep hu, by simp [hmix], by simp [hmix]⟩

/-- The other threads may change what is mixed, and not how much. -/
theorem Calling.congr (h : s.Calling p) (hpc : t.stream.pc = s.stream.pc) (hmix : t.mix = s.mix)
    (hdesired : t.mixer.desiredBytes = s.mixer.desiredBytes) : t.Calling p where
  argued := by
    have hargued := h.argued
    unfold Stream.Argued at hargued ⊢
    rwa [hpc]
  within := by
    rw [hmix, hpc]
    exact h.within
  bounded := by
    rw [hmix, hdesired]
    exact h.bounded

theorem remaining_congr (hpc : t.stream.pc = s.stream.pc) (hmix : t.mix = s.mix)
    (hdesired : t.mixer.desiredBytes = s.mixer.desiredBytes) (w : ℕ) :
    t.remaining w p = s.remaining w p := by
  unfold remaining
  rw [hpc, hmix, hdesired]

/-- What the other threads leave alone. -/
structure SameLoop (s t : Playback) : Prop where
  pc : t.stream.pc = s.stream.pc
  runThread : t.stream.runThread = s.stream.runThread
  mix : t.mix = s.mix
  desiredBytes : t.mixer.desiredBytes = s.mixer.desiredBytes
  isStreaming : t.stream.streaming = s.stream.streaming
  streaming : t.mixer.streaming = s.mixer.streaming

theorem sameLoop_next {a : Label} (ha : a.isLoop = false) (hs : s.next p caps a = some t) :
    s.SameLoop t := by
  cases a with
  | loop c => cases ha
  | driver n =>
      obtain ⟨al, -, rfl⟩ := Option.map_eq_some_iff.mp hs
      exact ⟨rfl, rfl, rfl, rfl, rfl, rfl⟩
  | receive r e e' sample =>
      simp only [next] at hs
      split at hs
      · obtain ⟨q, -, rfl⟩ := Option.map_eq_some_iff.mp hs
        exact ⟨rfl, rfl, rfl, rfl, rfl, rfl⟩
      · cases hs
  | pin =>
      simp only [next, receiveStep] at hs
      split at hs
      · cases hs
      · next x rest sample hr =>
          cases hs
          cases x <;> exact ⟨rfl, rfl, rfl, rfl, rfl, rfl⟩
      · cases hs
        exact ⟨rfl, rfl, rfl, rfl, rfl, rfl⟩
      · cases hs
        exact ⟨rfl, rfl, rfl, rfl, rfl, rfl⟩
      · cases hs
        exact ⟨rfl, rfl, rfl, rfl, rfl, rfl⟩
      · obtain ⟨⟨a, m⟩, hstep, rfl⟩ := Option.map_eq_some_iff.mp hs
        cases Producer.branch_of_step hstep <;> exact ⟨rfl, rfl, rfl, rfl, rfl, rfl⟩

theorem Calling.mix_eq_none (h : s.Calling p) (hout : ∀ n k, s.stream.pc = .mix n →
    s.mix ≠ some k) : s.mix = none := by
  by_contra hne
  obtain ⟨n, hpc⟩ := h.within hne
  obtain ⟨k, hk⟩ := Option.ne_none_iff_exists'.mp hne
  exact hout n k hpc hk

/-- Once both flags are cleared, every step of the loop brings it closer to its end. -/
theorem remaining_loop (w : ℕ) (h : s.Calling p) (hrun : s.stream.runThread = false)
    (hstreaming : s.mixer.streaming = false) {c : Choice StampedByte}
    (hs : s.loopStep p c = some t) :
    t.remaining w p + (if s.popping then w else 1) ≤ s.remaining w p := by
  unfold loopStep at hs
  split at hs
  · next n hpc hk =>
      cases hs
      have hrank : ¬ (Pc.mix n : Pc StampedByte).rank < 26 := Nat.lt_irrefl 26
      simp only [remaining, popping, hpc, hk, if_neg hrank, Consumer.rank, Option.any_none,
        Bool.false_eq_true, if_false]
      omega
  · next n call frames hpc hk =>
      obtain ⟨u, hu, rfl⟩ := Option.map_eq_some_iff.mp hs
      have hlt := Stream.rank_loopStep hrun hu
      rw [hpc] at hlt
      change _ < 26 at hlt
      simp only [remaining, popping, hpc, hk, if_pos hlt]
      exact hlt
  · next n k _ hpc hk =>
      obtain ⟨⟨k', m⟩, hstep, rfl⟩ := Option.map_eq_some_iff.mp hs
      have hle := Consumer.rank_step w hstreaming hstep
      simp only [remaining, popping, hk, Option.any_some]
      omega
  · next hnone _ hsome =>
      obtain ⟨u, hu, rfl⟩ := Option.map_eq_some_iff.mp hs
      have hlt := Stream.rank_loopStep hrun hu
      have hmix := h.mix_eq_none fun n k hpc hk => hsome n k hpc hk
      simp only [remaining, popping, hmix, Option.any_none, Bool.false_eq_true, if_false]
      split <;> split <;> omega

/-- The state of a thread that is to end. -/
structure Ending (p : Platform) (s : Playback) : Prop where
  calling : s.Calling p
  runThread : s.stream.runThread = false
  isStreaming : s.stream.streaming = false
  streaming : s.mixer.streaming = false

theorem streaming_loop {c : Choice StampedByte} (hs : s.loopStep p c = some t) :
    t.stream.runThread = s.stream.runThread ∧ t.stream.streaming = s.stream.streaming ∧
      t.mixer.streaming = s.mixer.streaming := by
  unfold loopStep at hs
  split at hs
  · cases hs
    exact ⟨rfl, rfl, rfl⟩
  · obtain ⟨u, hu, rfl⟩ := Option.map_eq_some_iff.mp hs
    have hsame := Stream.loopStep_settings hu
    exact ⟨hsame.runThread, hsame.streaming, rfl⟩
  · obtain ⟨⟨k', m⟩, hstep, rfl⟩ := Option.map_eq_some_iff.mp hs
    exact ⟨rfl, rfl, Consumer.streaming_step hstep⟩
  · obtain ⟨u, hu, rfl⟩ := Option.map_eq_some_iff.mp hs
    have hsame := Stream.loopStep_settings hu
    exact ⟨hsame.runThread, hsame.streaming, rfl⟩

theorem Agrees.next (h : s.Agrees) {a : Label} (hs : s.next p caps a = some t) : t.Agrees := by
  cases ha : a.isLoop with
  | false =>
      have hsame := sameLoop_next ha hs
      exact hsame.isStreaming.trans (h.trans hsame.streaming.symm)
  | true =>
      cases a with
      | loop c =>
          obtain ⟨-, hstream, hmixer⟩ := streaming_loop hs
          exact hstream.trans (h.trans hmixer.symm)
      | _ => cases ha

/-- What `IsStreaming` answers is the flag of the mixer. -/
theorem agrees_of_reachable (h : (system p caps).Reachable s) : s.Agrees :=
  h.invariant (fun _ hinit => hinit.isStreaming) fun _ _ _ hI _ hs => hI.next hs

theorem Ending.next (h : s.Ending p) {a : Label} (hs : s.next p caps a = some t) (w : ℕ) :
    t.Ending p ∧
      t.remaining w p + (if a.isLoop then if s.popping then w else 1 else 0) ≤
        s.remaining w p := by
  cases ha : a.isLoop with
  | false =>
      have hsame := sameLoop_next ha hs
      refine ⟨⟨h.calling.congr hsame.pc hsame.mix hsame.desiredBytes,
        hsame.runThread.trans h.runThread, hsame.isStreaming.trans h.isStreaming,
        hsame.streaming.trans h.streaming⟩, ?_⟩
      rw [remaining_congr hsame.pc hsame.mix hsame.desiredBytes]
      exact le_rfl
  | true =>
      cases a with
      | loop c =>
          obtain ⟨hthread, hstream, hmixer⟩ := streaming_loop hs
          exact ⟨⟨h.calling.loop hs, hthread.trans h.runThread, hstream.trans h.isStreaming,
            hmixer.trans h.streaming⟩, remaining_loop w h.calling h.runThread h.streaming hs⟩
      | _ => cases ha

end Playback

end OpenALRenderer
