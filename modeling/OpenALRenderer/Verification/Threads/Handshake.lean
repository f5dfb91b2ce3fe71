import OpenALRenderer.Model.Threads
import OpenALRenderer.Verification.Mixer.Branches
import OpenALRenderer.Verification.Pin.Operations

/-! # The handshake of `Receive` and `Mix`, and the order of the locks -/

namespace OpenALRenderer

open Foundation

/-! ## The order of the locks -/

def Lock.rank : Lock → ℕ
  | receiveMutex => 0
  | pin => 1
  | filter => 2
  | mixer => 3

/-- `receiveMutex` is taken first, the mixer's lock last. -/
def Lock.Before (a b : Lock) : Prop := a.rank < b.rank

instance (a b : Lock) : Decidable (a.Before b) := inferInstanceAs (Decidable (a.rank < b.rank))

instance : IsStrictOrder Lock Lock.Before where
  irrefl a := Nat.lt_irrefl a.rank
  trans _ _ _ := Nat.lt_trans

/-! ## The two flags -/

/-- An action leaves both flags and the `SoundLoop` thread alone. -/
structure SameFlags (s s' : Shared) : Prop where
  samplesReady : s'.filter.mixer.samplesReady = s.filter.mixer.samplesReady
  requestSamples : s'.filter.mixer.requestSamples = s.filter.mixer.requestSamples
  mix : s'.mix = s.mix

/-- A function on the filter that leaves both flags alone. -/
structure Filter.KeepsFlags (f : Filter → Filter) : Prop where
  samplesReady : ∀ w, (f w).mixer.samplesReady = w.mixer.samplesReady
  requestSamples : ∀ w, (f w).mixer.requestSamples = w.mixer.requestSamples

/-- Locks in order, `CMixer::Receive` under the mixer's lock, and no other access to the two
flags. -/
def discipline : Discipline Lock (Producer StampedByte) Shared where
  lt := Lock.Before
  guard := .mixer
  fresh a := ∃ s, a = .receive s
  frame := SameFlags

/-- An action that, besides, leaves of the queue everything or nothing. -/
structure FeedsNothing (s s' : Shared) : Prop extends SameFlags s s' where
  sampleQueue : s'.filter.mixer.sampleQueue = s.filter.mixer.sampleQueue ∨
    s'.filter.mixer.sampleQueue = []

/-- A function on the filter that leaves both flags alone, and of the queue everything or
nothing. -/
structure Filter.FeedsNothing (f : Filter → Filter) : Prop extends Filter.KeepsFlags f where
  sampleQueue : ∀ w, (f w).mixer.sampleQueue = w.mixer.sampleQueue ∨ (f w).mixer.sampleQueue = []

/-- The discipline under which, besides, nothing but `CMixer::Receive` appends to the queue. -/
def unfed : Discipline Lock (Producer StampedByte) Shared :=
  { discipline with frame := OpenALRenderer.FeedsNothing }

namespace Filter

/-- A function that rewrites no more of the mixer than its format and `m_bStreaming` feeds
nothing. -/
theorem FeedsNothing.of_eq {f : Filter → Filter}
    (h : ∀ w, (f w).mixer.samplesReady = w.mixer.samplesReady ∧
      (f w).mixer.requestSamples = w.mixer.requestSamples ∧
      (f w).mixer.sampleQueue = w.mixer.sampleQueue) : FeedsNothing f :=
  ⟨⟨fun w => (h w).1, fun w => (h w).2.1⟩, fun w => .inl (h w).2.2⟩

theorem FeedsNothing.ident : FeedsNothing id := .of_eq fun _ => ⟨rfl, rfl, rfl⟩

theorem clearQueue_feedsNothing : FeedsNothing clearQueue :=
  ⟨⟨fun _ => rfl, fun _ => rfl⟩, fun _ => .inr rfl⟩

theorem checkMediaType_mixer (caps : Capabilities) (e : Indeterminate) (pmt : MediaType)
    (w : Filter) :
    (w.checkMediaType caps e pmt).2.mixer.samplesReady = w.mixer.samplesReady ∧
      (w.checkMediaType caps e pmt).2.mixer.requestSamples = w.mixer.requestSamples ∧
      (w.checkMediaType caps e pmt).2.mixer.sampleQueue = w.mixer.sampleQueue := by
  unfold checkMediaType
  cases pmt.format with
  | none => exact ⟨rfl, rfl, rfl⟩
  | some block =>
      dsimp only
      split_ifs <;> exact ⟨rfl, rfl, rfl⟩

theorem baseReceive_feedsNothing (caps : Capabilities) (e : Indeterminate) (s : PinSample) :
    FeedsNothing fun w => (w.baseReceive caps e s).filter := by
  refine .of_eq fun w => ?_
  unfold baseReceive
  split_ifs
  · exact ⟨rfl, rfl, rfl⟩
  · exact ⟨rfl, rfl, rfl⟩
  · cases s.mediaType with
    | none => exact ⟨rfl, rfl, rfl⟩
    | some pmt =>
        dsimp only
        split_ifs
        · exact checkMediaType_mixer caps e pmt _
        · exact checkMediaType_mixer caps e pmt _

theorem setMediaType_feedsNothing (caps : Capabilities) (e : Indeterminate) (allocates : Bool)
    (pmt : MediaType) :
    FeedsNothing fun w => ((w.setMediaType caps e allocates pmt).map Prod.snd).getD w := by
  refine .of_eq fun w => ?_
  unfold setMediaType
  cases pmt.format with
  | none => exact ⟨rfl, rfl, rfl⟩
  | some block =>
      dsimp only
      split <;> exact ⟨rfl, rfl, rfl⟩

theorem basePause_feedsNothing (r : PinReplies) : FeedsNothing fun w => (w.basePause r).2 := by
  refine .of_eq fun w => ?_
  unfold basePause
  split <;> exact ⟨rfl, rfl, rfl⟩

theorem runPins_feedsNothing (r : PinReplies) : FeedsNothing fun w => (w.runPins r).2 := by
  refine .of_eq fun w => ?_
  unfold runPins
  split <;> exact ⟨rfl, rfl, rfl⟩

theorem startDevice_feedsNothing : FeedsNothing startDevice := by
  refine .of_eq fun w => ?_
  unfold startDevice
  split <;> exact ⟨rfl, rfl, rfl⟩

end Filter

/-! ## Every operation obeys the discipline -/

namespace Code

variable {hs : List Lock} {k : HRESULT → Code}

/-- The lock may be taken under the locks `hs`. -/
def Admits (hs : List Lock) (l : Lock) : Prop := l ∈ hs ∨ ∀ h ∈ hs, Lock.Before h l

theorem access_obeys {f : Filter → Filter} {k : Filter → Code} (hf : Filter.FeedsNothing f)
    (hk : ∀ w, (k w).Obeys unfed hs) : (access f k).Obeys unfed hs :=
  ⟨fun s => ⟨⟨hf.samplesReady s.filter, hf.requestSamples s.filter, rfl⟩, hf.sampleQueue s.filter⟩,
    fun s => hk s.filter⟩

theorem read_obeys {k : Filter → Code} (hk : ∀ w, (k w).Obeys unfed hs) :
    (read k).Obeys unfed hs :=
  access_obeys .ident hk

theorem attempt_obeys {f : Filter → HRESULT × Filter} (hf : Filter.FeedsNothing fun w => (f w).2)
    (hk : ∀ hr, (k hr).Obeys unfed hs) : (attempt f k).Obeys unfed hs :=
  access_obeys hf fun _ => hk _

theorem ret_obeys (hr : HRESULT) : (Prog.ret hr : Code).Obeys unfed hs := trivial

theorem startStreaming_obeys (hl : Admits hs .mixer) (hk : ∀ hr, (k hr).Obeys unfed hs) :
    (startStreaming k).Obeys unfed hs := by
  refine ⟨hl, read_obeys fun w => ?_, hk⟩
  split
  · exact ret_obeys _
  · exact access_obeys (.of_eq fun _ => ⟨rfl, rfl, rfl⟩) fun _ => ret_obeys _

theorem stopStreaming_obeys (hl : Admits hs .mixer) (hk : ∀ hr, (k hr).Obeys unfed hs) :
    (stopStreaming k).Obeys unfed hs := by
  refine ⟨hl, read_obeys fun w => ?_, hk⟩
  split
  · exact access_obeys (.of_eq fun _ => ⟨rfl, rfl, rfl⟩) fun _ => ret_obeys _
  · exact ret_obeys _

theorem mixerReceive_obeys {s : MediaSample UInt8} (hl : Admits hs .mixer)
    (hk : ∀ hr, (k hr).Obeys unfed hs) : (mixerReceive s k).Obeys unfed hs :=
  read_obeys fun _ => ⟨hl, ⟨List.mem_cons_self, ⟨_, rfl⟩, trivial⟩, hk⟩

theorem basePause_obeys {r : PinReplies} (hl : Admits hs .filter)
    (hk : ∀ hr, (k hr).Obeys unfed hs) : (basePause r k).Obeys unfed hs :=
  ⟨hl, attempt_obeys (Filter.basePause_feedsNothing r) ret_obeys, hk⟩

theorem baseStop_obeys {r : PinReplies} (hl : Admits hs .filter)
    (hk : ∀ hr, (k hr).Obeys unfed hs) : (baseStop r k).Obeys unfed hs :=
  ⟨hl, attempt_obeys (.of_eq fun _ => ⟨rfl, rfl, rfl⟩) ret_obeys, hk⟩

/-- Inside the filter's lock it may be taken again, and the mixer's may be taken where it could
be outside. -/
theorem Admits.filter_cons : Admits (.filter :: hs) .filter := .inl List.mem_cons_self

theorem Admits.mixer_cons (hl : ∀ h ∈ hs, Lock.Before h .mixer) :
    Admits (.filter :: hs) .mixer :=
  .inr (List.forall_mem_cons.mpr ⟨by decide, hl⟩)

theorem pause_obeys {r : PinReplies} (hl : Admits hs .filter)
    (hm : ∀ h ∈ hs, Lock.Before h .mixer) (hk : ∀ hr, (k hr).Obeys unfed hs) :
    (pause r k).Obeys unfed hs := by
  refine ⟨hl, read_obeys fun w => ?_, hk⟩
  split
  · exact stopStreaming_obeys (.mixer_cons hm) fun _ => basePause_obeys .filter_cons ret_obeys
  · exact basePause_obeys .filter_cons ret_obeys

theorem stop_obeys {r : PinReplies} (hl : Admits hs .filter)
    (hm : ∀ h ∈ hs, Lock.Before h .mixer) (hk : ∀ hr, (k hr).Obeys unfed hs) :
    (stop r k).Obeys unfed hs := by
  have hm' : ∀ h ∈ Lock.filter :: hs, Lock.Before h .mixer :=
    List.forall_mem_cons.mpr ⟨by decide, hm⟩
  have hrest : (baseStop r fun hr => if hr.failed then .ret hr else .ret .S_OK).Obeys unfed
      (.filter :: hs) := by
    refine baseStop_obeys .filter_cons fun hr => ?_
    split <;> exact ret_obeys _
  refine ⟨hl, read_obeys fun w => ?_, hk⟩
  dsimp only
  split
  · exact ret_obeys _
  · split
    · refine pause_obeys .filter_cons hm' fun hr => ?_
      split
      · exact ret_obeys _
      · exact hrest
    · exact hrest

theorem baseRun_obeys {r : PinReplies} (hl : Admits hs .filter)
    (hm : ∀ h ∈ hs, Lock.Before h .mixer) (hk : ∀ hr, (k hr).Obeys unfed hs) :
    (baseRun r k).Obeys unfed hs := by
  have hm' : ∀ h ∈ Lock.filter :: hs, Lock.Before h .mixer :=
    List.forall_mem_cons.mpr ⟨by decide, hm⟩
  have hrest : (attempt (Filter.runPins r) .ret).Obeys unfed (.filter :: hs) :=
    attempt_obeys (Filter.runPins_feedsNothing r) ret_obeys
  refine ⟨hl, read_obeys fun w => ?_, hk⟩
  dsimp only
  split
  · refine pause_obeys .filter_cons hm' fun hr => ?_
    split
    · exact ret_obeys _
    · exact hrest
  · exact hrest

theorem run_obeys {r : PinReplies} (hl : Admits hs .filter)
    (hm : ∀ h ∈ hs, Lock.Before h .mixer) (hk : ∀ hr, (k hr).Obeys unfed hs) :
    (run r k).Obeys unfed hs := by
  have hm' : ∀ h ∈ Lock.filter :: hs, Lock.Before h .mixer :=
    List.forall_mem_cons.mpr ⟨by decide, hm⟩
  refine ⟨hl, read_obeys fun old => baseRun_obeys .filter_cons hm' fun hr => ?_, hk⟩
  split
  · exact ret_obeys _
  · split
    · exact startStreaming_obeys (.mixer_cons hm) fun _ =>
        access_obeys Filter.startDevice_feedsNothing fun _ => ret_obeys _
    · exact ret_obeys _

theorem setMediaType_obeys {caps : Capabilities} {e : Indeterminate} {allocates : Bool}
    {pmt : MediaType} (hl : Admits hs .filter) (hk : ∀ hr, (k hr).Obeys unfed hs) :
    (setMediaType caps e allocates pmt k).Obeys unfed hs := by
  refine ⟨hl, access_obeys (Filter.setMediaType_feedsNothing caps e allocates pmt) fun w => ?_, hk⟩
  split
  · trivial
  · exact ret_obeys _

/-- `Receive` takes the pin's lock under `m_receiveMutex`, the filter's under both, and the
mixer's once the pin's is released. -/
theorem receive_obeys {caps : Capabilities} {r : Replies} {e e' : Indeterminate}
    {sample : Option PinSample} :
    (receive caps r e e' sample .ret).Obeys unfed [] := by
  have hpin : Admits [.receiveMutex] .pin := .inr (by decide)
  refine ⟨.inr (by simp), ⟨hpin, read_obeys fun w => ?_, fun hr => ?_⟩, ret_obeys⟩
  · split
    · exact ret_obeys _
    · cases sample with
      | none => exact ret_obeys _
      | some s =>
          refine attempt_obeys (Filter.baseReceive_feedsNothing caps e s) fun hr => ?_
          split
          · exact ret_obeys _
          · refine read_obeys fun w => ?_
            split
            · exact ret_obeys _
            · refine setMediaType_obeys (.inr (by decide)) fun hr => ?_
              split
              · exact ret_obeys _
              · exact access_obeys Filter.clearQueue_feedsNothing fun _ => ret_obeys _
  · dsimp only
    split
    · exact ret_obeys _
    · cases sample with
      | none => exact ret_obeys _
      | some s => exact mixerReceive_obeys (.inr (by decide)) ret_obeys

theorem beginFlush_obeys : (beginFlush .ret).Obeys unfed [] := by
  refine ⟨.inr (by simp), access_obeys (.of_eq fun _ => ⟨rfl, rfl, rfl⟩) fun _ => ret_obeys _,
    fun _ => ⟨.inr (by simp), ?_, ret_obeys⟩⟩
  exact access_obeys Filter.clearQueue_feedsNothing fun _ => ret_obeys _

theorem endFlush_obeys : (endFlush .ret).Obeys unfed [] :=
  ⟨.inr (by simp), access_obeys (.of_eq fun _ => ⟨rfl, rfl, rfl⟩) fun _ => ret_obeys _, ret_obeys⟩

/-- The operations of the streaming and control threads. -/
inductive Operation (caps : Capabilities) : Code → Prop where
  | receive (r : Replies) (e e' : Indeterminate) (sample : Option PinSample) :
      Operation caps (receive caps r e e' sample .ret)
  | run (r : PinReplies) : Operation caps (run r .ret)
  | pause (r : PinReplies) : Operation caps (pause r .ret)
  | stop (r : PinReplies) : Operation caps (stop r .ret)
  | beginFlush : Operation caps (beginFlush .ret)
  | endFlush : Operation caps (endFlush .ret)

theorem Operation.obeys_unfed {caps : Capabilities} {c : Code} (h : Operation caps c) :
    c.Obeys unfed [] := by
  cases h with
  | receive r e e' sample => exact receive_obeys
  | run r => exact run_obeys (.inr (by simp)) (by simp) ret_obeys
  | pause r => exact pause_obeys (.inr (by simp)) (by simp) ret_obeys
  | stop r => exact stop_obeys (.inr (by simp)) (by simp) ret_obeys
  | beginFlush => exact beginFlush_obeys
  | endFlush => exact endFlush_obeys

theorem Operation.obeys {caps : Capabilities} {c : Code} (h : Operation caps c) :
    c.Obeys discipline [] :=
  Prog.Obeys.mono (D := unfed) rfl rfl rfl (fun _ _ hs => hs.toSameFlags) h.obeys_unfed

end Code

/-! ## The handshake -/

/-- `Receive` is in the loop of `CopyWaveform` that waits for a request. -/
def Producer.AwaitsRequest {β : Type*} : Producer β → Prop
  | testRequest => True
  | waitRequest => True
  | _ => False

/-- `SoundLoop` is in `WaitForFrames` and has not found samples. -/
def Consumer.AwaitsSamples {β : Type*} : Consumer β → Prop
  | waitForFrames _ => True
  | testReady _ => True
  | testStreaming _ => True
  | testBits _ => True
  | waitReady _ => True
  | _ => False

/-- While `Receive` waits for a request, either one is pending, or samples are announced, or
`SoundLoop` is not waiting for any: it will ask again before it does. -/
def Answered (a : Producer StampedByte) (s : Shared) : Prop :=
  a.AwaitsRequest → s.filter.mixer.requestSamples = true ∨ s.filter.mixer.samplesReady = true ∨
    ∀ c, s.mix = some c → ¬ c.AwaitsSamples

theorem Answered.of_flags {a : Producer StampedByte} {s s' : Shared} (h : Answered a s)
    (hs : SameFlags s s') : Answered a s' := by
  intro ha
  rw [hs.requestSamples, hs.samplesReady, hs.mix]
  exact h ha

/-- A producer that enters the loop has just announced its samples, and leaves it as it clears
the request. -/
theorem Answered.producer {p : Platform} {a a' : Producer StampedByte} {s s' : Shared}
    (h : Answered a s) (hstep : (producerMachine p).step a s = some (a', s')) :
    Answered a' s' := by
  simp only [producerMachine] at hstep
  obtain ⟨⟨b, m⟩, hm, hfin⟩ := Option.map_eq_some_iff.mp hstep
  obtain ⟨rfl, rfl⟩ := Prod.mk.inj hfin
  cases Producer.branch_of_step hm with
  | setReady => exact fun _ => .inr (.inl rfl)
  | testRequest_not | waitRequest => exact fun _ => h trivial
  | _ => exact fun ha => ha.elim

/-- `SoundLoop` begins to wait only right after it has asked, and clears the announcement only
when it stops waiting. -/
theorem Consumer.step_flags {p : Platform} {c c' : Consumer StampedByte}
    {m m' : Mixer StampedByte} (h : c.step p m = some (c', m')) :
    m'.requestSamples = true ∨ ¬ c'.AwaitsSamples ∨
      c.AwaitsSamples ∧ m'.samplesReady = m.samplesReady ∧
        m'.requestSamples = m.requestSamples := by
  cases branch_of_step h with
  | setRequest => exact .inl rfl
  | waitForFrames | testReady | testReady_not | testStreaming | testBits | waitReady =>
      exact .inr (.inr ⟨trivial, rfl, rfl⟩)
  | _ => exact .inr (.inl fun ha => ha.elim)

theorem Answered.soundLoop {p : Platform} {a : Producer StampedByte} {s s' : Shared}
    (h : Answered a s) (hstep : SoundLoopStep p s s') : Answered a s' := by
  intro ha
  cases hstep with
  | call outside c =>
      refine .inr (.inr fun c' hc => ?_)
      obtain rfl := Option.some.inj hc
      exact fun hw => hw
  | @step c c' m inside hc =>
      rcases Consumer.step_flags hc with hreq | hout | ⟨hin, hready, hreq⟩
      · exact .inl hreq
      · refine .inr (.inr fun d hd => ?_)
        obtain rfl := Option.some.inj hd
        exact hout
      · rcases h ha with hr | hr | hno
        · exact .inl (hreq.trans hr)
        · exact .inr (.inl (hready.trans hr))
        · exact absurd hin (hno c inside)
  | finish inside => exact .inr (.inr fun c hc => by cases hc)

/-! ## Any interleaving -/

/-- The filter as constructed, outside `Mix`. -/
structure Shared.Init (s : Shared) : Prop where
  filter : s.filter.Init
  mix : s.mix = none

/-- Streaming and control threads, any number of either, with the `SoundLoop` thread. -/
def threads (τ : Type) [DecidableEq τ] (p : Platform) (caps : Capabilities) :
    System (Threads τ Lock (Producer StampedByte) HRESULT Shared) (Move τ) :=
  Threads.system (producerMachine p) (Code.Operation caps) (SoundLoopStep p) Shared.Init

theorem answered_of_reachable {τ : Type} [DecidableEq τ] {p : Platform} {caps : Capabilities}
    {S : Threads τ Lock (Producer StampedByte) HRESULT Shared}
    (h : (threads τ p caps).Reachable S) :
    ∀ t a, (S.prog t).active = some a → Answered a S.shared := by
  refine Threads.active_invariant (D := discipline) (fun c hc => hc.obeys) ?_ ?_ ?_ ?_ h
  · rintro a s ⟨sample, rfl⟩ ha
    exact ha.elim
  · exact fun a s s' ha hs => ha.of_flags hs
  · exact fun a s s' ha hs => ha.soundLoop hs
  · exact fun a s a' s' ha hs => ha.producer hs

/-- In no state that any interleaving reaches do `Receive` and `SoundLoop` wait for each other
with neither a request nor samples announced, and no thread waits in a cycle of locks. -/
theorem no_deadlock (τ : Type) [DecidableEq τ] (p : Platform) (caps : Capabilities)
    (S : Threads τ Lock (Producer StampedByte) HRESULT Shared)
    (h : (threads τ p caps).Reachable S) :
    (¬ ∃ t a c, (S.prog t).active = some a ∧ a.AwaitsRequest ∧
      S.shared.filter.mixer.requestSamples = false ∧ S.shared.mix = some c ∧
      c.AwaitsSamples ∧ S.shared.filter.mixer.streaming = true ∧
      S.shared.filter.mixer.samplesReady = false) ∧
    ∀ t, ¬ Relation.TransGen (Threads.WaitsFor S) t t := by
  constructor
  · rintro ⟨t, a, c, hactive, ha, hreq, hmix, hc, -, hready⟩
    rcases answered_of_reachable h t a hactive ha with hr | hr | hno
    · simp [hreq] at hr
    · simp [hready] at hr
    · exact hno c hmix hc
  · intro t
    have horderly : Threads.Orderly discipline S :=
      Threads.orderly_of_reachable (fun c hc => hc.obeys) h
    have hstrict : IsStrictOrder Lock discipline.lt := inferInstanceAs (IsStrictOrder _ Lock.Before)
    exact horderly.no_wait_cycle t

/-- `SoundLoop` has called `Mix`, and one of two threads begins to receive a sample. -/
def receiveAndMix : Threads Bool Lock (Producer StampedByte) HRESULT Shared :=
  ⟨Function.update (fun _ => .ret .S_OK) true
      (Code.receive ⟨false, false, false⟩ {} Filter.zeroes Filter.zeroes
        (some { data := ⟨[4, 3, 2, 1], by decide⟩ }) .ret),
    ⟨Filter.zeroed, some (.mix ⟨2, 2, []⟩)⟩⟩

theorem receiveAndMix_reachable :
    (threads Bool .x64 ⟨false, false, false⟩).Reachable receiveAndMix := by
  have hidle : (threads Bool .x64 ⟨false, false, false⟩).Reachable
      ⟨fun _ => .ret .S_OK, ⟨Filter.zeroed, none⟩⟩ :=
    .init ⟨fun t => ⟨_, rfl⟩, Filter.zeroed_init, rfl⟩
  have hmix : (threads Bool .x64 ⟨false, false, false⟩).Reachable
      ⟨fun _ => .ret .S_OK, ⟨Filter.zeroed, some (.mix ⟨2, 2, []⟩)⟩⟩ :=
    hidle.step trivial (.environment (.call rfl ⟨2, 2, []⟩))
  exact hmix.step trivial (Threads.Step.start (t := true) rfl (.receive _ _ _ _))

theorem no_deadlock_receive_and_mix :
    receiveAndMix.shared.mix = some (.mix ⟨2, 2, []⟩) ∧
      ¬ ∃ t, Relation.TransGen (Threads.WaitsFor receiveAndMix) t t := by
  refine ⟨rfl, fun ⟨t, ht⟩ => ?_⟩
  exact (no_deadlock Bool .x64 ⟨false, false, false⟩ _ receiveAndMix_reachable).2 t ht

end OpenALRenderer
