import OpenALRenderer.Verification.Pin.Agreement

/-! # State changes: what follows the filter's state, and what outlives `Stop` -/

namespace OpenALRenderer

open Foundation

namespace Filter

/-! ## Streaming and the thread follow the state -/

/-- A call of a control thread, with the answers the connected pin gives. -/
inductive Control where
  | run (r : PinReplies)
  | pause (r : PinReplies)
  | stop (r : PinReplies)
  | breakConnect (r : Replies)

/-- The result of a call and the filter it leaves. -/
def control (w : Filter) : Control → HRESULT × Filter
  | .run r => w.run r
  | .pause r => w.pause r
  | .stop r => w.stop r
  | .breakConnect r => w.breakConnect r

/-- A stopped filter that has never run, whatever its pin is connected to. -/
structure NeverRun (w : Filter) : Prop where
  state : w.state = .stopped
  streaming : w.mixer.streaming = false
  runThread : w.device.runThread = false
  soundLoops : w.device.soundLoops = 0

def controls : System Filter Control := .ofNext NeverRun fun w c => some (w.control c).2

/-- The mixer streams exactly in the running state, in which the thread has been started; it is
started once and never told to end. -/
structure FollowsState (w : Filter) : Prop where
  streaming : w.mixer.streaming = true ↔ w.state = .running
  runThread : w.state = .running → w.device.runThread = true
  soundLoops : w.device.runThread = true → w.device.soundLoops = 1

theorem NeverRun.followsState {w : Filter} (h : NeverRun w) : FollowsState w where
  streaming := by simp [h.streaming, h.state]
  runThread := by simp [h.state]
  soundLoops := by simp [h.runThread]

/-- Leaving the running state, or staying out of it, with the mixer not streaming. -/
theorem FollowsState.of_idle {w w' : Filter} (h : FollowsState w)
    (hstream : w'.mixer.streaming = false) (hstate : w'.state ≠ .running)
    (hdevice : w'.device = w.device) : FollowsState w' where
  streaming := by simp [hstream, hstate]
  runThread hrun := absurd hrun hstate
  soundLoops := hdevice ▸ h.soundLoops

theorem FollowsState.streaming_eq_false {w : Filter} (h : FollowsState w)
    (hstate : w.state ≠ .running) : w.mixer.streaming = false := by
  rw [← Bool.not_eq_true, h.streaming]
  exact hstate

/-- `Pause` leaves the running state before it can fail, so a failure leaves all as it was. -/
theorem pause_cases (r : PinReplies) (w : Filter) :
    w.pause r = (r.active, w) ∧ w.state = .stopped ∧ r.active.failed = true ∨
      (w.pause r).1 = .S_OK ∧ (w.pause r).2.state = .paused ∧
        (w.pause r).2.device = w.device ∧
        (w.pause r).2.mixer.streaming = (w.mixer.streaming && w.state != .running) := by
  by_cases hrun : w.state = .running
  · right
    simp [pause, hrun, basePause, stopStreaming]
  · have hne : (w.state != .running) = true := by simpa using hrun
    by_cases hfail : w.state = .stopped ∧ w.pin.connected ∧ r.active.failed
    · left
      exact ⟨by simp [pause, basePause, hfail], hfail.1, hfail.2.2⟩
    · right
      simp [pause, hrun, basePause, hfail, hne]

theorem FollowsState.pause {w : Filter} (h : FollowsState w) (r : PinReplies) :
    FollowsState (w.pause r).2 := by
  rcases pause_cases r w with ⟨heq, -, -⟩ | ⟨-, hstate, hdevice, hstream⟩
  · rw [heq]
    exact h
  · refine h.of_idle ?_ (by simp [hstate]) hdevice
    rw [hstream]
    by_cases hrun : w.state = .running
    · simp [hrun]
    · simp [h.streaming_eq_false hrun]

theorem FollowsState.baseStop {w : Filter} (h : FollowsState w) (r : PinReplies)
    (hstate : w.state ≠ .running) : FollowsState (w.baseStop r).2 :=
  h.of_idle (h.streaming_eq_false hstate) (by simp [Filter.baseStop]) rfl

theorem FollowsState.stop {w : Filter} (h : FollowsState w) (r : PinReplies) :
    FollowsState (w.stop r).2 := by
  unfold Filter.stop
  split
  · exact h
  · next hpaused => exact h.baseStop r (by simp [hpaused])
  · next hrun =>
      dsimp only
      split
      · exact h.pause r
      · rcases pause_cases r w with ⟨-, hstopped, -⟩ | ⟨-, hstate, -, -⟩
        · cases hrun.symm.trans hstopped
        · exact (h.pause r).baseStop r (by simp [hstate])

/-- The end of `Run`, once the pins have agreed: streaming and the thread are switched on unless
they already were. -/
theorem FollowsState.start {w : Filter} (h : FollowsState w) :
    FollowsState { w with state := .running }.startStreaming.startDevice := by
  unfold startDevice
  split
  · next hthread =>
      exact ⟨by simp [startStreaming], fun _ => hthread, fun _ => h.soundLoops hthread⟩
  · exact ⟨by simp [startStreaming], fun _ => rfl, fun _ => rfl⟩

/-- The pins refuse to run, or the filter enters the running state. -/
theorem runPins_cases (r : PinReplies) (w : Filter) :
    (w.runPins r).1.failed = true ∧ (w.runPins r).2 = w ∨
      (w.runPins r).1.failed = false ∧ (w.runPins r).2 = { w with state := .running } := by
  unfold runPins
  split
  · next hfail => exact .inl ⟨hfail.2.2, rfl⟩
  · exact .inr ⟨rfl, rfl⟩

/-- `CBaseFilter::Run` fails, or enters the running state from the filter it found or from
the one that `Pause` left. -/
theorem FollowsState.baseRun {w : Filter} (h : FollowsState w) (r : PinReplies) :
    (w.baseRun r).1.failed = true ∧ FollowsState (w.baseRun r).2 ∨
      (w.baseRun r).1.failed = false ∧ ∃ v : Filter, FollowsState v ∧
        (w.baseRun r).2 = { v with state := .running } ∧ (w.state ≠ .stopped → v = w) := by
  by_cases hstopped : w.state = .stopped
  · by_cases hfail : (w.pause r).1.failed = true
    · left
      have heq : w.baseRun r = w.pause r := by simp [Filter.baseRun, hstopped, hfail]
      rw [heq]
      exact ⟨hfail, h.pause r⟩
    · have heq : w.baseRun r = (w.pause r).2.runPins r := by
        simp [Filter.baseRun, hstopped, hfail]
      rw [heq]
      rcases runPins_cases r (w.pause r).2 with ⟨hf, hw⟩ | ⟨hf, hw⟩
      · exact .inl ⟨hf, hw.symm ▸ h.pause r⟩
      · exact .inr ⟨hf, _, h.pause r, hw, fun hne => absurd hstopped hne⟩
  · have heq : w.baseRun r = w.runPins r := by simp [Filter.baseRun, hstopped]
    rw [heq]
    rcases runPins_cases r w with ⟨hf, hw⟩ | ⟨hf, hw⟩
    · exact .inl ⟨hf, hw.symm ▸ h⟩
    · exact .inr ⟨hf, w, h, hw, fun _ => rfl⟩

theorem FollowsState.run {w : Filter} (h : FollowsState w) (r : PinReplies) :
    FollowsState (w.run r).2 := by
  unfold Filter.run
  rcases h.baseRun r with ⟨hf, hw⟩ | ⟨hf, v, hv, heq, hsame⟩
  · simpa [hf] using hw
  · by_cases hrun : w.state = .running
    · -- a second `Run` skips the overridden part, so the filter is the one it found
      obtain rfl := hsame (by simp [hrun])
      have hid : { v with state := .running } = v := by rw [← hrun]
      simpa [hf, hrun, heq, hid] using h
    · simpa [hf, hrun, heq] using hv.start

/-- `BreakConnect` finds nothing to break, or stops the filter, resets the type and lets go
of the allocator. -/
theorem breakConnect_cases (r : Replies) (w : Filter) :
    (w.breakConnect r).2 = w ∨ ∃ mt a, (w.breakConnect r).2 =
      { (w.stop r.pins).2 with
        pin := { (w.stop r.pins).2.pin with mt := mt, allocator := a } } := by
  unfold breakConnect
  split
  · right
    unfold baseBreakConnect
    dsimp only
    split
    · exact ⟨_, _, rfl⟩
    · split
      · exact ⟨_, _, rfl⟩
      · exact ⟨_, none, rfl⟩
  · exact .inl rfl

theorem FollowsState.of_pin {w w' : Filter} (h : FollowsState w) (hstate : w'.state = w.state)
    (hmixer : w'.mixer = w.mixer) (hdevice : w'.device = w.device) : FollowsState w' where
  streaming := by rw [hmixer, hstate]; exact h.streaming
  runThread := by rw [hstate, hdevice]; exact h.runThread
  soundLoops := by rw [hdevice]; exact h.soundLoops

theorem FollowsState.breakConnect {w : Filter} (h : FollowsState w) (r : Replies) :
    FollowsState (w.breakConnect r).2 := by
  rcases breakConnect_cases r w with hw | ⟨mt, a, hw⟩
  · rw [hw]
    exact h
  · rw [hw]
    exact (h.stop r.pins).of_pin rfl rfl rfl

theorem FollowsState.control {w : Filter} (h : FollowsState w) (c : Control) :
    FollowsState (w.control c).2 := by
  cases c with
  | run r => exact h.run r
  | pause r => exact h.pause r
  | stop r => exact h.stop r
  | breakConnect r => exact h.breakConnect r

/-- Whatever the pin's callbacks answer and in whatever order the calls come, when a call
returns the mixer streams exactly in the running state, in which one thread runs. -/
theorem streaming_iff_running {w : Filter} (h : controls.Reachable w) :
    (w.mixer.streaming = true ↔ w.state = .running) ∧
      (w.state = .running → w.device.runThread = true ∧ w.device.soundLoops = 1) := by
  have hw : FollowsState w := by
    refine h.invariant (fun _ h => h.followsState) ?_
    rintro s c t hs - ⟨⟩
    exact hs.control c
  exact ⟨hw.streaming, fun hrun => ⟨hw.runThread hrun, hw.soundLoops (hw.runThread hrun)⟩⟩

/-- A connected filter that is set running. -/
theorem streaming_iff_running_stereo16 :
    (stereo16.run {}).2.mixer.streaming = true ∧
      (stereo16.run {}).2.device.runThread = true ∧
      (stereo16.run {}).2.device.soundLoops = 1 := by
  have hinit : NeverRun stereo16 := ⟨rfl, rfl, rfl, rfl⟩
  have hrun : controls.Reachable (stereo16.run {}).2 :=
    .step (a := .run {}) (.init hinit) trivial (by simp [controls, Filter.control])
  obtain ⟨hiff, hthread⟩ := streaming_iff_running hrun
  exact ⟨hiff.mpr rfl, hthread rfl⟩

/-! ## What outlives `Stop` -/

/-- The two flags of the pin that make the base class turn samples away. -/
structure PinFlags where
  flushing : Bool
  runTimeError : Bool
  deriving DecidableEq

def flags (w : Filter) : PinFlags := ⟨w.pin.flushing, w.pin.runTimeError⟩

/-- The base class asks about the type this sample brings, and it is not accepted. -/
def rejects (caps : Capabilities) (e : Indeterminate) (s : PinSample) (w : Filter) : Bool :=
  (w.checkedType s).any fun pmt => !pmt.supported caps e

/-- What an operation does to the flags. No state change is among them. -/
def PinFlags.note (caps : Capabilities) (f : PinFlags) : Filter × Op → PinFlags
  | (_, .beginFlush) => { f with flushing := true }
  | (_, .endFlush) => ⟨false, false⟩
  | (w, .receive _ e _ (some s)) => { f with runTimeError := f.runTimeError || w.rejects caps e s }
  | _ => f

/-- The flags as the history of a filter makes them: a flush has begun and not ended; a
sample's type has been rejected since the last `EndFlush`. -/
def PinFlags.history (caps : Capabilities) (steps : List (Filter × Op)) : PinFlags :=
  steps.foldl (note caps) ⟨false, false⟩

/-- What `CBaseInputPin::Inactive` would leave. -/
structure PinReset (w : Filter) : Prop where
  runTimeError : w.pin.runTimeError = false
  flushing : w.pin.flushing = false
  decommitted : w.pin.allocator ≠ some true

/-- Once it is set running, the base class accepts samples that keep the connected type. -/
def AcceptsAfterRun (caps : Capabilities) (w : Filter) : Prop :=
  ∀ (r : PinReplies) (e : Indeterminate) (s : PinSample), (w.run r).1.failed = false →
    s.properties.failed = false → s.mediaType = none →
      ((w.run r).2.baseReceive caps e s).hr = .S_OK

theorem pin_pause (r : PinReplies) (w : Filter) : (w.pause r).2.pin = w.pin := by
  rcases pause_cases r w with ⟨heq, -, -⟩ | ⟨-, -, -, -⟩
  · rw [heq]
  · unfold pause basePause
    split_ifs <;> rfl

theorem pin_stop (r : PinReplies) (w : Filter) : (w.stop r).2.pin = w.pin := by
  unfold stop
  split
  · rfl
  · rfl
  · dsimp only
    split
    · exact pin_pause r w
    · exact pin_pause r w

theorem pin_runPins (r : PinReplies) (w : Filter) : (w.runPins r).2.pin = w.pin := by
  rcases runPins_cases r w with ⟨-, h⟩ | ⟨-, h⟩ <;> rw [h]

theorem pin_run (r : PinReplies) (w : Filter) : (w.run r).2.pin = w.pin := by
  have hbase : (w.baseRun r).2.pin = w.pin := by
    unfold baseRun
    dsimp only
    split_ifs
    · exact pin_pause r w
    · exact (pin_runPins r _).trans (pin_pause r w)
    · rfl
    · exact pin_runPins r w
  unfold run startDevice
  dsimp only
  split_ifs <;> exact hbase

theorem flags_of_pin {w w' : Filter} (h : w'.pin = w.pin) : w'.flags = w.flags := by
  simp only [flags, h]

theorem flags_breakConnect (r : Replies) (w : Filter) :
    (w.breakConnect r).2.flags = w.flags := by
  rcases breakConnect_cases r w with h | ⟨mt, a, h⟩
  · rw [h]
  · have hstop : (w.stop r.pins).2.flags = w.flags := flags_of_pin (pin_stop r.pins w)
    rw [h]
    exact hstop

theorem flags_setMediaType {caps : Capabilities} {e : Indeterminate} {allocates : Bool}
    {pmt : MediaType} {w : Filter} {q : HRESULT × Filter}
    (h : w.setMediaType caps e allocates pmt = some q) : q.2.flags = w.flags := by
  unfold setMediaType at h
  split at h
  · cases h
  · split at h
    · obtain rfl := Option.some.inj h
      rfl
    · obtain rfl := Option.some.inj h
      rfl

theorem flags_checkMediaType (caps : Capabilities) (e : Indeterminate) (pmt : MediaType)
    (w : Filter) : (w.checkMediaType caps e pmt).2.flags = w.flags :=
  flags_of_pin (checkMediaType_isChecked caps e pmt w).pin

theorem flags_receiveConnection {caps : Capabilities} {r : Replies} {e e' : Indeterminate}
    {pmt : MediaType} {w : Filter} {q : HRESULT × Filter}
    (h : w.receiveConnection caps r e e' pmt = some q) : q.2.flags = w.flags := by
  have hcheck := flags_checkMediaType caps e pmt w
  cases receiveConnection_branch h with
  | connected | active => rfl
  | unchecked => exact flags_breakConnect r w
  | rejected => exact (flags_breakConnect r _).trans hcheck
  | unset hset => exact (flags_breakConnect r _).trans ((flags_setMediaType hset).trans hcheck)
  | set hset => exact (flags_setMediaType hset).trans hcheck

theorem flags_disconnect (r : Replies) (w : Filter) : (w.disconnect r).2.flags = w.flags := by
  unfold disconnect
  split
  · rfl
  · split
    · dsimp only
      split <;> exact flags_breakConnect r w
    · rfl

theorem flags_mixerReceive {p : Platform} {s : MediaSample UInt8} {w w' : Filter}
    (h : w.mixerReceive p s = some w') : w'.flags = w.flags := by
  obtain ⟨m, -, rfl⟩ := Option.map_eq_some_iff.mp h
  rfl

theorem flags_baseReceive (caps : Capabilities) (e : Indeterminate) (s : PinSample)
    (w : Filter) :
    (w.baseReceive caps e s).filter.flags =
      { w.flags with runTimeError := w.flags.runTimeError || w.rejects caps e s } := by
  unfold baseReceive
  by_cases hcs : w.checkStreaming = .S_OK
  · by_cases hprops : s.properties.failed = true
    · simp [hcs, hprops, flags, rejects, checkedType]
    · cases hmt : s.mediaType with
      | none => simp [hcs, hprops, hmt, flags, rejects, checkedType]
      | some pmt =>
          have hok := checkMediaType_ok_iff caps e pmt w
          cases hs : pmt.supported caps e <;>
            simp [hcs, hprops, hmt, flags, rejects, checkedType, checkMediaType_withPin, hok, hs]
  · simp [hcs, flags, rejects, checkedType]

/-- What follows the base class's part of `Receive` does not touch the flags. -/
theorem flags_receive {p : Platform} {caps : Capabilities} {r : Replies} {e e' : Indeterminate}
    {s : PinSample} {w : Filter} {o : ReceiveOutcome}
    (h : w.receive p caps r e e' (some s) = some o) :
    o.filter.flags =
      { w.flags with runTimeError := w.flags.runTimeError || w.rejects caps e s } := by
  have hdeliver : ∀ {v : Filter} {calls : List PinCall} {o : ReceiveOutcome},
      v.deliver p s.data calls = some o → o.filter.flags = v.flags :=
    fun hd => flags_mixerReceive (deliver_filter hd)
  rw [← flags_baseReceive]
  cases receive_branch h with
  | stopped hstate =>
      rw [flags_baseReceive]
      simp [flags, rejects, checkedType, checkStreaming, hstate]
  | failed => rfl
  | kept _ _ _ hd => exact hdeliver hd
  | unset _ _ _ hset => exact flags_setMediaType hset
  | set _ _ _ hset _ hd => exact (hdeliver hd).trans (flags_setMediaType hset)

theorem flags_next {p : Platform} {caps : Capabilities} {w w' : Filter} {op : Op}
    (h : next p caps w op = some w') : w'.flags = w.flags.note caps (w, op) := by
  cases op with
  | receiveConnection r e e' pmt =>
      obtain ⟨q, hq, rfl⟩ := Option.map_eq_some_iff.mp h
      exact flags_receiveConnection hq
  | disconnect r => exact Option.some.inj h ▸ flags_disconnect r w
  | queryAccept e pmt =>
      obtain rfl := Option.some.inj h
      rw [queryAccept_snd]
      exact flags_checkMediaType caps e pmt w
  | notifyAllocator committed => exact Option.some.inj h ▸ rfl
  | run r => exact Option.some.inj h ▸ flags_of_pin (pin_run r w)
  | pause r => exact Option.some.inj h ▸ flags_of_pin (pin_pause r w)
  | stop r => exact Option.some.inj h ▸ flags_of_pin (pin_stop r w)
  | beginFlush => exact Option.some.inj h ▸ rfl
  | endFlush => exact Option.some.inj h ▸ rfl
  | receive r e e' sample =>
      obtain ⟨o, ho, rfl⟩ := Option.map_eq_some_iff.mp h
      cases sample with
      | none =>
          rw [receive_none ho]
          rfl
      | some s => exact flags_receive ho
  | soundLoopIteration frames byteData =>
      obtain ⟨q, hq, rfl⟩ := Option.map_eq_some_iff.mp h
      unfold soundLoopIteration at hq
      split at hq
      · obtain rfl := Option.some.inj hq
        rfl
      · obtain ⟨x, -, rfl⟩ := Option.map_eq_some_iff.mp hq
        dsimp only
        split <;> rfl

theorem flags_eq_history {p : Platform} {caps : Capabilities} {w v : Filter}
    {steps : List (Filter × Op)} (hw : Init w) (hrun : (system p caps).Run w steps v) :
    PinFlags.history caps steps = v.flags := by
  refine hrun.foldl_invariant (J := fun f v => f = v.flags) _ ?_ ?_
  · simp [flags, hw.flushing, hw.runTimeError]
  · intro f s op t hf hs
    rw [hf]
    exact (flags_next hs).symm

theorem state_run {r : PinReplies} {w : Filter} (h : (w.run r).1.failed = false) :
    (w.run r).2.state = .running := by
  have hbase : (w.baseRun r).1.failed = false → (w.baseRun r).2.state = .running := by
    have hpins : ∀ v : Filter, (v.runPins r).1.failed = false →
        (v.runPins r).2.state = .running := by
      intro v hv
      rcases runPins_cases r v with ⟨hf, -⟩ | ⟨-, heq⟩
      · exact absurd hf (by simp [hv])
      · rw [heq]
    unfold baseRun
    dsimp only
    split_ifs with hstopped hfail hfail
    · exact fun hf => absurd hfail (by simp [hf])
    · exact hpins _
    · exact absurd hfail (by simp)
    · exact hpins _
  unfold run at h ⊢
  dsimp only at h ⊢
  split_ifs at h ⊢ with hf hrun
  · exact absurd hf (by simp [h])
  · exact hbase (by simpa using hf)
  · unfold startDevice
    split_ifs <;> exact hbase (by simpa using hf)

theorem PinReset.acceptsAfterRun {w : Filter} (h : PinReset w) (caps : Capabilities) :
    AcceptsAfterRun caps w := by
  intro r e s hok hprops hmt
  have hcs : (w.run r).2.checkStreaming = .S_OK := by
    simp [checkStreaming, state_run hok, pin_run, h.flushing, h.runTimeError]
  simp [baseReceive, hcs, hprops, hmt]

theorem pinReset_iff (w : Filter) :
    PinReset w ↔ w.flags = ⟨false, false⟩ ∧ w.pin.allocator ≠ some true := by
  constructor
  · intro h
    exact ⟨by simp [flags, h.flushing, h.runTimeError], h.decommitted⟩
  · rintro ⟨hflags, halloc⟩
    obtain ⟨hflush, herror⟩ := PinFlags.mk.inj hflags
    exact ⟨herror, hflush, halloc⟩

/-- `Stop` leaves the pin as it found it. What the comment in it promises holds after a run
exactly when there was nothing to undo: no flush is open, no type has been rejected since the
last `EndFlush`, and the allocator is not committed. -/
theorem stop_resets_pin_iff {p : Platform} {caps : Capabilities} {w v : Filter}
    {steps : List (Filter × Op)} (hw : Init w) (hrun : (system p caps).Run w steps v)
    (r : PinReplies) :
    PinReset (v.stop r).2 ∧ AcceptsAfterRun caps (v.stop r).2 ↔
      PinFlags.history caps steps = ⟨false, false⟩ ∧ v.pin.allocator ≠ some true := by
  have hreset : PinReset (v.stop r).2 ↔
      PinFlags.history caps steps = ⟨false, false⟩ ∧ v.pin.allocator ≠ some true := by
    rw [pinReset_iff, flags_eq_history hw hrun, flags_of_pin (pin_stop r v), pin_stop]
  rw [← hreset]
  exact ⟨And.left, fun h => ⟨h, h.acceptsAfterRun caps⟩⟩

/-- A filter with an allocator that no one has committed rejects a type while it is running, and is
flushed before it is stopped. -/
theorem stop_resets_pin_flushed : ∃ w : Filter,
    (w.state = .running ∧ w.pin.allocator = some false) ∧
      PinReset (w.stop {}).2 ∧ AcceptsAfterRun ⟨false, false, false⟩ (w.stop {}).2 := by
  have h : (System.exec (next .x64 ⟨false, false, false⟩) (fun _ _ => True) zeroed
      [.receiveConnection {} zeroes zeroes (pcm16 2), .notifyAllocator false, .run {},
        .receive {} zeroes zeroes
          (some { data := ⟨[5, 6, 7, 8], by decide⟩, mediaType := some (pcm16 6) }),
        .beginFlush, .endFlush]).map
      (fun w => (w.state, w.pin.allocator, w.flags)) =
      some (.running, some false, ⟨false, false⟩) := rfl
  obtain ⟨w, hw, hprops⟩ := Option.map_eq_some_iff.mp h
  simp only [Prod.mk.injEq] at hprops
  obtain ⟨hstate, halloc, hflags⟩ := hprops
  obtain ⟨steps, hrun, -⟩ := System.exists_run_of_exec _ _ _ hw
  exact ⟨w, ⟨hstate, halloc⟩, (stop_resets_pin_iff zeroed_init hrun {}).mpr
    ⟨(flags_eq_history zeroed_init hrun).trans hflags, by rw [halloc]; nofun⟩⟩

/-- A running filter rejects a type it is sent. It is stopped and run again, both with success,
and still turns away a sample of the connected type. -/
theorem stop_keeps_the_run_time_error :
    ∃ w, (system .x64 ⟨false, false, false⟩).Reachable w ∧ w.state = .running ∧
      w.pin.connected = true ∧ (w.stop {}).1 = .S_OK ∧
      (w.stop {}).2.pin.runTimeError = true ∧ ((w.stop {}).2.run {}).1 = .S_OK ∧
      (((w.stop {}).2.run {}).2.baseReceive ⟨false, false, false⟩ zeroes
        { data := ⟨[1, 2, 3, 4], by decide⟩ }).hr = .VFW_E_RUNTIME_ERROR := by
  have h : (System.exec (next .x64 ⟨false, false, false⟩) (fun _ _ => True) zeroed
      [.receiveConnection {} zeroes zeroes (pcm16 2), .run {},
        .receive {} zeroes zeroes
          (some { data := ⟨[5, 6, 7, 8], by decide⟩, mediaType := some (pcm16 6) })]).map
      (fun w => (w.state, w.pin.connected, (w.stop {}).1, (w.stop {}).2.pin.runTimeError,
        ((w.stop {}).2.run {}).1, (((w.stop {}).2.run {}).2.baseReceive ⟨false, false, false⟩
          zeroes { data := ⟨[1, 2, 3, 4], by decide⟩ }).hr)) =
      some (.running, true, .S_OK, true, .S_OK, .VFW_E_RUNTIME_ERROR) := rfl
  obtain ⟨w, hw, hprops⟩ := Option.map_eq_some_iff.mp h
  simp only [Prod.mk.injEq] at hprops
  exact ⟨w, reachable_of_exec hw, hprops⟩

end Filter

end OpenALRenderer
