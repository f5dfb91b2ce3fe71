import OpenALRenderer.Verification.Pin.Agreement

/-! # What the sample queue holds

Whole frames of the connection format, and bytes received under it, as long as no connection
is accepted over a queue that still holds another format. -/

namespace OpenALRenderer

open Foundation

/-- The size in bytes of a frame of the mixer's format. -/
def Mixer.frame {β : Type*} (m : Mixer β) : ℕ := m.nChannels.toNat * m.nBitsPerSample.toNat / 8

theorem Mixer.frame_congr {β : Type*} {m m' : Mixer β} (hc : m'.nChannels = m.nChannels)
    (hb : m'.nBitsPerSample = m.nBitsPerSample) : m'.frame = m.frame := by
  rw [Mixer.frame, Mixer.frame, hc, hb]

namespace Filter

/-- The queue holds whole frames, and only bytes received under the connection format. -/
structure QueuePure (w : Filter) : Prop where
  aligned : w.mixer.frame ∣ w.mixer.sampleQueue.length
  received : ∀ b ∈ w.mixer.sampleQueue, b.format = w.pin.connectionFormat

/-- The condition on an operation, and the filter it starts from, under which the queue stays
pure: a connection is accepted over an empty queue or for the same format, and an iteration
takes whole frames off the queue or all there is. -/
def KeepsQueue (p : Platform) (caps : Capabilities) (w : Filter) : Op → Prop
  | .receiveConnection r e e' pmt => Accepts caps r e pmt w → ∀ block ∈ pmt.format,
      w.mixer.sampleQueue = [] ∨ WaveFormat.view e'.beyond block = w.pin.connectionFormat
  | .soundLoopIteration frames _ => ∀ n ∈ w.device.bitness.mixBytes,
      w.mixer.frame ∣ w.mixer.desired p frames n ∨
        w.mixer.sampleQueue.length ≤ w.mixer.desired p frames n
  | _ => True

/-! ## The mixer's format is the connection format -/

/-- The ghost member tells what the mixer holds. -/
structure Tracked (w : Filter) : Prop where
  nChannels : w.mixer.nChannels = w.pin.connectionFormat.nChannels
  nBitsPerSample : w.mixer.nBitsPerSample = w.pin.connectionFormat.wBitsPerSample

theorem Tracked.congr {w w' : Filter} (h : Tracked w) (hm : SameMixer w w') : Tracked w' :=
  ⟨by rw [hm.nChannels, hm.connectionFormat, h.nChannels],
    by rw [hm.nBitsPerSample, hm.connectionFormat, h.nBitsPerSample]⟩

theorem IsSet.tracked {caps : Capabilities} {e : Indeterminate} {f : WaveFormat}
    {w w' : Filter} (h : IsSet caps e f w w') : Tracked w' :=
  ⟨by rw [h.nChannels, h.connectionFormat], by rw [h.nBitsPerSample, h.connectionFormat]⟩

theorem mixerReceive_spec {p : Platform} {s : MediaSample UInt8} {w w' : Filter}
    (h : w.mixerReceive p s = some w') :
    w'.mixer.nChannels = w.mixer.nChannels ∧
      w'.mixer.nBitsPerSample = w.mixer.nBitsPerSample ∧ w'.pin = w.pin ∧
      ∃ pushed, w'.mixer.sampleQueue = w.mixer.sampleQueue ++ pushed ∧
        w.mixer.frame ∣ pushed.length ∧ ∀ b ∈ pushed, b.format = w.pin.connectionFormat := by
  unfold mixerReceive at h
  obtain ⟨m, hm, rfl⟩ := Option.map_eq_some_iff.mp h
  obtain ⟨hc, -, hb, -, pushed, hqueue, hpushed⟩ := Mixer.receive_spec hm
  refine ⟨hc, hb, rfl, pushed, hqueue, ?_⟩
  rcases hpushed with rfl | rfl
  · exact ⟨Nat.dvd_zero _, by simp⟩
  · refine ⟨MediaSample.dvd_length_copied p _ _ _, fun b hb => ?_⟩
    have hmem : b ∈ (w.stamp s).data := List.mem_of_mem_take hb
    obtain ⟨v, -, rfl⟩ := List.mem_map.mp hmem
    rfl

theorem Tracked.mixerReceive {p : Platform} {s : MediaSample UInt8} {w w' : Filter}
    (h : Tracked w) (hr : w.mixerReceive p s = some w') : Tracked w' := by
  obtain ⟨hc, hb, hp, -⟩ := mixerReceive_spec hr
  exact ⟨by rw [hc, hp, h.nChannels], by rw [hb, hp, h.nBitsPerSample]⟩

theorem Tracked.received {p : Platform} {caps : Capabilities} {r : Replies}
    {e e' : Indeterminate} {sample : Option PinSample} {w w' : Filter} (h : Tracked w)
    (hr : Received p caps r e e' w sample w') : Tracked w' := by
  cases hr with
  | null => exact h
  | kept _ mixer _ _ delivered =>
      rcases delivered with rfl | hd
      · exact h.congr mixer
      · exact (h.congr mixer).mixerReceive hd
  | @retyped s pmt block v₀ v _ _ _ _ _ set delivered =>
      have hcleared : Tracked v.clearQueue := ⟨set.tracked.nChannels, set.tracked.nBitsPerSample⟩
      exact hcleared.mixerReceive delivered

theorem Tracked.next {p : Platform} {caps : Capabilities} {w w' : Filter} {op : Op}
    (h : Tracked w) (hstep : next p caps w op = some w') : Tracked w' := by
  cases op with
  | receiveConnection r e e' pmt =>
      simp only [Filter.next] at hstep
      obtain ⟨⟨hr, v⟩, hrc, rfl⟩ := Option.map_eq_some_iff.mp hstep
      rcases receiveConnection_cases hrc with ⟨-, rfl | ⟨-, hm⟩⟩ | ⟨-, -, block, u, -, -, hset⟩
      · exact h
      · exact h.congr hm
      · exact hset.tracked
  | disconnect r =>
      obtain rfl := Option.some.inj hstep
      exact h.congr (disconnect_same r w).1
  | queryAccept e pmt =>
      obtain rfl := Option.some.inj hstep
      rw [queryAccept_snd]
      exact h.congr (checkMediaType_isChecked caps e pmt w).mixer
  | notifyAllocator committed | endFlush | beginFlush =>
      obtain rfl := Option.some.inj hstep
      exact ⟨h.nChannels, h.nBitsPerSample⟩
  | run r =>
      obtain rfl := Option.some.inj hstep
      exact h.congr (run_same r w).mixer
  | pause r =>
      obtain rfl := Option.some.inj hstep
      exact h.congr (pause_same r w).mixer
  | stop r =>
      obtain rfl := Option.some.inj hstep
      exact h.congr (stop_same r w).mixer
  | receive r e e' sample =>
      simp only [Filter.next] at hstep
      obtain ⟨o, ho, rfl⟩ := Option.map_eq_some_iff.mp hstep
      exact h.received (receive_cases ho)
  | soundLoopIteration frames byteData =>
      simp only [Filter.next] at hstep
      obtain ⟨⟨call, v⟩, hiter, rfl⟩ := Option.map_eq_some_iff.mp hstep
      obtain ⟨hc, -, hb, -, hp⟩ := soundLoopIteration_same hiter
      exact ⟨by rw [hc, hp, h.nChannels], by rw [hb, hp, h.nBitsPerSample]⟩

/-! ## One operation -/

theorem QueuePure.congr {w w' : Filter} (h : QueuePure w) (hm : SameMixer w w') :
    QueuePure w' := by
  have hframe := Mixer.frame_congr hm.nChannels hm.nBitsPerSample
  exact ⟨by rw [hframe, hm.sampleQueue]; exact h.aligned,
    by rw [hm.sampleQueue, hm.connectionFormat]; exact h.received⟩

theorem QueuePure.of_empty {w : Filter} (h : w.mixer.sampleQueue = []) : QueuePure w :=
  ⟨by simp [h], by simp [h]⟩

/-- What `CMixer::Receive` appends is whole frames of the connection format. -/
theorem QueuePure.mixerReceive {p : Platform} {s : MediaSample UInt8} {w w' : Filter}
    (h : QueuePure w) (hr : w.mixerReceive p s = some w') : QueuePure w' := by
  obtain ⟨hc, hb, hp, pushed, hqueue, hdvd, hformat⟩ := mixerReceive_spec hr
  constructor
  · rw [Mixer.frame_congr hc hb, hqueue, List.length_append]
    exact Nat.dvd_add h.aligned hdvd
  · rw [hqueue, hp]
    intro b hb
    rcases List.mem_append.mp hb with hb | hb
    · exact h.received b hb
    · exact hformat b hb

theorem QueuePure.of_received {p : Platform} {caps : Capabilities} {r : Replies}
    {e e' : Indeterminate} {sample : Option PinSample} {w w' : Filter} (h : QueuePure w)
    (hr : Received p caps r e e' w sample w') : QueuePure w' := by
  cases hr with
  | null => exact h
  | kept _ mixer _ _ delivered =>
      rcases delivered with rfl | hd
      · exact h.congr mixer
      · exact (h.congr mixer).mixerReceive hd
  | retyped _ _ _ _ _ delivered =>
      exact QueuePure.mixerReceive (.of_empty rfl) delivered

/-- A new connection format leaves a pure queue pure exactly when the queue is empty or the
format is the one it replaces. -/
theorem IsSet.queuePure_iff {caps : Capabilities} {e : Indeterminate} {f : WaveFormat}
    {u v w : Filter} (h : QueuePure w) (ht : Tracked w) (hm : SameMixer w u)
    (hset : IsSet caps e f u v) :
    QueuePure v ↔ w.mixer.sampleQueue = [] ∨ f = w.pin.connectionFormat := by
  have hqueue : v.mixer.sampleQueue = w.mixer.sampleQueue :=
    hset.sampleQueue.trans hm.sampleQueue
  constructor
  · intro hv
    rcases List.eq_nil_or_concat w.mixer.sampleQueue with hnil | ⟨rest, b, hcons⟩
    · exact .inl hnil
    · right
      have hb : b ∈ w.mixer.sampleQueue := by simp [hcons]
      rw [← h.received b hb, ← hset.connectionFormat]
      exact (hv.received b (hqueue ▸ hb)).symm
  · rintro (hnil | rfl)
    · exact .of_empty (hqueue.trans hnil)
    · have hframe : v.mixer.frame = w.mixer.frame :=
        Mixer.frame_congr (hset.nChannels.trans ht.nChannels.symm)
          (hset.nBitsPerSample.trans ht.nBitsPerSample.symm)
      exact ⟨by rw [hframe, hqueue]; exact h.aligned,
        by rw [hqueue, hset.connectionFormat]; exact h.received⟩

/-- Taking bytes off a pure queue leaves it pure exactly when they are whole frames or all
there is. -/
theorem soundLoopIteration_queuePure_iff {p : Platform} {caps : Capabilities} {frames : ℕ}
    {byteData : List StampedByte} {w w' : Filter} {call : Option (BufferDataCall StampedByte)}
    (h : QueuePure w) (hi : w.soundLoopIteration p frames byteData = some (call, w')) :
    QueuePure w' ↔ KeepsQueue p caps w (.soundLoopIteration frames byteData) := by
  unfold soundLoopIteration at hi
  simp only [KeepsQueue]
  cases hn : w.device.bitness.mixBytes with
  | none =>
      rw [hn] at hi
      obtain ⟨-, rfl⟩ := Prod.mk.inj (Option.some.inj hi)
      simpa using h
  | some n =>
      rw [hn] at hi
      obtain ⟨⟨available, data, m⟩, hmix, hr⟩ := Option.map_eq_some_iff.mp hi
      obtain ⟨hc, -, hb, -, hqueue, -⟩ := Mixer.mix_spec hmix
      have hw' : w'.mixer = m ∧ w'.pin = w.pin := by
        dsimp only at hr
        split at hr
        all_goals
          obtain ⟨-, rfl⟩ := Prod.mk.inj hr
          exact ⟨rfl, rfl⟩
      obtain ⟨rfl, hpin⟩ := hw'
      have hframe := Mixer.frame_congr hc hb
      have hsub : ∀ b ∈ w'.mixer.sampleQueue, b.format = w'.pin.connectionFormat := by
        rw [hqueue, hpin]
        exact fun b hb => h.received b (List.mem_of_mem_drop hb)
      have hpure : QueuePure w' ↔ w.mixer.frame ∣
          w.mixer.sampleQueue.length - w.mixer.desired p frames n := by
        constructor
        · intro hw
          simpa [hframe, hqueue] using hw.aligned
        · intro hd
          exact ⟨by simpa [hframe, hqueue] using hd, hsub⟩
      rw [hpure]
      simp only [Option.mem_def, Option.some.injEq, forall_eq']
      by_cases hle : w.mixer.sampleQueue.length ≤ w.mixer.desired p frames n
      · simp [hle, Nat.sub_eq_zero_of_le hle]
      · rw [Nat.dvd_sub_iff_right (by omega) h.aligned]
        simp [hle]

theorem queuePure_next_iff {p : Platform} {caps : Capabilities} {w w' : Filter} {op : Op}
    (h : QueuePure w) (ht : Tracked w) (hstep : next p caps w op = some w') :
    QueuePure w' ↔ KeepsQueue p caps w op := by
  cases op with
  | receiveConnection r e e' pmt =>
      simp only [next] at hstep
      obtain ⟨⟨hr, v⟩, hrc, rfl⟩ := Option.map_eq_some_iff.mp hstep
      rcases receiveConnection_cases hrc with ⟨hno, rfl | ⟨-, hm⟩⟩ | ⟨hacc, -, hset⟩
      · exact iff_of_true h fun ha => absurd ha hno
      · exact iff_of_true (h.congr hm) fun ha => absurd ha hno
      · obtain ⟨block, u, hformat, hchecked, hset⟩ := hset
        simp only [KeepsQueue, hacc, forall_true_left, hformat, Option.mem_def,
          Option.some.injEq, forall_eq']
        have hm := hchecked.mixer
        refine IsSet.queuePure_iff h ht ?_ hset
        exact ⟨hm.nChannels, hm.nSamplesPerSec, hm.nBitsPerSample, hm.sampleQueue,
          hm.connectionFormat⟩
  | disconnect r =>
      obtain rfl := Option.some.inj hstep
      exact iff_true_intro (h.congr (disconnect_same r w).1)
  | queryAccept e pmt =>
      obtain rfl := Option.some.inj hstep
      rw [queryAccept_snd]
      exact iff_true_intro (h.congr (checkMediaType_isChecked caps e pmt w).mixer)
  | notifyAllocator committed | endFlush =>
      obtain rfl := Option.some.inj hstep
      exact iff_true_intro ⟨h.aligned, h.received⟩
  | beginFlush =>
      obtain rfl := Option.some.inj hstep
      exact iff_true_intro (.of_empty rfl)
  | run r =>
      obtain rfl := Option.some.inj hstep
      exact iff_true_intro (h.congr (run_same r w).mixer)
  | pause r =>
      obtain rfl := Option.some.inj hstep
      exact iff_true_intro (h.congr (pause_same r w).mixer)
  | stop r =>
      obtain rfl := Option.some.inj hstep
      exact iff_true_intro (h.congr (stop_same r w).mixer)
  | receive r e e' sample =>
      simp only [next] at hstep
      obtain ⟨o, ho, rfl⟩ := Option.map_eq_some_iff.mp hstep
      exact iff_true_intro (h.of_received (receive_cases ho))
  | soundLoopIteration frames byteData =>
      simp only [next] at hstep
      obtain ⟨⟨call, v⟩, hiter, rfl⟩ := Option.map_eq_some_iff.mp hstep
      exact soundLoopIteration_queuePure_iff h hiter

/-- Where the two formats agree and the request does not wrap, an iteration takes whole
frames. -/
theorem keepsQueue_of_sameFormat {p : Platform} {caps : Capabilities} {w : Filter} {frames : ℕ}
    {byteData : List StampedByte} (h : SameFormat w)
    (hfits : ∀ n ∈ w.device.bitness.mixBytes,
      frames * w.mixer.nChannels.toNat * n < 2 ^ p.sizeBits) :
    KeepsQueue p caps w (.soundLoopIteration frames byteData) := by
  intro n hn
  left
  obtain ⟨hsize, -⟩ := elementSize_of_mixBytes hn
  have hframe : w.mixer.frame = w.mixer.nChannels.toNat * n := by
    rw [Mixer.frame, h.bits, hsize, Nat.mul_left_comm, Nat.mul_div_cancel_left _ (by decide)]
  rw [hframe, Mixer.desired, Platform.toSizeT_of_lt (hfits n hn), Nat.mul_assoc]
  exact Nat.dvd_mul_left _ _

/-! ## Runs -/

/-- Along any run from a new filter the queue is pure in every state if and only if no
connection is accepted over bytes of another format and no iteration cuts a frame. -/
theorem queue_pure_iff (p : Platform) (caps : Capabilities) {w t : Filter}
    {steps : List (Filter × Op)} (hinit : Init w) (hrun : (system p caps).Run w steps t) :
    (∀ u ∈ System.visited steps t, QueuePure u) ↔
      ∀ x ∈ steps, KeepsQueue p caps x.1 x.2 := by
  have htracked : ∀ u ∈ System.visited steps t, Tracked u :=
    hrun.invariant ⟨hinit.nChannels, hinit.nBitsPerSample⟩ fun _ _ _ h _ hstep => h.next hstep
  rw [← hrun.forall_visited_iff (I := fun u => QueuePure u ∧ Tracked u)
    ⟨.of_empty hinit.queue, hinit.nChannels, hinit.nBitsPerSample⟩ fun s a t hs hstep => ?_]
  · exact ⟨fun h u hu => ⟨h u hu, htracked u hu⟩, fun h u hu => (h u hu).1⟩
  · rw [and_iff_left (hs.2.next hstep)]
    exact queuePure_next_iff hs.1 hs.2 hstep

/-- `stereo16` while it runs. -/
def stereo16Running : Filter :=
  { stereo16 with
    state := .running
    mixer := { stereo16.mixer with streaming := true }
    device := { stereo16.device with runThread := true, soundLoops := 1 } }

/-- `stereo16Running` after a sample of one frame and a half. -/
def stereo16Queued : Filter :=
  { stereo16Running with
    mixer := { stereo16Running.mixer with
      lastMediaSampleSize := 6
      sampleQueue := [1, 2, 3, 4].map fun b => ⟨b, stereo16.pin.connectionFormat⟩
      samplesReady := true } }

theorem queue_pure_iff_stereo16 :
    stereo16Queued.mixer.sampleQueue.length = 4 ∧ QueuePure stereo16Queued := by
  have hconnect : next .x64 ⟨false, false, false⟩ zeroed
      (.receiveConnection {} zeroes zeroes (pcm16 2)) = some stereo16 := rfl
  have hrun : next .x64 ⟨false, false, false⟩ stereo16 (.run {}) = some stereo16Running := rfl
  have hreceive : next .x64 ⟨false, false, false⟩ stereo16Running
      (.receive {} zeroes zeroes (some { data := ⟨[1, 2, 3, 4, 5, 6], by decide⟩ })) =
        some stereo16Queued := rfl
  refine ⟨rfl, (queue_pure_iff .x64 ⟨false, false, false⟩ zeroed_init
    (.cons hconnect (.cons hrun (.cons hreceive (.nil _))))).mpr ?_ _ (by simp [System.visited])⟩
  simp only [List.forall_mem_cons, List.not_mem_nil, false_imp_iff, implies_true, and_true]
  exact ⟨fun _ block _ => .inl rfl, trivial, trivial⟩

/-- Two bytes of 16-bit mono are queued, the filter is stopped and the pin is connected anew, for
16-bit stereo: half a frame, of another format. -/
theorem reconnection_leaves_stale_bytes :
    ∃ w, (system .x64 ⟨false, false, false⟩).Reachable w ∧ w.mixer.frame = 4 ∧
      w.mixer.sampleQueue.length = 2 ∧ ¬ QueuePure w := by
  have h : (System.exec (next .x64 ⟨false, false, false⟩) (fun _ _ => True) zeroed
      [.receiveConnection {} zeroes zeroes (pcm16 1), .run {},
        .receive {} zeroes zeroes (some { data := ⟨[1, 2], by decide⟩ }),
        .stop {}, .disconnect {}, .receiveConnection {} zeroes zeroes (pcm16 2)]).map
        (fun w => (w.mixer.frame, w.mixer.sampleQueue.length)) = some (4, 2) := rfl
  obtain ⟨w, hw, hprops⟩ := Option.map_eq_some_iff.mp h
  obtain ⟨hframe, hlen⟩ := Prod.mk.inj hprops
  refine ⟨w, reachable_of_exec hw, hframe, hlen, fun hpure => ?_⟩
  have hdvd := hpure.aligned
  rw [hframe, hlen] at hdvd
  exact absurd hdvd (by decide)

end Filter

end OpenALRenderer
