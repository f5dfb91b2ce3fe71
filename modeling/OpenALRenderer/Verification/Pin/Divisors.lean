import OpenALRenderer.Verification.Pin.Rejection

/-! # The divisors of the audio path -/

namespace OpenALRenderer

open Foundation

variable {β : Type*}

/-! ## What is divided by -/

/-- What a call of `CMixer::Receive` divides by; it divides in `CopyWaveform` only. -/
def Mixer.receiveDivisors (p : Platform) (s : MediaSample β) (m : Mixer β) : List ℕ :=
  if s.data.length ≠ 0 ∧ m.streaming = true then
    [frameBytes p m.nChannels m.nBitsPerSample, m.nChannels.toNat, m.nBitsPerSample.toNat]
  else []

/-- What `Mix` divides by when it counts the frames it returns. -/
def Mixer.mixDivisors (numBytesPerSample : ℕ) (m : Mixer β) : List ℕ :=
  [numBytesPerSample, m.nChannels.toNat]

/-- `m_frequency` as `getSampleTime` divides by it: an `int` that meets a `size_t`. -/
def Device.sampleTimeDivisor (p : Platform) (d : Device) : ℕ :=
  p.intToSizeT d.frequency.toUInt32.toNat

namespace Filter

/-- The filter as `CAudioInputPin::Receive` hands a sample on to the mixer; `none` when it
returns before that. -/
def handedOver (caps : Capabilities) (r : Replies) (e e' : Indeterminate) (s : PinSample)
    (w : Filter) : Option Filter :=
  if w.state = .stopped then none
  else
    let o := w.baseReceive caps e s
    if o.hr.failed then none
    else
      match o.filter.pin.sampleProps with
      | none => some o.filter
      | some pmt =>
          (o.filter.setMediaType caps e' r.allocates pmt).bind fun q =>
            if q.1.failed then none else some q.2.clearQueue

/-- What an operation divides by. `SoundLoop` calls `Mix` only while the mixer streams. -/
def divisors (p : Platform) (caps : Capabilities) (w : Filter) : Op → List ℕ
  | .receive r e e' (some s) =>
      match w.handedOver caps r e e' s with
      | none => []
      | some v => v.mixer.receiveDivisors p (v.stamp s.data)
  | .soundLoopIteration _ _ =>
      if w.mixer.streaming then (w.device.bitness.mixBytes).elim [] w.mixer.mixDivisors else []
  | _ => []

end Filter

/-! ## A zero divisor stops the model -/

/-- What `frameBytes` divides out is zero only where one of the factors is, so the frame size
decides for all three divisors. -/
theorem zero_mem_receiveDivisors_iff (p : Platform) (s : MediaSample β) (m : Mixer β) :
    0 ∈ m.receiveDivisors p s ↔ s.data.length ≠ 0 ∧ m.streaming = true ∧
      m.nChannels.toNat * m.nBitsPerSample.toNat < 8 := by
  have hframe := frameBytes_ne_zero_iff p m.nChannels m.nBitsPerSample
  unfold Mixer.receiveDivisors
  split
  · next huse =>
      simp only [List.mem_cons, List.not_mem_nil, or_false]
      constructor
      · intro hzero
        refine ⟨huse.1, huse.2, Nat.lt_of_not_le fun hle => ?_⟩
        rcases hzero with h | h | h
        · exact hframe.mpr hle h.symm
        · rw [← h, Nat.zero_mul] at hle
          omega
        · rw [← h, Nat.mul_zero] at hle
          omega
      · rintro ⟨-, -, hlt⟩
        left
        by_contra hne
        exact absurd (hframe.mp (Ne.symm hne)) (by omega)
  · next huse => simp only [List.not_mem_nil, false_iff]; tauto

theorem Mixer.receive_eq_none_iff (p : Platform) (s : MediaSample β) (m : Mixer β) :
    m.receive p s = none ↔ 0 ∈ m.receiveDivisors p s := by
  have hframe := frameBytes_ne_zero_iff p m.nChannels m.nBitsPerSample
  rw [zero_mem_receiveDivisors_iff]
  unfold Mixer.receive
  dsimp only
  split_ifs with hdata hstream hzero
  · simp [hdata]
  · exact iff_of_true rfl ⟨hdata, hstream, Nat.lt_of_not_le fun hle => hframe.mpr hle hzero⟩
  · exact iff_of_false (by simp) fun h => absurd (hframe.mp hzero) (by omega)
  · simp [hstream]

theorem mixBytes_ne_zero {b : MediaBitness} {n : ℕ} (h : b.mixBytes = some n) : n ≠ 0 := by
  cases b <;> simp [MediaBitness.mixBytes] at h <;> omega

theorem toInt32_ne_zero {x : UInt32} (h : x ≠ 0) : x.toInt32 ≠ 0 := by
  intro hzero
  have hback := congrArg Int32.toUInt32 hzero
  rw [UInt32.toUInt32_toInt32] at hback
  exact h hback

theorem Device.sampleTimeDivisor_ne_zero {d : Device} (p : Platform) (h : d.frequency ≠ 0) :
    d.sampleTimeDivisor p ≠ 0 := by
  have hlt := d.frequency.toUInt32.toNat_lt
  have hpos : d.frequency.toUInt32.toNat ≠ 0 := by
    intro hzero
    have hword : d.frequency.toUInt32 = 0 := UInt32.toNat_inj.mp hzero
    have hback := congrArg UInt32.toInt32 hword
    rw [Int32.toInt32_toUInt32] at hback
    exact h hback
  rw [Device.sampleTimeDivisor, Platform.intToSizeT, Nat.mod_eq_of_lt hlt]
  split <;> omega

namespace Filter

variable {p : Platform} {caps : Capabilities}

/-- Past the hand-over a `Receive` is a `CMixer::Receive`. -/
theorem receive_of_handedOver {r : Replies} {e e' : Indeterminate} {s : PinSample}
    {w v : Filter} (h : w.handedOver caps r e e' s = some v) :
    (w.receive p caps r e e' (some s)).map ReceiveOutcome.filter = v.mixerReceive p s.data := by
  have hdeliver : ∀ (u : Filter) (calls : List PinCall),
      (u.deliver p s.data calls).map ReceiveOutcome.filter = u.mixerReceive p s.data := by
    intro u calls
    simp [deliver, Function.comp_def]
  have hstate : w.state ≠ .stopped := by
    intro hstopped
    simp [handedOver, hstopped] at h
  have hok : (w.baseReceive caps e s).hr.failed = false := by
    by_contra hfailed
    simp [handedOver, hfailed] at h
  cases hprops : (w.baseReceive caps e s).filter.pin.sampleProps with
  | none =>
      simp only [handedOver, hstate, hok, hprops, if_false, Bool.false_eq_true] at h
      obtain rfl := Option.some.inj h
      simp only [receive, hstate, hok, hprops, if_false, Bool.false_eq_true]
      exact hdeliver _ _
  | some pmt =>
      simp only [handedOver, hstate, hok, hprops, if_false, Bool.false_eq_true] at h
      obtain ⟨q, hq, hv⟩ := Option.bind_eq_some_iff.mp h
      obtain ⟨hset, hv⟩ := Option.ite_none_left_eq_some.mp hv
      obtain rfl := Option.some.inj hv
      simp only [receive, hstate, hok, hprops, hq, hset, if_false, Bool.false_eq_true,
        Option.bind_some]
      exact hdeliver _ _

/-! ## The condition on a step -/

/-- The format that `SetMediaType` stores in the course of an operation. -/
def Stores (caps : Capabilities) (w : Filter) (f : WaveFormat) : Op → Prop
  | .receiveConnection r e e' pmt =>
      Accepts caps r e pmt w ∧ pmt.format.map (WaveFormat.view e'.beyond) = some f
  | .receive r e e' (some s) => ∃ pmt, w.appliedType caps e s = some pmt ∧
      pmt.copies r.allocates = true ∧ pmt.format.map (WaveFormat.view e'.beyond) = some f
  | _ => False

/-- Every type that passes the gates of a check states a rate, every format that is stored has
a rate and at least a byte in a frame, and a filter that is run or sent a sample is connected
or holds usable values in its mixer all the same. -/
structure KeepsDivisors (caps : Capabilities) (w : Filter) (op : Op) : Prop where
  asked : ∀ e pmt f, w.askedType op = some (e, pmt) → pmt.proposal e = some f →
    f.nSamplesPerSec ≠ 0
  stored : ∀ f, Stores caps w f op →
    f.nSamplesPerSec ≠ 0 ∧ 8 ≤ f.nChannels.toNat * f.wBitsPerSample.toNat
  run : ∀ r, op = .run r → w.pin.connected = true ∨ w.mixer.nChannels ≠ 0
  receive : ∀ r e e' s, op = .receive r e e' s → w.pin.connected = true ∨
    8 ≤ w.mixer.nChannels.toNat * w.mixer.nBitsPerSample.toNat

/-- No divisor is zero that the audio path may use now. -/
structure Divisible (w : Filter) : Prop where
  frequency : w.device.frequency ≠ 0
  nChannels : w.mixer.streaming = true → w.mixer.nChannels ≠ 0
  frame : w.pin.connected = true → 8 ≤ w.mixer.nChannels.toNat * w.mixer.nBitsPerSample.toNat

/-! ## What the operations do to the divisors -/

/-- The mixer's format is the same, no connection is made, and no streaming begins. -/
structure Retains (w w' : Filter) : Prop where
  nChannels : w'.mixer.nChannels = w.mixer.nChannels
  nBitsPerSample : w'.mixer.nBitsPerSample = w.mixer.nBitsPerSample
  connected : w'.pin.connected = true → w.pin.connected = true
  streaming : w'.mixer.streaming = true → w.mixer.streaming = true

theorem Retains.refl (w : Filter) : Retains w w := ⟨rfl, rfl, id, id⟩

theorem Retains.trans {u v w : Filter} (h : Retains u v) (h' : Retains v w) : Retains u w :=
  ⟨h'.nChannels.trans h.nChannels, h'.nBitsPerSample.trans h.nBitsPerSample,
    fun hc => h.connected (h'.connected hc), fun hs => h.streaming (h'.streaming hs)⟩

/-- A state change that begins no streaming. -/
theorem SameStream.retains {w w' : Filter} (h : SameStream w w')
    (hs : w'.mixer.streaming = true → w.mixer.streaming = true) : Retains w w' :=
  ⟨h.mixer.nChannels, h.mixer.nBitsPerSample, fun hc => h.connected ▸ hc, hs⟩

theorem Divisible.of_retains {w w' : Filter} (h : Divisible w) (hr : Retains w w')
    (hf : w'.device.frequency ≠ 0) : Divisible w' where
  frequency := hf
  nChannels hs := hr.nChannels ▸ h.nChannels (hr.streaming hs)
  frame hc := by
    rw [hr.nChannels, hr.nBitsPerSample]
    exact h.frame (hr.connected hc)

theorem pause_retains (r : PinReplies) (w : Filter) : Retains w (w.pause r).2 := by
  refine (pause_same r w).retains ?_
  rcases pause_cases r w with ⟨heq, -, -⟩ | ⟨-, -, -, hstream⟩
  · rw [heq]
    exact id
  · rw [hstream, Bool.and_eq_true]
    exact And.left

theorem stop_retains (r : PinReplies) (w : Filter) : Retains w (w.stop r).2 := by
  refine (stop_same r w).retains ?_
  unfold stop
  split
  · exact id
  · exact id
  · dsimp only
    split
    · exact (pause_retains r w).streaming
    · exact (pause_retains r w).streaming

theorem breakConnect_retains (r : Replies) (w : Filter) : Retains w (w.breakConnect r).2 := by
  refine (breakConnect_same r w).retains ?_
  rcases breakConnect_cases r w with h | ⟨mt, a, h⟩
  · rw [h]
    exact id
  · rw [h]
    exact (stop_retains r.pins w).streaming

theorem disconnect_retains (r : Replies) (w : Filter) : Retains w (w.disconnect r).2 := by
  have hb := breakConnect_retains r w
  unfold disconnect
  dsimp only
  split_ifs
  · exact .refl w
  · exact hb
  · exact ⟨hb.nChannels, hb.nBitsPerSample, fun hc => by simp at hc, hb.streaming⟩
  · exact .refl w

theorem IsChecked.retains {e : Indeterminate} {f : Option WaveFormat} {w w' : Filter}
    (h : IsChecked caps e f w w') : Retains w w' :=
  ⟨h.mixer.nChannels, h.mixer.nBitsPerSample, fun hc => h.pin ▸ hc, fun hs => h.streaming ▸ hs⟩

theorem mixerReceive_retains {s : MediaSample UInt8} {w w' : Filter}
    (h : w.mixerReceive p s = some w') : Retains w w' := by
  obtain ⟨m, hm, rfl⟩ := Option.map_eq_some_iff.mp h
  obtain ⟨hc, -, hb, hs, -⟩ := Mixer.receive_spec hm
  exact ⟨hc, hb, id, fun h => hs ▸ h⟩

theorem soundLoopIteration_retains {frames : ℕ} {byteData : List StampedByte}
    {q : Option (BufferDataCall StampedByte) × Filter} {w : Filter}
    (h : w.soundLoopIteration p frames byteData = some q) : Retains w q.2 := by
  unfold soundLoopIteration at h
  split at h
  · obtain rfl := Option.some.inj h
    exact .refl w
  · obtain ⟨⟨n, data, m⟩, hmix, rfl⟩ := Option.map_eq_some_iff.mp h
    obtain ⟨hc, -, hb, hs, -⟩ := Mixer.mix_spec hmix
    dsimp only
    split <;> exact ⟨hc, hb, id, fun h => hs ▸ h⟩

/-- What an operation other than `Run` leaves: what it found, with the rate of a type it has
asked about, or the format it has stored last. -/
inductive Settled (caps : Capabilities) (w : Filter) (op : Op) (w' : Filter) : Prop where
  | retained (retains : Retains w w')
      (rate : w'.device.frequency = w.device.frequency ∨
        ∃ e pmt f, w.askedType op = some (e, pmt) ∧ pmt.proposal e = some f ∧
          w'.device.frequency = f.nSamplesPerSec.toInt32)
  | stored (f : WaveFormat) (stores : Stores caps w f op)
      (nChannels : w'.mixer.nChannels = f.nChannels)
      (nBitsPerSample : w'.mixer.nBitsPerSample = f.wBitsPerSample)
      (rate : w'.device.frequency = f.nSamplesPerSec.toInt32)
      (streaming : w'.mixer.streaming = true → w.mixer.streaming = true)

theorem Retains.settled {w w' : Filter} {op : Op} (h : Retains w w')
    (hrate : w'.device.frequency = w.device.frequency) : Settled caps w op w' :=
  .retained h (.inl hrate)

theorem Settled.trans {w v u : Filter} {op : Op} (h : Settled caps w op v) (hr : Retains v u)
    (hd : u.device.frequency = v.device.frequency) : Settled caps w op u := by
  cases h with
  | retained retains rate => exact .retained (retains.trans hr) (hd ▸ rate)
  | stored f stores nChannels nBitsPerSample rate streaming =>
      exact .stored f stores (hr.nChannels.trans nChannels)
        (hr.nBitsPerSample.trans nBitsPerSample) (hd.trans rate)
        fun hs => streaming (hr.streaming hs)

/-- Under the condition on the step, what it settles on keeps every divisor. -/
theorem Divisible.of_settled {w w' : Filter} {op : Op} (h : Divisible w)
    (hg : KeepsDivisors caps w op) (hs : Settled caps w op w') : Divisible w' := by
  cases hs with
  | retained retains rate =>
      refine h.of_retains retains ?_
      rcases rate with hsame | ⟨e, pmt, f, hasked, hf, hrate⟩
      · rw [hsame]
        exact h.frequency
      · rw [hrate]
        exact toInt32_ne_zero (hg.asked e pmt f hasked hf)
  | stored f stores nChannels nBitsPerSample rate streaming =>
      obtain ⟨hrate, hframe⟩ := hg.stored f stores
      refine ⟨rate ▸ toInt32_ne_zero hrate, fun _ hzero => ?_, fun _ => ?_⟩
      · rw [← nChannels, hzero, UInt16.toNat_zero, Nat.zero_mul] at hframe
        omega
      · rw [nChannels, nBitsPerSample]
        exact hframe

theorem checkMediaType_settled {op : Op} {e : Indeterminate} {pmt : MediaType} {w : Filter}
    (h : w.askedType op = some (e, pmt)) :
    Settled caps w op (w.checkMediaType caps e pmt).2 := by
  have hchecked := checkMediaType_isChecked caps e pmt w
  refine .retained hchecked.retains ?_
  rw [hchecked.device]
  obtain hnone | ⟨f, hf⟩ := Option.eq_none_or_eq_some (pmt.proposal e)
  · exact .inl (by rw [hnone]; rfl)
  · exact .inr ⟨e, pmt, f, h, hf, by rw [hf]; rfl⟩

/-- `SetMediaType` after whatever an operation has done before it. -/
theorem setMediaType_settled {op : Op} {e : Indeterminate} {allocates : Bool} {pmt : MediaType}
    {w v : Filter} {q : HRESULT × Filter} (h : Settled caps w op v)
    (hset : v.setMediaType caps e allocates pmt = some q)
    (hstores : ∀ f, pmt.copies allocates = true →
      pmt.format.map (WaveFormat.view e.beyond) = some f → Stores caps w f op) :
    Settled caps w op q.2 := by
  obtain ⟨hr, u⟩ := q
  obtain ⟨block, hformat, ⟨halloc, -, hu⟩ | ⟨-, -, rfl⟩⟩ := setMediaType_cases hset
  · have hv : v.mixer.streaming = true → w.mixer.streaming = true := by
      cases h with
      | retained retains _ => exact retains.streaming
      | stored _ _ _ _ _ streaming => exact streaming
    refine .stored _ (hstores _ halloc (by rw [hformat]; rfl)) hu.nChannels hu.nBitsPerSample ?_
      fun hs => hv (hu.streaming ▸ hs)
    rw [hu.device]
    rfl
  · exact h.trans ⟨rfl, rfl, id, id⟩ rfl

/-! ### Receiving -/

theorem baseReceive_settled {r : Replies} {e e' : Indeterminate} {s : PinSample} (w : Filter) :
    Settled caps w (.receive r e e' (some s)) (w.baseReceive caps e s).filter := by
  obtain ⟨v, props, error, hv, hbase⟩ := baseReceive_isChecked caps e s w
  rw [hbase]
  have hm := hv.mixer
  refine .retained ⟨hm.nChannels, hm.nBitsPerSample, id, fun hs => hv.streaming ▸ hs⟩ ?_
  dsimp only
  rw [hv.device]
  cases htype : w.checkedType s with
  | none => exact .inl (by simp [checkedFormat, htype, Device.settle])
  | some pmt =>
      have hformat : w.checkedFormat e s = pmt.proposal e := by simp [checkedFormat, htype]
      rw [hformat]
      obtain hnone | ⟨f, hf⟩ := Option.eq_none_or_eq_some (pmt.proposal e)
      · exact .inl (by rw [hnone]; rfl)
      · exact .inr ⟨e, pmt, f, by simp [askedType, htype], hf, by rw [hf]; rfl⟩

/-- The type a sample brings is stored on the way to the mixer, or there is none. -/
theorem handedOver_settled {r : Replies} {e e' : Indeterminate} {s : PinSample}
    {w v : Filter} (h : w.handedOver caps r e e' s = some v) :
    Settled caps w (.receive r e e' (some s)) v := by
  have hbase : Settled caps w (.receive r e e' (some s)) (w.baseReceive caps e s).filter :=
    baseReceive_settled w
  unfold handedOver at h
  split at h
  · cases h
  next hstate =>
  dsimp only at h
  split at h
  · cases h
  next hok =>
  have htype : w.appliedType caps e s = (w.baseReceive caps e s).filter.pin.sampleProps := by
    rw [baseReceive_appliedType hstate, if_neg hok]
  split at h
  · obtain rfl := Option.some.inj h
    exact hbase
  · next pmt hprops =>
      obtain ⟨q, hq, hv⟩ := Option.bind_eq_some_iff.mp h
      obtain ⟨-, hv⟩ := Option.ite_none_left_eq_some.mp hv
      obtain rfl := Option.some.inj hv
      refine Settled.trans ?_ (v := q.2) ⟨rfl, rfl, id, id⟩ rfl
      exact setMediaType_settled hbase hq fun f halloc hf =>
        ⟨pmt, htype.trans hprops, halloc, hf⟩

theorem receive_settled {r : Replies} {e e' : Indeterminate} {s : PinSample} {w : Filter}
    {o : ReceiveOutcome} (h : w.receive p caps r e e' (some s) = some o) :
    Settled caps w (.receive r e e' (some s)) o.filter := by
  have hbase : Settled caps w (.receive r e e' (some s)) (w.baseReceive caps e s).filter :=
    baseReceive_settled w
  have hset : ∀ {pmt : MediaType} {q : HRESULT × Filter}, w.state ≠ .stopped →
      (w.baseReceive caps e s).hr.failed = false →
      (w.baseReceive caps e s).filter.pin.sampleProps = some pmt →
      (w.baseReceive caps e s).filter.setMediaType caps e' r.allocates pmt = some q →
      Settled caps w (.receive r e e' (some s)) q.2 := by
    intro pmt q hstate hok hprops hq
    have htype : w.appliedType caps e s = some pmt := by
      rw [baseReceive_appliedType hstate, hok, hprops]
      rfl
    exact setMediaType_settled hbase hq fun f halloc hf => ⟨pmt, htype, halloc, hf⟩
  have hdeliver : ∀ {v : Filter} {calls : List PinCall} {o : ReceiveOutcome},
      Settled caps w (.receive r e e' (some s)) v → v.deliver p s.data calls = some o →
      Settled caps w (.receive r e e' (some s)) o.filter := by
    intro v calls o hv hd
    obtain ⟨m, hm, heq⟩ := Option.map_eq_some_iff.mp (deliver_filter hd)
    exact hv.trans (mixerReceive_retains (deliver_filter hd)) (by rw [← heq])
  cases receive_branch h with
  | stopped => exact (Retains.refl w).settled rfl
  | failed => exact hbase
  | kept _ _ _ hd => exact hdeliver hbase hd
  | unset hstate hok hprops hq => exact hset hstate hok hprops hq
  | set hstate hok hprops hq _ hd =>
      refine hdeliver ?_ hd
      exact (hset hstate hok hprops hq).trans ⟨rfl, rfl, id, id⟩ rfl

/-! ### Connecting -/

theorem Settled.breakConnect {op : Op} {w v : Filter} (h : Settled caps w op v) (r : Replies) :
    Settled caps w op (v.breakConnect r).2 :=
  h.trans (breakConnect_retains r v) (breakConnect_same r v).device.frequency

theorem receiveConnection_settled {r : Replies} {e e' : Indeterminate} {pmt : MediaType}
    {w : Filter} {q : HRESULT × Filter} (h : w.receiveConnection caps r e e' pmt = some q) :
    Settled caps w (.receiveConnection r e e' pmt) q.2 := by
  have hsame : Settled caps w (.receiveConnection r e e' pmt) w := (Retains.refl w).settled rfl
  have hchecked : w.pin.connected = false → w.state = .stopped → r.checkConnect.failed = false →
      Settled caps w (.receiveConnection r e e' pmt) (w.checkMediaType caps e pmt).2 :=
    fun hconn hstate hcheck => checkMediaType_settled (by simp [askedType, hconn, hstate, hcheck])
  cases receiveConnection_branch h with
  | connected | active => exact hsame
  | unchecked => exact hsame.breakConnect r
  | rejected hconn hstate hcheck => exact (hchecked hconn hstate hcheck).breakConnect r
  | unset hset hfailed hconn hstate hcheck =>
      obtain ⟨block, -, ⟨-, hok, -⟩ | ⟨-, -, rfl⟩⟩ := setMediaType_cases hset
      · cases hok.symm.trans hfailed
      · refine ((hchecked hconn hstate hcheck).trans ?_ ?_).breakConnect r
        · exact ⟨rfl, rfl, fun hc => absurd hc Bool.false_ne_true, id⟩
        · rfl
  | set hset hok hconn hstate hcheck hverdict =>
      obtain ⟨block, hformat, ⟨halloc, -, hv⟩ | ⟨-, rfl, -⟩⟩ := setMediaType_cases hset
      · have hsupported := (checkMediaType_ok_iff caps e pmt w).mp hverdict
        have hstream := (checkMediaType_isChecked caps e pmt w).streaming
        refine .stored _ ⟨⟨hconn, hstate, hcheck, hsupported, halloc⟩, by rw [hformat]; rfl⟩
          hv.nChannels hv.nBitsPerSample ?_ fun hs => hstream ▸ hv.streaming ▸ hs
        rw [hv.device]
        rfl
      · cases hok

/-! ## Every run -/

theorem next_settled {w w' : Filter} {op : Op} (h : next p caps w op = some w')
    (hrun : ∀ r, op ≠ .run r) : Settled caps w op w' := by
  cases op with
  | receiveConnection r e e' pmt =>
      obtain ⟨q, hq, rfl⟩ := Option.map_eq_some_iff.mp h
      exact receiveConnection_settled hq
  | disconnect r =>
      obtain rfl := Option.some.inj h
      exact (disconnect_retains r w).settled (disconnect_same r w).2.1.frequency
  | queryAccept e pmt =>
      obtain rfl := Option.some.inj h
      rw [queryAccept_snd]
      exact checkMediaType_settled rfl
  | notifyAllocator committed | beginFlush | endFlush =>
      obtain rfl := Option.some.inj h
      exact Retains.settled ⟨rfl, rfl, id, id⟩ rfl
  | run r => exact absurd rfl (hrun r)
  | pause r =>
      obtain rfl := Option.some.inj h
      exact (pause_retains r w).settled (pause_same r w).device.frequency
  | stop r =>
      obtain rfl := Option.some.inj h
      exact (stop_retains r w).settled (stop_same r w).device.frequency
  | receive r e e' sample =>
      obtain ⟨o, ho, rfl⟩ := Option.map_eq_some_iff.mp h
      cases sample with
      | none =>
          rw [receive_none ho]
          exact (Retains.refl w).settled rfl
      | some s => exact receive_settled ho
  | soundLoopIteration frames byteData =>
      obtain ⟨⟨call, v⟩, hq, rfl⟩ := Option.map_eq_some_iff.mp h
      obtain ⟨-, -, -, hdevice, -⟩ := soundLoopIteration_same hq
      exact (soundLoopIteration_retains hq).settled (by rw [hdevice])

theorem Divisible.next {w w' : Filter} {op : Op} (h : Divisible w)
    (hg : KeepsDivisors caps w op) (hs : next p caps w op = some w') : Divisible w' := by
  by_cases hrun : ∃ r, op = .run r
  · obtain ⟨r, rfl⟩ := hrun
    obtain rfl := Option.some.inj hs
    obtain ⟨hmixer, hdevice, hconn⟩ := run_same r w
    refine ⟨hdevice.frequency ▸ h.frequency, fun _ hzero => ?_, fun hc => ?_⟩
    · rw [hmixer.nChannels] at hzero
      rcases hg.run r rfl with hc | hne
      · have hframe := h.frame hc
        rw [hzero, UInt16.toNat_zero, Nat.zero_mul] at hframe
        omega
      · exact hne hzero
    · rw [hmixer.nChannels, hmixer.nBitsPerSample]
      exact h.frame (hconn ▸ hc)
  · exact h.of_settled hg (next_settled hs fun r hr => hrun ⟨r, hr⟩)

theorem Init.divisible {w : Filter} (h : Init w) : Divisible w where
  frequency := by
    rw [h.device]
    decide
  nChannels hs := by simp [h.streaming] at hs
  frame hc := by simp [h.connected] at hc

/-- No division by zero: in a state that a run has reached whose steps all meet the condition,
no operation that meets it, nor `getSampleTime`, divides by zero. -/
theorem divisors_ne_zero {w : Filter} {op : Op}
    (h : (system p caps).ReachableWhere (KeepsDivisors caps) w) (hop : KeepsDivisors caps w op) :
    0 ∉ divisors p caps w op ∧ w.device.sampleTimeDivisor p ≠ 0 := by
  have hw : Divisible w :=
    h.invariant (fun _ h => h.divisible) fun s a t hs hg hstep => hs.next hg hstep
  refine ⟨?_, Device.sampleTimeDivisor_ne_zero p hw.frequency⟩
  unfold divisors
  split
  · next r e e' s =>
      split
      · exact List.not_mem_nil
      · next v hv =>
          rw [zero_mem_receiveDivisors_iff]
          rintro ⟨-, -, hlt⟩
          cases handedOver_settled hv with
          | retained retains _ =>
              rw [retains.nChannels, retains.nBitsPerSample] at hlt
              rcases hop.receive r e e' _ rfl with hc | hle
              · exact absurd (hw.frame hc) (by omega)
              · omega
          | stored f stores nChannels nBitsPerSample _ _ =>
              rw [nChannels, nBitsPerSample] at hlt
              exact absurd (hop.stored f stores).2 (by omega)
  · next frames byteData =>
      split
      · next hstream =>
          have hne : w.mixer.nChannels.toNat ≠ 0 :=
            fun hzero => hw.nChannels hstream (UInt16.toNat_inj.mp hzero)
          cases hbytes : w.device.bitness.mixBytes with
          | none => exact List.not_mem_nil
          | some n =>
              have hn := mixBytes_ne_zero hbytes
              simp [Option.elim, Mixer.mixDivisors, hn.symm, hne.symm]
      · exact List.not_mem_nil
  · exact List.not_mem_nil

/-- Connecting 16-bit stereo, running, and receiving a frame. -/
theorem divisors_ne_zero_stereo16 :
    0 ∉ divisors .x64 ⟨false, false, false⟩ (stereo16.run {}).2
        (.receive {} zeroes zeroes (some { data := ⟨[1, 2, 3, 4], by decide⟩ })) ∧
      (stereo16.run {}).2.device.sampleTimeDivisor .x64 ≠ 0 := by
  have hconnect : KeepsDivisors ⟨false, false, false⟩ zeroed
      (.receiveConnection {} zeroes zeroes (pcm16 2)) := by
    refine ⟨fun e pmt f hasked hf => ?_, fun f hf => ?_, by simp, by simp⟩
    · obtain ⟨rfl, rfl⟩ := Prod.mk.inj (Option.some.inj hasked)
      obtain rfl := Option.some.inj hf
      decide
    · obtain rfl := Option.some.inj hf.2
      decide
  have hrun : KeepsDivisors ⟨false, false, false⟩ stereo16 (.run {}) :=
    ⟨by simp [askedType], fun f hf => hf.elim, fun _ _ => .inl rfl, by simp⟩
  have hreceive : KeepsDivisors ⟨false, false, false⟩ (stereo16.run {}).2
      (.receive {} zeroes zeroes (some { data := ⟨[1, 2, 3, 4], by decide⟩ })) := by
    refine ⟨fun e pmt f hasked _ => ?_, fun f hf => ?_, by simp, fun _ _ _ _ _ => .inl rfl⟩
    · cases hasked
    · obtain ⟨pmt, happ, -⟩ := hf
      cases happ
  have h₁ : (system .x64 ⟨false, false, false⟩).ReachableWhere
      (KeepsDivisors ⟨false, false, false⟩) stereo16 := .step (.init zeroed_init) hconnect rfl
  exact divisors_ne_zero (.step h₁ hrun rfl) hreceive

/-- Stereo floating-point samples at 48 kHz, in a block that says they have no bits. -/
def float0 : MediaType where
  majortype := mediaTypeAudio
  subtype := subtypeIeeeFloat
  formattype := formatWaveFormatEx
  format := some ([0xFE, 0xFF, 2, 0, 0x80, 0xBB, 0, 0, 0, 0, 0, 0, 0, 0, 0, 0, 22, 0, 0, 0, 3, 0,
    0, 0] ++ subtypeIeeeFloat)

/-- 16-bit stereo at no rate at all. -/
def rateless : MediaType where
  majortype := mediaTypeAudio
  subtype := subtypePcm
  formattype := formatWaveFormatEx
  format := some [1, 0, 2, 0, 0, 0, 0, 0, 0, 0, 0, 0, 4, 0, 16, 0, 0, 0]

/-- Three ways to a zero divisor: a type without bits is connected and a sample received, a type
without a rate is accepted, and a filter that was never connected is run. -/
theorem divisors_can_be_zero :
    (∃ w, (system .x64 ⟨true, false, false⟩).Reachable w ∧ w.pin.connected = true ∧
      0 ∈ divisors .x64 ⟨true, false, false⟩ w
        (.receive {} zeroes zeroes (some { data := ⟨[1, 2, 3, 4], by decide⟩ }))) ∧
    (∃ w, (system .x64 ⟨false, false, false⟩).Reachable w ∧ w.pin.connected = true ∧
      (w.queryAccept ⟨false, false, false⟩ zeroes rateless).1 = .S_OK ∧
      (w.queryAccept ⟨false, false, false⟩ zeroes rateless).2.device.sampleTimeDivisor .x64 = 0) ∧
    ∃ w, (system .x64 ⟨false, false, false⟩).Reachable w ∧ w.state = .running ∧
      0 ∈ divisors .x64 ⟨false, false, false⟩ w (.soundLoopIteration 384 []) := by
  refine ⟨?_, ?_, (zeroed.run {}).2, ?_, rfl, by decide⟩
  · have h : (System.exec (next .x64 ⟨true, false, false⟩) (fun _ _ => True) zeroed
        [.receiveConnection {} zeroes zeroes float0, .run {}]).map (fun w => (w.pin.connected,
          decide (0 ∈ divisors .x64 ⟨true, false, false⟩ w
            (.receive {} zeroes zeroes (some { data := ⟨[1, 2, 3, 4], by decide⟩ }))))) =
        some (true, true) := rfl
    obtain ⟨w, hw, hprops⟩ := Option.map_eq_some_iff.mp h
    obtain ⟨hconn, hzero⟩ := Prod.mk.inj hprops
    exact ⟨w, reachable_of_exec hw, hconn, of_decide_eq_true hzero⟩
  · exact ⟨stereo16, @reachable_of_exec _ _ [.receiveConnection {} zeroes zeroes (pcm16 2)] _ rfl,
      rfl, rfl, rfl⟩
  · exact @reachable_of_exec _ _ [.run {}] _ rfl

end Filter

end OpenALRenderer
