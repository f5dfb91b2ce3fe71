import OpenALRenderer.Verification.Pin.StateChanges

/-! # What a rejected media type leaves behind -/

namespace OpenALRenderer

open Foundation

namespace Filter

variable {p : Platform} {caps : Capabilities}

/-! ## Rejections -/

/-- The type an operation brings to `CheckMediaType`, with what the check finds in storage it
has not written. -/
def askedType (w : Filter) : Op → Option (Indeterminate × MediaType)
  | .queryAccept e pmt => some (e, pmt)
  | .receiveConnection r e _ pmt =>
      if w.pin.connected = false ∧ w.state = .stopped ∧ r.checkConnect.failed = false
      then some (e, pmt) else none
  | .receive _ e _ (some s) => (w.checkedType s).map fun pmt => (e, pmt)
  | _ => none

/-- An operation asks about a type, and the answer is not `S_OK`. -/
structure Rejection (caps : Capabilities) (w : Filter) (op : Op) (e : Indeterminate)
    (pmt : MediaType) : Prop where
  asked : w.askedType op = some (e, pmt)
  verdict : (w.checkMediaType caps e pmt).1 ≠ .S_OK

/-- The four members that the check may write before it knows its verdict. -/
structure FormatKept (w w' : Filter) : Prop where
  frequency : w'.device.frequency = w.device.frequency
  speakerLayout : w'.device.speakerLayout = w.device.speakerLayout
  bitness : w'.device.bitness = w.device.bitness
  isFloat : w'.mixer.isFloat = w.mixer.isFloat

/-- A proposal says what the members hold already; a layout counts where the driver supports
it. -/
structure Restates (caps : Capabilities) (e : Indeterminate) (w : Filter) (f : WaveFormat) :
    Prop where
  frequency : f.nSamplesPerSec.toInt32 = w.device.frequency
  speakerLayout : ∀ layout, f.supportedLayout caps e = some layout →
    layout = w.device.speakerLayout
  isFloat : decide f.IsFloat = w.mixer.isFloat

/-! ## The check -/

theorem FormatKept.congr {w u v : Filter} (hdevice : u.device = v.device)
    (hfloat : u.mixer.isFloat = v.mixer.isFloat) : FormatKept w u ↔ FormatKept w v := by
  constructor
  · rintro ⟨hf, hl, hb, hi⟩
    exact ⟨hdevice ▸ hf, hdevice ▸ hl, hdevice ▸ hb, hfloat ▸ hi⟩
  · rintro ⟨hf, hl, hb, hi⟩
    exact ⟨hdevice ▸ hf, hdevice ▸ hl, hdevice ▸ hb, hfloat ▸ hi⟩

/-- A rejecting check changes nothing exactly when a proposal that passed its gates restates
what was there. The sample type is never written: it is the last thing to be checked. -/
theorem checkMediaType_formatKept_iff {e : Indeterminate} {pmt : MediaType} {w : Filter}
    (h : (w.checkMediaType caps e pmt).1 ≠ .S_OK) :
    FormatKept w (w.checkMediaType caps e pmt).2 ↔
      ∀ f, pmt.proposal e = some f → Restates caps e w f := by
  have hno : pmt.supported caps e = false := by
    simpa using fun hs => h ((checkMediaType_ok_iff caps e pmt w).mpr hs)
  obtain hnone | ⟨f, hf⟩ := Option.eq_none_or_eq_some (pmt.proposal e)
  · rw [checkMediaType_of_none hnone]
    simpa [hnone] using FormatKept.mk rfl rfl rfl rfl
  · have hbits : f.supportedBitness caps e = none := by
      simpa [MediaType.supported, hf] using hno
    rw [checkMediaType_of_some caps w hf, Device.checkOpenALMediaType_eq, hf]
    constructor
    · rintro ⟨hfreq, hlayout, -, hfloat⟩ g hg
      obtain rfl := Option.some.inj hg
      refine ⟨hfreq, fun layout hl => ?_, hfloat⟩
      simpa [Device.settle, hl] using hlayout
    · intro hall
      obtain ⟨hfreq, hlayout, hfloat⟩ := hall f rfl
      refine ⟨hfreq, ?_, ?_, hfloat⟩
      · cases hl : f.supportedLayout caps e with
        | none => simp [Device.settle, hl]
        | some layout => simp [Device.settle, hl, hlayout layout hl]
      · simp [Device.settle, hbits]

/-! ## The operations that ask -/

/-- A stopped filter has nothing to stop when its connection breaks. -/
theorem breakConnect_of_stopped {r : Replies} {w : Filter} (h : w.state = .stopped) :
    ∃ pin, (w.breakConnect r).2 = { w with pin := pin } := by
  have hstop : (w.stop r.pins).2 = w := by simp [stop, h]
  rcases breakConnect_cases r w with hw | ⟨mt, a, hw⟩
  · exact ⟨w.pin, hw⟩
  · rw [hstop] at hw
    exact ⟨_, hw⟩

theorem receiveConnection_of_rejected {r : Replies} {e e' : Indeterminate} {pmt : MediaType}
    {w : Filter} (h : Rejection caps w (.receiveConnection r e e' pmt) e pmt) :
    ∃ hr pin, w.receiveConnection caps r e e' pmt =
      some (hr, { (w.checkMediaType caps e pmt).2 with pin := pin }) := by
  obtain ⟨hasked, hverdict⟩ := h
  obtain ⟨⟨hconn, hstate, hcheck⟩, -⟩ := Option.ite_none_right_eq_some.mp hasked
  have hstopped : (w.checkMediaType caps e pmt).2.state = .stopped :=
    (checkMediaType_isChecked caps e pmt w).state.trans hstate
  obtain ⟨pin, hpin⟩ := breakConnect_of_stopped (r := r) hstopped
  unfold receiveConnection
  simp only [hconn, hstate, hcheck, hverdict, hpin, Bool.false_eq_true, if_false, ne_eq,
    not_true_eq_false, not_false_eq_true, if_true]
  exact ⟨_, pin, rfl⟩

theorem receive_of_rejected {r : Replies} {e e' : Indeterminate} {s : PinSample}
    {pmt : MediaType} {w : Filter} (h : Rejection caps w (.receive r e e' (some s)) e pmt) :
    w.receive p caps r e e' (some s) =
      some ⟨.VFW_E_INVALIDMEDIATYPE, { (w.checkMediaType caps e pmt).2 with
        pin := { w.pin with sampleProps := some pmt, runTimeError := true } },
        [.checkMediaType]⟩ := by
  obtain ⟨hasked, hverdict⟩ := h
  obtain ⟨pmt', htype, heq⟩ := Option.map_eq_some_iff.mp hasked
  obtain rfl := (Prod.mk.inj heq).2
  obtain ⟨⟨hcs, hprops⟩, hmt⟩ := Option.ite_none_right_eq_some.mp htype
  have hstate : w.state ≠ .stopped := by
    intro hstopped
    simp [checkStreaming, hstopped] at hcs
  have hbase : w.baseReceive caps e s =
      ⟨.VFW_E_INVALIDMEDIATYPE, { (w.checkMediaType caps e pmt').2 with
        pin := { w.pin with sampleProps := some pmt', runTimeError := true } },
        [.checkMediaType]⟩ := by
    simp [baseReceive, hcs, hprops, hmt, checkMediaType_withPin, hverdict]
  unfold receive
  simp only [hstate, if_false, hbase, HRESULT.failed_VFW_E_INVALIDMEDIATYPE, if_true]

/-- After a rejection an operation touches nothing but the pin. -/
theorem next_of_rejection {w w' : Filter} {op : Op} {e : Indeterminate} {pmt : MediaType}
    (h : Rejection caps w op e pmt) (hs : next p caps w op = some w') :
    w'.device = (w.checkMediaType caps e pmt).2.device ∧
      w'.mixer.isFloat = (w.checkMediaType caps e pmt).2.mixer.isFloat := by
  cases op with
  | queryAccept e' pmt' =>
      obtain ⟨rfl, rfl⟩ := Prod.mk.inj (Option.some.inj h.asked)
      obtain rfl := Option.some.inj hs
      rw [queryAccept_snd]
      exact ⟨rfl, rfl⟩
  | receiveConnection r e₁ e₂ pmt' =>
      obtain ⟨-, heq⟩ := Option.ite_none_right_eq_some.mp h.asked
      obtain ⟨rfl, rfl⟩ := Prod.mk.inj (Option.some.inj heq)
      obtain ⟨hr, pin, hres⟩ := receiveConnection_of_rejected h
      simp only [next, hres, Option.map_some, Option.some.injEq] at hs
      exact hs ▸ ⟨rfl, rfl⟩
  | receive r e₁ e₂ sample =>
      cases sample with
      | none => cases h.asked
      | some s =>
          obtain ⟨pmt', -, heq⟩ := Option.map_eq_some_iff.mp h.asked
          obtain ⟨rfl, rfl⟩ := Prod.mk.inj heq
          simp only [next, receive_of_rejected h, Option.map_some, Option.some.injEq] at hs
          exact hs ▸ ⟨rfl, rfl⟩
  | disconnect _ | notifyAllocator _ | run _ | pause _ | stop _ | beginFlush | endFlush
  | soundLoopIteration _ _ => cases h.asked

/-! ## Whole runs -/

/-- Along a run, rejections leave the four members alone exactly when each rejected type
either fails at a gate or proposes what the members already hold. -/
theorem rejections_atomic_iff {w t : Filter} {steps : List (Filter × Op)}
    (hrun : (system p caps).Run w steps t) :
    (∀ x ∈ steps, ∀ e pmt u, Rejection caps x.1 x.2 e pmt → next p caps x.1 x.2 = some u →
        FormatKept x.1 u) ↔
      ∀ x ∈ steps, ∀ e pmt, Rejection caps x.1 x.2 e pmt →
        ∀ f, pmt.proposal e = some f → Restates caps e x.1 f := by
  refine forall₂_congr fun x hx => forall₂_congr fun e pmt => ?_
  obtain ⟨-, u, hu⟩ := hrun.step_of_mem hx
  have hiff : ∀ v, Rejection caps x.1 x.2 e pmt → next p caps x.1 x.2 = some v →
      (FormatKept x.1 v ↔ ∀ f, pmt.proposal e = some f → Restates caps e x.1 f) := by
    intro v h hv
    obtain ⟨hdevice, hfloat⟩ := next_of_rejection h hv
    rw [FormatKept.congr hdevice hfloat, checkMediaType_formatKept_iff h.verdict]
  constructor
  · exact fun hsame h => (hiff u h hu).mp (hsame u h hu)
  · exact fun hrestates v h hv => (hiff v h hv).mpr (hrestates h)

/-- Stereo with samples of three bytes, at a rate of at most 65535 Hz. -/
def pcm24 (rateLow rateHigh : UInt8) : MediaType where
  majortype := mediaTypeAudio
  subtype := subtypePcm
  formattype := formatWaveFormatEx
  format := some [1, 0, 2, 0, rateLow, rateHigh, 0, 0, 0, 0, 0, 0, 6, 0, 24, 0, 0, 0]

/-- Asking a connected pin about another sample width at the same rate. -/
theorem rejections_atomic_iff_stereo16 :
    (stereo16.queryAccept ⟨false, false, false⟩ zeroes (pcm24 0x80 0xBB)).1 = .S_FALSE ∧
      FormatKept stereo16
        (stereo16.queryAccept ⟨false, false, false⟩ zeroes (pcm24 0x80 0xBB)).2 := by
  have hquery : next .x64 ⟨false, false, false⟩ stereo16
      (.queryAccept zeroes (pcm24 0x80 0xBB)) = some stereo16 := rfl
  have hreject : Rejection ⟨false, false, false⟩ stereo16 (.queryAccept zeroes (pcm24 0x80 0xBB))
      zeroes (pcm24 0x80 0xBB) := ⟨rfl, by decide⟩
  refine ⟨rfl, (rejections_atomic_iff (.cons hquery (.nil stereo16))).mpr ?_ _
    List.mem_cons_self _ _ _ hreject hquery⟩
  intro x hx e pmt h f hf
  obtain rfl := List.mem_singleton.mp hx
  obtain ⟨rfl, rfl⟩ := Prod.mk.inj (Option.some.inj h.asked)
  obtain rfl := Option.some.inj hf
  exact ⟨rfl, fun layout hl => Option.some.inj hl ▸ rfl, rfl⟩

/-- While 16-bit stereo plays at 48 kHz, `QueryAccept` turns down a 24-bit type and leaves the
device at that type's rate. -/
theorem rejection_retunes_the_device :
    ∃ w u, (system .x64 ⟨false, false, false⟩).Reachable w ∧ w.mixer.streaming = true ∧
      w.device.frequency = 48000 ∧
      Rejection ⟨false, false, false⟩ w (.queryAccept zeroes (pcm24 0x44 0xAC)) zeroes
        (pcm24 0x44 0xAC) ∧
      next .x64 ⟨false, false, false⟩ w (.queryAccept zeroes (pcm24 0x44 0xAC)) = some u ∧
      u.device.frequency = 44100 := by
  have hreach : (system .x64 ⟨false, false, false⟩).Reachable (stereo16.run {}).2 :=
    @reachable_of_exec _ _ [.receiveConnection {} zeroes zeroes (pcm16 2), .run {}] _ rfl
  exact ⟨_, _, hreach, rfl, rfl, ⟨rfl, by decide⟩, rfl, rfl⟩

end Filter

end OpenALRenderer
