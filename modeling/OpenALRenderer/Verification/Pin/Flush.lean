import OpenALRenderer.Verification.Pin.Operations

/-! # Samples that arrive during a flush

The base class answers a sample that arrives during a flush with `S_FALSE`, which is not a
failure, and `CAudioInputPin::Receive` goes on. -/

namespace OpenALRenderer

open Foundation

namespace Filter

/-! ## Successive calls -/

/-- A call of `Receive`, with what it meets. -/
structure ReceiveCall where
  replies : Replies := {}
  atCheck : Indeterminate
  atSet : Indeterminate
  sample : Option PinSample

variable (p : Platform) (caps : Capabilities)

/-- The outcomes of successive calls; after a crash there is none. -/
def receiveAll : List ReceiveCall → Filter → List (Option ReceiveOutcome)
  | [], _ => []
  | c :: calls, w =>
      let outcome := w.receive p caps c.replies c.atCheck c.atSet c.sample
      outcome :: match outcome with
        | none => []
        | some o => receiveAll calls o.filter

/-- The call has returned, changed nothing, and called neither the pin nor the mixer. -/
def Excluded (w : Filter) (outcome : Option ReceiveOutcome) : Prop :=
  ∃ o, outcome = some o ∧ o.filter = w ∧ o.calls = []

/-! ## One call -/

variable {p caps}

theorem deliver_calls {s : MediaSample UInt8} {calls : List PinCall} {w : Filter}
    {o : ReceiveOutcome} (h : w.deliver p s calls = some o) :
    o.calls = calls ++ [.mixerReceive] := by
  unfold deliver at h
  obtain ⟨u, -, rfl⟩ := Option.map_eq_some_iff.mp h
  rfl

theorem receive_of_stopped {r : Replies} {e e' : Indeterminate} {sample : Option PinSample}
    {w : Filter} (h : w.state = .stopped) :
    w.receive p caps r e e' sample = some ⟨.VFW_E_WRONG_STATE, w, []⟩ := by
  simp [receive, h]

theorem receive_of_null {r : Replies} {e e' : Indeterminate} {w : Filter}
    (h : w.state ≠ .stopped) :
    w.receive p caps r e e' none = some ⟨.E_POINTER, w, []⟩ := by
  simp [receive, h]

/-- A flushing pin that is not stopped calls `SetMediaType` or the mixer on every sample. -/
theorem receive_of_flushing {r : Replies} {e e' : Indeterminate} {s : PinSample} {w : Filter}
    {o : ReceiveOutcome} (hflush : w.pin.flushing = true) (hstate : w.state ≠ .stopped)
    (h : w.receive p caps r e e' (some s) = some o) : o.calls ≠ [] := by
  have hcheck : w.checkStreaming = .S_FALSE := by simp [checkStreaming, hstate, hflush]
  have hbase : w.baseReceive caps e s = ⟨.S_FALSE, w, []⟩ := by simp [baseReceive, hcheck]
  simp only [receive, hstate, if_false, hbase, HRESULT.failed_S_FALSE, Bool.false_eq_true] at h
  cases hprops : w.pin.sampleProps with
  | none =>
      rw [hprops] at h
      simp [deliver_calls h]
  | some pmt =>
      rw [hprops] at h
      obtain ⟨q, -, hq⟩ := Option.bind_eq_some_iff.mp h
      split at hq
      · obtain rfl := Option.some.inj hq
        simp
      · simp [deliver_calls hq]

theorem excluded_receive_iff {r : Replies} {e e' : Indeterminate} {sample : Option PinSample}
    {w : Filter} (hflush : w.pin.flushing = true) :
    Excluded w (w.receive p caps r e e' sample) ↔ w.state = .stopped ∨ sample = none := by
  constructor
  · rintro ⟨o, ho, -, hcalls⟩
    by_contra hno
    push Not at hno
    obtain ⟨hstate, hsample⟩ := hno
    obtain ⟨s, rfl⟩ := Option.ne_none_iff_exists'.mp hsample
    exact receive_of_flushing hflush hstate ho hcalls
  · intro h
    by_cases hstate : w.state = .stopped
    · exact ⟨_, receive_of_stopped hstate, rfl, rfl⟩
    · obtain rfl := h.resolve_left hstate
      exact ⟨_, receive_of_null hstate, rfl, rfl⟩

/-! ## Every call of a flush -/

theorem excluded_receiveAll_iff {w : Filter} (hflush : w.pin.flushing = true) :
    ∀ calls : List ReceiveCall,
      (∀ outcome ∈ receiveAll p caps calls w, Excluded w outcome) ↔
        w.state = .stopped ∨ ∀ c ∈ calls, c.sample = none := by
  intro calls
  induction calls with
  | nil => simp [receiveAll]
  | cons c calls ih =>
      have hcall : Excluded w (w.receive p caps c.replies c.atCheck c.atSet c.sample) ↔
          w.state = .stopped ∨ c.sample = none := excluded_receive_iff hflush
      rw [receiveAll]
      simp only [List.forall_mem_cons, hcall]
      constructor
      · rintro ⟨hfirst, hrest⟩
        obtain ⟨o, ho, hfilter, -⟩ := hcall.mpr hfirst
        simp only [ho, hfilter] at hrest
        rcases hfirst with hstate | hnull
        · exact .inl hstate
        · exact (ih.mp hrest).imp_right fun hall => ⟨hnull, hall⟩
      · intro h
        have hfirst : w.state = .stopped ∨ c.sample = none := h.imp_right fun hall => hall.1
        obtain ⟨o, ho, hfilter, -⟩ := hcall.mpr hfirst
        refine ⟨hfirst, ?_⟩
        simp only [ho, hfilter]
        exact ih.mpr (h.imp_right fun hall => hall.2)

variable (p caps)

/-- Between `BeginFlush` and `EndFlush` every call of `Receive` is excluded, and finds and
leaves an empty queue, if and only if the filter is stopped or no call brings a sample. -/
theorem flush_excludes_iff (w : Filter) (calls : List ReceiveCall) :
    (w.beginFlush.mixer.sampleQueue = [] ∧
        ∀ outcome ∈ receiveAll p caps calls w.beginFlush, Excluded w.beginFlush outcome) ↔
      w.state = .stopped ∨ ∀ c ∈ calls, c.sample = none := by
  rw [excluded_receiveAll_iff rfl]
  exact and_iff_right rfl

/-- A call with a sample of four bytes and no type of its own. -/
def plainCall : ReceiveCall where
  atCheck := zeroes
  atSet := zeroes
  sample := some { data := ⟨[1, 2, 3, 4], by decide⟩ }

/-- A filter plays and the last sample before the flush has changed the type: a sample that
arrives during the flush repeats that change and is queued. -/
theorem flush_lets_samples_pass :
    ∃ w o, (system .x64 ⟨false, false, false⟩).Reachable w ∧
      receiveAll .x64 ⟨false, false, false⟩ [plainCall] w.beginFlush = [some o] ∧
      o.calls = [.setMediaType, .clearQueue, .mixerReceive] ∧
      o.filter.mixer.sampleQueue.map StampedByte.value = [1, 2, 3, 4] := by
  have h : (System.exec (next .x64 ⟨false, false, false⟩) (fun _ _ => True) zeroed
      [.receiveConnection {} zeroes zeroes (pcm16 2), .run {},
        .receive {} zeroes zeroes
          (some { data := ⟨[5, 6], by decide⟩, mediaType := some (pcm16 1) })]).map
        (fun w => (receiveAll .x64 ⟨false, false, false⟩ [plainCall] w.beginFlush).map fun o =>
          o.map fun o => (o.calls, o.filter.mixer.sampleQueue.map StampedByte.value)) =
      some [some ([.setMediaType, .clearQueue, .mixerReceive], [1, 2, 3, 4])] := rfl
  obtain ⟨w, hw, hall⟩ := Option.map_eq_some_iff.mp h
  obtain ⟨outcome, hcalls, ho⟩ := List.map_eq_singleton_iff.mp hall
  obtain ⟨o, rfl, hprops⟩ := Option.map_eq_some_iff.mp ho
  obtain ⟨hmade, hqueue⟩ := Prod.mk.inj hprops
  exact ⟨w, o, reachable_of_exec hw, hcalls, hmade, hqueue⟩

end Filter

end OpenALRenderer
