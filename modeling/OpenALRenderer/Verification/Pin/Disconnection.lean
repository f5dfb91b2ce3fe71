import OpenALRenderer.Model.Connection
import OpenALRenderer.Verification.Pin.StateChanges

/-! # Disconnecting, and trying again

`BreakConnect` clears the connection type, by which it knows a connection, before a step that may
fail. -/

namespace OpenALRenderer.Filter

open Foundation

variable {caps : Capabilities}

/-! ## Attempts and runs -/

/-- A call that makes or breaks the connection, a query, or a change of the filter's state. -/
inductive ConnectionCall where
  | connect (c : ConnectCall)
  | receiveConnection (r : Replies) (e e' : Indeterminate) (pmt : MediaType)
  | disconnect (r : Replies)
  | notifyAllocator (committed : Bool)
  | queryAccept (e : Indeterminate) (pmt : MediaType)
  | run (r : PinReplies)
  | pause (r : PinReplies)
  | stop (r : PinReplies)

/-- The filter a call leaves; `none` when it does not return. -/
def attempt (caps : Capabilities) (w : Filter) : ConnectionCall → Option Filter
  | .connect c => (w.connect caps c).map Prod.snd
  | .receiveConnection r e e' pmt => (w.receiveConnection caps r e e' pmt).map Prod.snd
  | .disconnect r => some (w.disconnect r).2
  | .notifyAllocator committed => some (w.notifyAllocator committed)
  | .queryAccept e pmt => some (w.queryAccept caps e pmt).2
  | .run r => some (w.run r).2
  | .pause r => some (w.pause r).2
  | .stop r => some (w.stop r).2

/-- A `Disconnect` that gets as far as `Decommit`, which fails. -/
def decommitFails (w : Filter) : ConnectionCall → Bool
  | .disconnect r =>
      decide (w.state = .stopped) && w.pin.connected && w.pin.mt.isValid &&
        w.pin.allocator.isSome && r.decommit.failed
  | _ => false

/-- Whether `Decommit` has failed in a `Disconnect` of the present connection. -/
def noteFailure (failed : Bool) (w : Filter) (a : ConnectionCall) (t : Filter) : Bool :=
  t.pin.connected && (failed || w.decommitFails a)

/-- Any sequence of calls from a constructed filter, with what is noted of the connection. -/
def connecting (caps : Capabilities) : System (Filter × Bool) ConnectionCall :=
  .ofNext (fun x => Init x.1 ∧ x.2 = false) (System.record (attempt caps) noteFailure)

/-! ## Letting go of the allocator -/

/-- A `Disconnect` of a connected pin that returns `S_OK` has let go of the allocator. -/
def Releases (w : Filter) : Prop :=
  ∀ r, w.pin.connected = true → (w.disconnect r).1 = .S_OK →
    (w.disconnect r).2.pin.allocator = none

/-! ## Breaking a connection -/

theorem isValid_cleared (mt : MediaType) :
    { mt with majortype := guidNull, subtype := guidNull : MediaType }.isValid = false := by
  simp [MediaType.isValid]

/-- What `BreakConnect` returns and leaves: an invalid type, and, if the type was valid, an allocator
that could not be decommitted or none. -/
structure IsBroken (r : Replies) (w : Filter) (q : HRESULT × Filter) : Prop where
  failed : q.1.failed = (w.pin.mt.isValid && w.pin.allocator.isSome && r.decommit.failed)
  invalid : q.2.pin.mt.isValid = false
  connected : q.2.pin.connected = w.pin.connected
  idle : w.pin.mt.isValid = false → q = (.S_FALSE, w)
  kept : q.1.failed = true → q.2.pin.allocator ≠ none
  released : w.pin.mt.isValid = true → q.1.failed = false → q.2.pin.allocator = none

theorem breakConnect_isBroken (r : Replies) (w : Filter) : IsBroken r w (w.breakConnect r) := by
  have hconn := (breakConnect_same r w).connected
  cases hvalid : w.pin.mt.isValid with
  | false =>
      have heq : w.breakConnect r = (.S_FALSE, w) := if_neg (by rw [hvalid]; exact Bool.false_ne_true)
      rw [heq]
      exact ⟨by simp [hvalid], hvalid, rfl, fun _ => rfl, nofun,
        fun h => absurd h (by simp [hvalid])⟩
  | true =>
      have heq : w.breakConnect r = baseBreakConnect r { (w.stop r.pins).2 with
          pin := { (w.stop r.pins).2.pin with
            mt := { (w.stop r.pins).2.pin.mt with majortype := guidNull, subtype := guidNull } } } :=
        if_pos hvalid
      refine ⟨?_, ?_, hconn, fun h => absurd h (by simp [hvalid]), ?_, fun _ => ?_⟩ <;>
        rw [heq] <;> unfold baseBreakConnect <;> rw [pin_stop] <;> dsimp only
      · cases hallocator : w.pin.allocator <;> cases hdecommit : r.decommit.failed <;>
          simp [hvalid, hdecommit]
      · split
        · exact isValid_cleared _
        · split <;> exact isValid_cleared _
      · split
        · nofun
        · next a ha =>
            split
            · intro _ hnone
              cases ha.symm.trans hnone
            · nofun
      · split
        · next ha => exact fun _ => ha
        · split
          · next hfailed => exact fun hok => by simp [hfailed] at hok
          · exact fun _ => rfl

/-! The ways in which `Disconnect` ends, on a connected pin. -/

theorem disconnect_of_not_stopped {w : Filter} (h : w.state ≠ .stopped) (r : Replies) :
    w.disconnect r = (.VFW_E_NOT_STOPPED, w) := if_pos h

theorem disconnect_of_failed {r : Replies} {w : Filter} (hstate : w.state = .stopped)
    (hconn : w.pin.connected = true) (hfailed : (w.breakConnect r).1.failed = true) :
    w.disconnect r = w.breakConnect r := by
  simp [disconnect, hstate, hconn, hfailed]

theorem disconnect_of_ok {r : Replies} {w : Filter} (hstate : w.state = .stopped)
    (hconn : w.pin.connected = true) (hok : (w.breakConnect r).1.failed = false) :
    w.disconnect r = (.S_OK, { (w.breakConnect r).2 with
      pin := { (w.breakConnect r).2.pin with connected := false } }) := by
  simp [disconnect, hstate, hconn, hok]

/-- A pin that an attempt has given up is not connected, and its type is invalid. -/
theorem abandon_pin (r : Replies) (w : Filter) :
    (w.abandon r).pin.connected = false ∧ (w.abandon r).pin.mt.isValid = false :=
  ⟨rfl, (breakConnect_isBroken r w).invalid⟩

/-! ## Making a connection -/

theorem isValid_of_supported {e : Indeterminate} {pmt : MediaType}
    (h : pmt.supported caps e = true) : pmt.isValid = true := by
  obtain ⟨f, hf, -⟩ := MediaType.supported_iff.mp h
  unfold MediaType.proposal at hf
  split at hf
  · cases hf
  · obtain ⟨⟨hmajor, -⟩, -⟩ := Option.ite_none_right_eq_some.mp hf
    rw [MediaType.isValid, hmajor]
    decide

theorem setMediaType_pin {e : Indeterminate} {allocates : Bool} {pmt : MediaType} {w : Filter}
    {q : HRESULT × Filter} (h : w.setMediaType caps e allocates pmt = some q) :
    q.2.pin.mt.isValid = pmt.isValid ∧ q.2.pin.connected = w.pin.connected := by
  unfold setMediaType at h
  split at h
  · cases h
  · split at h <;> obtain rfl := Option.some.inj h <;> exact ⟨rfl, rfl⟩

/-- The pin is connected just when its type is valid. -/
def Tied (w : Filter) : Prop := w.pin.connected = w.pin.mt.isValid

/-- An attempt succeeds with `S_OK`, or fails with the pin not connected. -/
structure IsAttempted (q : HRESULT × Filter) : Prop where
  tied : q.2.Tied
  result : q.1 = .S_OK ∨ q.1.failed = true ∧ q.2.pin.connected = false

theorem IsAttempted.abandon {hr : HRESULT} (h : hr.failed = true) (r : Replies) (w : Filter) :
    IsAttempted (hr, w.abandon r) :=
  ⟨(abandon_pin r w).1.trans (abandon_pin r w).2.symm, .inr ⟨h, rfl⟩⟩

theorem failed_refusal {hr : HRESULT} : hr.refusal.failed = true := by
  unfold HRESULT.refusal
  split
  · rfl
  · next h =>
      simp only [not_or, Bool.not_eq_false] at h
      exact h.1

theorem attemptConnection_isAttempted {a : Attempt} {pmt : MediaType} {w : Filter}
    {q : HRESULT × Filter} (hconn : w.pin.connected = false)
    (h : w.attemptConnection caps a pmt = some q) : IsAttempted q := by
  unfold attemptConnection at h
  split at h
  · next hcheck =>
      obtain rfl := Option.some.inj h
      have hb := breakConnect_isBroken a.replies w
      have hnot := hb.connected.trans hconn
      exact ⟨hnot.trans hb.invalid.symm, .inr ⟨hcheck, hnot⟩⟩
  dsimp only at h
  split at h
  · obtain rfl := Option.some.inj h
    exact .abandon failed_refusal _ _
  next hverdict =>
  have hsupported := (checkMediaType_ok_iff caps a.check pmt w).mp (not_not.mp hverdict)
  obtain ⟨s, hset, rfl⟩ := Option.map_eq_some_iff.mp h
  obtain ⟨hmt, hconnected⟩ := setMediaType_pin hset
  split
  · next hfailed => exact .abandon hfailed _ _
  split
  · next hfailed => exact .abandon hfailed _ _
  · refine ⟨?_, .inl rfl⟩
    have htied : s.2.Tied := by
      rw [Tied, hmt, hconnected, isValid_of_supported hsupported]
    cases a.notified <;> exact htied

theorem tryMediaTypes_isAttempted {pmt : Option MediaType} {types : List (MediaType × Attempt)}
    {hrFailure : HRESULT} {w : Filter} {q : HRESULT × Filter} (hw : w.Tied)
    (hconn : w.pin.connected = false) (hfailure : hrFailure = .S_OK ∨ hrFailure.failed = true)
    (h : w.tryMediaTypes caps pmt types hrFailure = some q) : IsAttempted q := by
  induction types generalizing hrFailure w with
  | nil =>
      obtain rfl := Option.some.inj h
      refine ⟨hw, .inr ⟨?_, hconn⟩⟩
      dsimp only
      split
      · rfl
      · next hne => exact hfailure.resolve_left hne
  | cons x types ih =>
      obtain ⟨mediaType, a⟩ := x
      rw [tryMediaTypes] at h
      split at h
      · obtain ⟨u, hu, hrest⟩ := Option.bind_eq_some_iff.mp h
        have hattempt := attemptConnection_isAttempted hconn hu
        split at hrest
        · obtain rfl := Option.some.inj hrest
          exact hattempt
        · next hne =>
            obtain ⟨hfailed, hnot⟩ := hattempt.result.resolve_left hne
            refine ih hattempt.tied hnot ?_ hrest
            split
            · exact .inr hfailed
            · exact hfailure
      · exact ih hw hconn hfailure h

theorem tryEnumerators_isAttempted {pmt : Option MediaType} {enumerators : List Enumeration}
    {hrFailure : HRESULT} {w : Filter} {q : HRESULT × Filter} (hw : w.Tied)
    (hconn : w.pin.connected = false) (hfailure : hrFailure.failed = true)
    (h : w.tryEnumerators caps pmt enumerators hrFailure = some q) : IsAttempted q := by
  induction enumerators generalizing hrFailure w with
  | nil =>
      obtain rfl := Option.some.inj h
      exact ⟨hw, .inr ⟨hfailure, hconn⟩⟩
  | cons x enumerators ih =>
      rw [tryEnumerators] at h
      split at h
      · exact ih hw hconn hfailure h
      obtain ⟨u, hu, hrest⟩ := Option.bind_eq_some_iff.mp h
      have htried : IsAttempted u := by
        split at hu
        · next hreset =>
            obtain rfl := Option.some.inj hu
            exact ⟨hw, .inr ⟨hreset, hconn⟩⟩
        · exact tryMediaTypes_isAttempted hw hconn (.inl rfl) hu
      split at hrest
      · next hfailed =>
          have hne : u.1 ≠ .S_OK := fun hok => by simp [hok] at hfailed
          obtain ⟨-, hnot⟩ := htried.result.resolve_left hne
          refine ih htried.tied hnot ?_ hrest
          split
          · exact hfailed
          · exact hfailure
      · obtain rfl := Option.some.inj hrest
        exact ⟨htried.tied, .inl rfl⟩

theorem connect_tied {c : ConnectCall} {w : Filter} {q : HRESULT × Filter} (hw : w.Tied)
    (hconn : w.pin.connected = false) (h : w.connect caps c = some q) : q.2.Tied := by
  unfold connect at h
  split at h
  · obtain rfl := Option.some.inj h
    exact hw
  split at h
  · obtain rfl := Option.some.inj h
    exact hw
  obtain ⟨u, hu, rfl⟩ := Option.map_eq_some_iff.mp h
  have hagreed : IsAttempted u := by
    unfold agreeMediaType at hu
    split at hu
    · exact tryEnumerators_isAttempted hw hconn rfl hu
    · split at hu
      · exact tryEnumerators_isAttempted hw hconn rfl hu
      · exact attemptConnection_isAttempted hconn hu
  split
  · next hfailed =>
      have hne : u.1 ≠ .S_OK := fun hok => by simp [hok] at hfailed
      have hb := breakConnect_isBroken c.replies u.2
      exact (hb.connected.trans (hagreed.result.resolve_left hne).2).trans hb.invalid.symm
  · exact hagreed.tied

theorem receiveConnection_tied {r : Replies} {e e' : Indeterminate} {pmt : MediaType} {w : Filter}
    {q : HRESULT × Filter} (hw : w.Tied) (h : w.receiveConnection caps r e e' pmt = some q) :
    q.2.Tied := by
  have hpin := (checkMediaType_isChecked caps e pmt w).pin
  cases receiveConnection_branch h with
  | connected | active => exact hw
  | unchecked hconn =>
      have hb := breakConnect_isBroken r w
      exact (hb.connected.trans hconn).trans hb.invalid.symm
  | rejected hconn =>
      have hb := breakConnect_isBroken r (w.checkMediaType caps e pmt).2
      exact (hb.connected.trans (hpin ▸ hconn)).trans hb.invalid.symm
  | @unset hr v =>
      have hb := breakConnect_isBroken r { v with pin := { v.pin with connected := false } }
      exact hb.connected.trans hb.invalid.symm
  | set hset _ _ _ _ hverdict =>
      obtain ⟨hmt, hconnected⟩ := setMediaType_pin hset
      rw [Tied, hmt, hconnected,
        isValid_of_supported ((checkMediaType_ok_iff caps e pmt w).mp hverdict)]

/-! ## Runs -/

/-- A connected pin has a valid type until `Decommit` fails; from then on it has an allocator. -/
structure Attached (x : Filter × Bool) : Prop where
  connected : x.1.pin.connected = (x.1.pin.mt.isValid || x.2)
  invalid : x.2 = true → x.1.pin.mt.isValid = false
  allocator : x.2 = true → x.1.pin.allocator ≠ none

theorem Tied.attached {w : Filter} (h : w.Tied) : Attached (w, false) :=
  ⟨by rw [h, Bool.or_false], nofun, nofun⟩

variable {w t : Filter} {failed : Bool}

/-- On a pin that is not connected nothing has failed, and the type is invalid. -/
theorem Attached.tied (h : Attached (w, failed)) (hconn : w.pin.connected = false) :
    failed = false ∧ w.Tied := by
  have hboth := h.connected
  dsimp only at hboth
  rw [hconn, eq_comm, Bool.or_eq_false_iff] at hboth
  exact ⟨hboth.2, hconn.trans hboth.1.symm⟩

/-- A call that keeps the connection, its type and an allocator keeps what is noted. -/
theorem Attached.kept {a : ConnectionCall} (h : Attached (w, failed))
    (ha : w.decommitFails a = false) (hconn : t.pin.connected = w.pin.connected)
    (hmt : t.pin.mt = w.pin.mt) (halloc : w.pin.allocator ≠ none → t.pin.allocator ≠ none) :
    Attached (t, noteFailure failed w a t) := by
  have hnote : noteFailure failed w a t = failed := by
    rw [noteFailure, ha, hconn, Bool.or_false]
    cases failed with
    | false => exact Bool.and_false _
    | true => rw [h.connected, Bool.or_true, Bool.true_and]
  rw [hnote]
  refine ⟨by rw [hconn, hmt]; exact h.connected, fun hf => ?_, fun hf => halloc (h.allocator hf)⟩
  rw [hmt]
  exact h.invalid hf

theorem Attached.of_tied {a : ConnectionCall} (h : Attached (w, failed))
    (ha : w.decommitFails a = false) (hconn : w.pin.connected = false) (ht : t.Tied) :
    Attached (t, noteFailure failed w a t) := by
  rw [noteFailure, ha, (h.tied hconn).1, Bool.or_false, Bool.and_false]
  exact ht.attached

theorem decommitFails_disconnect (r : Replies) (w : Filter) :
    w.decommitFails (.disconnect r) =
      (decide (w.state = .stopped) && w.pin.connected && (w.breakConnect r).1.failed) := by
  rw [(breakConnect_isBroken r w).failed, decommitFails]
  simp only [Bool.and_assoc]

theorem Attached.disconnect (h : Attached (w, failed)) (r : Replies) :
    Attached ((w.disconnect r).2, noteFailure failed w (.disconnect r) (w.disconnect r).2) := by
  have hfails := decommitFails_disconnect r w
  by_cases hstate : w.state = .stopped
  swap
  · rw [disconnect_of_not_stopped hstate]
    exact h.kept (by simp [hfails, hstate]) rfl rfl id
  cases hconn : w.pin.connected with
  | false =>
      have hres : w.disconnect r = (.S_FALSE, w) := by simp [Filter.disconnect, hstate, hconn]
      rw [hres]
      exact h.kept (by simp [hfails, hconn]) rfl rfl id
  | true =>
      have hb := breakConnect_isBroken r w
      cases hfailed : (w.breakConnect r).1.failed with
      | true =>
          have hnote : noteFailure failed w (.disconnect r) (w.breakConnect r).2 = true := by
            rw [noteFailure, hfails, hb.connected, hfailed, hconn, decide_eq_true hstate]
            exact Bool.or_true _
          rw [disconnect_of_failed hstate hconn hfailed, hnote]
          refine ⟨?_, fun _ => hb.invalid, fun _ => hb.kept hfailed⟩
          rw [Bool.or_true]
          exact hb.connected.trans hconn
      | false =>
          rw [disconnect_of_ok hstate hconn hfailed]
          have htied : Tied { (w.breakConnect r).2 with
              pin := { (w.breakConnect r).2.pin with connected := false } } := hb.invalid.symm
          exact htied.attached

theorem Attached.attempt {a : ConnectionCall} (h : Attached (w, failed))
    (hs : w.attempt caps a = some t) : Attached (t, noteFailure failed w a t) := by
  cases a with
  | connect c =>
      obtain ⟨q, hq, rfl⟩ := Option.map_eq_some_iff.mp hs
      cases hconn : w.pin.connected with
      | false => exact h.of_tied rfl hconn (connect_tied (h.tied hconn).2 hconn hq)
      | true =>
          have hres : w.connect caps c = some (.VFW_E_ALREADY_CONNECTED, w) := if_pos hconn
          obtain rfl := Option.some.inj (hres.symm.trans hq)
          exact h.kept rfl rfl rfl id
  | receiveConnection r e e' pmt =>
      obtain ⟨q, hq, rfl⟩ := Option.map_eq_some_iff.mp hs
      cases hconn : w.pin.connected with
      | false => exact h.of_tied rfl hconn (receiveConnection_tied (h.tied hconn).2 hq)
      | true =>
          have hres : w.receiveConnection caps r e e' pmt = some (.VFW_E_ALREADY_CONNECTED, w) :=
            if_pos hconn
          obtain rfl := Option.some.inj (hres.symm.trans hq)
          exact h.kept rfl rfl rfl id
  | disconnect r =>
      obtain rfl := Option.some.inj hs
      exact h.disconnect r
  | notifyAllocator committed =>
      obtain rfl := Option.some.inj hs
      exact h.kept rfl rfl rfl nofun
  | queryAccept e pmt =>
      obtain rfl := Option.some.inj hs
      have hpin := (checkMediaType_isChecked caps e pmt w).pin
      rw [queryAccept_snd]
      exact h.kept rfl (by rw [hpin]) (by rw [hpin]) (by rw [hpin]; exact id)
  | run r =>
      obtain rfl := Option.some.inj hs
      exact h.kept rfl (by rw [pin_run]) (by rw [pin_run]) (by rw [pin_run]; exact id)
  | pause r =>
      obtain rfl := Option.some.inj hs
      exact h.kept rfl (by rw [pin_pause]) (by rw [pin_pause]) (by rw [pin_pause]; exact id)
  | stop r =>
      obtain rfl := Option.some.inj hs
      exact h.kept rfl (by rw [pin_stop]) (by rw [pin_stop]) (by rw [pin_stop]; exact id)

theorem attached_of_reachable {x : Filter × Bool} (h : (connecting caps).Reachable x) :
    Attached x := by
  refine h.invariant ?_ ?_
  · rintro ⟨w, failed⟩ ⟨hw, rfl⟩
    exact Tied.attached (hw.connected.trans hw.invalid.symm)
  · rintro ⟨w, failed⟩ a y hx - hstep
    obtain ⟨t, ht, rfl⟩ := Option.map_eq_some_iff.mp hstep
    exact hx.attempt ht

/-! ## The disconnects that let go -/

theorem Attached.releases_iff (h : Attached (w, failed)) :
    w.Releases ↔ ¬ (failed = true ∧ w.state = .stopped) := by
  constructor
  · rintro hreleases ⟨rfl, hstate⟩
    have hconn : w.pin.connected = true := h.connected.trans (Bool.or_true _)
    have hidle := (breakConnect_isBroken {} w).idle (h.invalid rfl)
    have hres := disconnect_of_ok hstate hconn (r := {}) (by rw [hidle]; rfl)
    have hnone := hreleases {} hconn (by rw [hres])
    rw [hres, hidle] at hnone
    exact h.allocator rfl hnone
  · intro hcond r hconn hok
    by_cases hstate : w.state = .stopped
    swap
    · rw [disconnect_of_not_stopped hstate] at hok
      cases hok
    have hfailed : failed = false := by simpa [hstate] using hcond
    have hvalid : w.pin.mt.isValid = true := by
      have heq := h.connected
      dsimp only at heq
      rw [hconn, hfailed, Bool.or_false] at heq
      exact heq.symm
    have hb := breakConnect_isBroken r w
    cases hbroken : (w.breakConnect r).1.failed with
    | true =>
        rw [disconnect_of_failed hstate hconn hbroken] at hok
        rw [hok] at hbroken
        cases hbroken
    | false =>
        rw [disconnect_of_ok hstate hconn hbroken]
        exact hb.released hvalid hbroken

/-- In every run a pin that is not connected has an invalid type; and a `Disconnect` of a connected
pin that returns `S_OK` has let go of the allocator, if and only if `Decommit` has not failed in an
earlier one on the same connection, or the filter is not stopped. -/
theorem disconnect_releases_iff {x : Filter × Bool} (h : (connecting caps).Reachable x) :
    (x.1.pin.connected = false → x.1.pin.mt.isValid = false) ∧
      (x.1.Releases ↔ ¬ (x.2 = true ∧ x.1.state = .stopped)) := by
  have hattached := attached_of_reachable h
  exact ⟨fun hconn => (hattached.tied hconn).2.symm.trans hconn, hattached.releases_iff⟩

/-! ## Two runs -/

/-- The other pin takes integer samples of two channels, and notifies a committed allocator. -/
def connectStereo : ConnectionCall := .connect
  { pmt := pcm16 2
    attempt := { check := zeroes, set := zeroes, notified := some true }
    theirs := {} }

theorem connectStereo_reachable : ∃ x, (connecting ⟨false, false, false⟩).Reachable x ∧
    x.1.pin.connected = true ∧ x.1.pin.allocator = some true ∧ x.2 = false := by
  refine System.exists_reachableWhere_of_exec [connectStereo] (s := (zeroed, false))
    ⟨zeroed_init, rfl⟩ ?_
  decide

theorem disconnect_releases_iff_stereo : ∃ x, (connecting ⟨false, false, false⟩).Reachable x ∧
    x.1.pin.connected = true ∧ x.1.pin.allocator = some true ∧ x.1.Releases := by
  obtain ⟨x, hx, hconn, halloc, hfailed⟩ := connectStereo_reachable
  exact ⟨x, hx, hconn, halloc, (disconnect_releases_iff hx).2.mpr (by simp [hfailed])⟩

/-- `Decommit` fails in a first `Disconnect`. A second one returns `S_OK` and keeps the allocator. -/
theorem second_disconnect_keeps_allocator :
    ∃ x, (connecting ⟨false, false, false⟩).Reachable x ∧ x.1.pin.connected = true ∧
      (x.1.disconnect {}).1 = .S_OK ∧ (x.1.disconnect {}).2.pin.allocator = some true := by
  refine System.exists_reachableWhere_of_exec
    [connectStereo, .disconnect { decommit := .E_FAIL }] (s := (zeroed, false))
    ⟨zeroed_init, rfl⟩ ?_
  decide

end OpenALRenderer.Filter
