import OpenALRenderer.Model.Advise
import OpenALRenderer.Verification.Clock.Advising

/-! # What is pending

In every state that is reached the schedule spells an agenda, and every call comes to its end. -/

namespace OpenALRenderer

open Foundation

namespace AMSchedule

/-- The agenda `es` is pending: its memory is in order, its entries are in the order of their times,
and each has a cookie of its own that has been issued. -/
structure Pending (c : AMSchedule) (es : List (Entry Advisee)) : Prop where
  spells : ∃ ls cs, c.Spells ls cs [] es
  counts : c.Counts es
  sorted : Agenda.Sorted es
  regular : Agenda.Regular es
  short : ∀ e ∈ es, ∀ p, e.period = some p → p < 2 ^ 62
  issued : ∀ e ∈ es, 0 < e.item.cookie ∧ e.item.cookie ≤ c.nextCookie
  nodup : (es.map fun e => e.item.cookie).Nodup

variable {c d : AMSchedule} {es es' : List (Entry Advisee)} {p : Platform}

theorem Pending.setEvent (h : c.Pending es) (b : Bool) : { c with ev := b }.Pending es :=
  have ⟨ls, cs, hs⟩ := h.spells
  { h with spells := ⟨ls, cs, hs.congr rfl rfl rfl rfl⟩, counts := h.counts }

theorem pending_constructed : constructed.Pending [] where
  spells := by
    refine ⟨[], [], ?_⟩
    exact
      { path := .cons rfl (.cons rfl (.nil _))
        cache := .nil _
        nodup := by decide
        live := fun a => by cases a <;> simp [constructed, cells]
        created := fun n hn => by simp [cells] at hn
        cacheCount := rfl
        cached := Nat.zero_le _
        sentry := ⟨_, rfl, rfl⟩
        entries := rfl }
  counts := rfl
  sorted := List.Pairwise.nil
  regular := nofun
  short := nofun
  issued := nofun
  nodup := List.nodup_nil

/-- A request is regular when its period is. -/
theorem regular_request {cookie h : ℕ} {time1 time2 : Int64} {periodic : Bool}
    (hpos : periodic = true → 0 < time2.toInt) :
    (request cookie time1 time2 h periodic).Regular := by
  intro p hp
  cases periodic with
  | false => cases hp
  | true =>
      obtain rfl := Option.some.inj hp
      exact hpos rfl

/-- Something more is pending. -/
theorem Pending.exists_add (hc : c.Pending es) (time1 time2 : Int64) (h : ℕ) (periodic : Bool)
    (hcookie : c.nextCookie + 1 < 2 ^ p.sizeBits) (hpos : periodic = true → 0 < time2.toInt)
    (hshort : periodic = true → time2.toInt < 2 ^ 62) :
    ∃ d, c.addAdvisePacket p time1 time2 h periodic = some (c.nextCookie + 1, d) ∧
      d.Pending (Agenda.insert (request (c.nextCookie + 1) time1 time2 h periodic) es) ∧
      d.nextCookie = c.nextCookie + 1 ∧
      (d.ev = true ↔ c.ev = true ∨ ∀ e ∈ es.head?, time1.toInt ≤ e.time) := by
  obtain ⟨ls, cs, hs⟩ := hc.spells
  obtain ⟨d, ls', cs', hadd, hd, hnext, hcount, hev⟩ :=
    hs.exists_addAdvisePacket p time1 time2 h periodic
  rw [Platform.toSizeT_of_lt hcookie] at hadd hd hnext
  refine ⟨d, hadd, ?_, hnext, hev⟩
  have hperm := Agenda.insert_perm (request (c.nextCookie + 1) time1 time2 h periodic) es
  have hforall : ∀ {P : Entry Advisee → Prop},
      P (request (c.nextCookie + 1) time1 time2 h periodic) → (∀ e ∈ es, P e) →
        ∀ e ∈ Agenda.insert (request (c.nextCookie + 1) time1 time2 h periodic) es, P e :=
    fun hnew hold e he => by
      rcases List.mem_cons.mp (hperm.mem_iff.mp he) with rfl | he
      · exact hnew
      · exact hold e he
  exact
    { spells := ⟨ls', cs', hd⟩
      counts := hc.counts.cons hcount hperm.length_eq
      sorted := hc.sorted.insert _
      regular := hforall (regular_request hpos) hc.regular
      short := hforall (fun q hq => by
        cases periodic with
        | false => cases hq
        | true =>
            obtain rfl := Option.some.inj hq
            exact hshort rfl) hc.short
      issued := hforall ⟨Nat.succ_pos _, hnext.ge⟩ fun e he => by
        have hissued := hc.issued e he
        omega
      nodup := by
        refine ((hperm.map fun e => e.item.cookie).nodup_iff).mpr (List.nodup_cons.mpr ⟨?_, hc.nodup⟩)
        intro hmem
        obtain ⟨e, he, heq⟩ := List.mem_map.mp hmem
        have hissued := (hc.issued e he).2
        rw [heq] at hissued
        exact Nat.not_succ_le_self _ hissued }

/-- Part of what is pending. -/
theorem Pending.sublist (hc : c.Pending es) (hsub : es'.Sublist es)
    (hspells : ∃ ls cs, d.Spells ls cs [] es') (hcounts : d.Counts es')
    (hcookie : d.nextCookie = c.nextCookie) : d.Pending es' where
  spells := hspells
  counts := hcounts
  sorted := List.Pairwise.sublist hsub hc.sorted
  regular e he := hc.regular e (hsub.subset he)
  short e he := hc.short e (hsub.subset he)
  issued e he := hcookie ▸ hc.issued e (hsub.subset he)
  nodup := (hsub.map _).nodup hc.nodup

/-- The request with the cookie is pending no more. -/
theorem Pending.exists_unadvise (hc : c.Pending es) (cookie : ℕ) :
    ∃ d, c.unadvise cookie =
        some (if es.any (fun e => e.item.cookie == cookie) then .S_OK else .S_FALSE, d) ∧
      d.Pending (es.eraseP fun e => e.item.cookie == cookie) ∧ d.nextCookie = c.nextCookie ∧
      d.ev = c.ev := by
  obtain ⟨ls, cs, hs⟩ := hc.spells
  obtain ⟨d, ls', cs', hunadvise, hd, hcookie, hev, hcount⟩ := hs.exists_unadvise cookie
  refine ⟨d, hunadvise, hc.sublist List.eraseP_sublist ⟨ls', cs', hd⟩ ?_ hcookie, hcookie, hev⟩
  cases hany : es.any fun e => e.item.cookie == cookie with
  | false =>
      rw [hany] at hcount
      rw [List.eraseP_of_forall_not (List.any_eq_false.mp hany), Counts, hcount, hc.counts]
      exact UInt32.sub_zero _
  | true =>
      obtain ⟨e, he, hmatch⟩ := List.any_eq_true.mp hany
      have hlength := List.length_eraseP_of_mem (p := fun e => e.item.cookie == cookie) he hmatch
      have hpos := List.length_pos_of_mem he
      rw [hany] at hcount
      exact hc.counts.tail hcount (by omega)

/-- No time overflows within twice the range of the times and periods. -/
theorem Pending.fits (hc : c.Pending es) {T : ℤ} (hT : T < 2 ^ 62) : Fits T es := by
  intro e he q hq
  have hmax : maxTime.toInt = 2 ^ 63 - 1 := by decide
  have hshort := hc.short e he q hq
  omega

/-- What is left after firing is pending. -/
theorem Pending.fired {fs : List (Advisee × ℤ)} {T : ℤ} (hc : c.Pending es)
    (hfires : Agenda.Fires T es fs es') (hspells : ∃ ls cs, d.Spells ls cs [] es')
    (hcounts : d.Counts es') (hcookie : d.nextCookie = c.nextCookie) : d.Pending es' := by
  have hperm := hfires.left hc.sorted hc.regular
  have hleft : ∀ e ∈ es', ∃ a ∈ es, e.item = a.item ∧ e.period = a.period := fun e he => by
    obtain ⟨a, ha, hafter⟩ := List.mem_filterMap.mp (hperm.mem_iff.mp he)
    exact ⟨a, ha, (Entry.lt_of_after (hc.regular a ha) e hafter).2⟩
  have hcookies : ∀ l : List (Entry Advisee), (l.map fun e => e.item.cookie) =
      (l.map Entry.item).map Advisee.cookie := fun l => (List.map_map ..).symm
  exact
    { spells := hspells
      counts := hcounts
      sorted := hfires.sorted hc.sorted
      regular := fun e he q hq => by
        obtain ⟨a, ha, -, hperiod⟩ := hleft e he
        exact hc.regular a ha q (hperiod ▸ hq)
      short := fun e he q hq => by
        obtain ⟨a, ha, -, hperiod⟩ := hleft e he
        exact hc.short a ha q (hperiod ▸ hq)
      issued := fun e he => by
        obtain ⟨a, ha, hitem, -⟩ := hleft e he
        rw [hitem, hcookie]
        exact hc.issued a ha
      nodup := by
        have hnodup := hc.nodup
        rw [hcookies] at hnodup ⊢
        refine ((hperm.map _).map _).nodup_iff.mpr ?_
        exact ((Agenda.map_item_after_sublist hc.regular T).map _).nodup hnodup }

/-- `Advise` comes to an end. -/
theorem Pending.exists_advise (hc : c.Pending es) {rtTime : Int64} (htime : rtTime.toInt < 2 ^ 62) :
    ∃ n r es', c.advise rtTime n = some r ∧
      Agenda.Fires rtTime.toInt es (r.2.1.map AdvisePacket.firing) es' ∧
      r.1.toInt = nextTime es' ∧ r.2.2.Pending es' ∧ r.2.2.nextCookie = c.nextCookie ∧
      r.2.2.ev = c.ev := by
  obtain ⟨ls, cs, hs⟩ := hc.spells
  obtain ⟨fs, es', hfires⟩ := Agenda.exists_fires rtTime.toInt es hc.regular
  obtain ⟨n, next, fired, d, ls', cs', hadvise, hnext, rfl, hd, hcounts, hcookie, hev⟩ :=
    hs.exists_advise hfires hc.regular (hc.fits htime) hc.counts
  exact ⟨n, _, es', hadvise, hfires, hnext, hc.fired hfires ⟨ls', cs', hd⟩ hcounts hcookie, hcookie,
    hev⟩

/-- What is due is pending no more, or again. -/
theorem Pending.advise {rtTime : Int64} {n : ℕ} {r : Int64 × List AdvisePacket × AMSchedule}
    (hc : c.Pending es) (htime : rtTime.toInt < 2 ^ 62) (hr : c.advise rtTime n = some r) :
    ∃ es', Agenda.Fires rtTime.toInt es (r.2.1.map AdvisePacket.firing) es' ∧
      r.1.toInt = nextTime es' ∧ r.2.2.Pending es' ∧ r.2.2.nextCookie = c.nextCookie ∧
      r.2.2.ev = c.ev := by
  obtain ⟨m, q, es', hadvise, hrest⟩ := hc.exists_advise htime
  obtain rfl := advise_unique hadvise hr
  exact ⟨es', hrest⟩

/-- The destructor frees every packet that is left, in the list and in the cache. -/
theorem Pending.exists_destroy (hc : c.Pending es) (hlength : es.length < 2 ^ 32) :
    ∃ heap, c.destroy = some heap ∧ ∀ a, (heap a).isSome ↔ a = .head ∨ a = .z := by
  obtain ⟨ls, cs, hs⟩ := hc.spells
  refine hs.exists_destroy ?_
  have hcount : (UInt32.ofNat es.length).toNat = es.length := by
    rw [UInt32.toNat_ofNat', Nat.mod_eq_of_lt hlength]
  rw [hc.counts, ← List.length_pos_iff, ← hs.entries.length_eq, UInt32.lt_iff_toNat_lt, hcount]
  rfl

end AMSchedule

/-! ## Every state -/

/-- No time comes later than some 14,000 years. -/
def AdvisePc.Early : AdvisePc → Prop
  | advise rtNow => rtNow.toInt + 10000 < 2 ^ 62
  | _ => True

instance : ∀ pc : AdvisePc, Decidable pc.Early
  | .advise _ => inferInstanceAs (Decidable (_ < _))
  | .testAbort | .wait | .woken | .getPrivateTime | .ended => inferInstanceAs (Decidable True)

namespace AdviseClock

variable {s t : AdviseClock} {p : Platform} {es : List (Entry Advisee)}

/-- No cookie is issued twice, and neither a period nor a time that is told gets to some 14,000
years. -/
def Sound (p : Platform) (s : AdviseClock) : Label → Prop
  | .adviseTime _ _ _ => s.schedule.nextCookie + 1 < 2 ^ p.sizeBits
  | .advisePeriodic _ periodTime _ =>
      s.schedule.nextCookie + 1 < 2 ^ p.sizeBits ∧ periodTime.toInt < 2 ^ 62
  | .thread _ => s.pc.Early
  | .unadvise _ | .getTime _ | .setTimeDelta _ | .destroy => True

instance (p : Platform) (s : AdviseClock) : ∀ a, Decidable (Sound p s a)
  | .adviseTime _ _ _ => inferInstanceAs (Decidable (_ < _))
  | .advisePeriodic _ _ _ => inferInstanceAs (Decidable (_ ∧ _))
  | .thread _ => inferInstanceAs (Decidable s.pc.Early)
  | .unadvise _ | .getTime _ | .setTimeDelta _ | .destroy => inferInstanceAs (Decidable True)

/-- What a call asks for, if it is not refused. -/
def Label.request (cookie : ℕ) : Label → Option (Entry Advisee)
  | .adviseTime baseTime streamTime hEvent =>
      if baseTime + streamTime ≤ 0 ∨ baseTime + streamTime = maxTime then none
      else some (AMSchedule.request cookie (baseTime + streamTime) 0 hEvent false)
  | .advisePeriodic startTime periodTime hSemaphore =>
      if 0 < startTime ∧ 0 < periodTime ∧ startTime ≠ maxTime then
        some (AMSchedule.request cookie startTime periodTime hSemaphore true)
      else none
  | _ => none

/-- The calls of those who have the clock. -/
def Label.isCall : Label → Bool
  | .thread _ | .destroy => false
  | _ => true

/-- Neither `Unadvise` nor `Advise` is called. -/
def Label.Neutral (s : AdviseClock) : Label → Prop
  | .unadvise _ => False
  | .thread _ => ∀ rtNow, s.pc ≠ .advise rtNow
  | _ => True

/-- What a step can do to what is pending. -/
inductive Outcome (s : AdviseClock) (es : List (Entry Advisee)) :
    Label → AdviseClock → List (Entry Advisee) → Prop where
  | asked {a : Label} {e : Entry Advisee} {c : AMSchedule}
      (he : a.request (s.schedule.nextCookie + 1) = some e)
      (hcookie : c.nextCookie = s.schedule.nextCookie + 1)
      (hev : c.ev = true ↔ s.schedule.ev = true ∨ ∀ e' ∈ es.head?, e.time ≤ e'.time) :
      Outcome s es a { s with schedule := c } (Agenda.insert e es)
  | withdrawn {cookie : ℕ} {c : AMSchedule} (hcookie : c.nextCookie = s.schedule.nextCookie)
      (hev : c.ev = s.schedule.ev) :
      Outcome s es (.unadvise cookie) { s with schedule := c }
        (es.eraseP fun e => e.item.cookie == cookie)
  | told {x : Turn} {rtNow : Int64} {r : Int64 × List AdvisePacket × AMSchedule}
      {es' : List (Entry Advisee)} (hpc : s.pc = .advise rtNow)
      (hr : s.schedule.advise (10000 + rtNow) x.rounds = some r)
      (hfires : Agenda.Fires (rtNow.toInt + 10000) es (r.2.1.map AdvisePacket.firing) es')
      (hnext : r.1.toInt = AMSchedule.nextTime es')
      (hcookie : r.2.2.nextCookie = s.schedule.nextCookie) (hev : r.2.2.ev = s.schedule.ev) :
      Outcome s es (.thread x) { s with
        schedule := r.2.2
        rtNextAdvise := r.1
        dwWait := planWait rtNow r.1
        pc := .testAbort } es'
  | kept {a : Label} {t : AdviseClock} (ha : a.request (s.schedule.nextCookie + 1) = none)
      (hadvise : a.Neutral s) (ht : ∃ b, t.schedule = { s.schedule with ev := b }) : Outcome s es a t es

/-- What a statement of the thread can do. -/
inductive Statement (s : AdviseClock) (x : Turn) : AdviseClock → Prop where
  | testAbort (hpc : s.pc = .testAbort) :
      Statement s x { s with pc := if s.bAbort then .ended else .wait }
  | signalled (hpc : s.pc = .wait) (hev : s.schedule.ev = true) :
      Statement s x { s with schedule := { s.schedule with ev := false }, pc := .woken }
  | timedOut (hpc : s.pc = .wait) (hwait : s.dwWait ≠ infinite) :
      Statement s x { s with pc := .woken }
  | woken (hpc : s.pc = .woken) :
      Statement s x { s with pc := if s.bAbort then .ended else .getPrivateTime }
  | getPrivateTime (hpc : s.pc = .getPrivateTime) :
      Statement s x { s with
        base := (s.base.getPrivateTime x.dwTime).2
        pc := .advise (s.base.getPrivateTime x.dwTime).1 }
  | advise {rtNow : Int64} {r : Int64 × List AdvisePacket × AMSchedule}
      (hpc : s.pc = .advise rtNow) (hr : s.schedule.advise (10000 + rtNow) x.rounds = some r) :
      Statement s x { s with
        schedule := r.2.2
        rtNextAdvise := r.1
        dwWait := planWait rtNow r.1
        pc := .testAbort }

theorem statement_of_threadStep {x : Turn} (h : s.threadStep x = some t) : s.Statement x t := by
  cases hpc : s.pc with
  | testAbort =>
      simp only [threadStep, hpc] at h
      cases h
      exact .testAbort hpc
  | wait =>
      simp only [threadStep, hpc] at h
      split at h
      · next hev =>
          cases h
          exact .signalled hpc hev
      · split at h
        · cases h
        · next hwait =>
            cases h
            exact .timedOut hpc hwait
  | woken =>
      simp only [threadStep, hpc] at h
      cases h
      exact .woken hpc
  | getPrivateTime =>
      simp only [threadStep, hpc] at h
      cases h
      exact .getPrivateTime hpc
  | advise rtNow =>
      simp only [threadStep, hpc] at h
      obtain ⟨r, hr, rfl⟩ := Option.map_eq_some_iff.mp h
      exact .advise hpc hr
  | ended => simp [threadStep, hpc] at h

/-- What a statement of the destructor can do. -/
theorem destroy_cases (h : s.destroy = some t) :
    (s.destruction = .notCalled ∧ t = { s with bAbort := true, destruction := .aborted }) ∨
      (s.destruction = .aborted ∧ t = { s.triggerThread with destruction := .triggered }) ∨
      (s.destruction = .triggered ∧ s.pc = .ended ∧ t = { s with destruction := .joined }) := by
  cases hd : s.destruction with
  | notCalled =>
      simp only [destroy, hd] at h
      cases h
      exact .inl ⟨rfl, rfl⟩
  | aborted =>
      simp only [destroy, hd] at h
      cases h
      exact .inr (.inl ⟨rfl, rfl⟩)
  | triggered =>
      simp only [destroy, hd] at h
      split at h
      · next hended =>
          obtain ⟨_, -, rfl⟩ := Option.map_eq_some_iff.mp h
          exact .inr (.inr ⟨rfl, hended, rfl⟩)
      · cases h
  | joined => simp [destroy, hd] at h

/-- A request that is not refused is pending. -/
theorem called_of_request {a : Label} {e : Entry Advisee} (hs : s.schedule.Pending es)
    (hg : Sound p s a) (he : a.request (s.schedule.nextCookie + 1) = some e) :
    ∃ c : AMSchedule, s.called p a = some { s with schedule := c } ∧
      c.Pending (Agenda.insert e es) ∧ c.nextCookie = s.schedule.nextCookie + 1 ∧
      (c.ev = true ↔ s.schedule.ev = true ∨ ∀ e' ∈ es.head?, e.time ≤ e'.time) := by
  cases a with
  | adviseTime baseTime streamTime hEvent =>
      simp only [Label.request] at he
      split at he
      · cases he
      · next hvalid =>
          obtain rfl := Option.some.inj he
          obtain ⟨c, hadd, hc, hcookie, hev⟩ :=
            hs.exists_add (baseTime + streamTime) 0 hEvent false hg nofun nofun
          exact ⟨c, by simp [called, adviseTime, hvalid, hadd], hc, hcookie, hev⟩
  | advisePeriodic startTime periodTime hSemaphore =>
      simp only [Label.request] at he
      split at he
      · next hvalid =>
          obtain rfl := Option.some.inj he
          have hpos : 0 < periodTime.toInt := Int64.lt_iff_toInt_lt.mp hvalid.2.1
          obtain ⟨c, hadd, hc, hcookie, hev⟩ :=
            hs.exists_add startTime periodTime hSemaphore true hg.1 (fun _ => hpos) fun _ => hg.2
          exact ⟨c, by simp [called, advisePeriodic, hvalid, hadd], hc, hcookie, hev⟩
      · cases he
  | _ => cases he

/-- The time `Advise` is told. -/
theorem toInt_told {rtNow : Int64} (h : (AdvisePc.advise rtNow).Early) :
    (10000 + rtNow).toInt = rtNow.toInt + 10000 := by
  have hlt : rtNow.toInt + 10000 < 2 ^ 62 := h
  have hmin := rtNow.le_toInt
  rw [Int64.toInt_add, show (10000 : Int64).toInt = 10000 from rfl, add_comm]
  exact Int.bmod_eq_of_le (by omega) (by omega)

/-- A time that is refused changes nothing. -/
theorem adviseTime_of_refused {baseTime streamTime : Int64} {hEvent cookie : ℕ}
    (he : (Label.adviseTime baseTime streamTime hEvent).request cookie = none) :
    s.called p (.adviseTime baseTime streamTime hEvent) = some s := by
  simp only [Label.request] at he
  split at he
  · next hinvalid => simp [called, adviseTime, hinvalid]
  · cases he

theorem advisePeriodic_of_refused {startTime periodTime : Int64} {hSemaphore cookie : ℕ}
    (he : (Label.advisePeriodic startTime periodTime hSemaphore).request cookie = none) :
    s.called p (.advisePeriodic startTime periodTime hSemaphore) = some s := by
  simp only [Label.request] at he
  split at he
  · cases he
  · next hinvalid => simp [called, advisePeriodic, hinvalid]

/-- A request and its withdrawal are the business of the schedule alone. -/
theorem exists_schedule_of_called {a : Label} (h : s.called p a = some t) :
    (∃ c, t = { s with schedule := c }) ∨ (∃ dwTime, a = .getTime dwTime) ∨
      ∃ timeDelta, a = .setTimeDelta timeDelta := by
  cases a with
  | adviseTime b u k =>
      simp only [called, adviseTime] at h
      split at h
      · cases h
        exact .inl ⟨_, rfl⟩
      · obtain ⟨r, hr, rfl⟩ := Option.map_eq_some_iff.mp h
        obtain ⟨q, -, rfl⟩ := Option.map_eq_some_iff.mp hr
        exact .inl ⟨_, rfl⟩
  | advisePeriodic b u k =>
      simp only [called, advisePeriodic] at h
      split at h
      · obtain ⟨r, hr, rfl⟩ := Option.map_eq_some_iff.mp h
        obtain ⟨q, -, rfl⟩ := Option.map_eq_some_iff.mp hr
        exact .inl ⟨_, rfl⟩
      · cases h
        exact .inl ⟨_, rfl⟩
  | unadvise cookie =>
      obtain ⟨r, hr, rfl⟩ := Option.map_eq_some_iff.mp h
      obtain ⟨q, -, rfl⟩ := Option.map_eq_some_iff.mp hr
      exact .inl ⟨_, rfl⟩
  | getTime dwTime => exact .inr (.inl ⟨_, rfl⟩)
  | setTimeDelta delta => exact .inr (.inr ⟨_, rfl⟩)
  | thread x | destroy => cases h

theorem schedule_setTimeDelta (delta : Int64) : ∃ b,
    (s.setTimeDelta delta).schedule = { s.schedule with ev := b } := by
  by_cases h : 5000 < delta ∧ 0 < s.schedule.getAdviseCount
  · exact ⟨true, by simp [setTimeDelta, h, triggerThread]⟩
  · exact ⟨s.schedule.ev, by simp [setTimeDelta, h]⟩

/-- A step that leaves the schedule alone, but for its event. -/
theorem outcome_of_kept {a : Label} {b : Bool} (hs : s.schedule.Pending es)
    (ha : a.request (s.schedule.nextCookie + 1) = none) (hadvise : a.Neutral s)
    (ht : t.schedule = { s.schedule with ev := b }) :
    ∃ es', t.schedule.Pending es' ∧ Outcome s es a t es' :=
  ⟨es, ht ▸ hs.setEvent b, .kept ha hadvise ⟨b, ht⟩⟩

/-- What a call does to what is pending. -/
theorem outcome_of_called {a : Label} (hs : s.schedule.Pending es) (hg : Sound p s a)
    (hcall : s.called p a = some t) : ∃ es', t.schedule.Pending es' ∧ Outcome s es a t es' := by
  cases he : a.request (s.schedule.nextCookie + 1) with
  | some e =>
      obtain ⟨c, hcalled, hc, hcookie, hev⟩ := called_of_request hs hg he
      obtain rfl := Option.some.inj (hcall.symm.trans hcalled)
      exact ⟨_, hc, .asked he hcookie hev⟩
  | none =>
      cases a with
      | adviseTime b u h =>
          obtain rfl := Option.some.inj ((adviseTime_of_refused he).symm.trans hcall)
          exact outcome_of_kept hs he trivial rfl
      | advisePeriodic u v h =>
          obtain rfl := Option.some.inj ((advisePeriodic_of_refused he).symm.trans hcall)
          exact outcome_of_kept hs he trivial rfl
      | unadvise cookie =>
          obtain ⟨c, hunadvise, hc, hcookie, hev⟩ := hs.exists_unadvise cookie
          simp only [called, unadvise, hunadvise, Option.map_some] at hcall
          obtain rfl := Option.some.inj hcall
          exact ⟨_, hc, .withdrawn hcookie hev⟩
      | getTime dwTime =>
          obtain rfl := Option.some.inj hcall
          exact outcome_of_kept hs he trivial rfl
      | setTimeDelta delta =>
          obtain rfl := Option.some.inj hcall
          obtain ⟨b, hb⟩ := schedule_setTimeDelta delta
          exact outcome_of_kept hs he trivial hb
      | thread x | destroy => cases hcall

/-- What a statement of the thread does to what is pending. -/
theorem outcome_of_threadStep {x : Turn} (hs : s.schedule.Pending es) (hg : s.pc.Early)
    (hstep : s.threadStep x = some t) :
    ∃ es', t.schedule.Pending es' ∧ Outcome s es (.thread x) t es' := by
  have hneutral : (∀ rtNow, s.pc ≠ .advise rtNow) → (Label.thread x).Neutral s := id
  cases statement_of_threadStep hstep with
  | advise hpc hr =>
      rw [hpc] at hg
      have htold := toInt_told hg
      obtain ⟨es', hfires, hnext, hpending, hcookie, hev⟩ :=
        hs.advise (by rw [htold]; exact hg) hr
      rw [htold] at hfires
      exact ⟨es', hpending, .told hpc hr hfires hnext hcookie hev⟩
  | signalled hpc hev => exact outcome_of_kept hs rfl (hneutral (by simp [hpc])) rfl
  | testAbort hpc | timedOut hpc | woken hpc | getPrivateTime hpc =>
      exact outcome_of_kept hs rfl (hneutral (by simp [hpc])) (b := s.schedule.ev) rfl

/-- What a step does to what is pending. -/
theorem exists_outcome {a : Label} (hs : s.schedule.Pending es) (hg : Sound p s a)
    (hnext : s.next p a = some t) : ∃ es', t.schedule.Pending es' ∧ Outcome s es a t es' := by
  cases a with
  | thread x => exact outcome_of_threadStep hs hg hnext
  | destroy =>
      obtain ⟨-, rfl⟩ | ⟨-, rfl⟩ | ⟨-, -, rfl⟩ := destroy_cases hnext
      · exact outcome_of_kept hs rfl trivial (b := s.schedule.ev) rfl
      · exact outcome_of_kept hs rfl trivial rfl
      · exact outcome_of_kept hs rfl trivial (b := s.schedule.ev) rfl
  | _ =>
      simp only [next] at hnext
      split at hnext
      · exact outcome_of_called hs hg hnext
      · cases hnext

/-- Somebody who has the clock can call it at any time. -/
theorem exists_called {a : Label} (hs : s.schedule.Pending es) (hg : Sound p s a)
    (ha : a.isCall = true) : (s.called p a).isSome := by
  cases he : a.request (s.schedule.nextCookie + 1) with
  | some e =>
      obtain ⟨c, hcalled, -⟩ := called_of_request hs hg he
      simp [hcalled]
  | none =>
      cases a with
      | adviseTime b u h => simp [adviseTime_of_refused he]
      | advisePeriodic u v h => simp [advisePeriodic_of_refused he]
      | unadvise cookie =>
          obtain ⟨c, hunadvise, -⟩ := hs.exists_unadvise cookie
          simp [called, unadvise, hunadvise]
      | getTime dwTime => rfl
      | setTimeDelta delta => rfl
      | thread x | destroy => cases ha

theorem pending_of_reachable (h : (system p).ReachableWhere (Sound p) s) :
    ∃ es, s.schedule.Pending es := by
  refine h.invariant (I := fun s => ∃ es, s.schedule.Pending es) (fun s hs => ?_)
    fun s a t hI hg hstep => ?_
  · exact ⟨[], hs.schedule ▸ AMSchedule.pending_constructed⟩
  · obtain ⟨es, hes⟩ := hI
    obtain ⟨es', hes', -⟩ := exists_outcome hes hg hstep
    exact ⟨es', hes'⟩

/-- In whatever order the clock is called and its thread runs, the packets between the members spell
the requests that are pending, in the order of their times and under cookies of their own, and those
in the cache are the only others; no call follows a bad pointer or fails to come to its end, and
the destructor frees them all. -/
theorem memory_safe (p : Platform) (s : AdviseClock)
    (h : (system p).ReachableWhere (Sound p) s) : ∃ ls cs es,
    (s.schedule.Spells ls cs [] es ∧ Agenda.Sorted es ∧ (es.map fun e => e.item.cookie).Nodup ∧
      s.schedule.adviseCount = UInt32.ofNat es.length) ∧
    (∀ a : Label, a.isCall = true → s.destruction = .notCalled → Sound p s a →
      (s.next p a).isSome) ∧
    (∀ rtNow, s.pc = .advise rtNow → s.pc.Early →
      ∃ n, (s.next p (.thread { rounds := n })).isSome) ∧
    (es.length < 2 ^ 32 → ∃ heap, s.schedule.destroy = some heap ∧
      ∀ a, (heap a).isSome ↔ a = .head ∨ a = .z) := by
  obtain ⟨es, hes⟩ := pending_of_reachable h
  obtain ⟨ls, cs, hspells⟩ := hes.spells
  refine ⟨ls, cs, es, ⟨hspells, hes.sorted, hes.nodup, hes.counts⟩, fun a ha hdestruction hg => ?_,
    fun rtNow hpc hearly => ?_, hes.exists_destroy⟩
  · have hcalled := exists_called hes hg ha
    cases a with
    | thread x | destroy => cases ha
    | _ => simpa [next, hdestruction] using hcalled
  · rw [hpc] at hearly
    obtain ⟨n, r, es', hr, -⟩ := hes.exists_advise (by rw [toInt_told hearly]; exact hearly)
    exact ⟨n, by simp [next, threadStep, hpc, hr]⟩

/-- A clock constructed as `timeGetTime` returns 0. -/
def started : AdviseClock where
  base := { rtPrivateTime := 0, dwPrevSystemTime := 0 }
  rtNextAdvise := 0

theorem started_init : started.Init := ⟨⟨0, rfl⟩, rfl, rfl, rfl, rfl, rfl⟩

/-- Three requests, and the thread at work 3 milliseconds later. -/
def threeRequests : List Label :=
  [.adviseTime 10000 40000 7, .advisePeriodic 20000 30000 9, .adviseTime 0 10000 5, .thread {},
    .thread {}, .thread {}, .thread { dwTime := 3 }, .thread { rounds := 3 }]

/-- One request is spent and its packet cached, two are pending, one of them again. -/
theorem memory_safe_threeRequests : ∃ (s : AdviseClock) (ls cs : List PacketLink)
    (es : List (Entry Advisee)), s.schedule.adviseCount = 2 ∧ s.schedule.cacheCount = 1 ∧
      s.schedule.Spells ls cs [] es ∧ Agenda.Sorted es := by
  have hrun : (System.exec (next .x64) (Sound .x64) started threeRequests).any
      fun s => s.schedule.adviseCount = 2 ∧ s.schedule.cacheCount = 1 := by
    decide +kernel
  obtain ⟨s, hs, hcount, hcached⟩ := System.exists_reachableWhere_of_exec _ started_init hrun
  obtain ⟨ls, cs, es, ⟨hspells, hsorted, -⟩, -⟩ := memory_safe .x64 s hs
  exact ⟨s, ls, cs, es, hcount, hcached, hspells, hsorted⟩

end AdviseClock

end OpenALRenderer
