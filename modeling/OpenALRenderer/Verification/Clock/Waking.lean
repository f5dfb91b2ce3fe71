import OpenALRenderer.Verification.Clock.Notification

/-! # The wait of the thread

Between two calls of `Advise` the thread plans one wait. Whatever is requested and withdrawn in the
meantime, it neither sleeps past the next event nor returns to `Advise` while nothing is due. -/

namespace OpenALRenderer

open Foundation

/-- The thread is about to wait. -/
def AdvisePc.Idle (pc : AdvisePc) : Prop := pc = testAbort ∨ pc = wait

namespace AdviseClock

variable {p : Platform} {s t : AdviseClock} {g : Option Int64} {es es' : List (Entry Advisee)}

/-- The time at which the wait was planned. -/
def notePlan (g : Option Int64) (s : AdviseClock) (a : Label) (_ : AdviseClock) : Option Int64 :=
  match a, s.pc with
  | .thread _, .advise rtNow => some rtNow
  | _, _ => g

/-- No wait has been planned. -/
def Unplanned (x : AdviseClock × Option Int64) : Prop := x.1.Init ∧ x.2 = none

/-- The clock with the time at which its wait was planned. -/
def planning (p : Platform) : System (AdviseClock × Option Int64) Label :=
  .ofNext Unplanned (System.record (next p) notePlan)

/-- A wait from `rtNow` on ends within the last millisecond before the next event, and is not over
at once. The longest of all does not end. -/
structure Plan (rtNow rtNextAdvise : Int64) (dwWait : UInt32) : Prop where
  endless : dwWait = infinite → rtNow.toInt + 10000 * (2 ^ 32 - 1) ≤ rtNextAdvise.toInt
  pos : 0 < dwWait.toNat
  early : dwWait ≠ infinite → rtNow.toInt + 10000 * dwWait.toNat ≤ rtNextAdvise.toInt
  punctual : dwWait ≠ infinite → rtNextAdvise.toInt < rtNow.toInt + 10000 * (dwWait.toNat + 1)

theorem toNat_planWait {rtNow rtNextAdvise : Int64} (hnow : 0 ≤ rtNow.toInt)
    (hle : rtNow.toInt ≤ rtNextAdvise.toInt) : ((planWait rtNow rtNextAdvise).toNat : ℤ) =
      min ((rtNextAdvise.toInt - rtNow.toInt) / 10000) (2 ^ 32 - 1) := by
  have hmax := rtNextAdvise.toInt_lt
  have hsub : (rtNextAdvise - rtNow).toInt = rtNextAdvise.toInt - rtNow.toInt := by
    rw [Int64.toInt_sub]
    exact Int.bmod_eq_of_le (by omega) (by omega)
  have hdiv : ((rtNextAdvise - rtNow) / 10000).toInt =
      (rtNextAdvise.toInt - rtNow.toInt) / 10000 := by
    rw [Int64.toInt_div_of_ne_right _ _ (by decide), hsub]
    exact Int.tdiv_eq_ediv_of_nonneg (by omega)
  have hinfinite : (dwordToInt64 infinite).toInt = 2 ^ 32 - 1 := by decide
  simp only [planWait, Int64.lt_iff_toInt_lt, hinfinite, hdiv]
  split
  · next hlt => exact (min_eq_right hlt.le).symm
  · next hge =>
      have hnonneg : 0 ≤ (rtNextAdvise - rtNow) / 10000 := by
        rw [Int64.le_iff_toInt_le, hdiv]
        exact Int.ediv_nonneg (by omega) (by omega)
      rw [UInt64.toNat_toUInt32, Int64.toNat_toUInt64_of_le hnonneg, ← Int64.toNat_toInt, hdiv,
        min_eq_left (not_lt.mp hge)]
      omega

/-- The wait is planned when nothing is due for another millisecond. -/
theorem plan_planWait {rtNow rtNextAdvise : Int64} (hnow : 0 ≤ rtNow.toInt)
    (hlt : rtNow.toInt + 10000 < rtNextAdvise.toInt) :
    Plan rtNow rtNextAdvise (planWait rtNow rtNextAdvise) := by
  have hwait := toNat_planWait hnow (by omega : rtNow.toInt ≤ rtNextAdvise.toInt)
  have hlong : planWait rtNow rtNextAdvise = infinite ↔
      (planWait rtNow rtNextAdvise).toNat = 2 ^ 32 - 1 := UInt32.toNat_inj.symm
  have hrange := (planWait rtNow rtNextAdvise).toNat_lt
  exact
    { endless := fun h => by
        have := hlong.mp h
        omega
      pos := by omega
      early := fun h => by
        have := mt hlong.mpr h
        omega
      punctual := fun h => by
        have := mt hlong.mpr h
        omega }

/-! ## From one `Advise` to the next -/

/-- While the thread is about to wait and its event is not set, all that is pending is due by
the time the wait is planned for. -/
structure Planned (s : AdviseClock) (g : Option Int64) (es : List (Entry Advisee)) : Prop where
  pending : s.schedule.Pending es
  ahead : s.pc.Idle → s.schedule.ev = false →
    ∀ e ∈ es, g.isSome ∧ s.rtNextAdvise.toInt ≤ e.time
  first : g = none → s.dwWait = infinite
  plan : ∀ rtNow, g = some rtNow → 0 ≤ rtNow.toInt → Plan rtNow s.rtNextAdvise s.dwWait

/-- Any step but `Advise` leaves the plan alone, and only the thread takes the event. -/
structure Waits (s t : AdviseClock) : Prop where
  rtNextAdvise : t.rtNextAdvise = s.rtNextAdvise
  dwWait : t.dwWait = s.dwWait
  ev : t.pc.Idle → s.pc.Idle ∧ (t.schedule.ev = false → s.schedule.ev = false)

theorem Waits.of_pc (hnext : t.rtNextAdvise = s.rtNextAdvise) (hwait : t.dwWait = s.dwWait)
    (hpc : t.pc = s.pc) (hev : t.schedule.ev = false → s.schedule.ev = false) : Waits s t where
  rtNextAdvise := hnext
  dwWait := hwait
  ev hidle := ⟨hpc ▸ hidle, hev⟩

theorem waits_of_threadStep {x : Turn} (hpc : ∀ rtNow, s.pc ≠ .advise rtNow)
    (hstep : s.threadStep x = some t) : Waits s t := by
  cases statement_of_threadStep hstep with
  | testAbort hs => exact ⟨rfl, rfl, fun _ => ⟨.inl hs, id⟩⟩
  | signalled | timedOut | getPrivateTime =>
      exact ⟨rfl, rfl, fun hidle => absurd hidle (by simp [AdvisePc.Idle])⟩
  | woken =>
      refine ⟨rfl, rfl, fun hidle => absurd hidle ?_⟩
      cases s.bAbort <;> simp [AdvisePc.Idle]
  | advise hs => exact absurd hs (hpc _)

theorem waits_setTimeDelta (delta : Int64) : Waits s (s.setTimeDelta delta) := by
  by_cases h : 5000 < delta ∧ 0 < s.schedule.getAdviseCount
  · exact .of_pc (by simp [setTimeDelta, h, triggerThread]) (by simp [setTimeDelta, h, triggerThread])
      (by simp [setTimeDelta, h, triggerThread]) (by simp [setTimeDelta, h, triggerThread])
  · exact .of_pc (by simp [setTimeDelta, h]) (by simp [setTimeDelta, h]) (by simp [setTimeDelta, h])
      (by simp [setTimeDelta, h])

theorem waits_of_destroy (h : s.destroy = some t) : Waits s t := by
  obtain ⟨-, rfl⟩ | ⟨-, rfl⟩ | ⟨-, -, rfl⟩ := destroy_cases h
  · exact .of_pc rfl rfl rfl id
  · exact .of_pc rfl rfl rfl nofun
  · exact .of_pc rfl rfl rfl id

/-- A step that asks for nothing, withdraws nothing and is not `Advise`. -/
theorem waits_of_next {a : Label} (ha : a.request (s.schedule.nextCookie + 1) = none)
    (hneutral : a.Neutral s) (hnext : s.next p a = some t) : Waits s t := by
  have hself : Waits s s := .of_pc rfl rfl rfl id
  cases a with
  | thread x => exact waits_of_threadStep hneutral hnext
  | unadvise cookie => cases hneutral
  | destroy => exact waits_of_destroy hnext
  | adviseTime b u h =>
      simp only [next, adviseTime_of_refused ha] at hnext
      split at hnext <;> cases hnext
      exact hself
  | advisePeriodic u v h =>
      simp only [next, advisePeriodic_of_refused ha] at hnext
      split at hnext <;> cases hnext
      exact hself
  | getTime dwTime =>
      simp only [next, called] at hnext
      split at hnext <;> cases hnext
      exact .of_pc rfl rfl rfl id
  | setTimeDelta delta =>
      simp only [next, called] at hnext
      split at hnext <;> cases hnext
      exact waits_setTimeDelta delta

theorem Planned.of_waits {b : Bool} (h : Planned s g es) (hw : Waits s t)
    (ht : t.schedule = { s.schedule with ev := b }) : Planned t g es where
  pending := ht ▸ h.pending.setEvent b
  ahead hidle hev e he := by
    obtain ⟨hidle, hev'⟩ := hw.ev hidle
    exact hw.rtNextAdvise ▸ h.ahead hidle (hev' hev) e he
  first hg := hw.dwWait ▸ h.first hg
  plan rtNow hg := hw.dwWait ▸ hw.rtNextAdvise ▸ h.plan rtNow hg

theorem Planned.asked {e : Entry Advisee} {c : AMSchedule} (h : Planned s g es)
    (hc : c.Pending (Agenda.insert e es))
    (hev : c.ev = true ↔ s.schedule.ev = true ∨ ∀ e' ∈ es.head?, e.time ≤ e'.time) :
    Planned { s with schedule := c } g (Agenda.insert e es) where
  pending := hc
  ahead hidle hset a ha := by
    have hset' : c.ev = false := hset
    rw [← Bool.not_eq_true, hev, not_or, Bool.not_eq_true] at hset'
    obtain ⟨hquiet, hbehind⟩ := hset'
    -- A request that comes first would have set the event.
    cases es with
    | nil => exact absurd nofun hbehind
    | cons e' es =>
        have hlt : e'.time < e.time := by simpa using hbehind
        obtain ⟨hg, hle⟩ := h.ahead hidle hquiet e' (by simp)
        rcases List.mem_cons.mp ((Agenda.insert_perm e _).mem_iff.mp ha) with rfl | ha
        · exact ⟨hg, hle.trans hlt.le⟩
        · exact h.ahead hidle hquiet a ha
  first := h.first
  plan := h.plan

theorem Planned.withdrawn {c : AMSchedule} (h : Planned s g es) (hc : c.Pending es')
    (hsub : es'.Sublist es) (hev : c.ev = s.schedule.ev) :
    Planned { s with schedule := c } g es' where
  pending := hc
  ahead hidle hset e he := h.ahead hidle (hev ▸ hset) e (hsub.subset he)
  first := h.first
  plan := h.plan

/-- Nothing that is left is due before `nextTime`. -/
theorem nextTime_le (hs : Agenda.Sorted es) : ∀ e ∈ es, AMSchedule.nextTime es ≤ e.time := by
  cases es with
  | nil => exact nofun
  | cons e es => exact List.forall_mem_cons.mpr ⟨le_rfl, (List.pairwise_cons.mp hs).1⟩

theorem Planned.told {rtNow : Int64} {r : Int64 × List AdvisePacket × AMSchedule}
    {fs : List (Advisee × ℤ)} (h : Planned s g es) (hearly : (AdvisePc.advise rtNow).Early)
    (hr : r.2.2.Pending es') (hfires : Agenda.Fires (rtNow.toInt + 10000) es fs es')
    (hnext : r.1.toInt = AMSchedule.nextTime es') :
    Planned { s with schedule := r.2.2, rtNextAdvise := r.1, dwWait := planWait rtNow r.1,
                     pc := .testAbort } (some rtNow) es' where
  pending := hr
  ahead _ _ e he := ⟨rfl, hnext.trans_le (nextTime_le hr.sorted e he)⟩
  first := nofun
  plan rtNow' heq hnow := by
    obtain rfl := Option.some.inj heq
    refine plan_planWait hnow ?_
    dsimp only
    rw [hnext]
    cases hes : es' with
    | nil =>
        have hmax : maxTime.toInt = 2 ^ 63 - 1 := by decide
        have hlt : rtNow.toInt + 10000 < 2 ^ 62 := hearly
        change _ < maxTime.toInt
        omega
    | cons e es => exact hfires.lt h.pending.sorted e (by simp [hes])

theorem planned_init (h : s.Init) : Planned s none [] where
  pending := h.schedule ▸ AMSchedule.pending_constructed
  ahead _ _ := nofun
  first _ := h.dwWait
  plan := nofun

theorem notePlan_of_neutral {a : Label} (ha : a.Neutral s) : notePlan g s a t = g := by
  cases a with
  | thread x =>
      cases hpc : s.pc with
      | advise rtNow => exact absurd hpc (ha rtNow)
      | _ => simp [notePlan, hpc]
  | _ => rfl

theorem Planned.step {a : Label} (h : Planned s g es) (hg : Sound p s a)
    (hnext : s.next p a = some t) : ∃ es', Planned t (notePlan g s a t) es' := by
  obtain ⟨es', hpending, hout⟩ := exists_outcome h.pending hg hnext
  refine ⟨es', ?_⟩
  cases hout with
  | asked he hcookie hev =>
      cases a with
      | thread x => cases he
      | _ => exact h.asked hpending hev
  | withdrawn hcookie hev => exact h.withdrawn hpending List.eraseP_sublist hev
  | told hpc hr hfires hnext hcookie hev =>
      have hearly : s.pc.Early := hg
      simp only [notePlan, hpc]
      exact h.told (hpc ▸ hearly) hpending hfires hnext
  | kept ha hneutral ht =>
      obtain ⟨b, hb⟩ := ht
      exact notePlan_of_neutral hneutral ▸ h.of_waits (waits_of_next ha hneutral hnext) hb

theorem planned_of_reachable {x : AdviseClock × Option Int64}
    (h : (planning p).ReachableWhere (fun x => Sound p x.1) x) : ∃ es, Planned x.1 x.2 es := by
  refine h.invariant (I := fun x => ∃ es, Planned x.1 x.2 es) (fun x hx => ?_)
    fun x a y hI hg hstep => ?_
  · exact ⟨[], hx.2 ▸ planned_init hx.1⟩
  · obtain ⟨es, hes⟩ := hI
    obtain ⟨t, ht, rfl⟩ := Option.map_eq_some_iff.mp hstep
    exact hes.step hg ht

/-- In whatever order the clock is called and its thread runs, a wait that has been planned at no
negative time does not end at once, nor after the next event, nor more than a millisecond before it;
and as long as the thread is about to wait and its event is not set, no request is due before the
time for which the wait was planned. -/
theorem no_wakeup_lost (p : Platform) (x : AdviseClock × Option Int64)
    (h : (planning p).ReachableWhere (fun x => Sound p x.1) x) :
    (∀ rtNow, x.2 = some rtNow → 0 ≤ rtNow.toInt → Plan rtNow x.1.rtNextAdvise x.1.dwWait) ∧
      (x.2 = none → x.1.dwWait = infinite) ∧
      ∃ ls cs es, x.1.schedule.Spells ls cs [] es ∧
        (x.1.pc.Idle → x.1.schedule.ev = false →
          ∀ e ∈ es, x.2.isSome ∧ x.1.rtNextAdvise.toInt ≤ e.time) := by
  obtain ⟨es, hes⟩ := planned_of_reachable h
  obtain ⟨ls, cs, hspells⟩ := hes.pending.spells
  exact ⟨hes.plan, hes.first, ls, cs, es, hspells, hes.ahead⟩

/-- The thread has been back at 3 milliseconds, and waits 2 milliseconds for the next event. -/
theorem no_wakeup_lost_threeRequests : ∃ x : AdviseClock × Option Int64,
    x.1.dwWait = 2 ∧ Plan 30000 x.1.rtNextAdvise x.1.dwWait ∧
      ∃ ls cs es, x.1.schedule.Spells ls cs [] es ∧
        ∀ e ∈ es, x.1.rtNextAdvise.toInt ≤ e.time := by
  have hrun : (System.exec (System.record (next .x64) notePlan) (fun x => Sound .x64 x.1)
      (started, none) (threeRequests ++ [.thread {}])).any
      fun x => x.1.dwWait = 2 ∧ x.2 = some 30000 ∧ x.1.pc = .wait ∧ x.1.schedule.ev = false := by
    decide +kernel
  have hunplanned : Unplanned (started, none) := ⟨started_init, rfl⟩
  obtain ⟨x, hx, hwait, hnow, hpc, hev⟩ := System.exists_reachableWhere_of_exec _ hunplanned hrun
  obtain ⟨hplan, -, ls, cs, es, hspells, hahead⟩ := no_wakeup_lost .x64 x hx
  exact ⟨x, hwait, hplan _ hnow (by decide), ls, cs, es, hspells,
    fun e he => (hahead (.inr hpc) hev e he).2⟩

end AdviseClock

end OpenALRenderer
