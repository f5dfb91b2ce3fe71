import OpenALRenderer.Verification.Clock.Pending

/-! # Notifications over a whole run

Each request that has been accepted is remembered together with the latest time that `Advise` has
been told while it stood, and each notification with the time it was due. -/

namespace OpenALRenderer

open Foundation

/-- A request that has been accepted. -/
structure Asked where
  entry : Entry Advisee
  told : Option ℤ := none
  withdrawn : Bool := false
  deriving DecidableEq

namespace Asked

def cookie (r : Asked) : ℕ := r.entry.item.cookie

/-- The times at which it was due. -/
def due (r : Asked) : List ℤ := (r.told.map fun T => r.entry.due T).getD []

/-- What is left of it. -/
def left (r : Asked) : Option (Entry Advisee) :=
  if r.withdrawn then none
  else match r.told with
    | none => some r.entry
    | some T => r.entry.after T

/-- `Advise` is told the time. -/
def tell (T : ℤ) (r : Asked) : Asked :=
  if r.withdrawn then r else { r with told := some ((r.told.map (max · T)).getD T) }

/-- `Unadvise` is called with the cookie. -/
def withdraw (cookie : ℕ) (r : Asked) : Asked :=
  if r.cookie = cookie then { r with withdrawn := true } else r

@[simp] theorem tell_entry (T : ℤ) (r : Asked) : (r.tell T).entry = r.entry := by
  unfold tell
  split <;> rfl

@[simp] theorem withdraw_entry (cookie : ℕ) (r : Asked) :
    (r.withdraw cookie).entry = r.entry := by
  unfold withdraw
  split <;> rfl

@[simp] theorem withdraw_told (cookie : ℕ) (r : Asked) : (r.withdraw cookie).told = r.told := by
  unfold withdraw
  split <;> rfl

variable {r : Asked} {T : ℤ} {e : Entry Advisee}

theorem item_of_left (hr : r.entry.Regular) (h : r.left = some e) : e.item = r.entry.item := by
  unfold left at h
  split at h
  · cases h
  · split at h
    · obtain rfl := Option.some.inj h
      rfl
    · exact (Entry.lt_of_after hr e h).2.1

theorem left_withdraw (hr : r.entry.Regular) (cookie : ℕ) : (r.withdraw cookie).left =
    r.left.filter fun e => !(e.item.cookie == cookie) := by
  cases h : r.left with
  | none =>
      unfold withdraw
      split
      · rfl
      · exact h
  | some e =>
      have hitem : e.item.cookie = r.cookie := congrArg Advisee.cookie (item_of_left hr h)
      unfold withdraw
      split
      · next hcookie => simp [left, Option.filter_some, hitem, hcookie]
      · next hcookie => simp [h, Option.filter_some, hitem, hcookie]

/-- What is left after a time that is told is what is left of the rest. -/
theorem left_tell (hr : r.entry.Regular) : (r.tell T).left = r.left.bind (Entry.after T) := by
  cases hw : r.withdrawn with
  | true => simp [tell, left, hw]
  | false =>
      cases ht : r.told with
      | none => simp [tell, left, hw, ht]
      | some S =>
          rcases le_total S T with hle | hle
          · simp [tell, left, hw, ht, max_eq_right hle, Entry.after_after hr hle]
          · cases hafter : r.entry.after S with
            | none => simp [tell, left, hw, ht, max_eq_left hle, hafter]
            | some e =>
                have hlt := hle.trans_lt (Entry.lt_of_after hr e hafter).1
                simp [tell, left, hw, ht, max_eq_left hle, hafter, Entry.after_of_lt hlt]

/-- The times at which it was due, and then those of what was left of it. -/
theorem due_tell (hr : r.entry.Regular) :
    (r.tell T).due = r.due ++ (r.left.map (Entry.due T)).getD [] := by
  cases hw : r.withdrawn with
  | true => simp [tell, left, hw]
  | false =>
      cases ht : r.told with
      | none => simp [tell, left, due, hw, ht]
      | some S =>
          rcases le_total S T with hle | hle
          · simp [tell, left, due, hw, ht, max_eq_right hle, Entry.due_append hr hle]
          · cases hafter : r.entry.after S with
            | none => simp [tell, left, due, hw, ht, max_eq_left hle, hafter]
            | some e =>
                have hlt := hle.trans_lt (Entry.lt_of_after hr e hafter).1
                simp [tell, left, due, hw, ht, max_eq_left hle, hafter, Entry.due_of_lt hlt]

end Asked

/-- What has been asked for, and who has been notified of which times. -/
structure Advices where
  asked : List Asked := []
  fired : List (Advisee × ℤ) := []
  deriving DecidableEq

namespace AdviseClock

variable {p : Platform} {s t : AdviseClock} {g : Advices} {es es' : List (Entry Advisee)}

def note (g : Advices) (s : AdviseClock) (a : Label) (_ : AdviseClock) : Advices :=
  match a, s.pc with
  | .thread x, .advise rtNow =>
      match s.schedule.advise (10000 + rtNow) x.rounds with
      | some r =>
          { asked := g.asked.map (Asked.tell (rtNow.toInt + 10000))
            fired := g.fired ++ r.2.1.map AdvisePacket.firing }
      | none => g
  | .unadvise cookie, _ => { g with asked := g.asked.map (Asked.withdraw cookie) }
  | a, _ =>
      match a.request (s.schedule.nextCookie + 1) with
      | some e => { g with asked := g.asked ++ [{ entry := e }] }
      | none => g

/-- Nothing has been asked of the clock. -/
def Opens (x : AdviseClock × Advices) : Prop := x.1.Init ∧ x.2 = {}

/-- The clock with what has been asked of it. -/
def advising (p : Platform) : System (AdviseClock × Advices) Label :=
  .ofNext Opens (System.record (next p) note)

/-- What has been asked is notified when it is due, and pending as long as it can be due. -/
structure Kept (s : AdviseClock) (g : Advices) (es : List (Entry Advisee)) : Prop where
  pending : s.schedule.Pending es
  left : es.Perm (g.asked.filterMap Asked.left)
  fired : ∀ r ∈ g.asked, Agenda.firings r.entry.item g.fired = r.due
  only : ∀ f ∈ g.fired, ∃ r ∈ g.asked, f.1 = r.entry.item
  regular : ∀ r ∈ g.asked, r.entry.Regular
  issued : ∀ r ∈ g.asked, r.cookie ≤ s.schedule.nextCookie
  nodup : (g.asked.map Asked.cookie).Nodup

theorem note_asked {a : Label} {e : Entry Advisee}
    (he : a.request (s.schedule.nextCookie + 1) = some e) :
    note g s a t = { g with asked := g.asked ++ [{ entry := e }] } := by
  cases a with
  | adviseTime b u h | advisePeriodic b u h => simp [note, he]
  | _ => cases he

theorem note_told {x : Turn} {rtNow : Int64} {r : Int64 × List AdvisePacket × AMSchedule}
    (hpc : s.pc = .advise rtNow) (hr : s.schedule.advise (10000 + rtNow) x.rounds = some r) :
    note g s (.thread x) t =
      { asked := g.asked.map (Asked.tell (rtNow.toInt + 10000))
        fired := g.fired ++ r.2.1.map AdvisePacket.firing } := by
  simp [note, hpc, hr]

theorem note_kept {a : Label} (ha : a.request (s.schedule.nextCookie + 1) = none)
    (hneutral : a.Neutral s) : note g s a t = g := by
  cases a with
  | adviseTime b u h | advisePeriodic b u h => simp [note, ha]
  | unadvise cookie => cases hneutral
  | thread x =>
      cases hpc : s.pc with
      | advise rtNow => exact absurd hpc (hneutral rtNow)
      | _ => simp [note, hpc, Label.request]
  | _ => rfl

/-- A request is given the next cookie. -/
theorem cookie_of_request {a : Label} {cookie : ℕ} {e : Entry Advisee}
    (he : a.request cookie = some e) : e.item.cookie = cookie := by
  cases a with
  | adviseTime b u h | advisePeriodic b u h =>
      simp only [Label.request] at he
      split at he
      all_goals cases he
      rfl
  | _ => cases he

theorem Kept.asked {a : Label} {e : Entry Advisee} {c : AMSchedule} (h : Kept s g es)
    (hc : c.Pending (Agenda.insert e es)) (he : a.request (s.schedule.nextCookie + 1) = some e)
    (hcookie : c.nextCookie = s.schedule.nextCookie + 1) :
    Kept { s with schedule := c } { g with asked := g.asked ++ [{ entry := e }] }
      (Agenda.insert e es) := by
  have hitem := cookie_of_request he
  have hnew : ∀ r ∈ g.asked, r.entry.item ≠ e.item := fun r hr heq => by
    have hissued : r.entry.item.cookie ≤ s.schedule.nextCookie := h.issued r hr
    rw [heq, hitem] at hissued
    exact Nat.not_succ_le_self _ hissued
  have hperm := Agenda.insert_perm e es
  have hforall : ∀ {P : Asked → Prop}, (∀ r ∈ g.asked, P r) → P { entry := e } →
      ∀ r ∈ g.asked ++ [{ entry := e }], P r := fun hold hlast r hr => by
    rcases List.mem_append.mp hr with hr | hr
    · exact hold r hr
    · exact List.mem_singleton.mp hr ▸ hlast
  exact
    { pending := hc
      left := by
        refine hperm.trans ?_
        rw [List.filterMap_append]
        exact (h.left.cons e).trans (List.perm_append_singleton e _).symm
      fired := hforall h.fired <| by
        have hnone : g.fired.filter (fun f => f.1 = e.item) = [] :=
          List.filter_eq_nil_iff.mpr fun f hf heq => by
            obtain ⟨r, hr, hfr⟩ := h.only f hf
            exact hnew r hr (hfr.symm.trans (of_decide_eq_true heq))
        simp [Agenda.firings, hnone, Asked.due]
      only := fun f hf => by
        obtain ⟨r, hr, hfr⟩ := h.only f hf
        exact ⟨r, by simp [hr], hfr⟩
      regular := hforall h.regular (hc.regular e (hperm.mem_iff.mpr (by simp)))
      issued := hforall (fun r hr => by
          have hle := h.issued r hr
          dsimp only
          omega) (by
          change e.item.cookie ≤ c.nextCookie
          omega)
      nodup := by
        rw [List.map_append, List.nodup_append]
        refine ⟨h.nodup, List.nodup_singleton _, ?_⟩
        rintro c₁ hc₁ c₂ hc₂ rfl
        obtain ⟨r, hr, rfl⟩ := List.mem_map.mp hc₁
        have hle := h.issued r hr
        have heq : r.cookie = e.item.cookie := by simpa [Asked.cookie] using hc₂
        omega }

/-- With a cookie of its own, at most one entry is erased. -/
theorem eraseP_eq_filter (hnodup : (es.map fun e => e.item.cookie).Nodup) (cookie : ℕ) :
    (es.eraseP fun e => e.item.cookie == cookie) =
      es.filter fun e => !(e.item.cookie == cookie) := by
  induction es with
  | nil => rfl
  | cons e es ih =>
      obtain ⟨hne, hrest⟩ := List.nodup_cons.mp hnodup
      by_cases heq : e.item.cookie = cookie
      · have hall : ∀ e' ∈ es, (!(e'.item.cookie == cookie)) = true := fun e' he' => by
          have hne' : e'.item.cookie ≠ cookie := fun heq' =>
            hne (List.mem_map.mpr ⟨e', he', heq'.trans heq.symm⟩)
          simp [hne']
        rw [List.eraseP_cons_of_pos (by simp [heq]), List.filter_cons_of_neg (by simp [heq]),
          List.filter_eq_self.mpr hall]
      · rw [List.eraseP_cons_of_neg (by simp [heq]), List.filter_cons_of_pos (by simp [heq]),
          ih hrest]

theorem Kept.withdrawn {cookie : ℕ} {c : AMSchedule} (h : Kept s g es)
    (hc : c.Pending (es.eraseP fun e => e.item.cookie == cookie))
    (hcookie : c.nextCookie = s.schedule.nextCookie) :
    Kept { s with schedule := c } { g with asked := g.asked.map (Asked.withdraw cookie) }
      (es.eraseP fun e => e.item.cookie == cookie) where
  pending := hc
  left := by
    rw [eraseP_eq_filter h.pending.nodup, List.filterMap_map]
    refine (h.left.filter _).trans (List.Perm.of_eq ?_)
    rw [List.filter_filterMap]
    exact List.filterMap_congr fun r hr => (Asked.left_withdraw (h.regular r hr) cookie).symm
  fired := List.forall_mem_map.mpr fun r hr => by simpa [Asked.due] using h.fired r hr
  only f hf := by
    obtain ⟨r, hr, hfr⟩ := h.only f hf
    exact ⟨r.withdraw cookie, List.mem_map_of_mem hr, by simpa using hfr⟩
  regular := List.forall_mem_map.mpr fun r hr => by simpa using h.regular r hr
  issued := List.forall_mem_map.mpr fun r hr => by
    simpa [Asked.cookie, hcookie] using h.issued r hr
  nodup := by
    rw [List.map_map, List.map_congr_left (g := Asked.cookie) fun r _ => by simp [Asked.cookie]]
    exact h.nodup

/-- What is left of a request is the only entry with its item. -/
theorem Kept.left_unique (h : Kept s g es) {r : Asked} {e : Entry Advisee} (hr : r ∈ g.asked)
    (he : e ∈ es) (hitem : e.item = r.entry.item) : r.left = some e := by
  obtain ⟨q, hq, hleft⟩ := List.mem_filterMap.mp (h.left.mem_iff.mp he)
  have hcookie : q.cookie = r.cookie :=
    congrArg Advisee.cookie ((Asked.item_of_left (h.regular q hq) hleft).symm.trans hitem)
  exact List.inj_on_of_nodup_map h.nodup hq hr hcookie ▸ hleft

/-- What is fired of a request is what is due of what was left of it. -/
theorem Kept.firings {T : ℤ} {fs : List (Advisee × ℤ)} (h : Kept s g es)
    (hfires : Agenda.Fires T es fs es') {r : Asked} (hr : r ∈ g.asked) :
    Agenda.firings r.entry.item fs = (r.left.map (Entry.due T)).getD [] := by
  have hitems : (es.map Entry.item).Nodup := List.Nodup.of_map Advisee.cookie (by
    rw [List.map_map]
    exact h.pending.nodup)
  cases hleft : r.left with
  | some e =>
      have he : e ∈ es := h.left.mem_iff.mpr (List.mem_filterMap.mpr ⟨r, hr, hleft⟩)
      rw [← Asked.item_of_left (h.regular r hr) hleft]
      exact hfires.firings_of_mem h.pending.sorted h.pending.regular hitems he
  | none =>
      refine hfires.firings_of_notMem fun hmem => ?_
      obtain ⟨e, he, hitem⟩ := List.mem_map.mp hmem
      cases hleft.symm.trans (h.left_unique hr he hitem)

theorem Kept.told {T : ℤ} {fs : List (Advisee × ℤ)} (h : Kept s g es)
    (hfires : Agenda.Fires T es fs es') (ht : t.schedule.Pending es')
    (hcookie : t.schedule.nextCookie = s.schedule.nextCookie) :
    Kept t { asked := g.asked.map (Asked.tell T), fired := g.fired ++ fs } es' where
  pending := ht
  left := by
    rw [List.filterMap_map]
    refine (hfires.left h.pending.sorted h.pending.regular).trans ((h.left.filterMap _).trans ?_)
    rw [List.filterMap_filterMap]
    exact List.Perm.of_eq
      (List.filterMap_congr fun r hr => (Asked.left_tell (h.regular r hr)).symm)
  fired := List.forall_mem_map.mpr fun r hr => by
    rw [Asked.tell_entry, Agenda.firings_append, h.fired r hr, h.firings hfires hr,
      Asked.due_tell (h.regular r hr)]
  only f hf := by
    rcases List.mem_append.mp hf with hf | hf
    · obtain ⟨r, hr, hfr⟩ := h.only f hf
      exact ⟨r.tell T, List.mem_map_of_mem hr, by simpa using hfr⟩
    · obtain ⟨e, he, hitem⟩ := List.mem_map.mp (hfires.item_mem hf)
      obtain ⟨q, hq, hleft⟩ := List.mem_filterMap.mp (h.left.mem_iff.mp he)
      refine ⟨q.tell T, List.mem_map_of_mem hq, ?_⟩
      rw [Asked.tell_entry, ← Asked.item_of_left (h.regular q hq) hleft, hitem]
  regular := List.forall_mem_map.mpr fun r hr => by simpa using h.regular r hr
  issued := List.forall_mem_map.mpr fun r hr => by
    simpa [Asked.cookie, hcookie] using h.issued r hr
  nodup := by
    rw [List.map_map, List.map_congr_left (g := Asked.cookie) fun r _ => by simp [Asked.cookie]]
    exact h.nodup

theorem Kept.of_schedule {b : Bool} (h : Kept s g es)
    (ht : t.schedule = { s.schedule with ev := b }) : Kept t g es :=
  { h with
    pending := ht ▸ h.pending.setEvent b
    issued := fun r hr => by simpa [ht] using h.issued r hr }

theorem kept_init (h : s.Init) : Kept s {} [] where
  pending := h.schedule ▸ AMSchedule.pending_constructed
  left := .refl _
  fired := nofun
  only := nofun
  regular := nofun
  issued := nofun
  nodup := List.nodup_nil

/-- What a step does to what is kept. -/
theorem Kept.step {a : Label} (h : Kept s g es) (hg : Sound p s a)
    (hnext : s.next p a = some t) : ∃ es', Kept t (note g s a t) es' ∧ Outcome s es a t es' := by
  obtain ⟨es', hpending, hout⟩ := exists_outcome h.pending hg hnext
  refine ⟨es', ?_, hout⟩
  cases hout with
  | asked he hcookie hev => exact note_asked he ▸ h.asked hpending he hcookie
  | withdrawn hcookie hev => exact h.withdrawn hpending hcookie
  | told hpc hr hfires hnext hcookie hev =>
      exact note_told hpc hr ▸ h.told hfires hpending hcookie
  | kept ha hneutral ht =>
      obtain ⟨b, hb⟩ := ht
      exact note_kept ha hneutral ▸ h.of_schedule hb

theorem kept_of_reachable {x : AdviseClock × Advices}
    (h : (advising p).ReachableWhere (fun x => Sound p x.1) x) : ∃ es, Kept x.1 x.2 es := by
  refine h.invariant (I := fun x => ∃ es, Kept x.1 x.2 es) (fun x hx => ?_)
    fun x a y hI hg hstep => ?_
  · exact ⟨[], hx.2 ▸ kept_init hx.1⟩
  · obtain ⟨es, hes⟩ := hI
    obtain ⟨t, ht, rfl⟩ := Option.map_eq_some_iff.mp hstep
    obtain ⟨es', hes', -⟩ := hes.step hg ht
    exact ⟨es', hes'⟩

/-- However the calls and the thread take turns, a request is notified once for each time at which it
was due up to the latest time that `Advise` has been told while it stood, in the order of these
times, and nobody else is notified; what is left of the requests that stand is in memory. -/
theorem notified_when_due (p : Platform) (x : AdviseClock × Advices)
    (h : (advising p).ReachableWhere (fun x => Sound p x.1) x) :
    (∀ r ∈ x.2.asked, Agenda.firings r.entry.item x.2.fired = r.due) ∧
      (∀ f ∈ x.2.fired, ∃ r ∈ x.2.asked, f.1 = r.entry.item ∧ f.2 ∈ r.due) ∧
      ∃ ls cs es, x.1.schedule.Spells ls cs [] es ∧
        es.Perm (x.2.asked.filterMap Asked.left) := by
  obtain ⟨es, hes⟩ := kept_of_reachable h
  obtain ⟨ls, cs, hspells⟩ := hes.pending.spells
  refine ⟨hes.fired, fun f hf => ?_, ls, cs, es, hspells, hes.left⟩
  obtain ⟨r, hr, hfr⟩ := hes.only f hf
  refine ⟨r, hr, hfr, hes.fired r hr ▸ ?_⟩
  exact List.mem_map.mpr ⟨f, List.mem_filter.mpr ⟨hf, by simpa using hfr⟩, rfl⟩

/-- One of the requests is withdrawn, and the thread is back 4 milliseconds later. -/
def backLater : List Label :=
  [.unadvise 1, .thread {}, .thread {}, .thread {}, .thread { dwTime := 7 },
    .thread { rounds := 3 }]

/-- The periodic request has been notified three times, the one that was withdrawn never. -/
theorem notified_when_due_backLater : ∃ x : AdviseClock × Advices,
    x.2.asked.map Asked.due = [[], [20000, 50000, 80000], [10000]] ∧
      ∀ r ∈ x.2.asked, Agenda.firings r.entry.item x.2.fired = r.due := by
  have hrun : (System.exec (System.record (next .x64) note) (fun x => Sound .x64 x.1)
      (started, {}) (threeRequests ++ backLater)).any
      fun x => x.2.asked.map Asked.due = [[], [20000, 50000, 80000], [10000]] := by
    decide +kernel
  have hopens : Opens (started, {}) := ⟨started_init, rfl⟩
  obtain ⟨x, hx, hdue⟩ := System.exists_reachableWhere_of_exec _ hopens hrun
  exact ⟨x, hdue, (notified_when_due .x64 x hx).1⟩

end AdviseClock

end OpenALRenderer
