import OpenALRenderer.Verification.Clock.Packets

/-! # `Advise` fires the agenda

Round by round the loop of `Advise` does what firing the agenda does, as long as no time of an event
overflows. -/

namespace OpenALRenderer.AMSchedule

open Foundation

variable {s t : AMSchedule} {ls cs : List PacketLink} {es es' : List (Entry Advisee)}
variable {x : PacketLink} {e : Entry Advisee} {rtTime : Int64}

/-- When the next entry is due; `MAX_TIME` is never. -/
def nextTime (es : List (Entry Advisee)) : ℤ := (es.head?.map Entry.time).getD maxTime.toInt

/-- The packet behind the head. -/
theorem Spells.first (h : s.Spells (x :: ls) cs [] (e :: es)) : ∃ c packet, s.heap .head = some c ∧
    c.next = some x ∧ s.heap x = some packet ∧ packet.content.entry = e ∧
      isZ packet = false := by
  obtain ⟨-, c, hc, hrest⟩ := Heap.path_cons.mp h.path
  obtain ⟨hnext, packet, hpacket, -⟩ := Heap.path_cons.mp hrest
  have hread := (reads_cons.mp h.entries).1
  rw [Heap.content, hpacket] at hread
  refine ⟨c, packet, hc, hnext, hpacket, Option.some.inj hread, Bool.eq_false_iff.mpr fun hz => ?_⟩
  exact h.sentry_notMem (by simp [(h.isZ_iff (by simp) hpacket).mp hz])

/-- Nothing is due: the loop ends. -/
theorem Spells.adviseHead_idle (h : s.Spells ls cs [] es)
    (hidle : ∀ e ∈ es.head?, rtTime.toInt < e.time) :
    ∃ t, s.adviseHead rtTime = some (.inl t) ∧ t.toInt = nextTime es := by
  cases es with
  | nil =>
      obtain rfl : ls = [] := List.eq_nil_of_length_eq_zero h.entries.length_eq.symm
      obtain ⟨-, c, hc, hrest⟩ := Heap.path_cons.mp h.path
      obtain ⟨hnext, z, hz, -⟩ := Heap.path_cons.mp hrest
      have hlast := (h.isZ_iff (by simp) hz).mpr rfl
      refine ⟨z.content.eventTime, by simp [adviseHead, hc, hnext, hz, hlast], ?_⟩
      rw [h.sentry_time hz]
      rfl
  | cons e es =>
      cases ls with
      | nil => cases reads_nil.mp h.entries
      | cons x ls =>
          obtain ⟨c, packet, hc, hnext, hpacket, rfl, -⟩ := h.first
          have hlt : ¬ packet.content.eventTime ≤ rtTime := fun hle =>
            absurd (hidle _ rfl) (not_lt.mpr (Int64.le_iff_toInt_le.mp hle))
          exact ⟨packet.content.eventTime, by simp [adviseHead, hc, hnext, hpacket, hlt], rfl⟩

/-- An entry that is due once is fired, and leaves the agenda. -/
theorem Spells.adviseHead_once (h : s.Spells ls cs [] (e :: es)) (hdue : e.time ≤ rtTime.toInt)
    (hp : e.period = none) :
    ∃ packet t ls' cs', s.adviseHead rtTime = some (.inr (packet, t)) ∧ packet.entry = e ∧
      t.Spells ls' cs' [] es ∧ t.nextCookie = s.nextCookie ∧ t.ev = s.ev ∧
      t.adviseCount = s.adviseCount - 1 := by
  cases ls with
  | nil => cases reads_nil.mp h.entries
  | cons x ls =>
      obtain ⟨c, packet, hc, hnext, hpacket, rfl, hnotz⟩ := h.first
      have hle : packet.content.eventTime ≤ rtTime := Int64.le_iff_toInt_le.mpr hdue
      have hperiodic : packet.content.periodic = false := by
        by_contra hne
        simp [AdvisePacket.entry, hne] at hp
      have hnil : Reads s.heap [] [] := rfl
      obtain ⟨heap, hremove, hs⟩ := Spells.removeNext (k := []) h hnil (reads_cons.mp h.entries).2 rfl
      obtain ⟨t, cs', hdelete, ht, hcookie, hcount, hev⟩ :=
        (hs.congr (t := { s with heap := heap, adviseCount := s.adviseCount - 1 })
          rfl rfl rfl rfl).exists_delete
      refine ⟨packet.content, t, ls, cs', ?_, rfl, ht, hcookie, hev, hcount⟩
      simp [adviseHead, hc, hnext, hpacket, hle, hnotz, hperiodic, hremove, hdelete]

theorem toInt_add_of_lt {a b : Int64} (hpos : 0 < b.toInt)
    (hmax : a.toInt + b.toInt < maxTime.toInt) : (a + b).toInt = a.toInt + b.toInt := by
  have hlow := a.le_toInt
  have hhigh : maxTime.toInt = 2 ^ 63 - 1 := by decide
  rw [Int64.toInt_add]
  exact Int.bmod_eq_of_le (by omega) (by omega)

/-- The entry at the head is put off by a period. -/
theorem Spells.exists_later {p : ℤ} {c : Cell PacketLink AdvisePacket}
    (h : s.Spells (x :: ls) cs [] (e :: es)) (hc : s.heap x = some c) (hp : e.period = some p)
    (hpos : 0 < p) (hmax : e.time + p < maxTime.toInt) :
    ∃ heap, s.heap.write x c.content.postpone = some heap ∧
      { s with heap := heap }.Spells (x :: ls) cs [] (e.later p :: es) := by
  obtain ⟨heap, hwrite, hpaths, hcontent, hframe, hlive⟩ :=
    Heap.exists_write (by rw [hc]; rfl : (s.heap x).isSome) c.content.postpone
  have hnot : x ∉ ls ++ [.z] := (List.nodup_cons.mp (List.nodup_cons.mp h.nodup_path).2).1
  rw [List.mem_append, List.mem_singleton, not_or] at hnot
  refine ⟨heap, hwrite, ?_⟩
  refine h.transfer (hpaths _ _ _ h.path) (hpaths _ _ _ h.cache) (.refl _) hlive
    (hframe .z (Ne.symm hnot.2)) rfl h.cacheCount h.cached (reads_cons.mpr ⟨?_, ?_⟩)
  · have hread := (reads_cons.mp h.entries).1
    rw [Heap.content, hc] at hread
    obtain rfl := Option.some.inj hread
    have hperiodic : c.content.periodic = true := by
      by_contra hne
      simp [AdvisePacket.entry, hne] at hp
    obtain rfl : c.content.period.toInt = p := by
      simpa [AdvisePacket.entry, hperiodic] using hp
    have hadd : (c.content.eventTime + c.content.period).toInt =
        c.content.eventTime.toInt + c.content.period.toInt := toInt_add_of_lt hpos hmax
    rw [hcontent]
    simp only [Option.map_some, Option.some.injEq, AdvisePacket.entry, Entry.later, AdvisePacket.postpone, hadd]
    rfl
  · exact (reads_cons.mp h.entries).2.congr fun a ha => hframe a (ne_of_mem_of_not_mem ha hnot.1)

/-- An entry with a period is fired, and goes back to its place. -/
theorem Spells.adviseHead_again {p : ℤ} (h : s.Spells ls cs [] (e :: es))
    (hdue : e.time ≤ rtTime.toInt) (hp : e.period = some p) (hpos : 0 < p)
    (hmax : rtTime.toInt + p < maxTime.toInt) :
    ∃ packet t ls', s.adviseHead rtTime = some (.inr (packet, t)) ∧ packet.entry = e ∧
      t.Spells ls' cs [] (Agenda.requeue (e.later p) es) ∧ t.nextCookie = s.nextCookie ∧
      t.ev = s.ev ∧ t.adviseCount = s.adviseCount := by
  cases ls with
  | nil => cases reads_nil.mp h.entries
  | cons x ls =>
      obtain ⟨c, packet, hc, hnext, hpacket, rfl, hnotz⟩ := h.first
      have hle : packet.content.eventTime ≤ rtTime := Int64.le_iff_toInt_le.mpr hdue
      have hperiodic : packet.content.periodic = true := by
        by_contra hne
        simp [AdvisePacket.entry, hne] at hp
      obtain ⟨heap, hwrite, hs⟩ := h.exists_later hpacket hp hpos (by omega)
      obtain ⟨t, ls', hshunt, ht, hcookie, hcount, hev⟩ :=
        hs.exists_shuntHead (by rw [Entry.later_time]; omega)
      refine ⟨packet.content, t, ls', ?_, rfl, ht, hcookie, hev, hcount⟩
      simp [adviseHead, hc, hnext, hpacket, hle, hnotz, hperiodic, hwrite, hshunt]

/-! ## The loop -/

/-- The count of the advises is that of the entries, as a `DWORD`. -/
def Counts (s : AMSchedule) (es : List (Entry Advisee)) : Prop :=
  s.adviseCount = UInt32.ofNat es.length

theorem Counts.cons (h : s.Counts es) (ht : t.adviseCount = s.adviseCount + 1)
    (hlength : es'.length = es.length + 1) : t.Counts es' := by
  rw [Counts, ht, h, hlength, UInt32.ofNat_add]
  rfl

theorem Counts.tail (h : s.Counts es) (ht : t.adviseCount = s.adviseCount - 1)
    (hlength : es.length = es'.length + 1) : t.Counts es' := by
  rw [Counts, ht, h, hlength, UInt32.ofNat_add]
  exact UInt32.add_sub_cancel _ _

/-- No time of an event overflows up to `T`. -/
def Fits (T : ℤ) (es : List (Entry Advisee)) : Prop :=
  ∀ e ∈ es, ∀ p, e.period = some p → T + p < maxTime.toInt

theorem Fits.requeue {T p : ℤ} (h : Fits T (e :: es)) : Fits T (Agenda.requeue (e.later p) es) := by
  intro a ha
  rcases List.mem_cons.mp ((Agenda.requeue_perm _ es).mem_iff.mp ha) with rfl | ha
  · exact h e (by simp)
  · exact h a (by simp [ha])

/-- `Advise` fires the agenda, and returns the time of the next event. -/
theorem Spells.exists_advise {fs : List (Advisee × ℤ)} (h : s.Spells ls cs [] es)
    (hfires : Agenda.Fires rtTime.toInt es fs es') (hreg : Agenda.Regular es)
    (hfits : Fits rtTime.toInt es) (hcounts : s.Counts es) :
    ∃ n next fired t ls' cs', s.advise rtTime n = some (next, fired, t) ∧
      next.toInt = nextTime es' ∧ fired.map AdvisePacket.firing = fs ∧
      t.Spells ls' cs' [] es' ∧ t.Counts es' ∧ t.nextCookie = s.nextCookie ∧ t.ev = s.ev := by
  induction hfires generalizing s ls cs with
  | idle es hidle =>
      obtain ⟨next, hhead, hnext⟩ := h.adviseHead_idle hidle
      exact ⟨1, next, [], s, ls, cs, by simp [advise, hhead], hnext, rfl, h, hcounts, rfl, rfl⟩
  | @once e es fs es' hdue hp _ ih =>
      obtain ⟨packet, t, ls', cs', hhead, rfl, ht, hcookie, hev, hcount⟩ :=
        h.adviseHead_once hdue hp
      obtain ⟨n, next, fired, u, ls'', cs'', hrest, hnext, hfired, hu, hcounts', hcookie', hev'⟩ :=
        ih ht hreg.tail (fun a ha => hfits a (by simp [ha])) (hcounts.tail hcount rfl)
      exact ⟨n + 1, next, packet :: fired, u, ls'', cs'', by simp [advise, hhead, hrest], hnext,
        by rw [List.map_cons, hfired]; rfl, hu, hcounts', hcookie'.trans hcookie, hev'.trans hev⟩
  | @again e p es fs es' hdue hp _ ih =>
      have hpos := hreg e (by simp) p hp
      obtain ⟨packet, t, ls', hhead, rfl, ht, hcookie, hev, hcount⟩ :=
        h.adviseHead_again hdue hp hpos (hfits e (by simp) p hp)
      have hlength := (Agenda.requeue_perm (packet.entry.later p) es).length_eq
      obtain ⟨n, next, fired, u, ls'', cs'', hrest, hnext, hfired, hu, hcounts', hcookie', hev'⟩ :=
        ih ht hreg.requeue hfits.requeue (by rw [Counts, hcount, hlength]; exact hcounts)
      exact ⟨n + 1, next, packet :: fired, u, ls'', cs'', by simp [advise, hhead, hrest], hnext,
        by rw [List.map_cons, hfired]; rfl, hu, hcounts', hcookie'.trans hcookie, hev'.trans hev⟩

/-- More rounds change nothing. -/
theorem advise_add {n : ℕ} {r : Int64 × List AdvisePacket × AMSchedule}
    (h : s.advise rtTime n = some r) (k : ℕ) : s.advise rtTime (n + k) = some r := by
  induction n generalizing s r with
  | zero => cases h
  | succ n ih =>
      rw [Nat.succ_add]
      simp only [advise, Option.bind_eq_bind, Option.bind_eq_some_iff] at h ⊢
      obtain ⟨x, hx, hrest⟩ := h
      refine ⟨x, hx, ?_⟩
      cases x with
      | inl next => exact hrest
      | inr x =>
          obtain ⟨q, hq, rfl⟩ := Option.map_eq_some_iff.mp hrest
          simp [ih hq]

theorem advise_unique {n m : ℕ} {r q : Int64 × List AdvisePacket × AMSchedule}
    (h : s.advise rtTime n = some r) (h' : s.advise rtTime m = some q) : r = q := by
  have hn := advise_add h m
  rw [Nat.add_comm, advise_add h' n] at hn
  exact (Option.some.inj hn).symm

end OpenALRenderer.AMSchedule
