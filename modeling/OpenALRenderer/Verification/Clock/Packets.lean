import OpenALRenderer.Foundation.Agenda
import OpenALRenderer.Model.Schedule

/-! # The packets of a schedule spell an agenda

Whatever is called, the list between the two members and the list of the cache stay apart, and
between them they hold every packet that is allocated. -/

namespace OpenALRenderer

open Foundation

/-- Whom a packet notifies. -/
structure Advisee where
  cookie : ℕ
  handle : ℕ
  periodic : Bool
  deriving DecidableEq

def AdvisePacket.advisee (x : AdvisePacket) : Advisee := ⟨x.adviseCookie, x.notify, x.periodic⟩

/-- What a packet asks for. -/
def AdvisePacket.entry (x : AdvisePacket) : Entry Advisee where
  item := x.advisee
  time := x.eventTime.toInt
  period := if x.periodic then some x.period.toInt else none

/-- How a packet that notifies shows on an agenda. -/
def AdvisePacket.firing (x : AdvisePacket) : Advisee × ℤ := (x.advisee, x.eventTime.toInt)

namespace AMSchedule

/-- The members, the list, the cache, and the packets in neither. -/
def cells (ls cs xs : List PacketLink) : List PacketLink := .head :: .z :: (ls ++ cs ++ xs)

/-- The packets at `ls` ask for `es`. -/
def Reads (heap : Heap PacketLink AdvisePacket) (ls : List PacketLink)
    (es : List (Entry Advisee)) : Prop :=
  ls.map (fun a => (heap.content a).map AdvisePacket.entry) = es.map some

section Reads

variable {heap : Heap PacketLink AdvisePacket} {ls ls' : List PacketLink} {a : PacketLink}
variable {es es' : List (Entry Advisee)} {e : Entry Advisee}

theorem reads_nil : Reads heap [] es ↔ es = [] := by
  unfold Reads
  rw [List.map_nil, eq_comm, List.map_eq_nil_iff]

theorem reads_cons : Reads heap (a :: ls) (e :: es) ↔
    (heap.content a).map AdvisePacket.entry = some e ∧ Reads heap ls es := by
  unfold Reads
  rw [List.map_cons, List.map_cons, List.cons.injEq]

theorem Reads.append (h : Reads heap ls es) (h' : Reads heap ls' es') :
    Reads heap (ls ++ ls') (es ++ es') := by
  unfold Reads at *
  rw [List.map_append, List.map_append, h, h']

theorem Reads.of_append (h : Reads heap (ls ++ ls') es) :
    ∃ es₁ es₂, es = es₁ ++ es₂ ∧ Reads heap ls es₁ ∧ Reads heap ls' es₂ := by
  unfold Reads at *
  rw [List.map_append] at h
  obtain ⟨es₁, es₂, rfl, h₁, h₂⟩ := List.map_eq_append_iff.mp h.symm
  exact ⟨es₁, es₂, rfl, h₁.symm, h₂.symm⟩

theorem Reads.length_eq (h : Reads heap ls es) : es.length = ls.length := by
  simpa using (congrArg List.length h).symm

theorem Reads.of_mem (h : Reads heap ls es) (he : e ∈ es) :
    ∃ a ∈ ls, ∃ c, heap a = some c ∧ c.content.entry = e := by
  have hmem : some e ∈ ls.map fun a => (heap.content a).map AdvisePacket.entry :=
    h ▸ List.mem_map_of_mem he
  obtain ⟨a, ha, hread⟩ := List.mem_map.mp hmem
  obtain ⟨x, hx, hentry⟩ := Option.map_eq_some_iff.mp hread
  obtain ⟨q, hq⟩ := Heap.content_eq_some hx
  exact ⟨a, ha, ⟨q, x⟩, hq, hentry⟩

end Reads

/-- The list of `s` is `ls` and its cache is `cs`, besides which there are the packets `xs`; the
list spells the entries `es`. -/
structure Spells (s : AMSchedule) (ls cs xs : List PacketLink) (es : List (Entry Advisee)) :
    Prop where
  path : s.heap.Path (some .head) (.head :: (ls ++ [.z])) none
  cache : s.heap.Path s.adviseCache cs none
  nodup : (cells ls cs xs).Nodup
  live : ∀ a, (s.heap a).isSome ↔ a ∈ cells ls cs xs
  created : ∀ n, .allocated n ∈ cells ls cs xs → n < s.created
  cacheCount : s.cacheCount.toNat = cs.length
  cached : cs.length ≤ 5
  sentry : ∃ x, s.heap.content .z = some x ∧ x.eventTime = maxTime
  entries : Reads s.heap ls es

variable {s t : AMSchedule} {ls ls' cs cs' xs : List PacketLink} {es es' : List (Entry Advisee)}
variable {x y prev : PacketLink}

/-- Memory spells two other lists when they hold the same packets. -/
theorem Spells.transfer {ys : List PacketLink} (h : s.Spells ls cs xs es)
    (hpath : t.heap.Path (some .head) (.head :: (ls' ++ [.z])) none)
    (hcache : t.heap.Path t.adviseCache cs' none)
    (hcells : (cells ls' cs' ys).Perm (cells ls cs xs))
    (hlive : ∀ a, (t.heap.content a).isSome = (s.heap.content a).isSome)
    (hsentry : t.heap.content .z = s.heap.content .z) (hcreated : t.created = s.created)
    (hcount : t.cacheCount.toNat = cs'.length) (hcached : cs'.length ≤ 5)
    (hentries : Reads t.heap ls' es') : t.Spells ls' cs' ys es' where
  path := hpath
  cache := hcache
  nodup := hcells.nodup_iff.mpr h.nodup
  live a := by
    have hsome : ∀ heap : Heap PacketLink AdvisePacket,
        (heap a).isSome = (heap.content a).isSome := fun _ => Option.isSome_map.symm
    rw [hsome, hlive, ← hsome, h.live, hcells.mem_iff]
  created n hn := hcreated ▸ h.created n (hcells.mem_iff.mp hn)
  cacheCount := hcount
  cached := hcached
  sentry := hsentry ▸ h.sentry
  entries := hentries

/-- Only the memory and the cache matter. -/
theorem Spells.congr (h : s.Spells ls cs xs es) (hheap : t.heap = s.heap)
    (hcreated : t.created = s.created) (hcache : t.adviseCache = s.adviseCache)
    (hcount : t.cacheCount = s.cacheCount) : t.Spells ls cs xs es := by
  obtain ⟨hpath, hcached, hnodup, hlive, hfresh, hlength, hle, hsentry, hentries⟩ := h
  refine ⟨?_, ?_, hnodup, ?_, ?_, ?_, hle, ?_, ?_⟩
  · rwa [hheap]
  · rwa [hheap, hcache]
  · rwa [hheap]
  · rwa [hcreated]
  · rwa [hcount]
  · rwa [hheap]
  · rwa [hheap]

theorem Reads.congr {heap heap' : Heap PacketLink AdvisePacket} (h : Reads heap ls es)
    (hsame : ∀ a ∈ ls, heap'.content a = heap.content a) : Reads heap' ls es := by
  unfold Reads at *
  rw [← h]
  exact List.map_congr_left fun a ha => by rw [hsame a ha]

/-! ## Allocation -/

theorem cells_perm_cons (ls cs : List PacketLink) (x : PacketLink) :
    (cells ls cs [x]).Perm (x :: cells ls cs []) := by
  rw [List.perm_iff_count]
  intro a
  simp [cells, List.count_append, List.count_cons]
  omega

theorem cells_perm_cache (ls cs : List PacketLink) (x : PacketLink) :
    (cells ls cs [x]).Perm (cells ls (x :: cs) []) := by
  rw [List.perm_iff_count]
  intro a
  simp [cells, List.count_append, List.count_cons]

theorem cells_perm_path (ls cs xs : List PacketLink) :
    (cells ls cs xs).Perm (.head :: (ls ++ [.z]) ++ (cs ++ xs)) := by
  rw [List.perm_iff_count]
  intro a
  simp [cells, List.count_append, List.count_cons]
  omega

theorem Spells.nodup_path (h : s.Spells ls cs xs es) : (.head :: (ls ++ [.z])).Nodup :=
  (List.nodup_append.mp ((cells_perm_path ls cs xs).nodup_iff.mp h.nodup)).1

/-- The cache has nothing in common with the list. -/
theorem Spells.apart (h : s.Spells ls cs xs es) (hx : x ∈ .head :: (ls ++ [.z])) : x ∉ cs :=
  fun hmem => (List.nodup_append.mp ((cells_perm_path ls cs xs).nodup_iff.mp h.nodup)).2.2 x hx x
    (by simp [hmem]) rfl

/-- A packet that is in neither list is no member either. -/
theorem Spells.notMem (h : s.Spells ls cs [x] es) : x ∉ cells ls cs [] :=
  (List.nodup_cons.mp ((cells_perm_cons ls cs x).nodup_iff.mp h.nodup)).1

/-- A packet comes from the cache. -/
theorem Spells.exists_allocate_cached (h : s.Spells ls (x :: cs) [] es) :
    ∃ t, s.allocate = some (x, t) ∧ t.Spells ls cs [x] es ∧ t.nextCookie = s.nextCookie ∧
      t.adviseCount = s.adviseCount ∧ t.ev = s.ev := by
  obtain ⟨hx, c, hc, hrest⟩ := Heap.path_cons.mp h.cache
  have hcount := h.cacheCount
  have hcached := h.cached
  rw [List.length_cons] at hcount hcached
  refine ⟨{ s with adviseCache := c.next, cacheCount := s.cacheCount - 1 }, ?_, ?_, rfl, rfl, rfl⟩
  · rw [allocate, hx]
    simp only [hc, Option.map_some]
  · refine h.transfer h.path hrest (cells_perm_cache ls cs x) (fun _ => rfl) rfl rfl ?_ (by omega)
      h.entries
    have hle : (1 : UInt32) ≤ s.cacheCount := UInt32.le_iff_toNat_le.mpr (by
      change 1 ≤ _
      omega)
    rw [UInt32.toNat_sub_of_le _ _ hle, hcount]
    rfl

/-- Or it is new. -/
theorem Spells.exists_allocate_new (h : s.Spells ls [] [] es) :
    ∃ t, s.allocate = some (.allocated s.created, t) ∧
      t.Spells ls [] [.allocated s.created] es ∧ t.nextCookie = s.nextCookie ∧
        t.adviseCount = s.adviseCount ∧ t.ev = s.ev := by
  have hnull : s.adviseCache = none := Heap.path_nil.mp h.cache
  have hfresh : .allocated s.created ∉ cells ls [] [] := fun hmem =>
    Nat.lt_irrefl _ (h.created _ hmem)
  have hcells := cells_perm_cons ls [] (.allocated s.created)
  let heap := Function.update s.heap (.allocated s.created) (some ⟨none, {}⟩)
  have hframe : ∀ a ∈ cells ls [] [], heap a = s.heap a := fun a ha =>
    Function.update_of_ne (ne_of_mem_of_not_mem ha hfresh) _ _
  refine ⟨{ s with heap := heap, created := s.created + 1 }, by rw [allocate, hnull], ?_, rfl,
    rfl, rfl⟩
  exact
    { path := h.path.frame fun a ha => hframe a (by simp [cells] at ha ⊢; tauto)
      cache := hnull ▸ .nil _
      nodup := hcells.nodup_iff.mpr (List.nodup_cons.mpr ⟨hfresh, h.nodup⟩)
      live := fun a => by
        rw [hcells.mem_iff, List.mem_cons]
        by_cases ha : a = .allocated s.created
        · simp [ha, heap]
        · have hsame : heap a = s.heap a := Function.update_of_ne ha _ _
          simp [hsame, h.live, ha]
      created := fun n hn => by
        rcases List.mem_cons.mp (hcells.mem_iff.mp hn) with heq | hn
        · rw [PacketLink.allocated.inj heq]
          exact Nat.lt_succ_self s.created
        · exact (h.created n hn).trans (Nat.lt_succ_self s.created)
      cacheCount := h.cacheCount
      cached := h.cached
      sentry := by
        obtain ⟨z, hz, hmax⟩ := h.sentry
        exact ⟨z, (congrArg _ (hframe .z (by simp [cells]))).trans hz, hmax⟩
      entries := h.entries.congr fun a ha => congrArg _ (hframe a (by simp [cells, ha])) }

/-- `allocate` finds a packet that is nowhere else. -/
theorem Spells.exists_allocate (h : s.Spells ls cs [] es) : ∃ x t cs',
    s.allocate = some (x, t) ∧ t.Spells ls cs' [x] es ∧ t.nextCookie = s.nextCookie ∧
      t.adviseCount = s.adviseCount ∧ t.ev = s.ev := by
  cases cs with
  | nil =>
      obtain ⟨t, ht⟩ := h.exists_allocate_new
      exact ⟨_, t, [], ht⟩
  | cons x cs =>
      obtain ⟨t, ht⟩ := h.exists_allocate_cached
      exact ⟨x, t, cs, ht⟩

/-- What is written into a packet that is in neither list does not show. -/
theorem Spells.exists_write (h : s.Spells ls cs [x] es) (packet : AdvisePacket) :
    ∃ heap, s.heap.write x packet = some heap ∧ { s with heap := heap }.Spells ls cs [x] es ∧
      heap.content x = some packet := by
  have hx : (s.heap x).isSome := (h.live x).mpr (by simp [cells])
  obtain ⟨heap, hwrite, hpaths, hcontent, hframe, hlive⟩ := Heap.exists_write hx packet
  refine ⟨heap, hwrite, ?_, hcontent⟩
  refine h.transfer (hpaths _ _ _ h.path) (hpaths _ _ _ h.cache) (.refl _) hlive (hframe .z ?_) rfl
    h.cacheCount h.cached (h.entries.congr fun a ha => hframe a ?_)
  · rintro rfl
    exact h.notMem (by simp [cells])
  · rintro rfl
    exact h.notMem (by simp [cells, ha])

/-- There are no more packets than have been created. -/
theorem Spells.length_le (h : s.Spells ls cs xs es) : (ls ++ cs ++ xs).length ≤ s.created := by
  have hnodup := h.nodup
  simp only [cells, List.nodup_cons, List.mem_cons, not_or] at hnodup
  obtain ⟨⟨-, hhead⟩, hz, hrest⟩ := hnodup
  have hsubset : ls ++ cs ++ xs ⊆ (List.range s.created).map .allocated := by
    intro a ha
    cases a with
    | head => exact absurd ha hhead
    | z => exact absurd ha hz
    | allocated n =>
        refine List.mem_map_of_mem (List.mem_range.mpr (h.created n ?_))
        exact List.mem_cons_of_mem _ (List.mem_cons_of_mem _ ha)
  simpa using (List.subperm_of_subset hrest hsubset).length_le

theorem Spells.length_lt_rounds (h : s.Spells ls cs xs es) : ls.length < s.rounds := by
  have hle := h.length_le
  simp only [List.length_append] at hle
  unfold rounds
  omega

/-- Where a loop over the list stops, the entries are split. -/
theorem Spells.seek {stop : Cell PacketLink AdvisePacket → Bool} {P : Entry Advisee → Prop}
    (h : s.Spells ls cs xs es) (hz : ∀ c, s.heap .z = some c → stop c = true)
    (hstop : ∀ a ∈ ls, ∀ c, s.heap a = some c → (stop c = true ↔ P c.content.entry)) :
    ∃ ls₁ ls₂ es₁ es₂ k prev n, ls = ls₁ ++ ls₂ ∧ es = es₁ ++ es₂ ∧ Reads s.heap ls₁ es₁ ∧
      Reads s.heap ls₂ es₂ ∧ .head :: ls₁ = k ++ [prev] ∧
      (ls₂ ++ [PacketLink.z]).head? = some n ∧ s.heap.seek stop s.rounds .head = some (prev, n) ∧
      (∀ e ∈ es₁, ¬ P e) ∧ ∀ e ∈ es₂.head?, P e := by
  obtain ⟨ls₁, ls₂, k, prev, n, rfl, hk, hn, hseek, hpass, hstops⟩ :=
    h.path.seek hz h.length_lt_rounds
  obtain ⟨es₁, es₂, rfl, hes₁, hes₂⟩ := h.entries.of_append
  refine ⟨ls₁, ls₂, es₁, es₂, k, prev, n, rfl, rfl, hes₁, hes₂, hk, hn, hseek, ?_, ?_⟩
  · intro e he hP
    obtain ⟨a, ha, c, hc, rfl⟩ := hes₁.of_mem he
    have htrue := (hstop a (by simp [ha]) c hc).mpr hP
    exact Bool.false_ne_true ((hpass a ha c hc).symm.trans htrue)
  · intro e he
    obtain ⟨es₂, rfl⟩ : ∃ es, es₂ = e :: es := by
      cases es₂ with
      | nil => cases he
      | cons e' es =>
          obtain rfl := Option.some.inj he
          exact ⟨es, rfl⟩
    cases ls₂ with
    | nil => cases reads_nil.mp hes₂
    | cons a ls₂ =>
        obtain rfl := Option.some.inj hn
        obtain ⟨x, hx, rfl⟩ := Option.map_eq_some_iff.mp (reads_cons.mp hes₂).1
        obtain ⟨q, hq⟩ := Heap.content_eq_some hx
        exact (hstop a (by simp) _ hq).mp (hstops _ hq)

/-! ## Adding -/

theorem cells_perm_middle (ls₁ ls₂ cs : List PacketLink) (x : PacketLink) :
    (cells (ls₁ ++ x :: ls₂) cs []).Perm (cells (ls₁ ++ ls₂) cs [x]) := by
  rw [List.perm_iff_count]
  intro a
  simp [cells, List.count_append, List.count_cons]
  omega

/-- A packet takes its place in the list. -/
theorem Spells.insertAfter {ls₁ ls₂ k : List PacketLink} {es₁ es₂ : List (Entry Advisee)}
    {e : Entry Advisee} {packet : AdvisePacket} (h : s.Spells (ls₁ ++ ls₂) cs [x] (es₁ ++ es₂))
    (hes₁ : Reads s.heap ls₁ es₁) (hes₂ : Reads s.heap ls₂ es₂) (hk : .head :: ls₁ = k ++ [prev])
    (hx : s.heap.content x = some packet) (he : packet.entry = e) :
    ∃ heap, s.heap.insertAfter prev x = some heap ∧
      { s with heap := heap }.Spells (ls₁ ++ x :: ls₂) cs [] (es₁ ++ e :: es₂) := by
  have hsplit : ∀ l, .head :: (ls₁ ++ l) = k ++ prev :: l := fun l => by
    rw [← List.cons_append, hk, List.append_assoc]
    rfl
  have hpath := h.path
  have hnodup := h.nodup_path
  rw [List.append_assoc, hsplit] at hpath hnodup
  have hnot : x ∉ k ++ prev :: (ls₂ ++ [PacketLink.z]) := by
    rw [← hsplit]
    intro hmem
    refine h.notMem ?_
    simp only [cells, List.mem_cons, List.mem_append] at hmem ⊢
    tauto
  obtain ⟨heap, hinsert, hpath', hcontent, hframe⟩ :=
    hpath.insertAfter ((h.live x).mpr (by simp [cells])) hnodup hnot
  rw [← hsplit (x :: (ls₂ ++ [PacketLink.z]))] at hpath'
  refine ⟨heap, hinsert, ?_⟩
  refine h.transfer (by rwa [List.append_assoc]) (h.cache.frame fun a ha => hframe a ?_ ?_)
    (cells_perm_middle _ _ _ _) (fun a => by rw [hcontent]) (by rw [hcontent]) rfl h.cacheCount
    h.cached ?_
  · rintro rfl
    refine h.apart ?_ ha
    rw [List.append_assoc, hsplit]
    simp
  · rintro rfl
    exact h.notMem (by simp [cells, ha])
  · refine Reads.append (hes₁.congr fun a _ => by rw [hcontent]) ?_
    exact reads_cons.mpr ⟨by rw [hcontent, hx, ← he]; rfl,
      hes₂.congr fun a _ => by rw [hcontent]⟩

theorem le_maxTime (t : Int64) : t ≤ maxTime := by
  have hle := t.toInt_le
  have hmax : maxTime.toInt = Int64.maxValue.toInt := by decide
  exact Int64.le_iff_toInt_le.mpr (hmax ▸ hle)

theorem Spells.sentry_time (h : s.Spells ls cs xs es) {c : Cell PacketLink AdvisePacket}
    (hc : s.heap .z = some c) : c.content.eventTime = maxTime := by
  obtain ⟨z, hz, hmax⟩ := h.sentry
  obtain rfl := Option.some.inj (hz.symm.trans (congrArg (Option.map Cell.content) hc))
  exact hmax

/-- The loop stops at once if and only if the head of the agenda stops it. -/
theorem head_iff {ls₁ k : List PacketLink} {heap : Heap PacketLink AdvisePacket}
    {es₁ es₂ : List (Entry Advisee)} {P : Entry Advisee → Prop}
    (hk : .head :: ls₁ = k ++ [prev]) (hhead : .head ∉ ls₁) (hes₁ : Reads heap ls₁ es₁)
    (hpass : ∀ e ∈ es₁, ¬ P e) (hstop : ∀ e ∈ es₂.head?, P e) :
    prev = .head ↔ ∀ e ∈ (es₁ ++ es₂).head?, P e := by
  cases k with
  | nil =>
      obtain ⟨rfl, rfl⟩ : prev = .head ∧ ls₁ = [] := by simpa [eq_comm] using hk
      obtain rfl := reads_nil.mp hes₁
      exact iff_of_true rfl hstop
  | cons y k =>
      obtain ⟨rfl, rfl⟩ := List.cons.inj hk
      have hne : prev ≠ .head := by
        rintro rfl
        exact hhead (by simp)
      refine iff_of_false hne fun hall => ?_
      cases es₁ with
      | nil => simpa using hes₁.length_eq
      | cons e es₁ => exact hpass e (by simp) (hall e rfl)

/-- `AddAdvisePacket` puts what is asked for before the entries of the same time, and wakes the
thread if it comes first. -/
theorem Spells.exists_addPacket (p : Platform) {packet : AdvisePacket}
    (h : s.Spells ls cs [x] es) (hx : s.heap.content x = some packet) {e : Entry Advisee}
    (he : { packet with adviseCookie := p.toSizeT (s.nextCookie + 1) }.entry = e) :
    ∃ t ls', s.addPacket p x = some (p.toSizeT (s.nextCookie + 1), t) ∧
      t.Spells ls' cs [] (Agenda.insert e es) ∧
      t.nextCookie = p.toSizeT (s.nextCookie + 1) ∧ t.adviseCount = s.adviseCount + 1 ∧
      (t.ev = true ↔ s.ev = true ∨ ∀ e' ∈ es.head?, e.time ≤ e'.time) := by
  obtain ⟨q, hq⟩ := Heap.content_eq_some hx
  obtain ⟨heap, hwrite, hspells, hcontent⟩ :=
    h.exists_write { packet with adviseCookie := p.toSizeT (s.nextCookie + 1) }
  have htime : e.time = packet.eventTime.toInt := by rw [← he]; rfl
  have hz : ∀ c, heap .z = some c → decide (packet.eventTime ≤ c.content.eventTime) = true :=
    fun c hc => decide_eq_true (hspells.sentry_time hc ▸ le_maxTime _)
  have hstop : ∀ a ∈ ls, ∀ c, heap a = some c →
      (decide (packet.eventTime ≤ c.content.eventTime) = true ↔ e.time ≤ c.content.entry.time) :=
    fun a _ c _ => by
      rw [decide_eq_true_iff, Int64.le_iff_toInt_le, htime]
      rfl
  obtain ⟨ls₁, ls₂, es₁, es₂, k, prev, n, rfl, rfl, hes₁, hes₂, hk, hn, hseek, hpass, hstop⟩ :=
    hspells.seek (P := fun e' => e.time ≤ e'.time) hz hstop
  obtain ⟨heap', hinsert, hspells'⟩ := hspells.insertAfter hes₁ hes₂ hk hcontent he
  have hinserted : Agenda.insert e (es₁ ++ es₂) = es₁ ++ e :: es₂ :=
    Agenda.orderedInsert_append hpass hstop
  refine ⟨{ s with
    heap := heap'
    nextCookie := p.toSizeT (s.nextCookie + 1)
    adviseCount := s.adviseCount + 1
    ev := s.ev || prev == .head }, ls₁ ++ x :: ls₂, ?_, ?_, rfl, rfl, ?_⟩
  · simp only [rounds] at hseek
    simp [addPacket, hq, hwrite, rounds, hseek, hinsert]
  · rw [hinserted]
    exact hspells'.congr rfl rfl rfl rfl
  · have hhead : PacketLink.head ∉ ls₁ := fun hmem =>
      (List.nodup_cons.mp h.nodup_path).1 (by simp [hmem])
    rw [Bool.or_eq_true, beq_iff_eq, head_iff hk hhead hes₁ hpass hstop]

/-- What a call of `AddAdvisePacket` asks for. -/
def request (cookie : ℕ) (time1 time2 : Int64) (h : ℕ) (periodic : Bool) : Entry Advisee :=
  { adviseCookie := cookie, eventTime := time1, period := time2, notify := h,
    periodic := periodic : AdvisePacket }.entry

theorem Spells.exists_addAdvisePacket (hs : s.Spells ls cs [] es) (p : Platform)
    (time1 time2 : Int64) (h : ℕ) (periodic : Bool) :
    ∃ t ls' cs', s.addAdvisePacket p time1 time2 h periodic =
        some (p.toSizeT (s.nextCookie + 1), t) ∧
      t.Spells ls' cs' [] (Agenda.insert
        (request (p.toSizeT (s.nextCookie + 1)) time1 time2 h periodic) es) ∧
      t.nextCookie = p.toSizeT (s.nextCookie + 1) ∧ t.adviseCount = s.adviseCount + 1 ∧
      (t.ev = true ↔ s.ev = true ∨ ∀ e' ∈ es.head?, time1.toInt ≤ e'.time) := by
  obtain ⟨x, s₁, cs', hallocate, hs₁, hcookie, hcount, hev⟩ := hs.exists_allocate
  obtain ⟨c, hc⟩ := Option.isSome_iff_exists.mp ((hs₁.live x).mpr (by simp [cells]))
  obtain ⟨heap, hwrite, hs₂, hcontent⟩ :=
    hs₁.exists_write ⟨c.content.adviseCookie, time1, time2, h, periodic⟩
  obtain ⟨t, ls', hadd, ht, hcookie', hcount', hev'⟩ := hs₂.exists_addPacket p hcontent rfl
  dsimp only at hadd ht hcookie' hcount' hev'
  rw [hcookie] at hadd ht hcookie'
  refine ⟨t, ls', cs', ?_, ?_, ?_, ?_, ?_⟩
  · simp [addAdvisePacket, hallocate, hc, hwrite, hcookie, hadd]
  · exact ht
  · exact hcookie'
  · rw [hcount', hcount]
  · rw [hev', hev]
    rfl

/-! ## Removing -/

/-- A packet is taken out of the list. -/
theorem Spells.removeNext {ls₁ ls₂ k : List PacketLink} {es₁ es₂ : List (Entry Advisee)}
    (h : s.Spells (ls₁ ++ x :: ls₂) cs [] es) (hes₁ : Reads s.heap ls₁ es₁)
    (hes₂ : Reads s.heap ls₂ es₂) (hk : .head :: ls₁ = k ++ [prev]) :
    ∃ heap, s.heap.removeNext prev = some (x, heap) ∧
      { s with heap := heap }.Spells (ls₁ ++ ls₂) cs [x] (es₁ ++ es₂) := by
  have hsplit : ∀ l, .head :: (ls₁ ++ l) = k ++ prev :: l := fun l => by
    rw [← List.cons_append, hk, List.append_assoc]
    rfl
  have hpath := h.path
  have hnodup := h.nodup_path
  rw [List.append_assoc, hsplit] at hpath hnodup
  obtain ⟨heap, hremove, hpath', hcontent, hframe⟩ := hpath.removeNext hnodup
  rw [← hsplit] at hpath'
  refine ⟨heap, hremove, ?_⟩
  refine h.transfer (by rwa [List.append_assoc]) (h.cache.frame fun a ha => hframe a ?_)
    (cells_perm_middle _ _ _ _).symm (fun a => by rw [hcontent]) (by rw [hcontent]) rfl
    h.cacheCount h.cached ?_
  · rintro rfl
    refine h.apart ?_ ha
    rw [List.append_assoc, hsplit]
    simp
  · exact (hes₁.congr fun a _ => by rw [hcontent]).append
      (hes₂.congr fun a _ => by rw [hcontent])

theorem Spells.mem_cells (ha : x ∈ .head :: (ls ++ [.z])) : x ∈ cells ls cs xs := by
  rw [(cells_perm_path ls cs xs).mem_iff]
  exact List.mem_append_left _ ha

/-- A packet that is in neither list is freed. -/
theorem Spells.exists_free (h : s.Spells ls cs [x] es) :
    ∃ heap, s.heap.free x = some heap ∧ { s with heap := heap }.Spells ls cs [] es := by
  obtain ⟨c, hc⟩ := Option.isSome_iff_exists.mp ((h.live x).mpr (by simp [cells]))
  let heap := Function.update s.heap x none
  have hframe : ∀ a ∈ cells ls cs [], heap a = s.heap a := fun a ha =>
    Function.update_of_ne (ne_of_mem_of_not_mem ha h.notMem) _ _
  have hcells := cells_perm_cons ls cs x
  refine ⟨heap, by simp [Heap.free, hc, heap], ?_⟩
  exact
    { path := h.path.frame fun a ha => hframe a (mem_cells ha)
      cache := h.cache.frame fun a ha => hframe a (by simp [cells, ha])
      nodup := (List.nodup_cons.mp (hcells.nodup_iff.mp h.nodup)).2
      live := fun a => by
        by_cases ha : a = x
        · subst ha
          simp [heap, h.notMem]
        · have hsame : heap a = s.heap a := Function.update_of_ne ha _ _
          simp [hsame, h.live, hcells.mem_iff, ha]
      created := fun n hn => h.created n (hcells.mem_iff.mpr (List.mem_cons_of_mem _ hn))
      cacheCount := h.cacheCount
      cached := h.cached
      sentry := by
        obtain ⟨z, hz, hmax⟩ := h.sentry
        exact ⟨z, (congrArg _ (hframe .z (by simp [cells]))).trans hz, hmax⟩
      entries := h.entries.congr fun a ha => congrArg _ (hframe a (by simp [cells, ha])) }

/-- Or it goes to the cache. -/
theorem Spells.exists_relink (h : s.Spells ls cs [x] es) (hroom : cs.length < 5) :
    ∃ heap, s.heap.relink x s.adviseCache = some heap ∧
      { s with heap := heap, adviseCache := some x, cacheCount := s.cacheCount + 1 }.Spells
        ls (x :: cs) [] es := by
  obtain ⟨c, hc⟩ := Option.isSome_iff_exists.mp ((h.live x).mpr (by simp [cells]))
  have hcell : s.heap.Path (some x) ([] ++ [x]) c.next := .cons hc (.nil _)
  have hcs : x ∉ cs := fun hmem => h.notMem (by simp [cells, hmem])
  obtain ⟨heap, hrelink, hcache, hcontent, hframe⟩ :=
    hcell.relink h.cache List.not_mem_nil hcs
  refine ⟨heap, hrelink, ?_⟩
  refine h.transfer (h.path.frame fun a ha => hframe a ?_) hcache (cells_perm_cache ls cs x).symm
    (fun a => by rw [hcontent]) (by rw [hcontent]) rfl ?_ hroom
    (h.entries.congr fun a _ => by rw [hcontent])
  · rintro rfl
    exact h.notMem (mem_cells ha)
  · have hcount := h.cacheCount
    rw [UInt32.toNat_add, hcount, List.length_cons]
    exact Nat.mod_eq_of_lt (by
      change cs.length + 1 < _
      omega)

/-- `Delete` disposes of a packet that is in neither list. -/
theorem Spells.exists_delete (h : s.Spells ls cs [x] es) : ∃ t cs', s.delete x = some t ∧
    t.Spells ls cs' [] es ∧ t.nextCookie = s.nextCookie ∧ t.adviseCount = s.adviseCount ∧
      t.ev = s.ev := by
  unfold delete
  split
  · obtain ⟨heap, hfree, ht⟩ := h.exists_free
    exact ⟨_, cs, by rw [hfree, Option.map_some], ht, rfl, rfl, rfl⟩
  · next hroom =>
      have hlt : cs.length < 5 := by
        rw [← h.cacheCount]
        exact UInt32.lt_iff_toNat_lt.mp (UInt32.not_le.mp hroom)
      obtain ⟨heap, hrelink, ht⟩ := h.exists_relink hlt
      exact ⟨_, x :: cs, by rw [hrelink, Option.map_some], ht, rfl, rfl, rfl⟩

theorem Spells.sentry_notMem (h : s.Spells ls cs xs es) : PacketLink.z ∉ ls := fun hmem =>
  (List.nodup_append.mp (List.nodup_cons.mp h.nodup_path).2).2.2 _ hmem _ (by simp) rfl

/-- Only the sentry has nothing behind it. -/
theorem Spells.isZ_iff (h : s.Spells ls cs xs es) (hx : x ∈ ls ++ [.z])
    {c : Cell PacketLink AdvisePacket} (hc : s.heap x = some c) : isZ c = true ↔ x = .z := by
  rcases List.mem_append.mp hx with hx | hx
  · have hsome := h.path.next_isSome (l := .head :: ls) (List.mem_cons_of_mem _ hx) hc
    refine iff_of_false ?_ fun heq => h.sentry_notMem (heq ▸ hx)
    simpa [isZ, Option.isSome_iff_ne_none] using hsome
  · obtain rfl := List.mem_singleton.mp hx
    have hpath : s.heap.Path (some .head) ((.head :: ls) ++ [.z]) none := h.path
    obtain ⟨d, hd, hnext⟩ := hpath.last
    obtain rfl := Option.some.inj (hc.symm.trans hd)
    exact iff_of_true (by simp [isZ, hnext]) rfl

/-- `Unadvise` takes the first entry with the cookie off the agenda. -/
theorem Spells.exists_unadvise (h : s.Spells ls cs [] es) (cookie : ℕ) :
    ∃ t ls' cs', s.unadvise cookie =
        some (if es.any (fun e => e.item.cookie == cookie) then .S_OK else .S_FALSE, t) ∧
      t.Spells ls' cs' [] (es.eraseP fun e => e.item.cookie == cookie) ∧
      t.nextCookie = s.nextCookie ∧ t.ev = s.ev ∧
      t.adviseCount = s.adviseCount -
        if es.any (fun e => e.item.cookie == cookie) then 1 else 0 := by
  have hz : ∀ c, s.heap .z = some c → (isZ c || c.content.adviseCookie == cookie) = true :=
    fun c hc => by rw [(h.isZ_iff (by simp) hc).mpr rfl, Bool.true_or]
  have hstop : ∀ a ∈ ls, ∀ c, s.heap a = some c →
      ((isZ c || c.content.adviseCookie == cookie) = true ↔
        (c.content.entry.item.cookie == cookie) = true) := fun a ha c hc => by
    have hne : isZ c = false := Bool.eq_false_iff.mpr fun hz =>
      h.sentry_notMem ((h.isZ_iff (by simp [ha]) hc).mp hz ▸ ha)
    rw [hne, Bool.false_or]
    rfl
  obtain ⟨ls₁, ls₂, es₁, es₂, k, prev, n, rfl, rfl, hes₁, hes₂, hk, hn, hseek, hpass, hstop⟩ :=
    h.seek (P := fun e => (e.item.cookie == cookie) = true) hz hstop
  have hnone : es₁.any (fun e => e.item.cookie == cookie) = false :=
    List.any_eq_false.mpr hpass
  cases es₂ with
  | nil =>
      obtain rfl : ls₂ = [] := List.eq_nil_of_length_eq_zero hes₂.length_eq.symm
      obtain rfl := Option.some.inj hn
      obtain ⟨c, hc⟩ := Option.isSome_iff_exists.mp ((h.live .z).mpr (by simp [cells]))
      have hlast := (h.isZ_iff (by simp) hc).mpr rfl
      refine ⟨s, ls₁ ++ [], cs, ?_, ?_, rfl, rfl, ?_⟩
      · simp [unadvise, hseek, hc, hlast, hnone]
      · simpa [List.eraseP_of_forall_not hpass] using h
      · simp [hnone]
  | cons e es₂ =>
      have he : (e.item.cookie == cookie) = true := hstop e rfl
      cases ls₂ with
      | nil => cases reads_nil.mp hes₂
      | cons a ls₂ =>
          obtain rfl := Option.some.inj hn
          obtain ⟨c, hc⟩ := Option.isSome_iff_exists.mp ((h.live a).mpr (by simp [cells]))
          have hne : isZ c = false := Bool.eq_false_iff.mpr fun hz =>
            h.sentry_notMem (by simp [(h.isZ_iff (by simp) hc).mp hz])
          obtain ⟨heap, hremove, hs₁⟩ := h.removeNext hes₁ (reads_cons.mp hes₂).2 hk
          obtain ⟨t, cs', hdelete, ht, hcookie, hcount, hev⟩ := hs₁.exists_delete
          refine ⟨{ t with adviseCount := t.adviseCount - 1 }, ls₁ ++ ls₂, cs', ?_, ?_, hcookie,
            hev, ?_⟩
          · simp [unadvise, hseek, hc, hne, hremove, hdelete, hnone, he]
          · have herase : (e :: es₂).eraseP (fun e => e.item.cookie == cookie) = es₂ :=
              List.eraseP_cons_of_pos he
            rw [List.eraseP_append_right _ hpass, herase]
            exact ht.congr rfl rfl rfl rfl
          · simp [hcount, hnone, he]

/-! ## Notifying -/

theorem cells_perm_move (x : PacketLink) (m ls₂ cs : List PacketLink) :
    (cells (m ++ x :: ls₂) cs []).Perm (cells (x :: m ++ ls₂) cs []) := by
  rw [List.perm_iff_count]
  intro a
  simp [cells, List.count_append, List.count_cons]
  omega

/-- The loop of `ShuntHead` comes at least as far as the packet it is to move. -/
theorem Spells.seek_shuntHead {e : Entry Advisee} (h : s.Spells (x :: ls) cs [] (e :: es))
    (he : e.time < maxTime.toInt) {packet : Cell PacketLink AdvisePacket}
    (hpacket : s.heap x = some packet) :
    ∃ m ls₂ es₁ es₂ k prev n, ls = m ++ ls₂ ∧ Agenda.requeue e es = es₁ ++ e :: es₂ ∧
      es = es₁ ++ es₂ ∧ Reads s.heap m es₁ ∧ Reads s.heap ls₂ es₂ ∧ x :: m = k ++ [prev] ∧
      (ls₂ ++ [PacketLink.z]).head? = some n ∧
      s.heap.seek (fun n => packet.content.eventTime < n.content.eventTime) s.rounds .head =
        some (prev, n) := by
  have htime : e.time = packet.content.eventTime.toInt := by
    have hread := (reads_cons.mp h.entries).1
    rw [Heap.content, hpacket] at hread
    rw [← Option.some.inj hread]
    rfl
  have hz : ∀ c, s.heap .z = some c →
      decide (packet.content.eventTime < c.content.eventTime) = true := fun c hc => by
    rw [h.sentry_time hc, decide_eq_true_iff, Int64.lt_iff_toInt_lt, ← htime]
    exact he
  have hstop : ∀ a ∈ x :: ls, ∀ c, s.heap a = some c →
      (decide (packet.content.eventTime < c.content.eventTime) = true ↔
        e.time < c.content.entry.time) := fun a _ c _ => by
    rw [decide_eq_true_iff, Int64.lt_iff_toInt_lt, htime]
    rfl
  obtain ⟨ls₁, ls₂, es₁, es₂, k, prev, n, hls, hes, hes₁, hes₂, hk, hn, hseek, hpass, hstops⟩ :=
    h.seek (P := fun e' => e.time < e'.time) hz hstop
  cases es₁ with
  | nil =>
      rw [List.nil_append] at hes
      exact absurd (hstops e (by rw [← hes]; rfl)) (lt_irrefl _)
  | cons e' es₁ =>
      obtain ⟨rfl, htail⟩ := List.cons.inj hes
      cases ls₁ with
      | nil => cases reads_nil.mp hes₁
      | cons y m =>
          obtain ⟨rfl, hrest⟩ := List.cons.inj hls
          have hrequeue : Agenda.requeue e es = es₁ ++ e :: es₂ :=
            htail ▸ Agenda.orderedInsert_append (fun b hb => hpass b (by simp [hb])) hstops
          cases k with
          | nil => cases (List.cons.inj hk).2
          | cons a k =>
              exact ⟨m, ls₂, es₁, es₂, k, prev, n, hrest, hrequeue, htail, (reads_cons.mp hes₁).2,
                hes₂, (List.cons.inj hk).2, hn, hseek⟩

/-- `ShuntHead` puts the head of the agenda behind the entries of the same time. -/
theorem Spells.exists_shuntHead {e : Entry Advisee} (h : s.Spells (x :: ls) cs [] (e :: es))
    (he : e.time < maxTime.toInt) :
    ∃ t ls', s.shuntHead = some t ∧ t.Spells ls' cs [] (Agenda.requeue e es) ∧
      t.nextCookie = s.nextCookie ∧ t.adviseCount = s.adviseCount ∧ t.ev = s.ev := by
  obtain ⟨-, c, hc, hrest⟩ := Heap.path_cons.mp h.path
  obtain ⟨hnext, packet, hpacket, -⟩ := Heap.path_cons.mp hrest
  obtain ⟨m, ls₂, es₁, es₂, k, prev, n, rfl, hrequeue, rfl, hes₁, hes₂, hk, hn, hseek⟩ :=
    h.seek_shuntHead he hpacket
  rw [hrequeue]
  have hentry := (reads_cons.mp h.entries).1
  cases k with
  | nil =>
      -- The packet is in its place already.
      obtain ⟨rfl, rfl⟩ := List.cons.inj hk
      obtain rfl := reads_nil.mp hes₁
      refine ⟨s, x :: ls₂, ?_, h, rfl, rfl, rfl⟩
      simp [shuntHead, hc, hnext, hpacket, hseek]
  | cons y k =>
      obtain ⟨rfl, hm⟩ := List.cons.inj hk
      obtain rfl : m = k ++ [prev] := hm
      obtain ⟨l', hl'⟩ : ∃ l', ls₂ ++ [PacketLink.z] = n :: l' := by
        cases hls : ls₂ ++ [PacketLink.z] with
        | nil => simp at hls
        | cons y l' =>
            rw [hls] at hn
            obtain rfl := Option.some.inj hn
            exact ⟨l', rfl⟩
      have hsplit : ∀ l : List PacketLink, k ++ [prev] ++ l = k ++ prev :: l := fun l => by simp
      have hpath := h.path
      have hnodup := h.nodup_path
      rw [List.cons_append, List.append_assoc, hl', hsplit] at hpath hnodup
      obtain ⟨h₁, h₂, h₃, hrelink₁, hrelink₂, hrelink₃, hpath', hcontent, hframe⟩ :=
        hpath.move hnodup hpacket
      have hne : prev ≠ x := by
        rintro rfl
        simp at hnodup
      refine ⟨{ s with heap := h₃ }, k ++ [prev] ++ x :: ls₂, ?_, ?_, rfl, rfl, rfl⟩
      · simp [shuntHead, hc, hnext, hpacket, hseek, hne, hrelink₁, hrelink₂, hrelink₃]
      · refine h.transfer ?_ (h.cache.frame fun a ha => ?_) (cells_perm_move x _ ls₂ cs)
          (fun a => by rw [hcontent]) (by rw [hcontent]) rfl h.cacheCount h.cached ?_
        · rw [List.append_assoc, List.cons_append, hl', hsplit]
          exact hpath'
        · have hnot := fun hmem => h.apart (x := a) hmem ha
          refine hframe a ?_ ?_ ?_ <;> rintro rfl <;> exact hnot (by simp)
        · exact (hes₁.congr fun a _ => by rw [hcontent]).append
            (reads_cons.mpr ⟨by rw [hcontent]; exact hentry, hes₂.congr fun a _ => by rw [hcontent]⟩)

/-! ## The end -/

theorem exists_deleteCache {heap : Heap PacketLink AdvisePacket} {n : ℕ} {q : Option PacketLink}
    (h : heap.Path q cs none) (hnodup : cs.Nodup) (hn : cs.length ≤ n) :
    ∃ heap', deleteCache n q heap = some heap' ∧ (∀ a ∈ cs, heap' a = none) ∧
      ∀ a, a ∉ cs → heap' a = heap a := by
  induction cs generalizing heap n q with
  | nil =>
      obtain rfl := Heap.path_nil.mp h
      exact ⟨heap, by simp [deleteCache], nofun, fun _ _ => rfl⟩
  | cons x cs ih =>
      obtain ⟨rfl, c, hc, hrest⟩ := Heap.path_cons.mp h
      obtain ⟨hx, hnodup⟩ := List.nodup_cons.mp hnodup
      obtain ⟨n, rfl⟩ := Nat.exists_eq_succ_of_ne_zero (Nat.ne_of_gt (Nat.zero_lt_of_lt hn))
      have hframe : ∀ a, a ≠ x → Function.update heap x none a = heap a :=
        fun a ha => Function.update_of_ne ha _ _
      obtain ⟨heap', hdelete, hgone, hkept⟩ := ih
        (hrest.frame fun a ha => hframe a (ne_of_mem_of_not_mem ha hx)) hnodup
        (Nat.le_of_succ_le_succ hn)
      refine ⟨heap', by simp [deleteCache, hc, Heap.free, hdelete], fun a ha => ?_, fun a ha => ?_⟩
      · rcases List.mem_cons.mp ha with rfl | ha
        · rw [hkept a hx, Function.update_self]
        · exact hgone a ha
      · rw [List.mem_cons, not_or] at ha
        rw [hkept a ha.2, hframe a ha.1]

theorem exists_deleteList {heap : Heap PacketLink AdvisePacket} {n : ℕ}
    (h : heap.Path (some .head) (.head :: (ls ++ [.z])) none)
    (hnodup : (PacketLink.head :: (ls ++ [.z])).Nodup) (hn : ls.length < n) :
    ∃ heap', deleteList n heap = some heap' ∧ (∀ a ∈ ls, heap' a = none) ∧
      (heap' .head).isSome ∧ ∀ a, a ∉ ls → a ≠ .head → heap' a = heap a := by
  obtain ⟨n, rfl⟩ := Nat.exists_eq_succ_of_ne_zero (Nat.ne_of_gt (Nat.zero_lt_of_lt hn))
  induction ls generalizing heap n with
  | nil =>
      obtain ⟨-, c, hc, hrest⟩ := Heap.path_cons.mp h
      obtain ⟨hnext, z, hz, hlast⟩ := Heap.path_cons.mp hrest
      have hisZ : isZ z = true := by simp [isZ, Heap.path_nil.mp hlast]
      exact ⟨heap, by simp [deleteList, hc, hnext, hz, hisZ], nofun, by simp [hc],
        fun _ _ _ => rfl⟩
  | cons x ls ih =>
      obtain ⟨-, c, hc, hrest⟩ := Heap.path_cons.mp h
      obtain ⟨hnext, d, hd, -⟩ := Heap.path_cons.mp hrest
      have hsome := h.next_isSome (l := .head :: x :: ls) (by simp) hd
      have hisZ : isZ d = false := by
        rw [isZ, Option.isNone_eq_false_iff]
        exact hsome
      obtain ⟨heap₁, hremove, hpath₁, -, hframe₁⟩ := Heap.Path.removeNext (l := []) h hnodup
      obtain ⟨hhead, hnodup⟩ := List.nodup_cons.mp hnodup
      rw [List.cons_append, List.mem_cons, not_or] at hhead
      obtain ⟨hx, hnodup⟩ := List.nodup_cons.mp hnodup
      have hframe₂ : ∀ a, a ≠ x → Function.update heap₁ x none a = heap₁ a :=
        fun a ha => Function.update_of_ne ha _ _
      have hx₁ : heap₁ x = some d := (hframe₁ x (Ne.symm hhead.1)).trans hd
      obtain ⟨n, rfl⟩ := Nat.exists_eq_succ_of_ne_zero
        (Nat.ne_of_gt (Nat.zero_lt_of_lt (Nat.lt_of_succ_lt_succ hn)))
      obtain ⟨heap', hdelete, hgone, hkept, hframe⟩ := ih
        (hpath₁.frame fun a ha => hframe₂ a <| by
          rintro rfl
          rcases List.mem_cons.mp ha with rfl | ha
          · exact hhead.1 rfl
          · exact hx ha)
        (List.nodup_cons.mpr ⟨hhead.2, hnodup⟩) n (Nat.lt_of_succ_lt_succ hn)
      refine ⟨heap', ?_, fun a ha => ?_, hkept, fun a ha hah => ?_⟩
      · rw [deleteList]
        simp [hc, hnext, hd, hisZ, hremove, Heap.free, hx₁, hdelete]
      · rcases List.mem_cons.mp ha with rfl | ha
        · rw [hframe a (fun hmem => hx (by simp [hmem])) (Ne.symm hhead.1), Function.update_self]
        · exact hgone a ha
      · rw [List.mem_cons, not_or] at ha
        rw [hframe a ha.2 hah, hframe₂ a ha.1, hframe₁ a hah]

/-- The destructor frees every packet, once, when the count is right about whether there are
any. -/
theorem Spells.exists_destroy (h : s.Spells ls cs [] es)
    (hcount : 0 < s.adviseCount ↔ ls ≠ []) :
    ∃ heap, s.destroy = some heap ∧ ∀ a, (heap a).isSome ↔ a = .head ∨ a = .z := by
  have hle := h.length_le
  simp only [List.length_append] at hle
  have hnodup : cs.Nodup := by
    have hall := (cells_perm_path ls cs []).nodup_iff.mp h.nodup
    simpa using (List.nodup_append.mp hall).2.1
  obtain ⟨heap₁, hdelete₁, hgone₁, hkept₁⟩ :=
    exists_deleteCache (n := s.rounds) h.cache hnodup (by unfold rounds; omega)
  have hpath := h.path.frame fun a ha => hkept₁ a (h.apart ha)
  obtain ⟨heap₂, hdelete₂, hgone₂, hhead, hkept₂⟩ :=
    exists_deleteList hpath h.nodup_path h.length_lt_rounds
  have hlive : ∀ a, a ≠ .head → a ≠ .z → a ∉ ls → heap₁ a = none := by
    intro a hah haz hls
    by_cases hcs : a ∈ cs
    · exact hgone₁ a hcs
    · rw [hkept₁ a hcs, ← Option.not_isSome_iff_eq_none, h.live]
      simp [cells, hah, haz, hls, hcs]
  have hmembers : ∀ a, a = .head ∨ a = .z → a ∉ cs ∧ (heap₁ a).isSome := by
    rintro a ha
    have hmem : a ∈ .head :: (ls ++ [.z]) := by
      rcases ha with rfl | rfl <;> simp
    rw [hkept₁ a (h.apart hmem), h.live]
    exact ⟨h.apart hmem, mem_cells hmem⟩
  unfold destroy
  rw [Option.bind_eq_bind, hdelete₁, Option.bind_some]
  by_cases hls : ls = []
  · subst hls
    rw [if_neg fun hpos => hcount.mp hpos rfl]
    refine ⟨heap₁, rfl, fun a => ⟨fun ha => ?_, fun ha => (hmembers a ha).2⟩⟩
    by_contra hnot
    rw [not_or] at hnot
    simp [hlive a hnot.1 hnot.2 List.not_mem_nil] at ha
  · rw [if_pos (hcount.mpr hls)]
    refine ⟨heap₂, hdelete₂, fun a => ⟨fun ha => ?_, ?_⟩⟩
    · by_contra hnot
      rw [not_or] at hnot
      by_cases hmem : a ∈ ls
      · simp [hgone₂ a hmem] at ha
      · simp [hkept₂ a hmem hnot.1, hlive a hnot.1 hnot.2 hmem] at ha
    · rintro (rfl | rfl)
      · exact hhead
      · rw [hkept₂ _ h.sentry_notMem (by simp)]
        exact (hmembers _ (.inr rfl)).2

end AMSchedule

end OpenALRenderer
