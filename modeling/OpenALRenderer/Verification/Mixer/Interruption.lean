import OpenALRenderer.Verification.Mixer.Backpressure

/-! # What an interrupted `Mix` reports -/

namespace OpenALRenderer

open Foundation

variable {β : Type*}

/-! ## A history of the calls -/

/-- A call of `Mix` as it returned: the result and the vector, `m_nChannels` as the result was
computed, and what each `try_pop` of the call gave. -/
structure MixLog (β : Type*) where
  numBytesPerSample : ℕ
  nChannels : UInt16
  frames : ℕ
  buffer : List β
  rounds : List (Option β)
  deriving DecidableEq

namespace MixLog

/-- The bytes the call took off the queue. -/
def dequeued (r : MixLog β) : List β := r.rounds.filterMap id

/-- The number of bytes at the head of the vector that the result vouches for. -/
def reported (r : MixLog β) : ℕ := r.frames * r.nChannels.toNat * r.numBytesPerSample

/-- The bytes reported are those that the call dequeued, in order, and each of them has been
stored by this call. -/
structure Exact (r : MixLog β) : Prop where
  bytes : r.buffer.take r.reported = r.dequeued
  fresh : (r.buffer.take r.reported).map some = r.rounds.take r.reported

/-- As much of the request as makes whole frames. -/
def wholeBytes (r : MixLog β) : ℕ :=
  r.buffer.length / (r.numBytesPerSample * r.nChannels.toNat) *
    (r.numBytesPerSample * r.nChannels.toNat)

/-- The queue held a byte in each round of the loop up to the last whole frame, and none in the
rounds past it. -/
structure Supplied (r : MixLog β) : Prop where
  found : ∀ x ∈ r.rounds.take r.wholeBytes, x ≠ none
  empty : ∀ x ∈ r.rounds.drop r.wholeBytes, x = none

end MixLog

/-- What the pops of the running call gave, and the calls that have returned. -/
structure MixHistory (β : Type*) where
  rounds : List (Option β) := []
  calls : List (MixLog β) := []
  deriving DecidableEq

/-- What a step of the consumer adds to the history. -/
def Consumer.note (h : MixHistory β) (m : Mixer β) : Consumer β → Consumer β → MixHistory β
  | mix _, _ => { h with rounds := [] }
  | pop _ i, _ =>
      if i < m.desiredBytes then { h with rounds := h.rounds ++ [m.sampleQueue.head?] } else h
  | countFrames _, returned c frames =>
      { h with calls := h.calls ++
        [⟨c.numBytesPerSample, m.nChannels, frames, c.samples, h.rounds⟩] }
  | _, _ => h

namespace Transport

/-- Only the steps inside `Mix` are noted. -/
def note (h : MixHistory β) (s : Transport β) : Label β → Transport β → MixHistory β
  | .consume, t =>
      match s.consumer, t.consumer with
      | some a, some b => a.note h s.mixer b
      | _, _ => h
  | _, _ => h

/-- Any mixer, any queue, any producer and any old content of the vector, with no call of `Mix`
under way; every step of both threads and of the control threads may follow. -/
def mixCalls [Inhabited β] (p : Platform) : System (Transport β × MixHistory β) (Label β) :=
  (System.ofNext (fun s => s.consumer = none) (next p)).withHistory {} note

end Transport

/-! ## The popping loop -/

/-- After `i` rounds of the loop, what was popped is where its round has stored it. -/
structure MixCall.Popped (c : MixCall β) (i : ℕ) (rounds : List (Option β)) : Prop where
  length : rounds.length = i
  stored : ∀ (j : ℕ) (value : β), rounds[j]? = some (some value) → c.samples[j]? = some value

/-- What the history knows of a call at each of its program points. -/
def Consumer.Logged (m : Mixer β) (rounds : List (Option β)) : Consumer β → Prop
  | mix _ => True
  | pop c i => c.samples.length = m.desiredBytes ∧ i ≤ m.desiredBytes ∧ c.Popped i rounds
  | countFrames c => c.samples.length = m.desiredBytes ∧ c.Popped m.desiredBytes rounds
  | returned c _ => c.Popped c.samples.length rounds
  | fault _ => True
  | checkSize c | setRequest c | waitForFrames c | testReady c | testStreaming c | testBits c
  | waitReady c | clearReady c => c.samples.length = m.desiredBytes ∧ rounds = []

/-- A logged call counted the frames of its vector, in which each round has stored what it
popped. -/
structure MixLog.Sound (r : MixLog β) : Prop where
  numBytesPerSample : r.numBytesPerSample ≠ 0
  nChannels : r.nChannels.toNat ≠ 0
  frames : r.frames = r.buffer.length / r.numBytesPerSample / r.nChannels.toNat
  length : r.rounds.length = r.buffer.length
  stored : ∀ (j : ℕ) (value : β), r.rounds[j]? = some (some value) →
    r.buffer[j]? = some value

theorem MixCall.Popped.miss {c : MixCall β} {i : ℕ} {rounds : List (Option β)}
    (h : c.Popped i rounds) : c.Popped (i + 1) (rounds ++ [none]) := by
  refine ⟨by simp [h.length], fun j value hj => h.stored j value ?_⟩
  rw [List.getElem?_append] at hj
  split at hj
  · exact hj
  · simp [List.getElem?_singleton] at hj

theorem MixCall.Popped.hit {c : MixCall β} {i : ℕ} {rounds : List (Option β)}
    (h : c.Popped i rounds) (hi : i < c.samples.length) (value : β) :
    MixCall.Popped { c with samples := c.samples.set i value } (i + 1)
      (rounds ++ [some value]) := by
  refine ⟨by simp [h.length], fun j v hj => ?_⟩
  rw [List.getElem?_append, h.length] at hj
  split at hj
  · next hlt =>
      rw [List.getElem?_set_ne (Nat.ne_of_gt hlt)]
      exact h.stored j v hj
  · next hge =>
      obtain ⟨hzero, rfl⟩ : j - i = 0 ∧ value = v := by
        simpa [List.getElem?_singleton] using hj
      obtain rfl : i = j := by omega
      simp [hi]

theorem Consumer.Logged.congr {m m' : Mixer β} {rounds : List (Option β)} {a : Consumer β}
    (h : a.Logged m rounds) (hd : m'.desiredBytes = m.desiredBytes) : a.Logged m' rounds := by
  cases a with
  | mix c => trivial
  | returned c frames => exact h
  | fault dequeued => trivial
  | pop c i =>
      obtain ⟨hlen, hi, hpop⟩ := h
      exact ⟨hd ▸ hlen, hd ▸ hi, hpop⟩
  | countFrames c =>
      obtain ⟨hlen, hpop⟩ := h
      exact ⟨hd ▸ hlen, hd ▸ hpop⟩
  | checkSize c | setRequest c | waitForFrames c | testReady c | testStreaming c | testBits c
  | waitReady c | clearReady c =>
      obtain ⟨hlen, hnil⟩ := h
      exact ⟨hd ▸ hlen, hnil⟩

/-- A step keeps the history true of the running call, and every call it completes is sound. -/
theorem Consumer.Logged.step [Inhabited β] {p : Platform} {m m' : Mixer β} {h : MixHistory β}
    {a b : Consumer β} (hlog : a.Logged m h.rounds) (hcalls : ∀ r ∈ h.calls, r.Sound)
    (hstep : a.step p m = some (b, m')) :
    b.Logged m' (a.note h m b).rounds ∧ ∀ r ∈ (a.note h m b).calls, r.Sound := by
  cases branch_of_step hstep with
  | @mix c n hn hsize => exact ⟨⟨c.length_resize n, rfl⟩, hcalls⟩
  | mix_fault hn | countFrames_fault => exact ⟨trivial, hcalls⟩
  | checkSize | waitForFrames_not | testStreaming_not | testBits_ne =>
      obtain ⟨hlen, hnil⟩ := hlog
      have hstart : ∀ c : MixCall β, c.Popped 0 h.rounds :=
        fun c => ⟨by simp [hnil], by simp [hnil]⟩
      exact ⟨⟨hlen, Nat.zero_le _, hstart _⟩, hcalls⟩
  | pop hi hqueue =>
      obtain ⟨hlen, -, hpop⟩ := hlog
      simp only [note, hi, hqueue, if_true, List.head?_cons]
      exact ⟨⟨by simpa using hlen, hi, hpop.hit (hlen ▸ hi) _⟩, hcalls⟩
  | pop_empty hi hqueue =>
      obtain ⟨hlen, -, hpop⟩ := hlog
      simp only [note, hi, hqueue, if_true, List.head?_nil]
      exact ⟨⟨hlen, hi, hpop.miss⟩, hcalls⟩
  | pop_last hi =>
      obtain ⟨hlen, hle, hpop⟩ := hlog
      obtain rfl := Nat.le_antisymm hle hi
      simp only [note, Nat.lt_irrefl, if_false]
      exact ⟨⟨hlen, hpop⟩, hcalls⟩
  | countFrames hbytes hchannels =>
      obtain ⟨hlen, hpop⟩ := hlog
      refine ⟨hlen.symm ▸ hpop, fun r hr => ?_⟩
      rcases List.mem_append.mp hr with hr | hr
      · exact hcalls r hr
      · obtain rfl := List.mem_singleton.mp hr
        exact ⟨hbytes, fun h0 => hchannels (UInt16.toNat_inj.mp h0), by rw [hlen],
          hpop.length.trans hlen.symm, hpop.stored⟩
  | _ => exact ⟨hlog, hcalls⟩

/-! ## What the result vouches for -/

namespace MixLog

variable {r : MixLog β}

theorem Sound.reported_eq (h : r.Sound) : r.reported = r.wholeBytes := by
  rw [reported, wholeBytes, h.frames, Nat.div_div_eq_div_mul, Nat.mul_assoc,
    Nat.mul_comm r.nChannels.toNat]

/-- Where every round found a byte, the vector holds what they found. -/
theorem Sound.take_eq (h : r.Sound) {n : ℕ} (hfound : ∀ x ∈ r.rounds.take n, x ≠ none) :
    (r.buffer.take n).map some = r.rounds.take n := by
  apply List.ext_getElem?
  intro j
  rw [List.getElem?_map, List.getElem?_take, List.getElem?_take]
  split
  · next hj =>
      obtain hnone | ⟨x, hx⟩ := Option.eq_none_or_eq_some r.rounds[j]?
      · have hbuffer : r.buffer[j]? = none := by
          rw [List.getElem?_eq_none_iff] at hnone ⊢
          rw [← h.length]
          exact hnone
        rw [hnone, hbuffer]
        rfl
      · have hmem : x ∈ r.rounds.take n := by
          apply List.mem_of_getElem?
          rw [List.getElem?_take, if_pos hj]
          exact hx
        obtain ⟨value, rfl⟩ := Option.ne_none_iff_exists'.mp (hfound x hmem)
        rw [hx, h.stored j value hx]
        rfl
  · rfl

/-- The report is exact if and only if the queue supplied the whole frames of the request and
no more. -/
theorem Sound.exact_iff (h : r.Sound) : r.Exact ↔ r.Supplied := by
  have hsplit : r.dequeued =
      (r.rounds.take r.wholeBytes).filterMap id ++ (r.rounds.drop r.wholeBytes).filterMap id := by
    rw [dequeued, ← List.filterMap_append, List.take_append_drop]
  have htaken : (r.buffer.take r.wholeBytes).map some = r.rounds.take r.wholeBytes →
      (r.rounds.take r.wholeBytes).filterMap id = r.buffer.take r.wholeBytes := by
    intro heq
    rw [← heq, List.filterMap_map]
    simp
  constructor
  · rintro ⟨hbytes, hfresh⟩
    rw [h.reported_eq] at hbytes hfresh
    refine ⟨fun x hx => ?_, fun x hx => ?_⟩
    · rw [← hfresh] at hx
      obtain ⟨value, -, rfl⟩ := List.mem_map.mp hx
      exact Option.some_ne_none value
    · rw [hsplit, htaken hfresh, List.self_eq_append_right] at hbytes
      exact List.filterMap_eq_nil_iff.mp hbytes x hx
  · rintro ⟨hfound, hempty⟩
    have hfresh := h.take_eq hfound
    have hrest : (r.rounds.drop r.wholeBytes).filterMap id = [] :=
      List.filterMap_eq_nil_iff.mpr hempty
    refine ⟨?_, ?_⟩
    · rw [h.reported_eq, hsplit, htaken hfresh, hrest, List.append_nil]
    · rw [h.reported_eq]
      exact hfresh

end MixLog

namespace Transport

variable [Inhabited β] {p : Platform}

/-- The history is true of the call that runs and of those that have returned. -/
structure Recorded (x : Transport β × MixHistory β) : Prop where
  running : ∀ a, x.1.consumer = some a → a.Logged x.1.mixer x.2.rounds
  calls : ∀ r ∈ x.2.calls, r.Sound

theorem Recorded.step {x y : Transport β × MixHistory β} {l : Label β} (h : Recorded x)
    (hstep : (mixCalls p).step x l y) : Recorded y := by
  obtain ⟨s, g⟩ := x
  obtain ⟨t, g'⟩ := y
  obtain ⟨hs, rfl⟩ : next p s l = some t ∧ g' = note g s l t := hstep
  cases branch_of_next hs with
  | receive hdone => exact ⟨h.running, h.calls⟩
  | produce ha =>
      exact ⟨fun a hrun => (h.running a hrun).congr (Producer.step_credit le_rfl ha).1, h.calls⟩
  | mix hnone => exact ⟨fun a ha => Option.some.inj ha ▸ trivial, h.calls⟩
  | consume ha hb =>
      obtain ⟨hlog, hcalls⟩ := (h.running _ ha).step h.calls hb
      simp only [note, ha]
      exact ⟨fun _ hb' => Option.some.inj hb' ▸ hlog, hcalls⟩
  | consume_returned hret =>
      simp only [note, hret]
      exact ⟨by simp, h.calls⟩
  | setStreaming | setFormat | clear =>
      exact ⟨fun a ha => (h.running a ha).congr rfl, h.calls⟩

/-- However the calls of `Mix` are interrupted: each one reports exactly what it dequeued if and
only if the queue supplied the whole frames of its request, and nothing past them. -/
theorem mix_reports_dequeued_iff {x : Transport β × MixHistory β}
    (h : (mixCalls p).Reachable x) : ∀ r ∈ x.2.calls, r.Exact ↔ r.Supplied := by
  have hx : Recorded x := by
    refine h.invariant ?_ fun _ _ _ hx _ hs => hx.step hs
    rintro ⟨s, g⟩ ⟨hnone, rfl⟩
    have hnone' : s.consumer = none := hnone
    exact ⟨by simp [hnone'], by simp⟩
  exact fun r hr => (hx.calls r hr).exact_iff

/-- Noting the calls leaves no run out. -/
theorem exists_mixCalls {s : Transport β}
    (h : (System.ofNext (fun s => s.consumer = none) (next p)).Reachable s) :
    ∃ g, (mixCalls p).Reachable (s, g) :=
  System.ReachableWhere.exists_history ({} : MixHistory β) note h

theorem mixCalls_of_exec {s : Transport β} {labels : List (Label β)}
    {x : Transport β × MixHistory β} (hs : s.consumer = none)
    (h : System.exec (System.record (next p) note) (fun _ _ => True) (s, {}) labels = some x) :
    (mixCalls p).Reachable x := by
  rw [mixCalls, System.ofNext_withHistory]
  exact System.reachableWhere_of_exec labels _ x (.init ⟨hs, rfl⟩) h

/-- A call that finds its two frames in the queue. -/
theorem mix_reports_dequeued_stereo8 :
    ∃ r : MixLog UInt8, r.frames = 2 ∧ r.buffer = [1, 2, 3, 4] ∧ r.Exact := by
  have h : (System.exec (System.record (next .x64) note) (fun _ _ => True)
      (({ stereo8 with mixer := { stereo8.mixer with sampleQueue := [1, 2, 3, 4, 5] } } :
        Transport UInt8), {}) (.mix 2 1 :: List.replicate 8 .consume)).map (fun x => x.2.calls) =
      some [⟨1, 2, 2, [1, 2, 3, 4], [some 1, some 2, some 3, some 4]⟩] := rfl
  obtain ⟨x, hx, hcalls⟩ := Option.map_eq_some_iff.mp h
  have hiff := mix_reports_dequeued_iff (mixCalls_of_exec rfl hx) _
    (hcalls ▸ List.mem_singleton_self _)
  exact ⟨_, rfl, rfl, hiff.mpr ⟨by simp [MixLog.wholeBytes], by simp [MixLog.wholeBytes]⟩⟩

/-- Streaming stops while a call for two frames waits in `WaitForFrames` with nothing queued:
the call reports the two frames that an earlier one has left in the vector. -/
theorem interrupted_mix_reports_stale_bytes :
    ∃ (x : Transport UInt8 × MixHistory UInt8) (r : MixLog UInt8),
      (mixCalls .x64).Reachable x ∧ r ∈ x.2.calls ∧ r.reported = 4 ∧
      r.buffer = [9, 9, 9, 9] ∧ r.dequeued = [] ∧ ¬ r.Exact := by
  have h : (System.exec (System.record (next .x64) note) (fun _ _ => True)
      (({ stereo8 with byteData := [9, 9, 9, 9] } : Transport UInt8), {})
      ([.mix 2 1, .consume, .consume, .consume, .setStreaming false] ++
        List.replicate 7 .consume)).map (fun x => x.2.calls) =
      some [⟨1, 2, 2, [9, 9, 9, 9], [none, none, none, none]⟩] := rfl
  obtain ⟨x, hx, hcalls⟩ := Option.map_eq_some_iff.mp h
  refine ⟨x, _, mixCalls_of_exec rfl hx, hcalls ▸ List.mem_singleton_self _, rfl, rfl, rfl, ?_⟩
  intro hexact
  exact absurd hexact.bytes (by decide)

end Transport

end OpenALRenderer
