import OpenALRenderer.Model.Streaming
import Mathlib.Logic.Function.Basic

/-! # OpenAL: sources with their buffer queues, buffers, and the calls the stream makes

Only what the documented behaviour of OpenAL 1.1 says about these calls is modelled. A call
that OpenAL rejects has no effect and writes no result. -/

namespace OpenALRenderer

/-! ## Sources -/

inductive SourceState where
  | initial
  | playing
  | paused
  | stopped
  deriving DecidableEq, Repr

/-- A source: the names queued on it, how many of them are processed, and its state. -/
structure Source where
  queue : List ℕ
  played : ℕ
  state : SourceState
  played_le : played ≤ queue.length

namespace Source

def fresh : Source := ⟨[], 0, .initial, le_rfl⟩

/-- `alSourceStop` marks every queued buffer as processed. -/
def stop (s : Source) : Source :=
  if s.state = .initial then s else ⟨s.queue, s.queue.length, .stopped, le_rfl⟩

/-- `alSourcei(source, AL_BUFFER, 0)`; a source that plays or is paused rejects it. -/
def detach (s : Source) : Source :=
  if s.state = .playing ∨ s.state = .paused then s else ⟨[], 0, s.state, le_rfl⟩

/-- `alSourceUnqueueBuffers`; only processed buffers can be unqueued. -/
def unqueue (n : ℕ) (s : Source) : Source :=
  if n ≤ s.played then
    ⟨s.queue.drop n, s.played - n, s.state, by
      rw [List.length_drop]
      exact Nat.sub_le_sub_right s.played_le n⟩
  else s

def enqueue (b : ℕ) (s : Source) : Source :=
  ⟨s.queue ++ [b], s.played, s.state, by
    rw [List.length_append]
    exact Nat.le_add_right_of_le s.played_le⟩

/-- `alSourcePlay` resumes a paused source and starts any other from the head of its queue. -/
def play (s : Source) : Source :=
  if s.state = .paused then { s with state := .playing }
  else ⟨s.queue, 0, if s.queue = [] then .stopped else .playing, Nat.zero_le _⟩

/-- The driver finishes a buffer; a source that runs out of data stops. -/
def finish (s : Source) : Option Source :=
  if h : s.state = .playing ∧ s.played < s.queue.length then
    some ⟨s.queue, s.played + 1,
      if s.played + 1 = s.queue.length then .stopped else .playing, h.2⟩
  else none

@[simp] theorem queue_stop (s : Source) : s.stop.queue = s.queue := by
  unfold stop
  split <;> rfl

@[simp] theorem queue_enqueue (b : ℕ) (s : Source) : (s.enqueue b).queue = s.queue ++ [b] := rfl

@[simp] theorem played_enqueue (b : ℕ) (s : Source) : (s.enqueue b).played = s.played := rfl

@[simp] theorem state_enqueue (b : ℕ) (s : Source) : (s.enqueue b).state = s.state := rfl

@[simp] theorem queue_play (s : Source) : s.play.queue = s.queue := by
  unfold play
  split <;> rfl

@[simp] theorem state_unqueue (n : ℕ) (s : Source) : (s.unqueue n).state = s.state := by
  unfold unqueue
  split <;> rfl

theorem queue_unqueue {n : ℕ} {s : Source} (h : n ≤ s.played) :
    (s.unqueue n).queue = s.queue.drop n := by
  simp [unqueue, h]

theorem played_unqueue {n : ℕ} {s : Source} (h : n ≤ s.played) :
    (s.unqueue n).played = s.played - n := by
  simp [unqueue, h]

/-- A stopped source, or one that never played, lets go of its buffers. -/
theorem queue_detach {s : Source} (h₁ : s.state ≠ .playing) (h₂ : s.state ≠ .paused) :
    s.detach.queue = [] := by
  simp [detach, h₁, h₂]

theorem state_stop_ne_playing (s : Source) : s.stop.state ≠ .playing := by
  unfold stop
  split
  next h => simp [h]
  next h => simp

theorem state_stop_ne_paused (s : Source) : s.stop.state ≠ .paused := by
  unfold stop
  split
  next h => simp [h]
  next h => simp

theorem finish_eq_some {s t : Source} (h : s.finish = some t) :
    s.state = .playing ∧ t.queue = s.queue ∧ t.played = s.played + 1 ∧
      t.state = if t.played = s.queue.length then .stopped else .playing := by
  unfold finish at h
  split at h
  · rename_i hs
    obtain rfl := Option.some.inj h
    exact ⟨hs.1, rfl, rfl, rfl⟩
  · cases h

end Source

/-! ## The objects of a context -/

/-- A buffer: the data it holds, and how many places in queues it occupies. -/
structure Buffer (β : Type*) where
  data : Option (BufferDataCall β) := none
  attached : ℕ := 0

structure OpenAL (β : Type*) where
  /-- The device is open. -/
  device : Bool
  /-- The context exists. -/
  context : Bool
  /-- The context is the current one. -/
  current : Bool
  sources : ℕ → Option Source
  buffers : ℕ → Option (Buffer β)

variable {β : Type*}

namespace OpenAL

/-- The context and device `OpenDevice` leaves. -/
def opened : OpenAL β := ⟨true, true, true, fun _ => none, fun _ => none⟩

/-- A context is there to make calls in. -/
def Usable (al : OpenAL β) : Prop := al.device ∧ al.context ∧ al.current

instance (al : OpenAL β) : Decidable al.Usable := inferInstanceAs (Decidable (_ ∧ _ ∧ _))

/-- The names queued on a source. -/
def queue (s : ℕ) (al : OpenAL β) : List ℕ := (al.sources s).elim [] Source.queue

/-- The processed buffers of a source. -/
def played (s : ℕ) (al : OpenAL β) : ℕ := (al.sources s).elim 0 Source.played

def updateSource (s : ℕ) (f : Source → Source) (al : OpenAL β) : OpenAL β :=
  { al with sources := Function.update al.sources s ((al.sources s).map f) }

/-- Buffers leave a queue. -/
def release (names : List ℕ) (al : OpenAL β) : OpenAL β :=
  { al with
    buffers := fun b =>
      (al.buffers b).map fun x => { x with attached := x.attached - names.count b } }

def updateBuffer (b : ℕ) (f : Buffer β → Buffer β) (al : OpenAL β) : OpenAL β :=
  { al with buffers := Function.update al.buffers b ((al.buffers b).map f) }

def genBuffers (names : List ℕ) (al : OpenAL β) : OpenAL β :=
  { al with buffers := fun b => if b ∈ names then some {} else al.buffers b }

def genSources (names : List ℕ) (al : OpenAL β) : OpenAL β :=
  { al with sources := fun s => if s ∈ names then some .fresh else al.sources s }

/-- `alSourcei(source, AL_BUFFER, 0)`. -/
def detach (s : ℕ) (al : OpenAL β) : OpenAL β :=
  let al' := al.updateSource s .detach
  if al'.queue s = [] then al'.release (al.queue s) else al

def unqueue (s n : ℕ) (al : OpenAL β) : OpenAL β :=
  if n ≤ al.played s then (al.updateSource s (.unqueue n)).release ((al.queue s).take n) else al

def isAttached (al : OpenAL β) (b : ℕ) : Bool := (al.buffers b).any fun x => 0 < x.attached

/-- `alDeleteBuffers` deletes either all the buffers or, when one of them is attached, none. -/
def deleteBuffers (names : List ℕ) (al : OpenAL β) : OpenAL β :=
  if names.any al.isAttached then al
  else { al with buffers := fun b => if b ∈ names then none else al.buffers b }

/-- `alBufferData`; the data of an attached buffer cannot be changed. -/
def bufferData (b : ℕ) (call : BufferDataCall β) (al : OpenAL β) : OpenAL β :=
  if al.isAttached b then al else al.updateBuffer b fun x => { x with data := some call }

def queueBuffer (s b : ℕ) (al : OpenAL β) : OpenAL β :=
  (al.updateSource s (.enqueue b)).updateBuffer b fun x => { x with attached := x.attached + 1 }

def deleteSource (s : ℕ) (al : OpenAL β) : OpenAL β :=
  { al.release (al.queue s) with sources := Function.update al.sources s none }

/-- The driver finishes a buffer of a source. -/
def finish (s : ℕ) (al : OpenAL β) : Option (OpenAL β) :=
  ((al.sources s).bind Source.finish).map fun src =>
    { al with sources := Function.update al.sources s (some src) }

/-- How many places in queues a buffer occupies, if it exists. -/
def attached (b : ℕ) (al : OpenAL β) : Option ℕ := (al.buffers b).map Buffer.attached

variable (al : OpenAL β)

@[simp] theorem sources_updateSource_self (s : ℕ) (f : Source → Source) :
    (al.updateSource s f).sources s = (al.sources s).map f := by
  simp [updateSource]

@[simp] theorem sources_release (names : List ℕ) : (al.release names).sources = al.sources := rfl

@[simp] theorem sources_genBuffers (names : List ℕ) :
    (al.genBuffers names).sources = al.sources := rfl

@[simp] theorem sources_deleteBuffers (names : List ℕ) :
    (al.deleteBuffers names).sources = al.sources := by
  unfold deleteBuffers
  split <;> rfl

@[simp] theorem sources_bufferData (b : ℕ) (call : BufferDataCall β) :
    (al.bufferData b call).sources = al.sources := by
  unfold bufferData
  split <;> rfl

@[simp] theorem sources_queueBuffer (s b : ℕ) :
    (al.queueBuffer s b).sources = (al.updateSource s (.enqueue b)).sources := rfl

@[simp] theorem attached_updateSource (s : ℕ) (f : Source → Source) (b : ℕ) :
    (al.updateSource s f).attached b = al.attached b := rfl

@[simp] theorem attached_release (names : List ℕ) (b : ℕ) :
    (al.release names).attached b = (al.attached b).map (· - names.count b) := by
  simp only [attached, release, Option.map_map]
  rfl

theorem attached_genBuffers (names : List ℕ) (b : ℕ) :
    (al.genBuffers names).attached b = if b ∈ names then some 0 else al.attached b := by
  unfold attached genBuffers
  dsimp only
  split <;> rfl

@[simp] theorem attached_bufferData (b b' : ℕ) (call : BufferDataCall β) :
    (al.bufferData b call).attached b' = al.attached b' := by
  unfold bufferData
  split
  · rfl
  · by_cases h : b' = b
    · subst h
      simp [attached, updateBuffer, Function.comp_def]
    · simp [attached, updateBuffer, h]

theorem attached_queueBuffer (s b b' : ℕ) :
    (al.queueBuffer s b).attached b' =
      if b' = b then (al.attached b').map (· + 1) else al.attached b' := by
  by_cases h : b' = b
  · subst h
    simp [queueBuffer, attached, updateBuffer, updateSource, Function.comp_def]
  · simp [queueBuffer, attached, updateBuffer, updateSource, h]

theorem isSome_of_attached {al : OpenAL β} {b n : ℕ} (h : al.attached b = some n) :
    (al.buffers b).isSome := by
  obtain ⟨x, hx, -⟩ := Option.map_eq_some_iff.mp h
  simp [hx]

theorem isAttached_of_attached {al : OpenAL β} {b n : ℕ} (h : al.attached b = some n) :
    al.isAttached b = decide (0 < n) := by
  obtain ⟨x, hx, rfl⟩ := Option.map_eq_some_iff.mp h
  simp [isAttached, hx]

end OpenAL

/-! ## Calls -/

/-- The OpenAL calls of `SoundLoop` and of `Stop`. -/
inductive ALCall (β : Type*) where
  | isExtensionPresent (name : String)
  | getString
  | getError
  | getEnumValue (name : String)
  | genBuffers (n : ℕ)
  | genSources (n : ℕ)
  | sourceGain (s : ℕ)
  | sourceStop (s : ℕ)
  | detachBuffers (s : ℕ)
  | deleteBuffers (names : List ℕ)
  | buffersProcessed (s : ℕ)
  | sourceState (s : ℕ)
  | unqueueBuffers (s n : ℕ)
  | bufferData (b : ℕ) (call : BufferDataCall β)
  | queueBuffer (s b : ℕ)
  | sourcePlay (s : ℕ)

/-- What a call writes for its caller. -/
structure ALResult where
  names : Option (List ℕ) := none
  processed : Option ℕ := none
  state : Option SourceState := none

namespace ALCall

/-- The sources and the buffers a call names. -/
def sources : ALCall β → List ℕ
  | sourceGain s | sourceStop s | detachBuffers s | buffersProcessed s | sourceState s
  | unqueueBuffers s _ | queueBuffer s _ | sourcePlay s => [s]
  | _ => []

def buffers : ALCall β → List ℕ
  | deleteBuffers names => names
  | bufferData b _ | queueBuffer _ b => [b]
  | _ => []

/-- A context is there to make the call in, and no object the call names is deleted. -/
def Valid (al : OpenAL β) (c : ALCall β) : Prop :=
  al.Usable ∧ (∀ s ∈ c.sources, (al.sources s).isSome) ∧ ∀ b ∈ c.buffers, (al.buffers b).isSome

instance (al : OpenAL β) (c : ALCall β) : Decidable (c.Valid al) :=
  inferInstanceAs (Decidable (_ ∧ _ ∧ _))

/-- OpenAL may answer a generating call with `names`. -/
def MayReturn (names : List ℕ) (al : OpenAL β) : ALCall β → Prop
  | genBuffers n => names.length = n ∧ names.Nodup ∧ ∀ x ∈ names, x ≠ 0 ∧ (al.buffers x).isNone
  | genSources n => names.length = n ∧ names.Nodup ∧ ∀ x ∈ names, x ≠ 0 ∧ (al.sources x).isNone
  | _ => True

instance (names : List ℕ) (al : OpenAL β) : ∀ c : ALCall β, Decidable (c.MayReturn names al)
  | genBuffers _ => inferInstanceAs (Decidable (_ ∧ _ ∧ _))
  | genSources _ => inferInstanceAs (Decidable (_ ∧ _ ∧ _))
  | isExtensionPresent _ | getString | getError | getEnumValue _ | sourceGain _ | sourceStop _
  | detachBuffers _ | deleteBuffers _ | buffersProcessed _ | sourceState _ | unqueueBuffers _ _
  | bufferData _ _ | queueBuffer _ _ | sourcePlay _ => inferInstanceAs (Decidable True)

/-- What a valid call does; `names` is what OpenAL picks when the call generates names. -/
def effect (names : List ℕ) (al : OpenAL β) : ALCall β → ALResult × OpenAL β
  | isExtensionPresent _ | getString | getError | getEnumValue _ | sourceGain _ => ({}, al)
  | genBuffers _ => ({ names := some names }, al.genBuffers names)
  | genSources _ => ({ names := some names }, al.genSources names)
  | sourceStop s => ({}, al.updateSource s .stop)
  | detachBuffers s => ({}, al.detach s)
  | deleteBuffers names => ({}, al.deleteBuffers names)
  | buffersProcessed s => ({ processed := some (al.played s) }, al)
  | sourceState s => ({ state := (al.sources s).map Source.state }, al)
  | unqueueBuffers s n => ({}, al.unqueue s n)
  | bufferData b call => ({}, al.bufferData b call)
  | queueBuffer s b => ({}, al.queueBuffer s b)
  | sourcePlay s => ({}, al.updateSource s .play)

def perform (names : List ℕ) (al : OpenAL β) (c : ALCall β) : ALResult × OpenAL β :=
  if c.Valid al then c.effect names al else ({}, al)

theorem perform_of_valid {names : List ℕ} {al : OpenAL β} {c : ALCall β} (h : c.Valid al) :
    c.perform names al = c.effect names al := if_pos h

theorem usable_effect (names : List ℕ) (al : OpenAL β) (c : ALCall β) :
    (c.effect names al).2.Usable ↔ al.Usable := by
  cases c <;>
    simp only [effect, OpenAL.detach, OpenAL.unqueue, OpenAL.deleteBuffers, OpenAL.bufferData] <;>
    first
    | exact Iff.rfl
    | (split <;> exact Iff.rfl)

/-- Nothing is ever generated under the name zero. -/
theorem effect_zero {names : List ℕ} {al : OpenAL β} {c : ALCall β} (hm : c.MayReturn names al)
    (h : al.sources 0 = none) : (c.effect names al).2.sources 0 = none := by
  have hu : ∀ s f, (al.updateSource s f).sources 0 = none := by
    intro s f
    by_cases hs : 0 = s
    · subst hs
      simp [h]
    · simp [OpenAL.updateSource, hs, h]
  cases c with
  | genSources n =>
      have h0 : 0 ∉ names := fun h0 => (hm.2.2 0 h0).1 rfl
      simpa [effect, OpenAL.genSources, h0] using h
  | detachBuffers s =>
      simp only [effect, OpenAL.detach]
      split
      · exact hu s _
      · exact h
  | unqueueBuffers s n =>
      simp only [effect, OpenAL.unqueue]
      split
      · exact hu s _
      · exact h
  | sourceStop s => exact hu s _
  | sourcePlay s => exact hu s _
  | queueBuffer s b => exact hu s _
  | deleteBuffers names => simpa [effect] using h
  | bufferData b call => simpa [effect] using h
  | _ => exact h

/-- Only `alGenSources` brings sources to life. -/
theorem isSome_sources_of_effect {names : List ℕ} {al : OpenAL β} {c : ALCall β}
    (hc : ∀ n, c ≠ genSources n) {s : ℕ} (h : ((c.effect names al).2.sources s).isSome) :
    (al.sources s).isSome := by
  have hu : ∀ s' f, ((al.updateSource s' f).sources s).isSome → (al.sources s).isSome := by
    intro s' f hs
    by_cases he : s = s'
    · subst he
      simpa using hs
    · simpa [OpenAL.updateSource, he] using hs
  cases c with
  | genSources n => exact absurd rfl (hc n)
  | detachBuffers s' =>
      simp only [effect, OpenAL.detach] at h
      split at h
      · exact hu s' _ h
      · exact h
  | unqueueBuffers s' n =>
      simp only [effect, OpenAL.unqueue] at h
      split at h
      · exact hu s' _ h
      · exact h
  | sourceStop s' => exact hu s' _ h
  | sourcePlay s' => exact hu s' _ h
  | queueBuffer s' b => exact hu s' _ h
  | deleteBuffers names => simpa [effect] using h
  | bufferData b call => simpa [effect] using h
  | _ => exact h

/-- Only `alGenBuffers` brings buffers to life. -/
theorem isSome_buffers_of_effect {names : List ℕ} {al : OpenAL β} {c : ALCall β}
    (hc : ∀ n, c ≠ genBuffers n) {b : ℕ} (h : ((c.effect names al).2.buffers b).isSome) :
    (al.buffers b).isSome := by
  have hu : ∀ (al' : OpenAL β) b' f, ((al'.updateBuffer b' f).buffers b).isSome →
      (al'.buffers b).isSome := by
    intro al' b' f hs
    by_cases he : b = b'
    · subst he
      simpa [OpenAL.updateBuffer] using hs
    · simpa [OpenAL.updateBuffer, he] using hs
  cases c with
  | genBuffers n => exact absurd rfl (hc n)
  | detachBuffers s' =>
      simp only [effect, OpenAL.detach] at h
      split at h
      · simpa [OpenAL.release, OpenAL.updateSource] using h
      · exact h
  | unqueueBuffers s' n =>
      simp only [effect, OpenAL.unqueue] at h
      split at h
      · simpa [OpenAL.release, OpenAL.updateSource] using h
      · exact h
  | queueBuffer s' b' => exact hu _ b' _ h
  | deleteBuffers names =>
      simp only [effect, OpenAL.deleteBuffers] at h
      split at h
      · exact h
      · dsimp only at h
        split at h
        · cases h
        · exact h
  | bufferData b' call =>
      simp only [effect, OpenAL.bufferData] at h
      split at h
      · exact h
      · exact hu _ b' _ h
  | _ => exact h

end ALCall

end OpenALRenderer
