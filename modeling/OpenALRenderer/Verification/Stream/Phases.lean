import OpenALRenderer.Model.SoundLoop
import OpenALRenderer.Foundation.System

/-! # The buffer ring: what each step of `SoundLoop` means for a source and its counters

The ring knows the source of the loop as one value, and none of the other OpenAL objects.
A phase gathers the program points between which neither changes. -/

namespace OpenALRenderer

/-- `starting` ends when the names of an earlier run are forgotten, `unnamed` when the buffers
exist, `buffered` when the source does. The phases from `stopped` to `regenerated` are those
of the regeneration branch, and the ones from `polled` to `stalled` follow the query of
`AL_BUFFERS_PROCESSED`. -/
inductive Phase where
  | starting
  | unnamed
  | buffered
  | settled
  | stopped
  | emptied
  | deleted
  | regenerated
  | polled
  | taking
  | taken
  | room
  | appended
  | counted
  | stalled
  deriving DecidableEq, Repr

def Check.phase : Check → Phase
  | .generatingBuffers => .buffered
  | .generatingSources => .settled
  | .regenerating => .regenerated
  | .unqueuing => .taken
  | .buffering => .room
  | .queuing => .appended
  | .resuming => .settled

def Pc.phase {β : Type*} : Pc β → Phase
  | notStarted | readFrequency | readSpeakerLayout | readBitness | queryFloat32 | queryMcFormats
  | queryRenderer | queryFixed32 | computeFrames | resetNames => .starting
  | clearError | genBuffers => .unnamed
  | genSources => .buffered
  | setGain | head | testStreaming | sleep | compareFrequency | compareBitness
  | compareSpeakerLayout | stopSource | recomputeFrames | updateFrequency | updateBitness
  | updateSpeakerLayout | getProcessed | exited => .settled
  | detachBuffers => .stopped
  | deleteBuffers => .emptied
  | regenBuffers => .deleted
  | resetCounters => .regenerated
  | getState => .polled
  | unqueue => .taking
  | countUnqueued => .taken
  | selectWidth | mix _ | arguments _ | getEnumValue _ _ | bufferData _ | queueBuffer => .room
  | countQueued => .appended
  | getStateAgain => .counted
  | play => .stalled
  | check c | report c => c.phase

theorem Check.phase_next {β : Type*} (c : Check) : (c.next : Pc β).phase = c.phase := by
  cases c <;> rfl

/-- The source of the loop and what the loop keeps to track its queue. -/
structure Ring where
  phase : Phase
  source : Source
  names : List ℕ
  queued : UInt32
  next : UInt32
  processed : ℕ

/-- A set of names that `alGenBuffers` may return for the whole ring. -/
def IsRing (names : List ℕ) : Prop := names.length = oalBuffers.toNat ∧ names.Nodup

namespace Ring

def nextName (r : Ring) : ℕ := r.names.getD r.next.toNat 0

/-- The steps of the loop, as the ring sees them. -/
inductive Step : Ring → Ring → Prop where
  | idle (r) : Step r r
  | forget (r source names) (h : r.phase = .starting) :
      Step r { r with phase := .unnamed, source := source, names := names }
  | name (r names) (h : r.phase = .unnamed) (hn : IsRing names) :
      Step r { r with phase := .buffered, names := names }
  | create (r) (h : r.phase = .buffered) :
      Step r { r with phase := .settled, source := .fresh }
  | stop (r) (h : r.phase = .settled) :
      Step r { r with phase := .stopped, source := r.source.stop }
  | detach (r) (h : r.phase = .stopped) :
      Step r { r with phase := .emptied, source := r.source.detach }
  | delete (r) (h : r.phase = .emptied) : Step r { r with phase := .deleted }
  | rename (r names) (h : r.phase = .deleted) (hn : IsRing names) :
      Step r { r with phase := .regenerated, names := names }
  | reset (r) (h : r.phase = .regenerated) :
      Step r { r with phase := .settled, queued := 0, next := 0 }
  | poll (r) (h : r.phase = .settled) :
      Step r { r with phase := .polled, processed := r.source.played }
  | full (r) (h : r.phase = .polled) (hq : r.queued = oalBuffers) (hp : r.processed = 0) :
      Step r { r with phase := .settled }
  | ready (r) (h : r.phase = .polled) (hq : r.queued ≠ oalBuffers) (hp : r.processed = 0) :
      Step r { r with phase := .room }
  | take (r) (h : r.phase = .polled) (hp : r.processed ≠ 0) : Step r { r with phase := .taking }
  | unqueue (r) (h : r.phase = .taking) :
      Step r { r with phase := .taken, source := r.source.unqueue r.processed }
  | countUnqueued (r) (h : r.phase = .taken) :
      Step r { r with phase := .room, queued := r.queued - r.processed.toUInt32 }
  | giveUp (r) (h : r.phase = .room) : Step r { r with phase := .settled }
  | enqueue (r) (h : r.phase = .room) :
      Step r { r with phase := .appended, source := r.source.enqueue r.nextName }
  | countQueued (r) (h : r.phase = .appended) :
      Step r { r with
        phase := .counted
        queued := r.queued + 1
        next := (r.next + 1) % oalBuffers }
  | running (r) (h : r.phase = .counted) (hs : r.source.state = .playing) :
      Step r { r with phase := .settled }
  | stall (r) (h : r.phase = .counted) (hs : r.source.state ≠ .playing) :
      Step r { r with phase := .stalled }
  | play (r) (h : r.phase = .stalled) :
      Step r { r with phase := .settled, source := r.source.play }

/-- The driver finishes a buffer of the source, or one of another source. -/
inductive Driven : Ring → Ring → Prop where
  | other (r) : Driven r r
  | finish (r src) (h : r.source.finish = some src) : Driven r { r with source := src }

/-- The driver touches neither the queue of a source nor a source that does not play. -/
theorem Driven.queue {r r' : Ring} (h : Driven r r') : r'.source.queue = r.source.queue := by
  cases h with
  | other => rfl
  | finish src hf => exact (Source.finish_eq_some hf).2.1

theorem Driven.of_not_playing {r r' : Ring} (h : Driven r r') (hs : r.source.state ≠ .playing) :
    r' = r := by
  cases h with
  | other => rfl
  | finish src hf => exact absurd (Source.finish_eq_some hf).1 hs

end Ring

/-- The ring of a stream. -/
def Stream.ring {β : Type*} (s : Stream β) : Ring where
  phase := s.pc.phase
  source := (s.al.sources s.source).getD .fresh
  names := s.buffers
  queued := s.numBuffersQueued
  next := s.locals.nextBuffer
  processed := s.locals.numBuffersProcessed

/-! ## What the loop leaves alone -/

namespace Stream

variable {β : Type*} {s t : Stream β} {c : Choice β}

/-- The members that other threads write and the loop only reads. -/
structure SameSettings (s t : Stream β) : Prop where
  frequency : t.frequency = s.frequency
  speakerLayout : t.speakerLayout = s.speakerLayout
  bitness : t.bitness = s.bitness
  streaming : t.streaming = s.streaming
  runThread : t.runThread = s.runThread
  destructor : t.destructor = s.destructor

theorem evaluate_settings {o : Operands} {x : Operand} (hs : s.evaluate o x = some t) :
    SameSettings s t := by
  cases x <;> simp only [evaluate] at hs <;> split at hs <;> cases hs <;>
    exact ⟨rfl, rfl, rfl, rfl, rfl, rfl⟩

theorem advance_settings (hs : s.advance c = some t) : SameSettings s t := by
  unfold advance at hs
  split at hs
  case h_18 => split at hs <;> cases hs <;> exact ⟨rfl, rfl, rfl, rfl, rfl, rfl⟩
  case h_20 => exact evaluate_settings hs
  case h_22 => cases hs
  all_goals
    cases hs
    exact ⟨rfl, rfl, rfl, rfl, rfl, rfl⟩

theorem resume_settings (c : Choice β) (r : ALResult) (s : Stream β) :
    SameSettings s (s.resume c r) := by
  unfold resume
  split <;> exact ⟨rfl, rfl, rfl, rfl, rfl, rfl⟩

theorem loopStep_settings (hs : s.loopStep c = some t) : SameSettings s t := by
  unfold loopStep at hs
  split at hs
  · exact advance_settings hs
  · next x _ =>
      split at hs <;> cases hs
      have h := resume_settings c (x.perform c.names s.al).1 (s.setAl (x.perform c.names s.al).2)
      exact ⟨h.frequency, h.speakerLayout, h.bitness, h.streaming, h.runThread, h.destructor⟩

theorem evaluate_names {o : Operands} {x : Operand} (hs : s.evaluate o x = some t) :
    t.al = s.al ∧ t.source = s.source ∧ t.buffers = s.buffers := by
  cases x <;> simp only [evaluate] at hs <;> split at hs <;> cases hs <;> exact ⟨rfl, rfl, rfl⟩

theorem advance_names (hs : s.advance c = some t) :
    t.al = s.al ∧ (s.pc ≠ .resetNames → t.source = s.source ∧ t.buffers = s.buffers) := by
  unfold advance at hs
  split at hs
  case h_5 hpc =>
      cases hs
      exact ⟨rfl, fun h => absurd hpc h⟩
  case h_18 => split at hs <;> cases hs <;> exact ⟨rfl, fun _ => ⟨rfl, rfl⟩⟩
  case h_20 => exact (evaluate_names hs).imp_right fun h _ => h
  case h_22 => cases hs
  all_goals
    cases hs
    exact ⟨rfl, fun _ => ⟨rfl, rfl⟩⟩

theorem al_resume (c : Choice β) (r : ALResult) (s : Stream β) : (s.resume c r).al = s.al := by
  unfold resume
  split <;> rfl

/-- Only the calls that generate names change what the loop calls its source and buffers. -/
theorem resume_names (c : Choice β) (r : ALResult) (s : Stream β) :
    (s.pc ≠ .genSources → (s.resume c r).source = s.source) ∧
      (s.pc ≠ .genBuffers → s.pc ≠ .regenBuffers → (s.resume c r).buffers = s.buffers) := by
  unfold resume
  split
  case h_6 hpc => exact ⟨fun _ => rfl, fun h => absurd hpc h⟩
  case h_7 hpc => exact ⟨fun h => absurd hpc h, fun _ _ => rfl⟩
  case h_12 hpc => exact ⟨fun _ => rfl, fun _ h => absurd hpc h⟩
  all_goals exact ⟨fun _ => rfl, fun _ _ => rfl⟩

/-! What the other threads' calls can do. -/

/-- `StartDevice` leaves a running thread alone, and starts another one when the older has ended. -/
theorem next_startDevice (hs : s.next .startDevice = some t) :
    s.destructor = .notCalled ∧ (t = s ∨
      s.runThread ≠ true ∧ s.Joinable ∧
        t = { s with runThread := true, pc := .readFrequency, locals := {} }) := by
  obtain ⟨hnot, hs⟩ := Option.ite_none_right_eq_some.mp hs
  refine ⟨hnot, ?_⟩
  unfold startDevice at hs
  split at hs
  · exact .inl (Option.some.inj hs).symm
  · next hrun =>
      obtain ⟨hjoin, hs⟩ := Option.ite_none_right_eq_some.mp hs
      exact .inr ⟨hrun, hjoin, (Option.some.inj hs).symm⟩

theorem next_stopDevice (hs : s.next .stopDevice = some t) : t = s.stopDevice := by
  obtain ⟨-, hs⟩ := Option.ite_none_right_eq_some.mp hs
  exact (Option.some.inj hs).symm

theorem next_stop (hs : s.next .stop = some t) : t = s.stop := by
  obtain ⟨-, hs⟩ := Option.ite_none_right_eq_some.mp hs
  exact (Option.some.inj hs).symm

end Stream

end OpenALRenderer
