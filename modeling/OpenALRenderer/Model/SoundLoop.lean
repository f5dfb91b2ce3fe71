import OpenALRenderer.Model.OpenAL

/-! # `COpenALStream::SoundLoop`, step by step, with what other threads do to the stream -/

namespace OpenALRenderer

/-! ## State -/

/-- The calls of `CheckALError` in `SoundLoop`, by what each of them reports on. -/
inductive Check where
  | generatingBuffers
  | generatingSources
  | regenerating
  | unqueuing
  | buffering
  | queuing
  | resuming
  deriving DecidableEq, Repr

/-- The operands of the arguments of `alBufferData` that are read from shared members, or
obtained from OpenAL. -/
inductive Operand where
  | formatLayout
  | formatBitness
  | format
  | sizeLayout
  | sizeBitness
  | frequency
  deriving DecidableEq, Repr

/-- The operands evaluated so far; C++ leaves their order open. -/
structure Operands where
  formatLayout : Option SpeakerLayout := none
  formatBitness : Option MediaBitness := none
  format : Option String := none
  sizeLayout : Option SpeakerLayout := none
  sizeBitness : Option MediaBitness := none
  frequency : Option Int32 := none
  deriving DecidableEq

/-- Program points of `SoundLoop`, in the order of the source. -/
inductive Pc (β : Type*) where
  | notStarted
  | readFrequency
  | readSpeakerLayout
  | readBitness
  | queryFloat32
  | queryMcFormats
  | queryRenderer
  | queryFixed32
  | computeFrames
  | resetNames
  | clearError
  | genBuffers
  | genSources
  | setGain
  | head
  | testStreaming
  | sleep
  | compareFrequency
  | compareBitness
  | compareSpeakerLayout
  | stopSource
  | detachBuffers
  | deleteBuffers
  | regenBuffers
  | resetCounters
  | recomputeFrames
  | updateFrequency
  | updateBitness
  | updateSpeakerLayout
  | getProcessed
  | getState
  | unqueue
  | countUnqueued
  | selectWidth
  | mix (numBytesPerSample : ℕ)
  | arguments (o : Operands)
  | getEnumValue (o : Operands) (name : String)
  | bufferData (call : BufferDataCall β)
  | queueBuffer
  | countQueued
  | getStateAgain
  | play
  | check (c : Check)
  | report (c : Check)
  | exited
  deriving DecidableEq

/-- The locals of `SoundLoop`. -/
structure Locals (β : Type*) where
  pastFrequency : UInt32 := 0
  pastSpeakerLayout : SpeakerLayout := .surround6
  pastBitness : MediaBitness := .bit16
  framesPerBuffer : UInt32 := 0
  nextBuffer : UInt32 := 0
  numBuffersProcessed : ℕ := 0
  state : Option SourceState := none
  availableFrames : ℕ := 0
  byteData : List β := []

/-- Program points of `~COpenALStream`, past the reset of `m_run_thread`. -/
inductive Destructor where
  | notCalled
  | testSource
  | stopSource
  | detachBuffers
  | deleteSource
  | clearSource
  | deleteBuffers
  | releaseContext
  | destroyContext
  | closeDevice
  | join
  | returned
  deriving DecidableEq, Repr

/-- The members of `COpenALStream` that `SoundLoop` and its controllers use, what
`CMixer::IsStreaming` answers, the OpenAL objects, and where the two threads are. -/
structure Stream (β : Type*) where
  frequency : Int32 := 48000
  speakerLayout : SpeakerLayout := .surround6
  bitness : MediaBitness := .bit16
  runThread : Bool := false
  numBuffersQueued : UInt32 := 0
  buffers : List ℕ := []
  totalBuffered : ℕ := 0
  source : ℕ := 0
  streaming : Bool := false
  al : OpenAL β
  pc : Pc β := .notStarted
  locals : Locals β := {}
  destructor : Destructor := .notCalled

/-- What a step of the loop leaves open: the names OpenAL generates, whether an extension is
present or an error is pending, what `Mix` returns, and the operand evaluated next. -/
structure Choice (β : Type*) where
  names : List ℕ := []
  reply : Bool := false
  frames : ℕ := 0
  data : List β := []
  operand : Operand := .format
  deriving DecidableEq

variable {β : Type*}

/-- Where `SoundLoop` goes on after each of its error checks. -/
def Check.next : Check → Pc β
  | .generatingBuffers => .genSources
  | .generatingSources => .setGain
  | .regenerating => .resetCounters
  | .unqueuing => .countUnqueued
  | .buffering => .queueBuffer
  | .queuing => .countQueued
  | .resuming => .head

/-! ## The operands of `alBufferData` -/

namespace Operands

/-- The call, once every operand is there. -/
def call (o : Operands) (frames : ℕ) (data : List β) : Option (BufferDataCall β) :=
  match o.format, o.sizeLayout, o.sizeBitness, o.frequency with
  | some format, some layout, some bitness, some frequency =>
      some ⟨format, data, toALsizei (frames * getFrameSize layout bitness), frequency⟩
  | _, _, _, _ => none

/-- Where the loop goes on with the operands it has. -/
def pc (o : Operands) (frames : ℕ) (data : List β) : Pc β :=
  match o.call frames data with
  | some call => .bufferData call
  | none => .arguments o

end Operands

namespace Stream

def goto (pc : Pc β) (s : Stream β) : Stream β := { s with pc := pc }

def setLocals (f : Locals β → Locals β) (s : Stream β) : Stream β := { s with locals := f s.locals }

def setAl (al : OpenAL β) (s : Stream β) : Stream β := { s with al := al }

@[simp] theorem pc_setAl (al : OpenAL β) (s : Stream β) : (s.setAl al).pc = s.pc := rfl

/-- Evaluate one more operand; `none` when it is evaluated already, or not ready. -/
def evaluate (o : Operands) (x : Operand) (s : Stream β) : Option (Stream β) :=
  let next (o : Operands) := s.goto (o.pc s.locals.availableFrames s.locals.byteData)
  match x with
  | .formatLayout =>
      if o.formatLayout.isNone then some (next { o with formatLayout := s.speakerLayout })
      else none
  | .formatBitness =>
      if o.formatBitness.isNone then some (next { o with formatBitness := s.bitness }) else none
  | .format =>
      match o.format, o.formatLayout, o.formatBitness with
      | none, some layout, some bitness =>
          some (s.goto (.getEnumValue o (generateFormatString layout bitness)))
      | _, _, _ => none
  | .sizeLayout =>
      if o.sizeLayout.isNone then some (next { o with sizeLayout := s.speakerLayout }) else none
  | .sizeBitness =>
      if o.sizeBitness.isNone then some (next { o with sizeBitness := s.bitness }) else none
  | .frequency =>
      if o.frequency.isNone then some (next { o with frequency := s.frequency }) else none

/-! ## `SoundLoop` -/

/-- `m_buffers[next_buffer]`. -/
def nextName (s : Stream β) : ℕ := s.buffers.getD s.locals.nextBuffer.toNat 0

/-- The value both assignments of `frames_per_buffer` compute. -/
def bufferFrames (s : Stream β) : UInt32 :=
  framesPerBuffer initialLatency oalBuffers s.frequency

/-- The OpenAL call the loop is about to make, if it is about to make one. -/
def call (s : Stream β) : Option (ALCall β) :=
  match s.pc with
  | .queryFloat32 => some (.isExtensionPresent "AL_EXT_float32")
  | .queryMcFormats => some (.isExtensionPresent "AL_EXT_MCFORMATS")
  | .queryRenderer | .queryFixed32 => some .getString
  | .clearError => some .getError
  | .genBuffers | .regenBuffers => some (.genBuffers oalBuffers.toNat)
  | .genSources => some (.genSources 1)
  | .setGain => some (.sourceGain s.source)
  | .stopSource => some (.sourceStop s.source)
  | .detachBuffers => some (.detachBuffers s.source)
  | .deleteBuffers => some (.deleteBuffers s.buffers)
  | .getProcessed => some (.buffersProcessed s.source)
  | .getState | .getStateAgain => some (.sourceState s.source)
  | .unqueue => some (.unqueueBuffers s.source s.locals.numBuffersProcessed)
  | .getEnumValue _ name => some (.getEnumValue name)
  | .bufferData call => some (.bufferData s.nextName call)
  | .queueBuffer => some (.queueBuffer s.source s.nextName)
  | .play => some (.sourcePlay s.source)
  | .check _ => some .getError
  | .report _ => some .getString
  | _ => none

/-- The loop goes on with the answer to its call. -/
def resume (c : Choice β) (r : ALResult) (s : Stream β) : Stream β :=
  match s.pc with
  | .queryFloat32 => s.goto .queryMcFormats
  | .queryMcFormats => s.goto (if c.reply then .queryFixed32 else .queryRenderer)
  | .queryRenderer => s.goto .queryFixed32
  | .queryFixed32 => s.goto .computeFrames
  | .clearError => s.goto .genBuffers
  | .genBuffers =>
      { s with buffers := r.names.getD s.buffers, pc := .check .generatingBuffers }
  | .genSources =>
      { s with source := (r.names.getD []).headD s.source, pc := .check .generatingSources }
  | .setGain => s.goto .head
  | .stopSource => s.goto .detachBuffers
  | .detachBuffers => s.goto .deleteBuffers
  | .deleteBuffers => s.goto .regenBuffers
  | .regenBuffers => { s with buffers := r.names.getD s.buffers, pc := .check .regenerating }
  | .getProcessed =>
      (s.setLocals fun l => { l with numBuffersProcessed := r.processed.getD 0 }).goto .getState
  | .getState =>
      (s.setLocals fun l => { l with state := r.state.or l.state }).goto <|
        if s.numBuffersQueued = oalBuffers ∧ s.locals.numBuffersProcessed = 0 then .sleep
        else if s.locals.numBuffersProcessed = 0 then .selectWidth
        else .unqueue
  | .unqueue => s.goto (.check .unqueuing)
  | .getEnumValue o name =>
      s.goto (Operands.pc { o with format := name } s.locals.availableFrames s.locals.byteData)
  | .bufferData _ => s.goto (.check .buffering)
  | .queueBuffer => s.goto (.check .queuing)
  | .getStateAgain =>
      (s.setLocals fun l => { l with state := r.state.or l.state }).goto <|
        if r.state.or s.locals.state = some .playing then .head else .play
  | .play => s.goto (.check .resuming)
  | .check x => s.goto (if c.reply then .report x else x.next)
  | .report x => s.goto x.next
  | _ => s

/-- The steps of the loop that call no OpenAL function. -/
def advance (c : Choice β) (s : Stream β) : Option (Stream β) :=
  match s.pc with
  | .readFrequency =>
      some ((s.setLocals fun l => { l with pastFrequency := s.frequency.toUInt32 }).goto
        .readSpeakerLayout)
  | .readSpeakerLayout =>
      some ((s.setLocals fun l => { l with pastSpeakerLayout := s.speakerLayout }).goto
        .readBitness)
  | .readBitness =>
      some ((s.setLocals fun l => { l with pastBitness := s.bitness }).goto .queryFloat32)
  | .computeFrames =>
      some ((s.setLocals fun l => { l with framesPerBuffer := s.bufferFrames }).goto .resetNames)
  | .resetNames =>
      some { s with
        buffers := s.buffers.take oalBuffers.toNat ++
          List.replicate (oalBuffers.toNat - s.buffers.length) 0
        source := 0
        pc := .clearError }
  | .head => some (s.goto (if s.runThread then .testStreaming else .exited))
  | .testStreaming => some (s.goto (if s.streaming then .compareFrequency else .sleep))
  | .sleep => some (s.goto .head)
  | .compareFrequency =>
      some (s.goto (if s.locals.pastFrequency ≠ s.frequency.toUInt32 then .stopSource
        else .compareBitness))
  | .compareBitness =>
      some (s.goto (if s.locals.pastBitness ≠ s.bitness then .stopSource
        else .compareSpeakerLayout))
  | .compareSpeakerLayout =>
      some (s.goto (if s.locals.pastSpeakerLayout ≠ s.speakerLayout then .stopSource
        else .getProcessed))
  | .resetCounters =>
      some { s.setLocals fun l => { l with nextBuffer := 0 } with
        numBuffersQueued := 0
        pc := .recomputeFrames }
  | .recomputeFrames =>
      some ((s.setLocals fun l => { l with framesPerBuffer := s.bufferFrames }).goto
        .updateFrequency)
  | .updateFrequency =>
      some ((s.setLocals fun l => { l with pastFrequency := s.frequency.toUInt32 }).goto
        .updateBitness)
  | .updateBitness =>
      some ((s.setLocals fun l => { l with pastBitness := s.bitness }).goto .updateSpeakerLayout)
  | .updateSpeakerLayout =>
      some ((s.setLocals fun l => { l with pastSpeakerLayout := s.speakerLayout }).goto
        .getProcessed)
  | .countUnqueued =>
      some { s with
        numBuffersQueued := s.numBuffersQueued - s.locals.numBuffersProcessed.toUInt32
        pc := .selectWidth }
  | .selectWidth =>
      match s.bitness.mixBytes with
      | none => some (s.goto .head)
      | some n => some (s.goto (.mix n))
  | .mix _ =>
      some ((s.setLocals fun l => { l with availableFrames := c.frames, byteData := c.data }).goto
        (if c.frames = 0 then .head else .arguments {}))
  | .arguments o => s.evaluate o c.operand
  | .countQueued =>
      some { s.setLocals fun l => { l with nextBuffer := (l.nextBuffer + 1) % oalBuffers } with
        totalBuffered := s.totalBuffered + s.locals.availableFrames
        numBuffersQueued := s.numBuffersQueued + 1
        pc := .getStateAgain }
  | _ => none

/-- One step of the thread that runs `SoundLoop`. -/
def loopStep (c : Choice β) (s : Stream β) : Option (Stream β) :=
  match s.call with
  | none => s.advance c
  | some call =>
      if call.MayReturn c.names s.al then
        let r := call.perform c.names s.al
        some ((s.setAl r.2).resume c r.1)
      else none

/-! ## The other threads -/

/-- There is no thread to join, or it has run to its end. -/
def Joinable (s : Stream β) : Prop :=
  match s.pc with
  | .notStarted | .exited => True
  | _ => False

instance (s : Stream β) : Decidable s.Joinable := by
  unfold Joinable
  split <;> infer_instance

/-- `StartDevice`, which waits for the older thread to end; its `m_run_thread` is false. -/
def startDevice (s : Stream β) : Option (Stream β) :=
  if s.runThread then some s
  else if s.Joinable then
    some { s with runThread := true, pc := .readFrequency, locals := {} }
  else none

def stopDevice (s : Stream β) : Stream β := { s with runThread := false }

/-- `COpenALStream::Stop`. -/
def stop (s : Stream β) : Stream β :=
  let al := ((ALCall.sourceStop s.source).perform [] s.al).2
  { s with al := ((ALCall.detachBuffers s.source).perform [] al).2, totalBuffered := 0 }

/-- `getSampleTime`, when the source reports an offset of `o` milliseconds; `none` is a division by
zero. `m_total_buffered` counts modulo `2 ^ sizeBits`, and `m_frequency` is converted to `size_t`
with sign extension. The offset is a `float`, and so the time it is compared with is converted to
one. -/
def getSampleTime (p : Platform) (o : WholeFloat) (s : Stream β) : Option Int64 :=
  let totalPlayed := p.toSizeT (p.toSizeT s.totalBuffered * 1000)
  let frequency := (s.frequency.toInt % 2 ^ p.sizeBits).toNat
  if frequency = 0 then none
  else
    let totalPlayed := totalPlayed / frequency
    some (Int64.ofNat (if s.source ≠ 0 ∧ o.toNat < toFloat totalPlayed then totalPlayed - o.toNat
      else totalPlayed))

/-- One step of `~COpenALStream`: `StopDevice`, `Destroy`, and the join at the end. -/
def destructorStep (s : Stream β) : Option (Stream β) :=
  match s.destructor with
  | .notCalled => some { s.stopDevice with
      destructor := if s.al.current then .testSource else .join }
  | .testSource => some { s with
      destructor := if (s.al.sources s.source).isSome then .stopSource else .releaseContext }
  | .stopSource => some { s with
      al := ((ALCall.sourceStop s.source).perform [] s.al).2, destructor := .detachBuffers }
  | .detachBuffers => some { s with
      al := ((ALCall.detachBuffers s.source).perform [] s.al).2, destructor := .deleteSource }
  | .deleteSource => some { s with
      al := s.al.deleteSource s.source, destructor := .clearSource }
  | .clearSource => some { s with source := 0, destructor := .deleteBuffers }
  | .deleteBuffers => some { s with
      al := ((ALCall.deleteBuffers s.buffers).perform [] s.al).2, destructor := .releaseContext }
  | .releaseContext => some { s with
      al := { s.al with current := false }, destructor := .destroyContext }
  | .destroyContext => some { s with
      al := { s.al with context := false }, destructor := .closeDevice }
  | .closeDevice => some { s with al := { s.al with device := false }, destructor := .join }
  | .join => if s.Joinable then some { s with destructor := .returned } else none
  | .returned => none

/-- A step of the system: of `SoundLoop`, of the driver, of a thread that writes the format or
the streaming flag, or of a thread that controls the stream. -/
inductive Label (β : Type*) where
  | loop (c : Choice β)
  | driver (source : ℕ)
  | setFrequency (f : Int32)
  | setSpeakerLayout (l : SpeakerLayout)
  | setBitness (b : MediaBitness)
  | setStreaming (b : Bool)
  | startDevice
  | stopDevice
  | stop
  | destroy
  deriving DecidableEq

/-- Nobody uses the stream any more once its destructor has begun. -/
def next (s : Stream β) : Label β → Option (Stream β)
  | .loop c => s.loopStep c
  | .driver n => (s.al.finish n).map fun al => { s with al := al }
  | .setFrequency f => some { s with frequency := f }
  | .setSpeakerLayout l => some { s with speakerLayout := l }
  | .setBitness b => some { s with bitness := b }
  | .setStreaming b => some { s with streaming := b }
  | .startDevice => if s.destructor = .notCalled then s.startDevice else none
  | .stopDevice => if s.destructor = .notCalled then some s.stopDevice else none
  | .stop => if s.destructor = .notCalled then some s.stop else none
  | .destroy => s.destructorStep

/-- The stream its constructor leaves, once `OpenDevice` has made a context. -/
def constructed : Stream β := { al := .opened }

end Stream

end OpenALRenderer
