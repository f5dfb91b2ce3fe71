import OpenALRenderer.Model.SoundLoop

/-! # The order of the statements of `SoundLoop` -/

namespace OpenALRenderer

/-- Where control may go from a program point. -/
inductive Pc.Follows {β : Type*} : Pc β → Pc β → Prop where
  | readFrequency : Follows .readFrequency .readSpeakerLayout
  | readSpeakerLayout : Follows .readSpeakerLayout .readBitness
  | readBitness : Follows .readBitness .queryFloat32
  | queryFloat32 : Follows .queryFloat32 .queryMcFormats
  | queryMcFormats : Follows .queryMcFormats .queryFixed32
  | queryMcFormats_missing : Follows .queryMcFormats .queryRenderer
  | queryRenderer : Follows .queryRenderer .queryFixed32
  | queryFixed32 : Follows .queryFixed32 .computeFrames
  | computeFrames : Follows .computeFrames .resetNames
  | resetNames : Follows .resetNames .clearError
  | clearError : Follows .clearError .genBuffers
  | genBuffers : Follows .genBuffers (.check .generatingBuffers)
  | genSources : Follows .genSources (.check .generatingSources)
  | setGain : Follows .setGain .head
  | head : Follows .head .testStreaming
  | head_stopped : Follows .head .exited
  | testStreaming : Follows .testStreaming .compareFrequency
  | testStreaming_not : Follows .testStreaming .sleep
  | sleep : Follows .sleep .head
  | compareFrequency : Follows .compareFrequency .compareBitness
  | compareFrequency_ne : Follows .compareFrequency .stopSource
  | compareBitness : Follows .compareBitness .compareSpeakerLayout
  | compareBitness_ne : Follows .compareBitness .stopSource
  | compareSpeakerLayout : Follows .compareSpeakerLayout .getProcessed
  | compareSpeakerLayout_ne : Follows .compareSpeakerLayout .stopSource
  | stopSource : Follows .stopSource .detachBuffers
  | detachBuffers : Follows .detachBuffers .deleteBuffers
  | deleteBuffers : Follows .deleteBuffers .regenBuffers
  | regenBuffers : Follows .regenBuffers (.check .regenerating)
  | resetCounters : Follows .resetCounters .recomputeFrames
  | recomputeFrames : Follows .recomputeFrames .updateFrequency
  | updateFrequency : Follows .updateFrequency .updateBitness
  | updateBitness : Follows .updateBitness .updateSpeakerLayout
  | updateSpeakerLayout : Follows .updateSpeakerLayout .getProcessed
  | getProcessed : Follows .getProcessed .getState
  | getState_full : Follows .getState .sleep
  | getState_none : Follows .getState .selectWidth
  | getState : Follows .getState .unqueue
  | unqueue : Follows .unqueue (.check .unqueuing)
  | countUnqueued : Follows .countUnqueued .selectWidth
  | selectWidth_none : Follows .selectWidth .head
  | selectWidth (n) : Follows .selectWidth (.mix n)
  | mix_none (n) : Follows (.mix n) .head
  | mix (n) : Follows (.mix n) (.arguments {})
  | arguments (o o') : Follows (.arguments o) (.arguments o')
  | arguments_name (o name) : Follows (.arguments o) (.getEnumValue o name)
  | arguments_last (o call) : Follows (.arguments o) (.bufferData call)
  | getEnumValue (o name o') : Follows (.getEnumValue o name) (.arguments o')
  | getEnumValue_last (o name call) : Follows (.getEnumValue o name) (.bufferData call)
  | bufferData (call) : Follows (.bufferData call) (.check .buffering)
  | queueBuffer : Follows .queueBuffer (.check .queuing)
  | countQueued : Follows .countQueued .getStateAgain
  | getStateAgain : Follows .getStateAgain .head
  | getStateAgain_not : Follows .getStateAgain .play
  | play : Follows .play (.check .resuming)
  | check (x) : Follows (.check x) (.report x)
  | check_none (x pc) (h : pc = x.next) : Follows (.check x) pc
  | report (x pc) (h : pc = x.next) : Follows (.report x) pc

namespace Stream

variable {β : Type*} {s t : Stream β} {c : Choice β}

theorem follows_evaluate {o : Operands} {x : Operand} (hpc : s.pc = .arguments o)
    (hs : s.evaluate o x = some t) : s.pc.Follows t.pc := by
  have hnext : ∀ o' : Operands,
      (Pc.arguments o).Follows (o'.pc s.locals.availableFrames s.locals.byteData) := by
    intro o'
    unfold Operands.pc
    split <;> constructor
  rw [hpc]
  cases x <;> simp only [evaluate] at hs <;> split at hs <;> cases hs
  all_goals
    first
    | exact hnext _
    | constructor

theorem follows_loopStep (hs : s.loopStep c = some t) : s.pc.Follows t.pc := by
  unfold loopStep at hs
  split at hs
  · unfold advance at hs
    split at hs
    case h_18 h =>
      rw [h]
      split at hs <;> cases hs <;> constructor
    case h_20 h => exact follows_evaluate h hs
    case h_22 => cases hs
    all_goals
      next h =>
        cases hs
        rw [h]
        simp only [goto]
        first
        | constructor
        | (split <;> constructor)
  · next x hx =>
      split at hs <;> cases hs
      unfold resume
      split
      case h_16 h =>
        rw [pc_setAl] at h
        rw [h]
        simp only [goto, Operands.pc]
        split <;> constructor
      case h_21 h =>
        rw [pc_setAl] at h
        rw [h]
        simp only [goto]
        split
        · constructor
        · exact .check_none _ _ rfl
      case h_23 =>
        unfold Stream.call at hx
        split at hx <;> simp_all
      all_goals
        next h =>
          rw [pc_setAl] at h
          rw [h]
          simp only [goto]
          first
          | exact .report _ _ rfl
          | constructor
          | (split_ifs <;> constructor)

end Stream

end OpenALRenderer
