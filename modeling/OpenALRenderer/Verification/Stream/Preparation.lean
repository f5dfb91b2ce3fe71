import OpenALRenderer.Verification.Stream.PastFormat

/-! # Preparing a buffer: from the return of `Mix` to `alSourceQueueBuffers` -/

namespace OpenALRenderer

variable {β : Type*}

/-! ## What has been prepared -/

/-- `byte_data` holds whole frames received under the remembered format. -/
structure Locals.Filled (l : Locals StampedByte) : Prop where
  bytes : ∀ x ∈ l.byteData,
    x.format.Describes l.pastSpeakerLayout l.pastBitness l.pastFrequency
  length : l.availableFrames * getFrameSize l.pastSpeakerLayout l.pastBitness ≤ l.byteData.length

/-- The operands evaluated so far belong to the remembered format. -/
structure Operands.Past (l : Locals β) (o : Operands) : Prop where
  formatLayout : ∀ x ∈ o.formatLayout, x = l.pastSpeakerLayout
  formatBitness : ∀ x ∈ o.formatBitness, x = l.pastBitness
  format : ∀ x ∈ o.format, x = generateFormatString l.pastSpeakerLayout l.pastBitness
  sizeLayout : ∀ x ∈ o.sizeLayout, x = l.pastSpeakerLayout
  sizeBitness : ∀ x ∈ o.sizeBitness, x = l.pastBitness
  frequency : ∀ x ∈ o.frequency, x.toUInt32 = l.pastFrequency

/-- A call of `alBufferData` that reads no more than there is, of the remembered format. -/
structure Locals.Passes (l : Locals StampedByte) (call : BufferDataCall StampedByte) : Prop where
  past : l.Past call
  bytes : ∀ x ∈ call.data, x.format.Describes l.pastSpeakerLayout l.pastBitness l.pastFrequency
  size : call.size ≤ call.data.length

theorem toALsizei_le (n : ℕ) : toALsizei n ≤ n := by
  unfold toALsizei
  rw [BitVec.toInt_eq_toNat_cond, BitVec.toNat_ofNat]
  have hmod := Nat.mod_le n (2 ^ 32)
  split <;> omega

/-- Once every operand is there, the call is one of the remembered format. -/
theorem Operands.Past.passes {l : Locals StampedByte} {o : Operands} (h : o.Past l)
    (hf : l.Filled) {call : BufferDataCall StampedByte}
    (hc : o.call l.availableFrames l.byteData = some call) : l.Passes call := by
  unfold Operands.call at hc
  split at hc
  · next format layout bitness frequency h₁ h₂ h₃ h₄ =>
      obtain rfl := Option.some.inj hc
      refine ⟨⟨h.format _ h₁, h.frequency _ h₄⟩, hf.bytes, ?_⟩
      rw [h.sizeLayout _ h₂, h.sizeBitness _ h₃]
      exact (toALsizei_le _).trans (Int.ofNat_le.mpr hf.length)
  · cases hc

namespace Stream

/-- What the loop has prepared, from the arguments of `alBufferData` to the queuing. -/
def Prepared (s : Stream StampedByte) : Prop :=
  match s.pc with
  | .arguments o => s.locals.Filled ∧ o.Past s.locals
  | .getEnumValue o name => s.locals.Filled ∧ o.Past s.locals ∧
      name = generateFormatString s.locals.pastSpeakerLayout s.locals.pastBitness
  | .bufferData call => s.locals.Passes call
  | .check .buffering | .report .buffering | .queueBuffer => s.HoldsPast s.nextName
  | _ => True

variable {s t : Stream StampedByte} {c : Choice StampedByte}

theorem prepared_operands {o : Operands} (hf : s.locals.Filled) (ho : o.Past s.locals) :
    (s.goto (o.pc s.locals.availableFrames s.locals.byteData)).Prepared := by
  unfold Operands.pc
  split
  · next call hcall => exact ho.passes hf hcall
  · exact ⟨hf, ho⟩

/-- Each operand is read while the remembered format is the current one. -/
theorem prepared_evaluate {o : Operands} {x : Operand} (hc : s.Compared)
    (hpc : s.pc.compared = 3) (hf : s.locals.Filled) (ho : o.Past s.locals)
    (hs : s.evaluate o x = some t) : t.Prepared := by
  have hfrequency := hc.frequency (by omega)
  have hbitness := hc.bitness (by omega)
  have hlayout := hc.speakerLayout (by omega)
  cases x with
  | formatLayout =>
      simp only [evaluate] at hs
      split at hs <;> cases hs
      exact prepared_operands hf { ho with formatLayout := by simp [hlayout] }
  | formatBitness =>
      simp only [evaluate] at hs
      split at hs <;> cases hs
      exact prepared_operands hf { ho with formatBitness := by simp [hbitness] }
  | format =>
      simp only [evaluate] at hs
      split at hs <;> cases hs
      next layout bitness _ h₁ h₂ =>
        refine ⟨hf, ho, ?_⟩
        rw [ho.formatLayout _ h₁, ho.formatBitness _ h₂]
        rfl
  | sizeLayout =>
      simp only [evaluate] at hs
      split at hs <;> cases hs
      exact prepared_operands hf { ho with sizeLayout := by simp [hlayout] }
  | sizeBitness =>
      simp only [evaluate] at hs
      split at hs <;> cases hs
      exact prepared_operands hf { ho with sizeBitness := by simp [hbitness] }
  | frequency =>
      simp only [evaluate] at hs
      split at hs <;> cases hs
      exact prepared_operands hf { ho with frequency := by simp [hfrequency] }

/-- The buffer just filled holds what the call passed. -/
theorem data_nextName (h : s.Tracked) {call : BufferDataCall StampedByte}
    (hpc : s.pc = .bufferData call) :
    ((ALCall.bufferData s.nextName call).perform c.names s.al).2.data s.nextName = some call := by
  have hcall : s.call = some (.bufferData s.nextName call) := by simp [Stream.call, hpc]
  have hp : s.ring.phase = .room := congrArg Pc.phase hpc
  have hb : s.ring.phase.HasBuffers := by rw [hp]; decide
  have hfree := h.owned.attached hb _ (h.owned.nextName_mem hb)
  have hnot : s.nextName ∉ s.ring.source.queue := by
    rw [← s.queue_source]
    exact h.ringSpec.unattached call hpc
  rw [List.count_eq_zero.mpr hnot] at hfree
  rw [ALCall.perform_of_valid (h.owned.valid hcall)]
  exact s.al.data_bufferData_self hfree call

/-- The loop checks for an error, reports one, or is past the check. -/
def Checking (e : Check) (s : Stream StampedByte) : Prop :=
  s.pc = .check e ∨ s.pc = .report e ∨ s.pc = e.next

theorem checking_loopStep {e : Check} (hpc : s.pc = .check e ∨ s.pc = .report e)
    (hs : s.loopStep c = some t) :
    t.Checking e ∧ t.locals = s.locals ∧ t.nextName = s.nextName ∧
      ∀ b, t.al.data b = s.al.data b := by
  have hdata : ∀ b, t.al.data b = s.al.data b := fun b => by
    refine data_loopStep hs ?_ ?_ <;> rcases hpc with hpc | hpc <;> simp [hpc]
  suffices hnext : t.Checking e ∧ t.locals = s.locals ∧ t.nextName = s.nextName from
    ⟨hnext.1, hnext.2.1, hnext.2.2, hdata⟩
  rcases hpc with hpc | hpc <;> simp only [Stream.loopStep, Stream.call, hpc] at hs <;>
    split at hs <;> cases hs <;> simp only [Stream.resume, pc_setAl, hpc]
  · refine ⟨?_, rfl, rfl⟩
    split
    · exact .inr (.inl rfl)
    · exact .inr (.inr rfl)
  · exact ⟨.inr (.inr rfl), rfl, rfl⟩

/-- Around an error check what is prepared is the buffer just filled, or nothing. -/
theorem Checking.prepared_iff {e : Check} (h : s.Checking e) :
    s.Prepared ↔ (e = .buffering → s.HoldsPast s.nextName) := by
  unfold Prepared
  rcases h with hpc | hpc | hpc <;> rw [hpc] <;> cases e <;> simp [Check.next]

theorem prepared_check {e : Check} (hpc : s.pc = .check e ∨ s.pc = .report e)
    (h : s.Prepared) (hs : s.loopStep c = some t) : t.Prepared := by
  have hchecking : s.Checking e := hpc.imp_right .inl
  obtain ⟨hnext, hlocals, hname, hdata⟩ := checking_loopStep hpc hs
  rw [hnext.prepared_iff, hname]
  intro he
  exact (hchecking.prepared_iff.mp h he).congr (hdata _) (by rw [hlocals]; exact ⟨rfl, rfl, rfl⟩)

theorem Prepared.loopStep (h : s.Prepared) (hr : s.Tracked) (hc : s.Compared)
    (hmix : ∀ n, s.pc = .mix n →
      Locals.Filled { s.locals with availableFrames := c.frames, byteData := c.data })
    (hs : s.loopStep c = some t) : t.Prepared := by
  cases hpc : s.pc with
  | mix n =>
      simp only [Stream.loopStep, Stream.call, Stream.advance, hpc, Option.some.injEq] at hs
      subst hs
      split
      · trivial
      · exact ⟨hmix n hpc, by constructor <;> simp⟩
  | arguments o =>
      simp only [Prepared, hpc] at h
      simp only [Stream.loopStep, Stream.call, Stream.advance, hpc] at hs
      exact prepared_evaluate hc (by rw [hpc]; rfl) h.1 h.2 hs
  | getEnumValue o name =>
      simp only [Prepared, hpc] at h
      simp only [Stream.loopStep, Stream.call, hpc] at hs
      split at hs <;> cases hs
      simp only [Stream.resume, pc_setAl, hpc]
      obtain ⟨hf, ho, rfl⟩ := h
      exact prepared_operands hf { ho with format := fun x hx => (Option.some.inj hx).symm }
  | bufferData call =>
      simp only [Prepared, hpc] at h
      simp only [Stream.loopStep, Stream.call, hpc] at hs
      split at hs <;> cases hs
      simp only [Stream.resume, pc_setAl, hpc]
      exact ⟨call, data_nextName hr hpc, h.past⟩
  | check e => exact prepared_check (.inl hpc) h hs
  | report e => exact prepared_check (.inr hpc) h hs
  | _ =>
      have hnext := follows_loopStep hs
      rw [hpc] at hnext
      generalize hpc' : t.pc = pc' at hnext
      cases hnext <;> simp only [Prepared, hpc']

theorem Prepared.driven (h : s.Prepared) {n : ℕ} {al : OpenAL StampedByte}
    (hf : s.al.finish n = some al) : (s.setAl al).Prepared := by
  have hpast : s.HoldsPast s.nextName → (s.setAl al).HoldsPast s.nextName :=
    fun hb => hb.congr (data_finish hf) ⟨rfl, rfl, rfl⟩
  unfold Prepared at h ⊢
  rw [pc_setAl]
  split at h <;> first
    | exact h
    | exact hpast h

end Stream

end OpenALRenderer
