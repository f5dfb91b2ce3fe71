import OpenALRenderer.Model.MediaTypes

/-! # What one call does to one media type

A call is a local action: it accounts for the blocks and references that the type holds before and
after, and leaves all other blocks alone. To a client it changes a value, which has no pointers. -/

namespace OpenALRenderer

open Foundation

/-! ## Types as values -/

/-- A media type without pointers. -/
structure TypeValue extends MediaType where
  bFixedSizeSamples : Bool
  bTemporalCompression : Bool
  lSampleSize : ℕ
  pUnk : Option ℕ
  deriving DecidableEq

namespace TypeValue

variable (v : TypeValue)

def bytes : List UInt8 := v.format.getD []

/-- A deep copy, without the format if there is no memory. -/
def copied (a : Allocation) : TypeValue := { v with format := if a.succeeds then v.format else none }

theorem copied_eq_self {v : TypeValue} {a : Allocation} (h : v.format = none ∨ a.succeeds = true) :
    v.copied a = v := by
  have hformat : (if a.succeeds = true then v.format else none) = v.format := by
    rcases h with hnone | ha
    · rw [hnone, ite_self]
    · exact if_pos ha
  rw [copied, hformat]

def written (new : List UInt8) : TypeValue :=
  { v with format := v.format.map fun old => new ++ old.drop new.length }

/-- A format of another length has to be allocated, and starts with what is kept. -/
def allocated (a : Allocation) (length : ℕ) (kept : List UInt8) : TypeValue :=
  if v.bytes.length = length ∨ a.succeeds = false then v
  else { v with format := some (kept ++ ((List.range length).map a.found).drop kept.length) }

/-- Without memory, a format that is no longer than the old one overwrites it and keeps the rest. -/
def setFormat (a : Allocation) (pformat : List UInt8) : TypeValue :=
  if pformat.length ≤ v.bytes.length ∨ a.succeeds then
    (v.allocated a pformat.length []).written pformat
  else v

def edited : Edit → TypeValue
  | .setType type => { v with majortype := type }
  | .setSubtype type => { v with subtype := type }
  | .setFormatType type => { v with formattype := type }
  | .setSampleSize sz =>
      if sz = 0 then { v with bFixedSizeSamples := false }
      else { v with bFixedSizeSamples := true, lSampleSize := sz }
  | .setVariableSize => { v with bFixedSizeSamples := false }
  | .setTemporalCompression compressed => { v with bTemporalCompression := compressed }

end TypeValue

/-! ## What a type holds -/

namespace AMMediaType

/-- Whether the block is the type's own. -/
def owns (b : ℕ) (mt : AMMediaType) : ℕ :=
  if mt.cbFormat ≠ 0 ∧ mt.pbFormat = some b then 1 else 0

/-- Whether the type refers to the object. -/
def refers (u : ℕ) (mt : AMMediaType) : ℕ := if mt.pUnk = some u then 1 else 0

/-- The type has a block as long as it says. -/
def Filled (mt : AMMediaType) (m : TaskMem) : Prop :=
  mt.cbFormat ≠ 0 → ∃ b block, mt.pbFormat = some b ∧ m.blocks b = some block ∧
    block.length = mt.cbFormat

theorem owns_eq_zero_or_one (b : ℕ) (mt : AMMediaType) : mt.owns b = 0 ∨ mt.owns b = 1 := by
  unfold owns
  split
  · exact .inr rfl
  · exact .inl rfl

theorem Filled.exists_block {mt : AMMediaType} {m : TaskMem} {b : ℕ} (h : mt.Filled m)
    (hb : mt.owns b = 1) : ∃ block, m.blocks b = some block ∧ block.length = mt.cbFormat := by
  have howns : mt.cbFormat ≠ 0 ∧ mt.pbFormat = some b := by
    by_contra hne
    rw [owns, if_neg hne] at hb
    cases hb
  obtain ⟨c, block, hpb, hc, hlength⟩ := h howns.1
  obtain rfl := Option.some.inj (howns.2.symm.trans hpb)
  exact ⟨block, hc, hlength⟩

/-- The type as a value, when this is in its format block. -/
def value (mt : AMMediaType) (block : Option (List UInt8)) : TypeValue where
  majortype := mt.majortype
  subtype := mt.subtype
  formattype := mt.formattype
  format := if mt.cbFormat = 0 then none else block
  bFixedSizeSamples := mt.bFixedSizeSamples
  bTemporalCompression := mt.bTemporalCompression
  lSampleSize := mt.lSampleSize
  pUnk := mt.pUnk

def contents (m : TaskMem) (mt : AMMediaType) : TypeValue := mt.value (mt.pbFormat.bind m.blocks)

theorem contents_of_cbFormat {mt : AMMediaType} (m : TaskMem) (h : mt.cbFormat = 0) :
    (mt.contents m).format = none := if_pos h

theorem Filled.exists_format {mt : AMMediaType} {m : TaskMem} (h : mt.Filled m)
    (hcb : mt.cbFormat ≠ 0) :
    ∃ b block, mt.pbFormat = some b ∧ m.blocks b = some block ∧ block.length = mt.cbFormat ∧
      (mt.contents m).format = some block := by
  obtain ⟨b, block, hpb, hb, hlength⟩ := h hcb
  exact ⟨b, block, hpb, hb, hlength, by simp [contents, value, hcb, hpb, hb]⟩

theorem length_bytes_contents {mt : AMMediaType} {m : TaskMem} (h : mt.Filled m) :
    (mt.contents m).bytes.length = mt.cbFormat := by
  by_cases hcb : mt.cbFormat = 0
  · simp [TypeValue.bytes, contents_of_cbFormat m hcb, hcb]
  · obtain ⟨b, block, -, -, hlength, hformat⟩ := h.exists_format hcb
    simp [TypeValue.bytes, hformat, hlength]

end AMMediaType

namespace TaskMem

variable {m m' : TaskMem} {b : ℕ}

def allocated (m : TaskMem) (b : ℕ) : ℕ := if (m.blocks b).isSome then 1 else 0

/-- No block is ahead of those that have been handed out. -/
def Fresh (m : TaskMem) : Prop := ∀ b, m.created ≤ b → m.blocks b = none

/-- All blocks are as they were, and there may be more. -/
def Extends (m m' : TaskMem) : Prop := ∀ b block, m.blocks b = some block → m'.blocks b = some block

@[simp] theorem blocks_addRef (u : Option ℕ) (m : TaskMem) : (m.addRef u).blocks = m.blocks := by
  cases u <;> rfl

@[simp] theorem blocks_release (u : Option ℕ) (m : TaskMem) :
    (m.release u).blocks = m.blocks := by cases u <;> rfl

@[simp] theorem created_addRef (u : Option ℕ) (m : TaskMem) :
    (m.addRef u).created = m.created := by cases u <;> rfl

@[simp] theorem created_release (u : Option ℕ) (m : TaskMem) :
    (m.release u).created = m.created := by cases u <;> rfl

theorem refs_addRef (p : Option ℕ) (u : ℕ) (m : TaskMem) :
    (m.addRef p).refs u = m.refs u + (if p = some u then 1 else 0 : ℕ) := by
  cases p with
  | none => simp [addRef]
  | some v =>
      by_cases h : v = u
      · simp [addRef, h]
      · simp [addRef, h, Function.update_of_ne (Ne.symm h)]

theorem refs_release (p : Option ℕ) (u : ℕ) (m : TaskMem) :
    (m.release p).refs u + (if p = some u then 1 else 0 : ℕ) = m.refs u := by
  cases p with
  | none => simp [release]
  | some v =>
      by_cases h : v = u
      · simp [release, h]
      · simp [release, h, Function.update_of_ne (Ne.symm h)]

theorem lt_created (h : m.Fresh) {block : List UInt8} (hb : m.blocks b = some block) :
    b < m.created := by
  by_contra hge
  cases (h b (not_lt.mp hge)).symm.trans hb

/-- Memory with one more block. -/
def added (new : List UInt8) (m : TaskMem) : TaskMem :=
  { m with blocks := Function.update m.blocks m.created (some new), created := m.created + 1 }

@[simp] theorem blocks_added_self (new : List UInt8) (m : TaskMem) :
    (m.added new).blocks m.created = some new := Function.update_self ..

theorem blocks_added_of_ne {new : List UInt8} (h : b ≠ m.created) :
    (m.added new).blocks b = m.blocks b := Function.update_of_ne h ..

@[simp] theorem refs_added (new : List UInt8) (m : TaskMem) : (m.added new).refs = m.refs := rfl

@[simp] theorem created_added (new : List UInt8) (m : TaskMem) :
    (m.added new).created = m.created + 1 := rfl

theorem alloc_of_succeeds {a : Allocation} (h : a.succeeds = true) (n : ℕ) (m : TaskMem) :
    m.alloc a n = (some m.created, m.added ((List.range n).map a.found)) := if_pos h

theorem alloc_of_fails {a : Allocation} (h : a.succeeds = false) (n : ℕ) (m : TaskMem) :
    m.alloc a n = (none, m) := if_neg (by simp [h])

theorem extends_added (h : m.Fresh) (new : List UInt8) : m.Extends (m.added new) :=
  fun _ _ hb => (blocks_added_of_ne (lt_created h hb).ne).trans hb

theorem write_added {new bytes : List UInt8} (h : bytes.length ≤ new.length) :
    (m.added new).write (some m.created) bytes =
      some (m.added (bytes ++ new.drop bytes.length)) := by
  simp [write, h, added]

end TaskMem

/-! ## Local actions -/

/-- What is held by a place that may be empty. -/
def held (c : AMMediaType → ℕ) (x : Option AMMediaType) : ℕ := (x.map c).getD 0

@[simp] theorem held_none (c : AMMediaType → ℕ) : held c none = 0 := rfl

@[simp] theorem held_some (c : AMMediaType → ℕ) (mt : AMMediaType) : held c (some mt) = c mt := rfl

/-- No reference is lost. -/
def noneLost : ℕ → ℕ := fun _ => 0

@[simp] theorem noneLost_apply (u : ℕ) : noneLost u = 0 := rfl

/-- An action on what is in one place and on memory. `lost` counts the references that a type is
left with although `AddRef` has not been called for it. -/
structure Local (x : Option AMMediaType) (m : TaskMem) (y : Option AMMediaType) (m' : TaskMem)
    (lost : ℕ → ℕ) : Prop where
  blocks : ∀ b, held (AMMediaType.owns b) y + m.allocated b =
    held (AMMediaType.owns b) x + m'.allocated b
  frame : ∀ b block, held (AMMediaType.owns b) x = 0 → m.blocks b = some block →
    m'.blocks b = some block
  filled : ∀ mt ∈ y, mt.Filled m'
  fresh : m'.Fresh
  refs : ∀ u, m'.refs u + held (AMMediaType.refers u) x + lost u =
    m.refs u + held (AMMediaType.refers u) y

namespace Local

variable {x y z : Option AMMediaType} {m m' m'' : TaskMem} {lost lost' : ℕ → ℕ}

theorem trans (h : Local x m y m' lost) (h' : Local y m' z m'' lost') :
    Local x m z m'' (fun u => lost u + lost' u) where
  blocks b := by
    have hfirst := h.blocks b
    have hsecond := h'.blocks b
    omega
  frame b block hx hb := by
    have hb' := h.frame b block hx hb
    have hy := h.blocks b
    simp only [TaskMem.allocated, hb, hb', hx] at hy
    exact h'.frame b block (by omega) hb'
  filled := h'.filled
  fresh := h'.fresh
  refs u := by
    have hfirst := h.refs u
    have hsecond := h'.refs u
    simp only [Int.natCast_add]
    omega

/-- An action that only touches references. -/
theorem of_refs {mt mt' : AMMediaType} (hm : m.Fresh) (hmt : mt.Filled m)
    (hcb : mt'.cbFormat = mt.cbFormat) (hpb : mt'.pbFormat = mt.pbFormat)
    (hblocks : m'.blocks = m.blocks) (hcreated : m'.created = m.created)
    (hrefs : ∀ u, m'.refs u + mt.refers u + lost u = m.refs u + mt'.refers u) :
    Local (some mt) m (some mt') m' lost where
  blocks b := by simp [AMMediaType.owns, TaskMem.allocated, hcb, hpb, hblocks]
  frame b block _ hb := hblocks ▸ hb
  filled mt'' h := by
    obtain rfl := Option.some.inj h
    simpa [AMMediaType.Filled, hcb, hpb, hblocks] using hmt
  fresh b hb := hblocks ▸ hm b (hcreated ▸ hb)
  refs := hrefs

/-- A type that holds nothing comes. -/
theorem make {mt : AMMediaType} (hm : m.Fresh) (hcb : mt.cbFormat = 0) (hunk : mt.pUnk = none) :
    Local none m (some mt) m noneLost where
  blocks b := by simp [AMMediaType.owns, hcb]
  frame b block _ hb := hb
  filled mt' h hne := absurd (Option.some.inj h ▸ hcb) hne
  fresh := hm
  refs u := by simp [AMMediaType.refers, hunk]

/-- A type that holds nothing goes. -/
theorem drop {mt : AMMediaType} (hm : m.Fresh) (hcb : mt.cbFormat = 0) (hunk : mt.pUnk = none) :
    Local (some mt) m none m noneLost where
  blocks b := by simp [AMMediaType.owns, hcb]
  frame b block _ hb := hb
  filled := nofun
  fresh := hm
  refs u := by simp [AMMediaType.refers, hunk]

/-- The block is freed. -/
theorem exists_free {mt : AMMediaType} (hm : m.Fresh) (hmt : mt.Filled m) (hcb : mt.cbFormat ≠ 0) :
    ∃ m', m.free mt.pbFormat = some m' ∧ m'.refs = m.refs ∧
      Local (some mt) m (some { mt with cbFormat := 0, pbFormat := none }) m' noneLost := by
  obtain ⟨b, block, hpb, hb, -⟩ := hmt hcb
  refine ⟨{ m with blocks := Function.update m.blocks b none }, by simp [TaskMem.free, hpb, hb],
    rfl, ?_⟩
  have howns : ∀ c, mt.owns c = if b = c then 1 else 0 := fun c => by
    simp [AMMediaType.owns, hcb, hpb]
  exact
    { blocks := fun c => by
        by_cases hc : b = c
        · subst hc
          simp [AMMediaType.owns, TaskMem.allocated, hb, hcb, hpb]
        · simp [AMMediaType.owns, TaskMem.allocated, hc, Function.update_of_ne (Ne.symm hc), hpb]
      frame := fun c block' hheld hc => by
        have hne : c ≠ b := fun heq => by simp [howns, heq] at hheld
        simpa [Function.update_of_ne hne] using hc
      filled := fun mt' h hcb' => absurd (Option.some.inj h ▸ rfl) hcb'
      fresh := fun c hc => by
        by_cases hne : c = b
        · simp [hne]
        · simpa [Function.update_of_ne hne] using hm c hc
      refs := fun u => by simp [AMMediaType.refers] }

/-- A new block takes the place of the old one, if there is one. -/
theorem exchange {mt : AMMediaType} {new : List UInt8} (hm : m.Fresh) (hmt : mt.Filled m)
    (hnew : new ≠ [])
    (hblocks : ∀ b, m'.blocks b = if b = m.created then some new
      else if mt.owns b = 1 then none else m.blocks b)
    (hcreated : m'.created = m.created + 1) (hrefs : m'.refs = m.refs) :
    Local (some mt) m (some { mt with cbFormat := new.length, pbFormat := some m.created }) m'
      noneLost where
  blocks b := by
    have hlength : new.length ≠ 0 := List.length_pos_iff.mpr hnew |>.ne'
    by_cases hb : b = m.created
    · subst hb
      have hnone := hm m.created le_rfl
      have hnot : mt.owns m.created = 0 := by
        rcases mt.owns_eq_zero_or_one m.created with h | h
        · exact h
        · obtain ⟨block, hblock, -⟩ := hmt.exists_block h
          cases hnone.symm.trans hblock
      have hown : AMMediaType.owns m.created { mt with
          cbFormat := new.length, pbFormat := some m.created } = 1 := if_pos ⟨hlength, rfl⟩
      simp [hnot, hown, TaskMem.allocated, hnone, hblocks]
    · have hnot : AMMediaType.owns b { mt with
          cbFormat := new.length, pbFormat := some m.created } = 0 :=
        if_neg fun h => hb (Option.some.inj h.2).symm
      rcases mt.owns_eq_zero_or_one b with h | h
      · simp [h, hnot, TaskMem.allocated, hblocks, hb]
      · obtain ⟨block, hblock, -⟩ := hmt.exists_block h
        simp [h, hnot, TaskMem.allocated, hblocks, hb, hblock]
  frame b block hheld hb := by
    rw [hblocks, if_neg (TaskMem.lt_created hm hb).ne, if_neg (by simp [show mt.owns b = 0 from hheld]), hb]
  filled mt' h _ := by
    obtain rfl := Option.some.inj h
    exact ⟨_, new, rfl, by simp [hblocks], rfl⟩
  fresh b hb := by
    rw [hcreated] at hb
    rw [hblocks, if_neg (by omega)]
    split
    · rfl
    · exact hm b (by omega)
  refs u := by simp [AMMediaType.refers, hrefs]

/-- A type comes with a block of its own. -/
theorem add {source : AMMediaType} {bytes : List UInt8} (hm : m.Fresh)
    (hcb : source.cbFormat ≠ 0) (hlength : bytes.length = source.cbFormat) :
    Local none m (some { source with pbFormat := some m.created })
      ((m.added bytes).addRef source.pUnk) noneLost where
  blocks b := by
    by_cases hb : b = m.created
    · simp [AMMediaType.owns, hcb, hb, TaskMem.allocated, hm m.created le_rfl]
    · simp [AMMediaType.owns, Ne.symm hb, TaskMem.allocated, TaskMem.blocks_added_of_ne hb]
  frame b old _ hb := by simpa using TaskMem.extends_added hm bytes b old hb
  filled mt h _ := by
    obtain rfl := Option.some.inj h
    exact ⟨_, bytes, rfl, by simp, hlength⟩
  fresh b hb := by
    have hle : m.created + 1 ≤ b := by simpa using hb
    have hne : b ≠ m.created := by omega
    simpa [TaskMem.blocks_added_of_ne hne] using hm b (by omega)
  refs u := by simp [TaskMem.refs_addRef, AMMediaType.refers]

/-- The block is written to. -/
theorem overwrite {mt : AMMediaType} {b : ℕ} {block : List UInt8} (hm : m.Fresh)
    (hmt : mt.Filled m) (hpb : mt.pbFormat = some b) (hcb : mt.cbFormat ≠ 0)
    (hlength : block.length = mt.cbFormat)
    (hm' : m' = { m with blocks := Function.update m.blocks b (some block) }) :
    Local (some mt) m (some mt) m' noneLost := by
  obtain ⟨c, old, hc, hold, -⟩ := hmt hcb
  obtain rfl := Option.some.inj (hpb.symm.trans hc)
  subst hm'
  exact
    { blocks := fun c => by
        by_cases hne : c = b
        · subst hne
          simp [TaskMem.allocated, hold]
        · simp [TaskMem.allocated, Function.update_of_ne hne]
      frame := fun c block' hheld hblock => by
        have hne : c ≠ b := fun heq => by
          subst heq
          rw [held_some, AMMediaType.owns, if_pos ⟨hcb, hpb⟩] at hheld
          cases hheld
        simpa [Function.update_of_ne hne] using hblock
      filled := fun mt' h _ => by
        obtain rfl := Option.some.inj h
        exact ⟨b, block, hpb, by simp, hlength⟩
      fresh := fun c hcreated => by
        have hne : c ≠ b := fun heq => by
          have hlt := TaskMem.lt_created hm hold
          dsimp only at hcreated
          omega
        simpa [Function.update_of_ne hne] using hm c hcreated
      refs := fun u => by simp }

end Local

/-! ## Calls -/

namespace AMMediaType

variable {m m' : TaskMem} {mt : AMMediaType} {lost : ℕ → ℕ}

/-- `FreeMediaType` leaves nothing of the type. -/
theorem exists_freeMediaType (hm : m.Fresh) (hmt : mt.Filled m) :
    ∃ r, mt.freeMediaType m = some r ∧ Local (some mt) m none r.2 noneLost := by
  have hrelease : ∀ {n : TaskMem} {u : AMMediaType}, n.Fresh → u.cbFormat = 0 →
      Local (some u) n none (n.release u.pUnk) noneLost := fun {n u} hn hcb => by
    have hunk : Local (some u) n (some { u with pUnk := none }) (n.release u.pUnk) noneLost :=
      .of_refs hn (fun h => absurd hcb h) rfl rfl (by simp) (by simp) fun v => by
        have hrefs := n.refs_release u.pUnk v
        simpa [refers] using hrefs
    exact hunk.trans (.drop hunk.fresh hcb rfl)
  by_cases hcb : mt.cbFormat = 0
  · exact ⟨({ mt with pUnk := none }, m.release mt.pUnk), by simp [freeMediaType, hcb],
      hrelease hm hcb⟩
  · obtain ⟨m₁, hfree, -, hlocal⟩ := Local.exists_free hm hmt hcb
    exact ⟨({ mt with cbFormat := 0, pbFormat := none, pUnk := none }, m₁.release mt.pUnk),
      by simp [freeMediaType, hcb, hfree], hlocal.trans (hrelease hlocal.fresh rfl)⟩

/-- The source can be read now and when there are more blocks. -/
def Gives (source : AMMediaType) (block : TaskMem → Option (List UInt8)) (m : TaskMem)
    (bytes : List UInt8) : Prop :=
  source.cbFormat ≠ 0 → bytes.length = source.cbFormat ∧
    ∀ m', m.Extends m' → block m' = some bytes

/-- A format block that is to be copied finds no memory. -/
def Starved (a : Allocation) (source : AMMediaType) : Prop :=
  source.cbFormat ≠ 0 ∧ a.succeeds = false

instance (a : Allocation) (source : AMMediaType) : Decidable (Starved a source) :=
  inferInstanceAs (Decidable (_ ∧ _))

/-- A reference that `CopyMediaType` copies without counting it. -/
def miscounted (a : Allocation) (source : AMMediaType) (u : ℕ) : ℕ :=
  if Starved a source then source.refers u else 0

/-- `CopyMediaType` makes a type that owns what it has. -/
theorem exists_copyMediaType {source : AMMediaType} {block : TaskMem → Option (List UInt8)}
    {bytes : List UInt8} (a : Allocation) (hm : m.Fresh) (hgives : source.Gives block m bytes) :
    ∃ r, copyMediaType a source block m = some r ∧
      Local none m (some r.2.1) r.2.2 (miscounted a source) ∧
      r.2.1.contents r.2.2 = (source.value (some bytes)).copied a ∧
      (r.1.failed = true ↔ Starved a source) ∧ (r.1.failed = true → r.2.2 = m) := by
  by_cases hcb : source.cbFormat = 0
  · refine ⟨(.S_OK, source, m.addRef source.pUnk), by simp [copyMediaType, hcb], ?_, ?_, ?_, nofun⟩
    · exact
        { blocks := fun b => by simp [owns, hcb, TaskMem.allocated]
          frame := fun b block _ hb => by simpa using hb
          filled := fun mt' h hne => absurd (Option.some.inj h ▸ hcb) hne
          fresh := fun b hb => by simpa using hm b (by simpa using hb)
          refs := fun u => by
            have hrefs := m.refs_addRef source.pUnk u
            simp [hrefs, miscounted, Starved, hcb, refers] }
    · simp [contents, value, TypeValue.copied, hcb]
    · simp [Starved, hcb]
  · cases hsucceeds : a.succeeds with
    | false =>
        refine ⟨(.E_OUTOFMEMORY, { source with pbFormat := none, cbFormat := 0 }, m),
          by simp [copyMediaType, hcb, TaskMem.alloc, hsucceeds], ?_, ?_, ?_, fun _ => rfl⟩
        · exact
            { blocks := fun b => by simp [owns]
              frame := fun b block _ hb => hb
              filled := fun mt' h hne => absurd (Option.some.inj h ▸ rfl) hne
              fresh := hm
              refs := fun u => by simp [miscounted, Starved, hcb, hsucceeds, refers] }
        · simp [contents, value, TypeValue.copied, hsucceeds]
        · simp [Starved, hcb, hsucceeds, HRESULT.failed]
    | true =>
        obtain ⟨hlength, hread⟩ := hgives hcb
        have hblock := hread _ (TaskMem.extends_added hm ((List.range source.cbFormat).map a.found))
        have hdrop : ((List.range source.cbFormat).map a.found).drop bytes.length = [] :=
          List.drop_eq_nil_of_le (by simp [hlength])
        have hwrite : (m.added ((List.range source.cbFormat).map a.found)).write (some m.created)
            bytes = some (m.added bytes) := by
          rw [TaskMem.write_added (by simp [hlength]), hdrop, List.append_nil]
        refine ⟨(.S_OK, { source with pbFormat := some m.created },
          (m.added bytes).addRef source.pUnk), ?_, ?_, ?_, ?_, nofun⟩
        · simp [copyMediaType, hcb, TaskMem.alloc_of_succeeds hsucceeds, hblock, hwrite]
        · have hnone : miscounted a source = noneLost := by
            funext u
            simp [miscounted, Starved, hsucceeds]
          exact hnone ▸ .add hm hcb hlength
        · simp [contents, value, TypeValue.copied, hcb, hsucceeds]
        · simp [Starved, hsucceeds]

/-- `Set` gives the type back and makes it anew. -/
theorem exists_set {source : AMMediaType} {block : TaskMem → Option (List UInt8)}
    {bytes : List UInt8} (a : Allocation) (hm : m.Fresh) (hmt : mt.Filled m)
    (hgives : ∀ m', Local (some mt) m none m' noneLost → source.Gives block m' bytes) :
    ∃ r, mt.set a source block m = some r ∧
      Local (some mt) m (some r.2.1) r.2.2 (miscounted a source) ∧
      r.2.1.contents r.2.2 = (source.value (some bytes)).copied a := by
  obtain ⟨r, hfree, hfirst⟩ := exists_freeMediaType hm hmt
  obtain ⟨c, hcopy, hsecond, hcontents, -⟩ :=
    exists_copyMediaType a hfirst.fresh (hgives r.2 hfirst)
  have hlost : (fun u => noneLost u + miscounted a source u) = miscounted a source :=
    funext fun u => Nat.zero_add _
  exact ⟨(if c.1.failed then .E_OUTOFMEMORY else .S_OK, c.2), by simp [set, hfree, hcopy],
    hlost ▸ hfirst.trans hsecond, hcontents⟩

/-- The old block is freed once there is a new one. -/
theorem exists_exchange {new : List UInt8} (hm : m.Fresh) (hmt : mt.Filled m) (hnew : new ≠ []) :
    ∃ m', (mt.cbFormat ≠ 0 → (m.added new).free mt.pbFormat = some m') ∧
      (mt.cbFormat = 0 → m' = m.added new) ∧ m'.blocks m.created = some new ∧
      Local (some mt) m (some { mt with cbFormat := new.length, pbFormat := some m.created }) m'
        noneLost := by
  by_cases hcb : mt.cbFormat = 0
  · have hblocks : ∀ b, (m.added new).blocks b = if b = m.created then some new
        else if mt.owns b = 1 then none else m.blocks b := fun b => by
      by_cases hb : b = m.created
      · simp [hb]
      · simp [TaskMem.blocks_added_of_ne hb, hb, owns, hcb]
    exact ⟨m.added new, (absurd hcb ·), fun _ => rfl, by simp, .exchange hm hmt hnew hblocks rfl rfl⟩
  · obtain ⟨b, old, hpb, hold, -⟩ := hmt hcb
    have hne := (TaskMem.lt_created hm hold).ne
    have hfree : (m.added new).free mt.pbFormat =
        some { m.added new with blocks := Function.update (m.added new).blocks b none } := by
      simp [TaskMem.free, hpb, TaskMem.blocks_added_of_ne hne, hold]
    have hblocks : ∀ c, Function.update (m.added new).blocks b none c =
        if c = m.created then some new else if mt.owns c = 1 then none else m.blocks c := fun c => by
      by_cases hc : c = b
      · subst hc
        simp [hne, owns, hcb, hpb]
      · rw [Function.update_of_ne hc]
        by_cases hcreated : c = m.created
        · simp [hcreated]
        · simp [TaskMem.blocks_added_of_ne hcreated, hcreated, owns, hpb, Ne.symm hc]
    exact ⟨_, fun _ => hfree, (absurd · hcb), (hblocks m.created).trans (if_pos rfl),
      .exchange hm hmt hnew hblocks rfl rfl⟩

theorem contents_exchanged (mt : AMMediaType) (m : TaskMem) {new : List UInt8} {b : ℕ}
    (hb : m'.blocks b = some new) (hnew : new ≠ []) :
    contents m' { mt with cbFormat := new.length, pbFormat := some b } =
      { mt.contents m with format := some new } := by
  simp [contents, value, hb, hnew]

theorem local_self (hm : m.Fresh) (hmt : mt.Filled m) : Local (some mt) m (some mt) m noneLost :=
  .of_refs hm hmt rfl rfl rfl rfl fun u => by simp

theorem exists_allocFormatBuffer {length : ℕ} (a : Allocation) (hm : m.Fresh) (hmt : mt.Filled m)
    (hlength : length ≠ 0) :
    ∃ r, mt.allocFormatBuffer a length m = some r ∧ Local (some mt) m (some r.2.1) r.2.2 noneLost ∧
      r.2.1.contents r.2.2 = (mt.contents m).allocated a length [] ∧
      (length ≤ mt.cbFormat ∨ a.succeeds → length ≤ r.2.1.cbFormat ∧ r.1 = r.2.1.pbFormat) ∧
      (¬(length ≤ mt.cbFormat ∨ a.succeeds) → r.1 = none ∧ r.2 = (mt, m)) := by
  have hbytes := length_bytes_contents hmt
  by_cases heq : mt.cbFormat = length
  · exact ⟨(mt.pbFormat, mt, m), by simp [allocFormatBuffer, heq], local_self hm hmt,
      by simp [TypeValue.allocated, hbytes, heq], by simp [heq], by simp [heq]⟩
  · cases hsucceeds : a.succeeds with
    | false =>
        refine ⟨(if length ≤ mt.cbFormat then mt.pbFormat else none, mt, m), ?_,
          local_self hm hmt, ?_, ?_, ?_⟩
        · simp [allocFormatBuffer, heq, TaskMem.alloc_of_fails hsucceeds]
        · simp [TypeValue.allocated, hsucceeds]
        · intro hle
          simp_all
        · intro hgt
          simp_all
    | true =>
        have hnew : (List.range length).map a.found ≠ [] := by simpa using hlength
        obtain ⟨m', hfree, hkeep, hblock, hlocal⟩ := exists_exchange hm hmt hnew
        have hcontents := contents_exchanged mt m hblock hnew
        simp only [List.length_map, List.length_range] at hlocal hcontents
        refine ⟨(some m.created, { mt with cbFormat := length, pbFormat := some m.created }, m'),
          ?_, hlocal, ?_, by simp, by simp⟩
        · by_cases hcb : mt.cbFormat = 0
          · simp [allocFormatBuffer, TaskMem.alloc_of_succeeds hsucceeds, hkeep hcb, hcb,
              Ne.symm hlength]
          · simp [allocFormatBuffer, heq, TaskMem.alloc_of_succeeds hsucceeds, hfree hcb, hcb]
        · simp [hcontents, TypeValue.allocated, hsucceeds, hbytes, heq]

theorem exists_reallocFormatBuffer {length : ℕ} (a : Allocation) (hm : m.Fresh)
    (hmt : mt.Filled m) (hlength : length ≠ 0) :
    ∃ r, mt.reallocFormatBuffer a length m = some r ∧ Local (some mt) m (some r.2.1) r.2.2 noneLost ∧
      r.2.1.contents r.2.2 =
        (mt.contents m).allocated a length ((mt.contents m).bytes.take length) := by
  have hbytes := length_bytes_contents hmt
  by_cases heq : mt.cbFormat = length
  · exact ⟨(mt.pbFormat, mt, m), by simp [reallocFormatBuffer, heq], local_self hm hmt,
      by simp [TypeValue.allocated, hbytes, heq]⟩
  · cases hsucceeds : a.succeeds with
    | false =>
        refine ⟨(if length ≤ mt.cbFormat then mt.pbFormat else none, mt, m), ?_,
          local_self hm hmt, ?_⟩
        · simp [reallocFormatBuffer, heq, TaskMem.alloc_of_fails hsucceeds]
        · simp [TypeValue.allocated, hsucceeds]
    | true =>
        -- the new block as it is when the old one is freed
        let kept := (mt.contents m).bytes.take length
        have hfound : ((List.range length).map a.found).length = length := by simp
        have hkept : kept.length ≤ ((List.range length).map a.found).length := by simp [kept]
        have hlen : (kept ++ ((List.range length).map a.found).drop kept.length).length = length := by
          rw [List.length_append, List.length_drop, Nat.add_sub_cancel' hkept, hfound]
        have hnew := List.ne_nil_of_length_pos (hlen ▸ Nat.pos_of_ne_zero hlength)
        obtain ⟨m', hfree, hkeep, hblock, hlocal⟩ := exists_exchange hm hmt hnew
        have hcontents := contents_exchanged mt m hblock hnew
        rw [hlen] at hlocal hcontents
        refine ⟨(some m.created, { mt with cbFormat := length, pbFormat := some m.created }, m'),
          ?_, hlocal, ?_⟩
        · by_cases hcb : mt.cbFormat = 0
          · have hnil : kept = [] := by simp [kept, TypeValue.bytes, contents_of_cbFormat m hcb]
            simp [reallocFormatBuffer, TaskMem.alloc_of_succeeds hsucceeds, hkeep hcb, hcb,
              Ne.symm hlength, hnil]
          · obtain ⟨b, old, hpb, hold, hcbFormat, hformat⟩ := hmt.exists_format hcb
            have hread : (m.added ((List.range length).map a.found)).read mt.pbFormat
                (min length mt.cbFormat) = some kept := by
              simp [TaskMem.read, hpb, TaskMem.extends_added hm _ b old hold, hcbFormat, kept,
                TypeValue.bytes, hformat]
            simp only [reallocFormatBuffer, heq, if_false, TaskMem.alloc_of_succeeds hsucceeds, hcb,
              ne_eq, not_false_eq_true, if_true, hread, TaskMem.write_added hkept, hfree hcb,
              Option.bind_eq_bind, Option.bind_some]
        · simp [hcontents, TypeValue.allocated, hsucceeds, hbytes, heq, kept]

/-- Whoever writes to the block of a type writes to no other. -/
theorem exists_write {bytes : List UInt8} (hm : m.Fresh) (hmt : mt.Filled m) (hne : bytes ≠ [])
    (hle : bytes.length ≤ mt.cbFormat) :
    ∃ m', m.write mt.pbFormat bytes = some m' ∧ Local (some mt) m (some mt) m' noneLost ∧
      mt.contents m' = (mt.contents m).written bytes := by
  have hcb : mt.cbFormat ≠ 0 := (Nat.lt_of_lt_of_le (List.length_pos_iff.mpr hne) hle).ne'
  obtain ⟨b, old, hpb, hold, hlength⟩ := hmt hcb
  have hlength' : (bytes ++ old.drop bytes.length).length = mt.cbFormat := by
    simp only [List.length_append, List.length_drop]
    omega
  refine ⟨_, ?_, .overwrite hm hmt hpb hcb hlength' rfl, ?_⟩
  · simp [TaskMem.write, hpb, hold, hlength, hle]
  · simp [contents, value, TypeValue.written, hcb, hpb, hold]

theorem exists_setFormat {pformat : List UInt8} (a : Allocation) (hm : m.Fresh)
    (hmt : mt.Filled m) (hne : pformat ≠ []) :
    ∃ r, mt.setFormat a pformat m = some r ∧ Local (some mt) m (some r.2.1) r.2.2 noneLost ∧
      r.2.1.contents r.2.2 = (mt.contents m).setFormat a pformat := by
  have hbytes := length_bytes_contents hmt
  obtain ⟨r, halloc, hlocal, hcontents, hroom, hnone⟩ := exists_allocFormatBuffer a hm hmt
    (List.length_pos_iff.mpr hne).ne'
  by_cases hfits : pformat.length ≤ mt.cbFormat ∨ a.succeeds
  · obtain ⟨hle, hpb⟩ := hroom hfits
    have hfilled := hlocal.filled _ rfl
    obtain ⟨m', hwrite, hsecond, hwritten⟩ := exists_write hlocal.fresh hfilled hne hle
    have hcb : r.2.1.cbFormat ≠ 0 := (Nat.lt_of_lt_of_le (List.length_pos_iff.mpr hne) hle).ne'
    obtain ⟨b, -, hb, -⟩ := hfilled hcb
    refine ⟨(true, r.2.1, m'), ?_, hlocal.trans hsecond, ?_⟩
    · simp [setFormat, halloc, hpb, hb ▸ hwrite, hb]
    · rw [hwritten, hcontents, TypeValue.setFormat, hbytes, if_pos hfits]
  · obtain ⟨hpb, hr⟩ := hnone hfits
    refine ⟨(false, mt, m), ?_, local_self hm hmt, ?_⟩
    · simp [setFormat, halloc, hpb, hr]
    · rw [TypeValue.setFormat, hbytes, if_neg hfits]

theorem exists_resetFormatBuffer (hm : m.Fresh) (hmt : mt.Filled m) :
    ∃ r, mt.resetFormatBuffer m = some r ∧ Local (some mt) m (some r.1) r.2 noneLost ∧
      r.1.contents r.2 = { mt.contents m with format := none } := by
  by_cases hcb : mt.cbFormat = 0
  · refine ⟨({ mt with cbFormat := 0, pbFormat := none }, m), by simp [resetFormatBuffer, hcb], ?_,
      rfl⟩
    exact
      { blocks := fun b => by simp [owns, hcb]
        frame := fun b block _ hb => hb
        filled := fun mt' h hne => absurd (Option.some.inj h ▸ rfl) hne
        fresh := hm
        refs := fun u => by simp [refers] }
  · obtain ⟨m', hfree, -, hlocal⟩ := Local.exists_free hm hmt hcb
    exact ⟨_, by simp [resetFormatBuffer, hcb, hfree]; rfl, hlocal, rfl⟩

/-- The setters of the other members. -/
theorem local_edit (e : Edit) (hm : m.Fresh) (hmt : mt.Filled m) :
    Local (some mt) m (some (e.apply mt)) m noneLost ∧
      (e.apply mt).contents m = (mt.contents m).edited e := by
  have hsame : ∀ mt', mt'.cbFormat = mt.cbFormat → mt'.pbFormat = mt.pbFormat →
      mt'.pUnk = mt.pUnk → Local (some mt) m (some mt') m noneLost := fun mt' hcb hpb hunk =>
    .of_refs hm hmt hcb hpb rfl rfl fun u => by simp [refers, hunk]
  cases e with
  | setSampleSize sz =>
      by_cases hsz : sz = 0
      · simp only [Edit.apply, TypeValue.edited, hsz, if_true]
        exact ⟨hsame _ rfl rfl rfl, rfl⟩
      · simp only [Edit.apply, TypeValue.edited, hsz, if_false]
        exact ⟨hsame _ rfl rfl rfl, rfl⟩
  | _ => exact ⟨hsame _ rfl rfl rfl, rfl⟩

/-! ## Comparing -/

variable {rt : AMMediaType}

/-- A format block as it is read. -/
theorem Filled.read_eq (hmt : mt.Filled m) (hcb : mt.cbFormat ≠ 0) :
    m.read mt.pbFormat mt.cbFormat = some (mt.contents m).bytes := by
  obtain ⟨b, block, hpb, hb, hlength, hformat⟩ := hmt.exists_format hcb
  simp [TaskMem.read, hpb, hb, TypeValue.bytes, hformat, ← hlength]

/-- Types without a format and types with different ones have format blocks that differ. -/
theorem format_eq_iff (hmt : mt.Filled m) (hrt : rt.Filled m) :
    (mt.contents m).format = (rt.contents m).format ↔
      mt.cbFormat = rt.cbFormat ∧ (mt.contents m).bytes = (rt.contents m).bytes := by
  constructor
  · intro heq
    have hbytes : (mt.contents m).bytes = (rt.contents m).bytes := congrArg (·.getD []) heq
    exact ⟨by rw [← length_bytes_contents hmt, ← length_bytes_contents hrt, hbytes], hbytes⟩
  · rintro ⟨hcb, hbytes⟩
    by_cases hzero : mt.cbFormat = 0
    · rw [contents_of_cbFormat m hzero, contents_of_cbFormat m (hcb ▸ hzero)]
    · obtain ⟨-, block, -, -, -, hformat⟩ := hmt.exists_format hzero
      obtain ⟨-, block', -, -, -, hformat'⟩ := hrt.exists_format (hcb ▸ hzero)
      simp only [TypeValue.bytes, hformat, hformat', Option.getD_some] at hbytes
      rw [hformat, hformat', hbytes]

/-- `operator==` compares values, without the flags and the sample size. -/
theorem equals_eq (hmt : mt.Filled m) (hrt : rt.Filled m) :
    mt.equals rt m =
      some (decide ((mt.contents m).toMediaType = (rt.contents m).toMediaType)) := by
  have hvalue : (mt.contents m).toMediaType = (rt.contents m).toMediaType ↔
      (mt.majortype = rt.majortype ∧ mt.subtype = rt.subtype ∧ mt.formattype = rt.formattype ∧
        mt.cbFormat = rt.cbFormat) ∧ (mt.contents m).bytes = (rt.contents m).bytes := by
    rw [MediaType.mk.injEq, format_eq_iff hmt hrt]
    simp only [contents, value, and_assoc]
  by_cases hheads : mt.majortype = rt.majortype ∧ mt.subtype = rt.subtype ∧
      mt.formattype = rt.formattype ∧ mt.cbFormat = rt.cbFormat
  · have hcbs := hheads.2.2.2
    have hbytes : decide ((mt.contents m).toMediaType = (rt.contents m).toMediaType) =
        decide ((mt.contents m).bytes = (rt.contents m).bytes) :=
      decide_eq_decide.mpr (hvalue.trans (and_iff_right hheads))
    rw [equals, if_pos hheads, hbytes]
    by_cases hcb : mt.cbFormat = 0
    · have hnil : (mt.contents m).bytes = (rt.contents m).bytes := by
        rw [TypeValue.bytes, TypeValue.bytes, contents_of_cbFormat m hcb,
          contents_of_cbFormat m (hcbs ▸ hcb)]
      simp [hcb, hnil]
    · have hread := hmt.read_eq hcb
      have hread' := hrt.read_eq (hcbs ▸ hcb)
      obtain ⟨b, -, hpb, -⟩ := hmt.exists_format hcb
      obtain ⟨c, -, hpc, -⟩ := hrt.exists_format (hcbs ▸ hcb)
      rw [← hcbs] at hread'
      rw [if_neg hcb, if_neg (by simp [hpb, hpc]), hread, hread']
      simp [beq_eq_decide]
  · rw [equals, if_neg hheads, decide_eq_false fun h => hheads (hvalue.mp h).1]

/-- `MatchesPartial` compares what the partial type specifies. -/
theorem matchesPartial_eq (hmt : mt.Filled m) (hrt : rt.Filled m) :
    mt.matchesPartial rt m =
      some ((mt.contents m).toMediaType.matchesPartial (rt.contents m).toMediaType) := by
  have hspec : (mt.contents m).toMediaType.matchesPartial (rt.contents m).toMediaType =
      ((rt.majortype == guidNull || mt.majortype == rt.majortype) &&
        (rt.subtype == guidNull || mt.subtype == rt.subtype) &&
        (rt.formattype == guidNull || mt.formattype == rt.formattype &&
          (mt.contents m).bytes == (rt.contents m).bytes)) := rfl
  rw [hspec, matchesPartial]
  split_ifs with hmajor hsub hnull hformat hlengths hcb
  · simp [hmajor.1, hmajor.2]
  · simp [hsub.1, hsub.2]
  all_goals
    have hmajor' : (rt.majortype == guidNull || mt.majortype == rt.majortype) = true := by
      simpa [imp_iff_not_or] using hmajor
    have hsub' : (rt.subtype == guidNull || mt.subtype == rt.subtype) = true := by
      simpa [imp_iff_not_or] using hsub
    rw [hmajor', hsub', Bool.true_and, Bool.true_and]
  · simp [hnull]
  · simp [hnull, hformat]
  · have hbytes : (mt.contents m).bytes ≠ (rt.contents m).bytes := fun heq =>
      hlengths (by rw [← length_bytes_contents hmt, ← length_bytes_contents hrt, heq])
    simp [hnull, hbytes]
  · have hcbs := not_not.mp hlengths
    have hbytes : (mt.contents m).bytes = (rt.contents m).bytes := by
      rw [TypeValue.bytes, TypeValue.bytes, contents_of_cbFormat m hcb,
        contents_of_cbFormat m (hcbs ▸ hcb)]
    simp [not_not.mp hformat, hbytes]
  · have hcbs := not_not.mp hlengths
    have hread' := hrt.read_eq (hcbs ▸ hcb)
    rw [← hcbs] at hread'
    rw [hmt.read_eq hcb, hread']
    simp [hnull, not_not.mp hformat]

end AMMediaType

end OpenALRenderer
