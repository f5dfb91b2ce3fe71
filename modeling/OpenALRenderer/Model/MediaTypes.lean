import OpenALRenderer.Foundation.Ledger
import OpenALRenderer.Foundation.System
import OpenALRenderer.Model.Connection

/-! # `CMediaType` and the memory it owns

A format block is a block of task memory, and an object that a type refers to counts the references
to it. Following a null or dangling pointer, reading or writing past the end of a block, or freeing
it twice has no value. -/

namespace OpenALRenderer

open Foundation

/-! ## Memory -/

/-- Task memory, and how often `AddRef` has been called on each object besides `Release`. -/
structure TaskMem where
  blocks : ℕ → Option (List UInt8) := fun _ => none
  created : ℕ := 0
  refs : ℕ → ℤ := fun _ => 0

/-- What a call of `CoTaskMemAlloc` meets: whether there is memory, and what is in it. -/
structure Allocation where
  succeeds : Bool := true
  found : ℕ → UInt8 := fun _ => 0

namespace TaskMem

/-- `CoTaskMemAlloc`. -/
def alloc (a : Allocation) (n : ℕ) (m : TaskMem) : Option ℕ × TaskMem :=
  if a.succeeds then
    (some m.created, { m with
      blocks := Function.update m.blocks m.created (some ((List.range n).map a.found))
      created := m.created + 1 })
  else (none, m)

/-- `CoTaskMemFree`, which ignores a null pointer. -/
def free (p : Option ℕ) (m : TaskMem) : Option TaskMem :=
  match p with
  | none => some m
  | some b => (m.blocks b).map fun _ => { m with blocks := Function.update m.blocks b none }

/-- The first bytes of a block. -/
def read (p : Option ℕ) (n : ℕ) (m : TaskMem) : Option (List UInt8) := do
  let block ← m.blocks (← p)
  if n ≤ block.length then some (block.take n) else none

/-- Overwrite the first bytes of a block. -/
def write (p : Option ℕ) (bytes : List UInt8) (m : TaskMem) : Option TaskMem := do
  let b ← p
  let block ← m.blocks b
  if bytes.length ≤ block.length then
    some { m with blocks := Function.update m.blocks b (some (bytes ++ block.drop bytes.length)) }
  else none

/-- `if (pUnk != NULL) pUnk->AddRef();`. -/
def addRef (pUnk : Option ℕ) (m : TaskMem) : TaskMem :=
  match pUnk with
  | none => m
  | some u => { m with refs := Function.update m.refs u (m.refs u + 1) }

/-- `if (pUnk != NULL) pUnk->Release();`. -/
def release (pUnk : Option ℕ) (m : TaskMem) : TaskMem :=
  match pUnk with
  | none => m
  | some u => { m with refs := Function.update m.refs u (m.refs u - 1) }

end TaskMem

/-! ## One media type -/

/-- `AM_MEDIA_TYPE`. -/
structure AMMediaType where
  majortype : Guid := guidNull
  subtype : Guid := guidNull
  bFixedSizeSamples : Bool := false
  bTemporalCompression : Bool := false
  lSampleSize : ℕ := 0
  formattype : Guid := guidNull
  pUnk : Option ℕ := none
  cbFormat : ℕ := 0
  pbFormat : Option ℕ := none
  deriving DecidableEq

namespace AMMediaType

/-- `InitMediaType`. -/
def initMediaType : AMMediaType := { lSampleSize := 1, bFixedSizeSamples := true }

/-- `FreeMediaType`. -/
def freeMediaType (mt : AMMediaType) (m : TaskMem) : Option (AMMediaType × TaskMem) :=
  if mt.cbFormat ≠ 0 then
    (m.free mt.pbFormat).map fun m =>
      ({ mt with cbFormat := 0, pbFormat := none, pUnk := none }, m.release mt.pUnk)
  else some ({ mt with pUnk := none }, m.release mt.pUnk)

/-- `CopyMediaType`: the target, which is written before memory is allocated. `block` reads the
format block of the source. -/
def copyMediaType (a : Allocation) (source : AMMediaType) (block : TaskMem → Option (List UInt8))
    (m : TaskMem) : Option (HRESULT × AMMediaType × TaskMem) :=
  if source.cbFormat ≠ 0 then
    match m.alloc a source.cbFormat with
    | (none, m) => some (.E_OUTOFMEMORY, { source with pbFormat := none, cbFormat := 0 }, m)
    | (some b, m) => do
        let m ← m.write (some b) (← block m)
        some (.S_OK, { source with pbFormat := some b }, m.addRef source.pUnk)
  else some (.S_OK, source, m.addRef source.pUnk)

/-- `Set`, of another type. -/
def set (mt : AMMediaType) (a : Allocation) (source : AMMediaType)
    (block : TaskMem → Option (List UInt8)) (m : TaskMem) :
    Option (HRESULT × AMMediaType × TaskMem) := do
  let r ← mt.freeMediaType m
  let c ← copyMediaType a source block r.2
  some (if c.1.failed then .E_OUTOFMEMORY else .S_OK, c.2)

/-- `ResetFormatBuffer`. -/
def resetFormatBuffer (mt : AMMediaType) (m : TaskMem) : Option (AMMediaType × TaskMem) :=
  if mt.cbFormat ≠ 0 then
    (m.free mt.pbFormat).map fun m => ({ mt with cbFormat := 0, pbFormat := none }, m)
  else some ({ mt with cbFormat := 0, pbFormat := none }, m)

/-- `AllocFormatBuffer`: the pointer that it returns. A block that is too long is used again when
there is no memory. -/
def allocFormatBuffer (a : Allocation) (length : ℕ) (mt : AMMediaType) (m : TaskMem) :
    Option (Option ℕ × AMMediaType × TaskMem) :=
  if mt.cbFormat = length then some (mt.pbFormat, mt, m)
  else match m.alloc a length with
    | (none, m) => some (if length ≤ mt.cbFormat then mt.pbFormat else none, mt, m)
    | (some b, m) => do
        let m ← if mt.cbFormat ≠ 0 then m.free mt.pbFormat else some m
        some (some b, { mt with cbFormat := length, pbFormat := some b }, m)

/-- `ReallocFormatBuffer`, which keeps as many bytes as fit. -/
def reallocFormatBuffer (a : Allocation) (length : ℕ) (mt : AMMediaType) (m : TaskMem) :
    Option (Option ℕ × AMMediaType × TaskMem) :=
  if mt.cbFormat = length then some (mt.pbFormat, mt, m)
  else match m.alloc a length with
    | (none, m) => some (if length ≤ mt.cbFormat then mt.pbFormat else none, mt, m)
    | (some b, m) => do
        let m ←
          if mt.cbFormat ≠ 0 then do
            let m ← m.write (some b) (← m.read mt.pbFormat (min length mt.cbFormat))
            m.free mt.pbFormat
          else some m
        some (some b, { mt with cbFormat := length, pbFormat := some b }, m)

/-- `SetFormat`. -/
def setFormat (a : Allocation) (pformat : List UInt8) (mt : AMMediaType) (m : TaskMem) :
    Option (Bool × AMMediaType × TaskMem) := do
  let r ← mt.allocFormatBuffer a pformat.length m
  match r.1 with
  | none => some (false, r.2)
  | some b => (r.2.2.write (some b) pformat).map fun m => (true, r.2.1, m)

/-- `operator==`. -/
def equals (mt rt : AMMediaType) (m : TaskMem) : Option Bool :=
  if mt.majortype = rt.majortype ∧ mt.subtype = rt.subtype ∧ mt.formattype = rt.formattype ∧
      mt.cbFormat = rt.cbFormat then
    if mt.cbFormat = 0 then some true
    else if mt.pbFormat = none ∨ rt.pbFormat = none then some false
    else do some ((← m.read mt.pbFormat mt.cbFormat) == (← m.read rt.pbFormat mt.cbFormat))
  else some false

/-- `MatchesPartial`. -/
def matchesPartial (mt ppartial : AMMediaType) (m : TaskMem) : Option Bool :=
  if ppartial.majortype ≠ guidNull ∧ mt.majortype ≠ ppartial.majortype then some false
  else if ppartial.subtype ≠ guidNull ∧ mt.subtype ≠ ppartial.subtype then some false
  else if ppartial.formattype = guidNull then some true
  else if mt.formattype ≠ ppartial.formattype then some false
  else if mt.cbFormat ≠ ppartial.cbFormat then some false
  else if mt.cbFormat = 0 then some true
  else do some ((← m.read mt.pbFormat mt.cbFormat) == (← m.read ppartial.pbFormat mt.cbFormat))

end AMMediaType

/-- The setters that only write a member. -/
inductive Edit where
  | setType (type : Guid)
  | setSubtype (type : Guid)
  | setFormatType (type : Guid)
  | setSampleSize (sz : ℕ)
  | setVariableSize
  | setTemporalCompression (compressed : Bool)
  deriving DecidableEq

def Edit.apply (mt : AMMediaType) : Edit → AMMediaType
  | setType type => { mt with majortype := type }
  | setSubtype type => { mt with subtype := type }
  | setFormatType type => { mt with formattype := type }
  | setSampleSize sz =>
      if sz = 0 then { mt with bFixedSizeSamples := false }
      else { mt with bFixedSizeSamples := true, lSampleSize := sz }
  | setVariableSize => { mt with bFixedSizeSamples := false }
  | setTemporalCompression compressed => { mt with bTemporalCompression := compressed }

/-! ## All media types -/

/-- The types there are, each in a place of its own. -/
structure TypeStore where
  types : Slots AMMediaType := .empty
  mem : TaskMem := {}

/-- Where a type is copied from: another place, or the memory of another filter. -/
inductive TypeSource where
  | place (i : ℕ)
  | foreign (mt : AMMediaType) (block : List UInt8)
  deriving DecidableEq

namespace TypeStore

/-- The members of a source, and how its format block is read. -/
def lookUp (s : TypeStore) : TypeSource → Option (AMMediaType × (TaskMem → Option (List UInt8)))
  | .place i => (s.types.get i).map fun mt => (mt, fun m => m.read mt.pbFormat mt.cbFormat)
  | .foreign mt block => some (mt, fun _ => some block)

inductive Label where
  | construct
  | constructType (type : Guid)
  | constructCopy (rt : TypeSource) (a : Allocation)
  | assign (this : ℕ) (rt : TypeSource) (a : Allocation)
  | edit (this : ℕ) (e : Edit)
  | setFormat (this : ℕ) (pformat : List UInt8) (a : Allocation)
  | allocFormatBuffer (this length : ℕ) (a : Allocation)
  | reallocFormatBuffer (this length : ℕ) (a : Allocation)
  | resetFormatBuffer (this : ℕ)
  | writeFormat (this : ℕ) (bytes : List UInt8)
  | createMediaType (pSrc : TypeSource) (a a' : Allocation)
  | destroy (this : ℕ)

/-- A type of its own in a new place. -/
def place (s : TypeStore) (r : AMMediaType × TaskMem) : TypeStore :=
  { types := s.types.push r.1, mem := r.2 }

/-- What is in a place is replaced. -/
def replace (s : TypeStore) (i : ℕ) (r : AMMediaType × TaskMem) : TypeStore :=
  { types := s.types.set i (some r.1), mem := r.2 }

/-- One call. `writeFormat` is a client that writes through the pointer that `Format` returns;
`destroy` is the destructor, or `DeleteMediaType`. -/
def next (s : TypeStore) : Label → Option TypeStore
  | .construct => some (s.place (.initMediaType, s.mem))
  | .constructType type => some (s.place ({ AMMediaType.initMediaType with majortype := type }, s.mem))
  | .constructCopy rt a => do
      let r ← s.lookUp rt
      let c ← AMMediaType.copyMediaType a r.1 r.2 s.mem
      some (s.place c.2)
  | .assign this rt a => do
      let mt ← s.types.get this
      if rt = .place this then some s
      else
        let r ← s.lookUp rt
        let c ← mt.set a r.1 r.2 s.mem
        some (s.replace this c.2)
  | .edit this e => do
      let mt ← s.types.get this
      some (s.replace this (e.apply mt, s.mem))
  | .setFormat this pformat a => do
      let mt ← s.types.get this
      let r ← mt.setFormat a pformat s.mem
      some (s.replace this r.2)
  | .allocFormatBuffer this length a => do
      let mt ← s.types.get this
      let r ← mt.allocFormatBuffer a length s.mem
      some (s.replace this r.2)
  | .reallocFormatBuffer this length a => do
      let mt ← s.types.get this
      let r ← mt.reallocFormatBuffer a length s.mem
      some (s.replace this r.2)
  | .resetFormatBuffer this => do
      let mt ← s.types.get this
      let r ← mt.resetFormatBuffer s.mem
      some (s.replace this r)
  | .writeFormat this bytes => do
      let mt ← s.types.get this
      let m ← s.mem.write mt.pbFormat bytes
      some (s.replace this (mt, m))
  | .createMediaType pSrc a a' => do
      let r ← s.lookUp pSrc
      if a.succeeds then
        let c ← AMMediaType.copyMediaType a' r.1 r.2 s.mem
        some (if c.1.failed then { s with mem := c.2.2 } else s.place c.2)
      else some s
  | .destroy this => do
      let mt ← s.types.get this
      let r ← mt.freeMediaType s.mem
      some { types := s.types.set this none, mem := r.2 }

end TypeStore

end OpenALRenderer
