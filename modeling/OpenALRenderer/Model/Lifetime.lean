import OpenALRenderer.Model.Construction
import OpenALRenderer.Model.Enumerators
import OpenALRenderer.Model.Format

/-! # Class factories, filters and enumerators, and who refers to them

The calls of clients on the objects of the module, one after another, each as a whole. A call on an
object that has been deleted has no value. -/

namespace OpenALRenderer

open Foundation

namespace HRESULT

def E_NOINTERFACE : HRESULT := .external true 0x80004002

def CLASS_E_CLASSNOTAVAILABLE : HRESULT := .external true 0x80040111

end HRESULT

/-- `CLSID_OALRend`. -/
def clsidOALRend : Guid :=
  [0x96, 0xD6, 0xB8, 0x25, 0x10, 0x15, 0xBF, 0x49, 0xA0, 0xC3, 0xE3, 0x8F, 0xAF, 0xD5, 0x47, 0x82]

/-- The interfaces that are asked for. -/
inductive Iid where
  | IUnknown
  | IClassFactory
  | IBaseFilter
  | IMediaFilter
  | IPersist
  | IAMovieSetup
  | IReferenceClock
  | IReferenceClockTimerControl
  | IBasicAudio
  | IMediaSeeking
  | other
  deriving DecidableEq

/-- What `AddRef` and `Release` count at: a filter, whose pin, clock and audio control delegate to
it, or a reference clock of another module. -/
inductive Counted where
  | filter (f : ℕ)
  | otherClock (c : ℕ)
  deriving DecidableEq

/-- `COpenALFilter`: `m_cRef`, which counts fewer than 2^31 references, `m_pClock`, and whether
there is an `m_seeking`. -/
structure FilterObject where
  cRef : ℤ := 0
  pClock : Option Counted := none
  seeking : Bool := false

/-- `CEnumPins`, or `CEnumMediaTypes` of the pin, which counts at the filter. `m_cRef` counts fewer
than 2^31 references. -/
structure Enumerator where
  filter : ℕ
  pins : Option EnumPins
  cRef : ℤ := 1

/-- What the module has made. It counts fewer than 2^31 objects and locks. -/
structure Server where
  cObjects : ℤ := 0
  cLocked : ℤ := 0
  factories : Slots ℤ := .empty
  filters : Slots FilterObject := .empty
  enumerators : Slots Enumerator := .empty
  otherClocks : ℕ → ℤ := fun _ => 0

/-- How `CreatePosPassThru` and the object that it makes answer. -/
structure SeekingReplies where
  created : HRESULT := .S_OK
  query : HRESULT := .S_OK

/-- The `CBaseObject`s that the constructors make: the filter, the pin, the two bases of the stream,
and the schedule, which is deleted if there is no thread for it. -/
def Bases.objects (b : Bases) : ℤ :=
  1 + (if b.pin then 1 else 0) + 2 + (if b.schedule && b.thread then 1 else 0)

/-- What the constructors leave in `*phr`. -/
def Bases.result (b : Bases) : HRESULT :=
  b.referenceClock (if b.pin = false then .E_OUTOFMEMORY else .S_OK)

namespace Server

/-! ## Counting -/

def putFilter (s : Server) (f : ℕ) (x : Option FilterObject) : Server :=
  { s with filters := s.filters.set f x }

/-- `CUnknown::NonDelegatingAddRef`, and `AddRef` of another clock. -/
def addRef (p : Counted) (s : Server) : Option Server :=
  match p with
  | .filter f => (s.filters.get f).map fun x => s.putFilter f (some { x with cRef := x.cRef + 1 })
  | .otherClock c =>
      some { s with otherClocks := Function.update s.otherClocks c (s.otherClocks c + 1) }

/-- One `Release`: a filter that is deleted goes on to release its clock. -/
def releaseOnce (p : Counted) (s : Server) : Option (Option Counted × Server) :=
  match p with
  | .filter f => do
      let x ← s.filters.get f
      if x.cRef - 1 = 0 then
        some (x.pClock, { s.putFilter f none with cObjects := s.cObjects - 5 })
      else some (none, s.putFilter f (some { x with cRef := x.cRef - 1 }))
  | .otherClock c =>
      some (none, { s with otherClocks := Function.update s.otherClocks c (s.otherClocks c - 1) })

def releaseChain : ℕ → Counted → Server → Option Server
  | 0, _, _ => none
  | rounds + 1, p, s => (s.releaseOnce p).bind fun r => r.1.elim (some r.2) fun q =>
      releaseChain rounds q r.2

/-- `Release`, which deletes at most all filters one after the other. -/
def release (p : Counted) (s : Server) : Option Server := releaseChain (s.filters.size + 1) p s

/-! ## Filters -/

/-- `COpenALFilter::NonDelegatingQueryInterface`. -/
def queryInterface (f : ℕ) (riid : Iid) (r : SeekingReplies) (s : Server) :
    Option (HRESULT × Server) := do
  let x ← s.filters.get f
  match riid with
  | .IMediaSeeking =>
      if x.seeking = false ∧ r.created.failed then some (r.created, s)
      else
        let s := s.putFilter f (some { x with seeking := true })
        if r.query.failed then some (r.query, s) else (s.addRef (.filter f)).map (r.query, ·)
  | .IClassFactory => some (.E_NOINTERFACE, s)
  | .other => some (.E_NOINTERFACE, s)
  | _ => (s.addRef (.filter f)).map (.S_OK, ·)

/-- `CClassFactory::CreateInstance` without an outer object. -/
def createInstance (riid : Iid) (b : Bases) (r : SeekingReplies) (s : Server) :
    Option (HRESULT × Server) :=
  let made := { s with cObjects := s.cObjects + b.objects, filters := s.filters.push {} }
  if b.result.failed then some (b.result, { s with cObjects := made.cObjects - b.objects })
  else do
    let s' ← made.addRef (.filter s.filters.size)
    let q ← s'.queryInterface s.filters.size riid r
    (q.2.release (.filter s.filters.size)).map (q.1, ·)

/-- `CBaseFilter::SetSyncSource`. -/
def setSyncSource (f : ℕ) (pClock : Option Counted) (s : Server) : Option Server := do
  let s ← pClock.elim (some s) fun p => s.addRef p
  let x ← s.filters.get f
  let s ← x.pClock.elim (some s) fun p => s.release p
  let x ← s.filters.get f
  some (s.putFilter f (some { x with pClock }))

/-- `CBaseFilter::GetSyncSource`. -/
def getSyncSource (f : ℕ) (s : Server) : Option (Option Counted × Server) := do
  let x ← s.filters.get f
  match x.pClock with
  | none => some (none, s)
  | some p => (s.addRef p).map (some p, ·)

/-! ## Enumerators -/

/-- The one pin of the filter. No version changes. -/
def inputPins : PinList := { pins := [0] }

/-- The constructors of both enumerators. -/
def enumerate (f : ℕ) (pins : Option EnumPins) (s : Server) : Option Server :=
  (s.addRef (.filter f)).map fun s =>
    { s with enumerators := s.enumerators.push { filter := f, pins } }

def putEnumerator (s : Server) (e : ℕ) (x : Option Enumerator) : Server :=
  { s with enumerators := s.enumerators.set e x }

/-- `Release`, and the destructor. -/
def releaseEnumerator (e : ℕ) (s : Server) : Option Server := do
  let x ← s.enumerators.get e
  if x.cRef - 1 = 0 then (s.putEnumerator e none).release (.filter x.filter)
  else some (s.putEnumerator e (some { x with cRef := x.cRef - 1 }))

def cloneEnumerator (e : ℕ) (s : Server) : Option Server := do
  let x ← s.enumerators.get e
  match x.pins with
  | none => s.enumerate x.filter none
  | some p => (p.clone inputPins).2.elim (some s) fun p => s.enumerate x.filter (some p)

/-- `AddRef` on each pin in an array. -/
def addRefPins (f : ℕ) : List ℕ → Server → Option Server
  | [], s => some s
  | _ :: pins, s => (s.addRef (.filter f)).bind (addRefPins f pins)

/-- `CEnumPins::Next`. The types of the pin have no references. -/
def nextPins (e cPins : ℕ) (counted : Bool) (s : Server) : Option (List ℕ × Server) := do
  let x ← s.enumerators.get e
  match x.pins with
  | none => some ([], s)
  | some p =>
      let r := p.next inputPins cPins counted
      (s.addRefPins x.filter r.2.1).map fun s =>
        (r.2.1, s.putEnumerator e (some { x with pins := some r.2.2 }))

/-! ## The module -/

/-- `DllGetClassObject`. -/
def dllGetClassObject (rClsID : Guid) (riid : Iid) (s : Server) : HRESULT × Server :=
  if riid ≠ .IUnknown ∧ riid ≠ .IClassFactory then (.E_NOINTERFACE, s)
  else if rClsID = clsidOALRend then
    (.S_OK, { s with cObjects := s.cObjects + 1, factories := s.factories.push 1 })
  else (.CLASS_E_CLASSNOTAVAILABLE, s)

/-- `CClassFactory::QueryInterface`. -/
def factoryQueryInterface (i : ℕ) (riid : Iid) (s : Server) : Option (HRESULT × Server) :=
  (s.factories.get i).map fun cRef =>
    if riid = .IUnknown ∨ riid = .IClassFactory then
      (.S_OK, { s with factories := s.factories.set i (some (cRef + 1)) })
    else (.E_NOINTERFACE, s)

/-- `CClassFactory::Release`. -/
def factoryRelease (i : ℕ) (s : Server) : Option Server :=
  (s.factories.get i).map fun cRef =>
    if cRef - 1 = 0 then
      { s with factories := s.factories.set i none, cObjects := s.cObjects - 1 }
    else { s with factories := s.factories.set i (some (cRef - 1)) }

/-- `DllCanUnloadNow`. -/
def dllCanUnloadNow (s : Server) : HRESULT :=
  if 0 < s.cLocked ∨ s.cObjects ≠ 0 then .S_FALSE else .S_OK

/-- The calls. `addRef` is also each call that returns a pointer to the filter or its pin, such as
`FindPin` or `QueryPinInfo`, and `factoryQueryInterface` also `CClassFactory::AddRef`. -/
inductive Label where
  | dllGetClassObject (rClsID : Guid) (riid : Iid)
  | factoryQueryInterface (i : ℕ) (riid : Iid)
  | factoryRelease (i : ℕ)
  | createInstance (i : ℕ) (riid : Iid) (b : Bases) (r : SeekingReplies)
  | lockServer (i : ℕ) (fLock : Bool)
  | addRef (f : ℕ)
  | release (f : ℕ)
  | queryInterface (f : ℕ) (riid : Iid) (r : SeekingReplies)
  | setSyncSource (f : ℕ) (pClock : Option Counted)
  | getSyncSource (f : ℕ)
  | enumPins (f : ℕ)
  | enumMediaTypes (f : ℕ)
  | enumAddRef (e : ℕ)
  | enumRelease (e : ℕ)
  | enumClone (e : ℕ)
  | enumNext (e cPins : ℕ) (counted : Bool)
  | enumSkip (e cPins : ℕ)
  | enumReset (e : ℕ)

def next (s : Server) : Label → Option Server
  | .dllGetClassObject rClsID riid => some (s.dllGetClassObject rClsID riid).2
  | .factoryQueryInterface i riid => (s.factoryQueryInterface i riid).map Prod.snd
  | .factoryRelease i => s.factoryRelease i
  | .createInstance i riid b r => do
      let _ ← s.factories.get i
      (s.createInstance riid b r).map Prod.snd
  | .lockServer i fLock => (s.factories.get i).map fun _ =>
      { s with cLocked := if fLock then s.cLocked + 1 else s.cLocked - 1 }
  | .addRef f => s.addRef (.filter f)
  | .release f => s.release (.filter f)
  | .queryInterface f riid r => (s.queryInterface f riid r).map Prod.snd
  | .setSyncSource f pClock => do
      let _ ← s.filters.get f
      s.setSyncSource f pClock
  | .getSyncSource f => (s.getSyncSource f).map Prod.snd
  | .enumPins f => s.enumerate f (some (.constructed inputPins))
  | .enumMediaTypes f => s.enumerate f none
  | .enumAddRef e => (s.enumerators.get e).map fun x =>
      s.putEnumerator e (some { x with cRef := x.cRef + 1 })
  | .enumRelease e => s.releaseEnumerator e
  | .enumClone e => s.cloneEnumerator e
  | .enumNext e cPins counted => (s.nextPins e cPins counted).map Prod.snd
  | .enumSkip e cPins => (s.enumerators.get e).map fun x =>
      s.putEnumerator e (some { x with pins := x.pins.map fun p => (p.skip inputPins cPins).2 })
  | .enumReset e => (s.enumerators.get e).map fun x =>
      s.putEnumerator e (some { x with pins := x.pins.map (EnumPins.reset inputPins) })

end Server

end OpenALRenderer
