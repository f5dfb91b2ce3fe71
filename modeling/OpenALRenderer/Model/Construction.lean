import OpenALRenderer.Model.Platform
import Mathlib.Data.Finset.Erase
import Mathlib.Data.Finset.Insert
import Mathlib.Logic.Function.Basic

/-! # Construction and destruction: the driver, the stream, the filter and the class factory

`none` is an access violation: a call through a pointer that points at no function, or an
access to a string or an element that is not there. -/

namespace OpenALRenderer

/-! ## The library -/

/-- The functions of `OPENAL_API_VISIT`. -/
inductive EntryPoint where
  | alBufferData
  | alcCloseDevice
  | alcCreateContext
  | alcDestroyContext
  | alcGetContextsDevice
  | alcGetCurrentContext
  | alcGetString
  | alcIsExtensionPresent
  | alcMakeContextCurrent
  | alcOpenDevice
  | alDeleteBuffers
  | alDeleteSources
  | alGenBuffers
  | alGenSources
  | alGetError
  | alGetSourcei
  | alGetString
  | alIsExtensionPresent
  | alSourcef
  | alSourcei
  | alSourcePlay
  | alSourceQueueBuffers
  | alSourceStop
  | alSourceUnqueueBuffers
  | alGetEnumValue
  | alIsSource
  | alGetSourcef
  deriving DecidableEq, Repr

/-- `OPENAL_API_VISIT`, in the order in which it visits. -/
def openalApiVisit : List EntryPoint :=
  [.alBufferData, .alcCloseDevice, .alcCreateContext, .alcDestroyContext, .alcGetContextsDevice,
    .alcGetCurrentContext, .alcGetString, .alcIsExtensionPresent, .alcMakeContextCurrent,
    .alcOpenDevice, .alDeleteBuffers, .alDeleteSources, .alGenBuffers, .alGenSources, .alGetError,
    .alGetSourcei, .alGetString, .alIsExtensionPresent, .alSourcef, .alSourcei, .alSourcePlay,
    .alSourceQueueBuffers, .alSourceStop, .alSourceUnqueueBuffers, .alGetEnumValue, .alIsSource,
    .alGetSourcef]

theorem mem_openalApiVisit (f : EntryPoint) : f ∈ openalApiVisit := by
  cases f <;> decide

/-- What a static function pointer points at; `dangling` is into a library that was freed. -/
inductive Pointer where
  | null
  | resolved
  | dangling
  deriving DecidableEq, Repr

/-- `InitFunctions`, for the functions still to visit. -/
def initFunctions (getProcAddress : EntryPoint → Bool) :
    List EntryPoint → (EntryPoint → Pointer) → Bool × (EntryPoint → Pointer)
  | [], p => (true, p)
  | f :: fs, p =>
      if getProcAddress f then initFunctions getProcAddress fs (Function.update p f .resolved)
      else (false, Function.update p f .null)

/-- `FreeLibrary`, for the pointers into the library. -/
def freeLibrary (p : EntryPoint → Pointer) (f : EntryPoint) : Pointer :=
  if p f = .resolved then .dangling else p f

theorem initFunctions_of_forall {getProcAddress : EntryPoint → Bool} {fs : List EntryPoint}
    {p : EntryPoint → Pointer} (h : ∀ f ∈ fs, getProcAddress f) :
    (initFunctions getProcAddress fs p).1 = true := by
  induction fs generalizing p with
  | nil => rfl
  | cons f fs ih =>
      obtain ⟨hf, hfs⟩ := List.forall_mem_cons.mp h
      rw [initFunctions, if_pos hf]
      exact ih hfs

/-- Every function visited is found when `InitFunctions` succeeds, and a pointer once set stays. -/
theorem initFunctions_eq_true {getProcAddress : EntryPoint → Bool} {fs : List EntryPoint}
    {p : EntryPoint → Pointer} (h : (initFunctions getProcAddress fs p).1 = true) :
    (∀ f ∈ fs, getProcAddress f) ∧
      ∀ f, f ∈ fs ∨ p f = .resolved → (initFunctions getProcAddress fs p).2 f = .resolved := by
  induction fs generalizing p with
  | nil => simp [initFunctions]
  | cons g fs ih =>
      rw [initFunctions] at h ⊢
      split at h
      · next hg =>
          obtain ⟨hall, hset⟩ := ih h
          rw [if_pos hg]
          refine ⟨List.forall_mem_cons.mpr ⟨hg, hall⟩, fun f hf => hset f ?_⟩
          by_cases hfg : f = g
          · exact .inr (by rw [hfg, Function.update_self])
          · rw [Function.update_of_ne hfg]
            exact hf.imp_left fun hmem => (List.mem_cons.mp hmem).resolve_left hfg
      · cases h

/-- `s_openal_dll` and the function pointers. -/
structure Library where
  loaded : Bool
  pointer : EntryPoint → Pointer
  resolved_iff : ∀ f, pointer f = .resolved ↔ loaded = true

/-- What loading and initialising the driver comes to. The strings are the ones that the driver
returns, `none` for a null pointer; a list of devices is given with its strings in order. -/
structure Driver (δ κ : Type) where
  loadLibrary : Bool
  getProcAddress : EntryPoint → Bool
  enumerationExt : Bool
  defaultDevice : Option String
  allDevices : Option (List String)
  openDevice : String → Option δ
  createContext : δ → Option κ

variable {δ κ : Type}

/-- `InitLibrary`, once `LoadLibrary` has loaded it. -/
def Library.initLibrary (d : Driver δ κ) (l : Library) : Bool × Library :=
  if l.loaded then (true, l)
  else if d.loadLibrary = false then (false, l)
  else
    let p := (initFunctions d.getProcAddress openalApiVisit l.pointer).2
    if h : (initFunctions d.getProcAddress openalApiVisit l.pointer).1 then
      (true, ⟨true, p, fun f =>
        iff_of_true ((initFunctions_eq_true h).2 f (.inl (mem_openalApiVisit f))) rfl⟩)
    else
      (false, ⟨false, freeLibrary p, fun f =>
        iff_of_false (by unfold freeLibrary; split <;> simp_all) Bool.false_ne_true⟩)

/-- A call through the pointer to `f`. -/
def Library.call (l : Library) (f : EntryPoint) : Option Unit :=
  if l.pointer f = .resolved then some () else none

theorem Library.call_of_loaded {l : Library} (h : l.loaded = true) (f : EntryPoint) :
    l.call f = some () :=
  if_pos ((l.resolved_iff f).mpr h)

theorem Library.call_of_not_loaded {l : Library} (h : l.loaded = false) (f : EntryPoint) :
    l.call f = none :=
  if_neg fun hf => by simp [(l.resolved_iff f).mp hf] at h

/-! ## Devices and contexts -/

/-- The open devices of the process, the device of each context, and the current context. -/
structure Alc (δ κ : Type) where
  devices : Finset δ := ∅
  contexts : κ → Option δ := fun _ => none
  current : Option κ := none

/-- A device and a context on it. -/
structure Opened (δ κ : Type) where
  device : δ
  context : κ
  deriving DecidableEq

namespace Alc

variable [DecidableEq δ] [DecidableEq κ]

def openDevice (a : Alc δ κ) (device : δ) : Alc δ κ :=
  { a with devices := insert device a.devices }

/-- `alcCloseDevice`; closing a null pointer is an error that changes nothing. -/
def closeDevice (a : Alc δ κ) (device : Option δ) : Alc δ κ :=
  { a with devices := device.elim a.devices a.devices.erase }

def createContext (a : Alc δ κ) (device : δ) (context : κ) : Alc δ κ :=
  { a with contexts := Function.update a.contexts context (some device) }

def destroyContext (a : Alc δ κ) (context : κ) : Alc δ κ :=
  { a with contexts := Function.update a.contexts context none }

def makeContextCurrent (a : Alc δ κ) (context : Option κ) : Alc δ κ :=
  { a with current := context }

end Alc

/-! ## The stream -/

/-- What all streams of a process share. -/
structure Process (δ κ : Type) where
  library : Library
  alc : Alc δ κ

/-- A process in which no stream was ever constructed. -/
def Process.initial : Process δ κ where
  library := ⟨false, fun _ => .null, fun _ => iff_of_false (by decide) (by decide)⟩
  alc := {}

/-- `GetAllDevices`: the names before the first empty one. -/
def getAllDevices (names : Option (List String)) : List String :=
  (names.getD []).takeWhile fun name => name ≠ ""

namespace Process

/-- `isValid`. -/
def isValid (d : Driver δ κ) (s : Process δ κ) : HRESULT × Process δ κ :=
  let r := s.library.initLibrary d
  (if r.1 then .S_OK else .E_FAIL, { s with library := r.2 })

variable [DecidableEq δ] [DecidableEq κ]

/-- `OpenDevice`, with the device and context that it has opened and not closed again. -/
def openDevice (d : Driver δ κ) (s : Process δ κ) :
    Option (HRESULT × Option (Opened δ κ) × Process δ κ) := do
  s.library.call .alcIsExtensionPresent
  if d.enumerationExt = false then some (.E_FAIL, none, s)
  else do
    s.library.call .alcGetString
    let defaultDevice ← d.defaultDevice
    if defaultDevice = "" then some (.E_FAIL, none, s)
    else do
      let name ← (getAllDevices d.allDevices).head?
      s.library.call .alcOpenDevice
      match d.openDevice name with
      | none => some (.E_FAIL, none, s)
      | some device => do
          let a := s.alc.openDevice device
          s.library.call .alcCreateContext
          match d.createContext device with
          | none => do
              s.library.call .alcCloseDevice
              some (.E_FAIL, none, { s with alc := a.closeDevice (some device) })
          | some context => do
              s.library.call .alcMakeContextCurrent
              let a := (a.createContext device context).makeContextCurrent (some context)
              some (.S_OK, some ⟨device, context⟩, { s with alc := a })

/-- `Destroy`, without the source and the buffers that it deletes in the current context. -/
def destroy (s : Process δ κ) : Option (Process δ κ) := do
  s.library.call .alcGetCurrentContext
  match s.alc.current with
  | none => some s
  | some context => do
      s.library.call .alcGetContextsDevice
      let device := s.alc.contexts context
      s.library.call .alcMakeContextCurrent
      s.library.call .alcDestroyContext
      s.library.call .alcCloseDevice
      let a := ((s.alc.makeContextCurrent none).destroyContext context).closeDevice device
      some { s with alc := a }

/-- `CloseDevice`; no thread is running in a stream that was not started. -/
def closeDevice (s : Process δ κ) : Option (Process δ κ) := s.destroy

end Process

/-! ## The filter -/

/-- What the base classes and the allocations of the constructors come to. -/
structure Bases where
  pin : Bool := true
  schedule : Bool := true
  thread : Bool := true

/-- `CBaseReferenceClock::CBaseReferenceClock`, for what it leaves in `*phr`. -/
def Bases.referenceClock (b : Bases) (hr : HRESULT) : HRESULT :=
  if b.schedule = false then .E_OUTOFMEMORY else if b.thread = false then .E_FAIL else hr

variable [DecidableEq δ] [DecidableEq κ]

/-- `COpenALStream::COpenALStream` in a retail build, where `EXECUTE_ASSERT` evaluates its
argument and discards the value. -/
def Process.openALStream (b : Bases) (d : Driver δ κ) (hr : HRESULT) (s : Process δ κ) :
    Option (HRESULT × Option (Opened δ κ) × Process δ κ) :=
  ((s.isValid d).2.openDevice d).map fun r => (b.referenceClock hr, r.2)

/-- `COpenALFilter::COpenALFilter`. -/
def Process.openALFilter (b : Bases) (d : Driver δ κ) (hr : HRESULT) (s : Process δ κ) :
    Option (HRESULT × Option (Opened δ κ) × Process δ κ) :=
  s.openALStream b d (if b.pin = false then .E_OUTOFMEMORY else hr)

/-- `CClassFactory::CreateInstance` for the filter: the filter handed out, if any, with what its
stream has opened. A filter that is not handed out is deleted. -/
def Process.createInstance (b : Bases) (d : Driver δ κ) (queryInterface : HRESULT)
    (s : Process δ κ) : Option (HRESULT × Option (Option (Opened δ κ)) × Process δ κ) :=
  (s.openALFilter b d .S_OK).bind fun (hr, opened, s) =>
    if hr.failed then s.closeDevice.map fun s => (hr, none, s)
    else if queryInterface.failed then s.closeDevice.map fun s => (queryInterface, none, s)
    else some (queryInterface, some opened, s)

end OpenALRenderer
