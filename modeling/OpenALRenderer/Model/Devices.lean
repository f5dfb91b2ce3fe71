import OpenALRenderer.Model.Construction

/-! # Enumerating and opening devices, with every answer of the driver

A pointer into a buffer of characters is what the buffer holds from there on. `none` is an access
violation; so is every read past the end of the buffer. -/

namespace OpenALRenderer

/-! ## Character buffers -/

namespace CharBuffer

def nul : Char := '\x00'

/-- `strlen`. -/
def strlen (s : List Char) : Option ℕ := s.idxOf? nul

/-- The loop of `GetAllDevices`; the `device_index` it counts is never read. -/
def devicesFrom (deviceNames : List Char) : Option (List String) :=
  match deviceNames with
  | [] => none
  | c :: rest =>
      if c = nul then some []
      else
        match strlen (c :: rest) with
        | none => none
        | some n =>
            let name := String.ofList ((c :: rest).take n)
            (devicesFrom ((c :: rest).drop (n + 1))).map (name :: ·)
termination_by deviceNames.length

/-- `GetAllDevices`, for what `alcGetString` returns. -/
def getAllDevices (deviceNames : Option (List Char)) : Option (List String) :=
  match deviceNames with
  | none => some []
  | some s => devicesFrom s

end CharBuffer

/-! ## Opening a device -/

/-- What loading and initialising the driver comes to, with the answer of
`alcMakeContextCurrent`. -/
structure Answers (δ κ : Type) where
  driver : Driver δ κ
  makeContextCurrent : κ → Bool

variable {δ κ : Type} [DecidableEq δ] [DecidableEq κ]

/-- `alcMakeContextCurrent`, which leaves the current context when it fails. -/
def Alc.tryMakeCurrent (a : Alc δ κ) (succeeds : Bool) (context : κ) : Alc δ κ :=
  if succeeds then a.makeContextCurrent (some context) else a

/-- `OpenDevice`, which drops the answer of `alcMakeContextCurrent`. -/
def Answers.openDevice (d : Answers δ κ) (s : Process δ κ) : Option (HRESULT × Process δ κ) := do
  s.library.call .alcIsExtensionPresent
  if d.driver.enumerationExt = false then some (.E_FAIL, s)
  else do
    s.library.call .alcGetString
    let defaultDevice ← d.driver.defaultDevice
    if defaultDevice = "" then some (.E_FAIL, s)
    else do
      let name ← (getAllDevices d.driver.allDevices).head?
      s.library.call .alcOpenDevice
      match d.driver.openDevice name with
      | none => some (.E_FAIL, s)
      | some device => do
          let a := s.alc.openDevice device
          s.library.call .alcCreateContext
          match d.driver.createContext device with
          | none => do
              s.library.call .alcCloseDevice
              some (.E_FAIL, { s with alc := a.closeDevice (some device) })
          | some context => do
              s.library.call .alcMakeContextCurrent
              let a := a.createContext device context
              some (.S_OK, { s with alc := a.tryMakeCurrent (d.makeContextCurrent context) context })

end OpenALRenderer
