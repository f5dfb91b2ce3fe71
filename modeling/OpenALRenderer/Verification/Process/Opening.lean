import OpenALRenderer.Model.Devices
import OpenALRenderer.Verification.Process.Construction
import Mathlib.Data.Finset.Basic

/-! # What `OpenDevice` leaves open, for every answer of the driver -/

namespace OpenALRenderer

variable {δ κ : Type} [DecidableEq δ] [DecidableEq κ]

/-! ## All or nothing, and handles not in use -/

/-- A device is open that was not before, with a context on it that was not there before and is
current now. -/
def Alc.Acquires (a a' : Alc δ κ) : Prop :=
  ∃ o : Opened δ κ, o.device ∉ a.devices ∧ o.device ∈ a'.devices ∧
    a.contexts o.context = none ∧ a'.contexts o.context = some o.device ∧
    a'.current = some o.context

/-- The call returns; it reports success exactly when it has acquired a device and a context, and
otherwise a failure with nothing left open. -/
def Answers.AllOrNothing (d : Answers δ κ) (s : Process δ κ) : Prop :=
  ∃ hr t, d.openDevice s = some (hr, t) ∧ (hr = .S_OK ↔ s.alc.Acquires t.alc) ∧
    (hr ≠ .S_OK → hr.failed = true ∧ t.alc = s.alc)

/-- `alcOpenDevice` and `alcCreateContext` return handles that are not in use. -/
structure Driver.Fresh (d : Driver δ κ) (a : Alc δ κ) : Prop where
  device : ∀ name device, d.openDevice name = some device → device ∉ a.devices
  context : ∀ device context, d.createContext device = some context →
    a.contexts context = none ∧ a.current ≠ some context

/-! ## Opening -/

/-- What the call leaves, given what it would leave had the context been made current. -/
def Answers.leaves (d : Answers δ κ) (s t : Process δ κ) : Option (Opened δ κ) → Process δ κ
  | none => t
  | some o =>
      if d.makeContextCurrent o.context then t
      else { t with alc := { t.alc with current := s.alc.current } }

theorem Answers.openDevice_eq (d : Answers δ κ) (s : Process δ κ) :
    d.openDevice s = (s.openDevice d.driver).map fun r => (r.1, d.leaves s r.2.2 r.2.1) := by
  cases hloaded : s.library.loaded with
  | false => simp [Answers.openDevice, Process.openDevice, Library.call_of_not_loaded hloaded]
  | true =>
      have hcall := Library.call_of_loaded hloaded
      simp only [Answers.openDevice, Process.openDevice, hcall, Option.bind_eq_bind,
        Option.bind_some]
      cases d.driver.enumerationExt with
      | false => rfl
      | true =>
          cases d.driver.defaultDevice with
          | none => rfl
          | some defaultDevice =>
              by_cases hempty : defaultDevice = ""
              · simp [hempty, Answers.leaves]
              cases (getAllDevices d.driver.allDevices).head? with
              | none => simp [hempty]
              | some name =>
                  cases hdevice : d.driver.openDevice name with
                  | none => simp [hdevice, Answers.leaves]
                  | some device =>
                      cases hcontext : d.driver.createContext device with
                      | none => simp [hempty, hdevice, hcontext, Answers.leaves]
                      | some context =>
                          cases hcurrent : d.makeContextCurrent context <;>
                            simp [hempty, hdevice, hcontext, hcurrent, Answers.leaves,
                              Alc.tryMakeCurrent, Alc.makeContextCurrent, Alc.createContext,
                              Alc.openDevice]

/-- Where every context can be made current, this is the call that the constructors make. -/
theorem Answers.openDevice_eq_of_current {d : Answers δ κ}
    (h : ∀ context, d.makeContextCurrent context = true) (s : Process δ κ) :
    d.openDevice s = (s.openDevice d.driver).map fun r => (r.1, r.2.2) := by
  have hleaves : ∀ t opened, d.leaves s t opened = t := by
    intro t opened
    cases opened with
    | none => rfl
    | some o => simp [Answers.leaves, h]
  simp only [openDevice_eq, hleaves]

omit [DecidableEq κ] in
theorem Alc.closeDevice_openDevice {a : Alc δ κ} {device : δ} (h : device ∉ a.devices) :
    (a.openDevice device).closeDevice (some device) = a := by
  simp [Alc.closeDevice, Alc.openDevice, Finset.erase_insert h]

omit [DecidableEq δ] [DecidableEq κ] in
theorem Alc.not_acquires_self (a : Alc δ κ) : ¬ a.Acquires a := by
  rintro ⟨o, hnot, hdevice, -⟩
  exact hnot hdevice

theorem Alc.acquires_opened {a : Alc δ κ} {o : Opened δ κ} (hdevice : o.device ∉ a.devices)
    (hcontext : a.contexts o.context = none) : a.Acquires (a.opened o) :=
  ⟨o, hdevice, Finset.mem_insert_self _ _, hcontext, Function.update_self _ _ _, rfl⟩

omit [DecidableEq δ] [DecidableEq κ] in
/-- The driver's answers determine what is opened. -/
theorem Driver.Opens.eq {d : Driver δ κ} {o o' : Opened δ κ} (h : d.Opens o) (h' : d.Opens o') :
    o' = o := by
  obtain ⟨name, hname, hdevice⟩ := h.device
  obtain ⟨name', hname', hdevice'⟩ := h'.device
  obtain rfl := Option.some.inj (hname.symm.trans hname')
  have hd : o'.device = o.device := Option.some.inj (hdevice'.symm.trans hdevice)
  have hc : o'.context = o.context := by
    have hcontext := h'.context
    rw [hd, h.context] at hcontext
    exact (Option.some.inj hcontext).symm
  cases o
  cases o'
  exact congrArg₂ Opened.mk hd hc

/-- A context that was not made current is not acquired: the one that is current was there
before. -/
theorem Alc.not_acquires_of_current {a : Alc δ κ} {o : Opened δ κ}
    (hcurrent : a.current ≠ some o.context) :
    ¬ a.Acquires { a.opened o with current := a.current } := by
  rintro ⟨o', -, -, hnew, hcontext, hmade⟩
  by_cases hc : o'.context = o.context
  · exact hcurrent (hc ▸ hmade)
  · have hold : a.contexts o'.context = some o'.device := by
      rwa [← Function.update_of_ne hc (some o.device) a.contexts]
    cases hnew.symm.trans hold

/-- `OpenDevice` is all or nothing if and only if the library is loaded, the driver has a string
to give for the default device and a name to go with it, and a context that could be created can
be made current. -/
theorem allOrNothing_iff {d : Answers δ κ} {s : Process δ κ} (hfresh : d.driver.Fresh s.alc) :
    d.AllOrNothing s ↔ s.library.loaded = true ∧ ¬ d.driver.Faults ∧
      ∀ o, d.driver.Opens o → d.makeContextCurrent o.context = true := by
  unfold Answers.AllOrNothing
  rw [Answers.openDevice_eq]
  by_cases hloaded : s.library.loaded = true
  swap
  · rw [Process.openDevice_of_not_loaded (by simpa using hloaded)]
    simp [hloaded]
  simp only [hloaded, true_and]
  rcases Process.openDevice_cases d.driver hloaded with ⟨hfaults, hnone⟩ |
    ⟨hfaults, hopens, a, ha, hfail⟩ | ⟨hfaults, o, ho, hok⟩
  · simp [hnone, hfaults]
  · have hsame : a = s.alc := by
      rcases ha with ha | ⟨name, device, hdevice, ha⟩
      · exact ha
      · rw [ha, Alc.closeDevice_openDevice (hfresh.device name device hdevice)]
    subst hsame
    refine iff_of_true ⟨.E_FAIL, s, by rw [hfail]; rfl, ?_, fun _ => ⟨rfl, rfl⟩⟩
      ⟨hfaults, fun o ho => absurd ho (hopens o)⟩
    exact iff_of_false (by decide) s.alc.not_acquires_self
  · obtain ⟨name, -, hdevice⟩ := ho.device
    have hd := hfresh.device name o.device hdevice
    obtain ⟨hc, hcurrent⟩ := hfresh.context o.device o.context ho.context
    cases hmake : d.makeContextCurrent o.context with
    | true =>
        refine iff_of_true ⟨.S_OK, { s with alc := s.alc.opened o }, ?_,
          iff_of_true rfl (Alc.acquires_opened hd hc), fun h => absurd rfl h⟩ ⟨hfaults, ?_⟩
        · simp [hok, Answers.leaves, hmake]
        · intro o' ho'
          rw [ho.eq ho', hmake]
    | false =>
        refine iff_of_false ?_ fun h => by simp [h.2 o ho] at hmake
        rintro ⟨hr, t, h, hiff, -⟩
        rw [hok, Option.map_some, Option.some.injEq, Prod.mk.injEq] at h
        obtain ⟨rfl, rfl⟩ := h
        have hacquires := hiff.mp rfl
        simp only [Answers.leaves, hmake, Bool.false_eq_true, if_false] at hacquires
        exact Alc.not_acquires_of_current hcurrent hacquires

/-! ## Drivers that can do everything but one -/

/-- A driver that is loaded and opens any device, for its list of devices and its answer to
`alcMakeContextCurrent`. -/
def willing (allDevices : Option (List String)) (current : Bool) : Answers ℕ ℕ where
  driver :=
    { loadLibrary := true
      getProcAddress := fun _ => true
      enumerationExt := true
      defaultDevice := some "OpenAL Soft"
      allDevices := allDevices
      openDevice := fun _ => some 1
      createContext := fun _ => some 2 }
  makeContextCurrent _ := current

/-- A process that has loaded the library and opened nothing. -/
def Process.loaded : Process ℕ ℕ where
  library := ⟨true, fun _ => .resolved, fun _ => iff_of_true rfl rfl⟩
  alc := {}

theorem willing_fresh (allDevices : Option (List String)) (current : Bool) :
    (willing allDevices current).driver.Fresh Process.loaded.alc :=
  ⟨fun _ _ _ => Finset.notMem_empty _, fun _ _ _ => ⟨rfl, by simp [Process.loaded]⟩⟩

theorem allOrNothing_iff_willing :
    (willing (some ["OpenAL Soft"]) true).AllOrNothing Process.loaded ↔
      Process.loaded.library.loaded = true ∧
        ¬ (willing (some ["OpenAL Soft"]) true).driver.Faults ∧
        ∀ o, (willing (some ["OpenAL Soft"]) true).driver.Opens o →
          (willing (some ["OpenAL Soft"]) true).makeContextCurrent o.context = true :=
  allOrNothing_iff (willing_fresh _ _)

/-- An empty list of devices is indexed; and a context that could not be made current is taken for
a success, and left open. -/
theorem openDevice_not_allOrNothing :
    ((willing (some []) true).openDevice Process.loaded = none ∧
        ¬ (willing (some []) true).AllOrNothing Process.loaded) ∧
      ∃ t, (willing (some ["OpenAL Soft"]) false).openDevice Process.loaded = some (.S_OK, t) ∧
        t.alc.current = none ∧ t.alc.contexts 2 = some 1 := by
  have hnone : (willing (some []) true).openDevice Process.loaded = none := rfl
  refine ⟨⟨hnone, ?_⟩, _, rfl, rfl, rfl⟩
  rintro ⟨hr, t, h, -⟩
  cases hnone.symm.trans h

end OpenALRenderer
