import OpenALRenderer.Model.Construction

/-! # What the constructors report of a driver that does not load or open -/

namespace OpenALRenderer

variable {δ κ : Type}

/-! ## Loading the library -/

/-- The library is loaded already, or can be with every function. -/
def Driver.Loads (d : Driver δ κ) (l : Library) : Prop :=
  l.loaded = true ∨ d.loadLibrary = true ∧ ∀ f, d.getProcAddress f = true

theorem Library.initLibrary_spec (d : Driver δ κ) (l : Library) :
    ((l.initLibrary d).1 = true ↔ d.Loads l) ∧ ((l.initLibrary d).2.loaded = true ↔ d.Loads l) := by
  unfold initLibrary
  by_cases hl : l.loaded = true
  · simp [hl, Driver.Loads]
  · rw [if_neg hl]
    by_cases hload : d.loadLibrary = true
    · rw [if_neg (by simp [hload])]
      by_cases hinit : (initFunctions d.getProcAddress openalApiVisit l.pointer).1 = true
      · have hall := (initFunctions_eq_true hinit).1
        have hloads : d.Loads l := .inr ⟨hload, fun f => hall f (mem_openalApiVisit f)⟩
        simp [hinit, hloads]
      · have hloads : ¬ d.Loads l := by
          rintro (h | ⟨-, hall⟩)
          · exact hl h
          · exact hinit (initFunctions_of_forall fun f _ => hall f)
        simp [hinit, hloads]
    · have hloads : ¬ d.Loads l := by
        rintro (h | ⟨h, -⟩)
        · exact hl h
        · exact hload h
      simp [hload, hl, hloads]

namespace Process

theorem isValid_succeeds_iff (d : Driver δ κ) (s : Process δ κ) :
    (s.isValid d).1.failed = false ↔ d.Loads s.library := by
  rw [← (s.library.initLibrary_spec d).1]
  cases h : (s.library.initLibrary d).1 <;> simp [isValid, h, HRESULT.failed]

theorem isValid_loaded_iff (d : Driver δ κ) (s : Process δ κ) :
    (s.isValid d).2.library.loaded = true ↔ d.Loads s.library :=
  (s.library.initLibrary_spec d).2

end Process

/-! ## Opening the device -/

/-- The driver finds a default device, and opens the first of all devices with a context. -/
structure Driver.Opens (d : Driver δ κ) (o : Opened δ κ) : Prop where
  enumerationExt : d.enumerationExt = true
  defaultDevice : ∃ name, d.defaultDevice = some name ∧ name ≠ ""
  device : ∃ name, (getAllDevices d.allDevices).head? = some name ∧
    d.openDevice name = some o.device
  context : d.createContext o.device = some o.context

/-- The driver has no string to give for the default device, or gives one and no device. -/
def Driver.Faults (d : Driver δ κ) : Prop :=
  d.enumerationExt = true ∧ (d.defaultDevice = none ∨
    ∃ name, d.defaultDevice = some name ∧ name ≠ "" ∧ getAllDevices d.allDevices = [])

theorem Driver.Opens.not_faults {d : Driver δ κ} {o : Opened δ κ} (h : d.Opens o) :
    ¬ d.Faults := by
  obtain ⟨name, hname, -⟩ := h.defaultDevice
  obtain ⟨first, hfirst, -⟩ := h.device
  rintro ⟨-, hnone | ⟨-, -, -, hnil⟩⟩
  · cases hname.symm.trans hnone
  · rw [hnil] at hfirst
    cases hfirst

variable [DecidableEq δ] [DecidableEq κ]

/-- The devices and contexts once these have been opened and made current. -/
def Alc.opened (a : Alc δ κ) (o : Opened δ κ) : Alc δ κ :=
  ((a.openDevice o.device).createContext o.device o.context).makeContextCurrent (some o.context)

namespace Process

theorem openDevice_of_not_loaded {d : Driver δ κ} {s : Process δ κ}
    (h : s.library.loaded = false) : s.openDevice d = none := by
  simp [openDevice, Library.call_of_not_loaded h]

/-- The three ways in which `OpenDevice` ends once the library is loaded. -/
theorem openDevice_cases (d : Driver δ κ) {s : Process δ κ} (h : s.library.loaded = true) :
    (d.Faults ∧ s.openDevice d = none) ∨
      (¬ d.Faults ∧ (∀ o, ¬ d.Opens o) ∧ ∃ a, (a = s.alc ∨ ∃ name device,
          d.openDevice name = some device ∧
            a = (s.alc.openDevice device).closeDevice (some device)) ∧
        s.openDevice d = some (.E_FAIL, none, { s with alc := a })) ∨
      (¬ d.Faults ∧ ∃ o, d.Opens o ∧
        s.openDevice d = some (.S_OK, some o, { s with alc := s.alc.opened o })) := by
  have hcall := Library.call_of_loaded h
  by_cases hext : d.enumerationExt = true
  swap
  · refine .inr (.inl ⟨fun hf => hext hf.1, fun o ho => hext ho.enumerationExt, s.alc, .inl rfl,
      ?_⟩)
    simp [openDevice, hcall, hext]
  cases hdefault : d.defaultDevice with
  | none => exact .inl ⟨⟨hext, .inl hdefault⟩, by simp [openDevice, hcall, hext, hdefault]⟩
  | some defaultDevice =>
      by_cases hempty : defaultDevice = ""
      · refine .inr (.inl ⟨?_, fun o ho => ?_, s.alc, .inl rfl, ?_⟩)
        · rintro ⟨-, hnone | ⟨name, hname, hne, -⟩⟩ <;> simp_all
        · obtain ⟨name, hname, hne⟩ := ho.defaultDevice
          simp_all
        · simp [openDevice, hcall, hext, hdefault, hempty]
      cases hnames : getAllDevices d.allDevices with
      | nil =>
          refine .inl ⟨⟨hext, .inr ⟨_, hdefault, hempty, hnames⟩⟩, ?_⟩
          simp [openDevice, hcall, hext, hdefault, hempty, hnames]
      | cons name names =>
          have hfaults : ¬ d.Faults := by
            rintro ⟨-, hnone | ⟨_, -, -, hnil⟩⟩
            · cases hdefault.symm.trans hnone
            · cases hnames.symm.trans hnil
          cases hdevice : d.openDevice name with
          | none =>
              refine .inr (.inl ⟨hfaults, fun o ho => ?_, s.alc, .inl rfl, ?_⟩)
              · obtain ⟨name', hname, hopen⟩ := ho.device
                simp_all
              · simp [openDevice, hcall, hext, hdefault, hnames, hdevice]
          | some device =>
              cases hcontext : d.createContext device with
              | none =>
                  refine .inr (.inl ⟨hfaults, fun o ho => ?_,
                    (s.alc.openDevice device).closeDevice (some device),
                    .inr ⟨name, device, hdevice, rfl⟩, ?_⟩)
                  · obtain ⟨name', hname, hopen⟩ := ho.device
                    have hc := ho.context
                    simp_all
                  · simp [openDevice, hcall, hext, hdefault, hempty, hnames, hdevice, hcontext]
              | some context =>
                  refine .inr (.inr ⟨hfaults, ⟨device, context⟩, ⟨hext,
                    ⟨_, hdefault, hempty⟩, ⟨name, by simp [hnames], hdevice⟩,
                    hcontext⟩, ?_⟩)
                  simp [openDevice, hcall, hext, hdefault, hempty, hnames, hdevice, hcontext,
                    Alc.opened]

/-! ## What the filter's constructor reports -/

/-- `isValid` and `OpenDevice` both succeed. -/
def Initialises (d : Driver δ κ) (s : Process δ κ) : Prop :=
  (s.isValid d).1.failed = false ∧
    ∃ r, (s.isValid d).2.openDevice d = some r ∧ r.1.failed = false

/-- A driver that does not initialise is reported in `*phr`, and no filter is handed out without
the functions of the library and a context. -/
structure Reports (b : Bases) (d : Driver δ κ) (queryInterface : HRESULT) (s : Process δ κ) :
    Prop where
  failed : ¬ s.Initialises d → ∃ hr opened t,
    s.openALFilter b d .S_OK = some (hr, opened, t) ∧ hr.failed = true
  usable : ∀ hr opened t, s.createInstance b d queryInterface = some (hr, some opened, t) →
    (∀ f, t.library.pointer f = .resolved) ∧ ∃ o, opened = some o ∧
      t.alc.contexts o.context = some o.device

end Process

/-- An allocation or a base class has failed already. -/
def Bases.Fail (b : Bases) : Prop := b.pin = false ∨ b.schedule = false ∨ b.thread = false

/-- What `*phr` holds when the stream is constructed. -/
theorem Bases.referenceClock_failed_iff (b : Bases) :
    (b.referenceClock (if b.pin = false then .E_OUTOFMEMORY else .S_OK)).failed = true ↔
      b.Fail := by
  obtain ⟨pin, schedule, thread⟩ := b
  cases pin <;> cases schedule <;> cases thread <;>
    simp [Bases.referenceClock, Bases.Fail, HRESULT.failed]

namespace Process

variable {b : Bases} {d : Driver δ κ} {queryInterface : HRESULT} {s : Process δ κ}

/-- A filter is handed out when its constructor leaves a success code and it has the interface
asked for. -/
theorem createInstance_eq_some {hr : HRESULT} {opened : Option (Opened δ κ)} {t : Process δ κ} :
    s.createInstance b d queryInterface = some (hr, some opened, t) ↔
      queryInterface.failed = false ∧ hr = queryInterface ∧
        ∃ r, r.failed = false ∧ s.openALFilter b d .S_OK = some (r, opened, t) := by
  unfold createInstance
  rw [Option.bind_eq_some_iff]
  constructor
  · rintro ⟨⟨r, opened', t'⟩, hr, h⟩
    dsimp only at h
    split at h
    · obtain ⟨u, -, hu⟩ := Option.map_eq_some_iff.mp h
      cases hu
    · next hnot =>
        split at h
        · obtain ⟨u, -, hu⟩ := Option.map_eq_some_iff.mp h
          cases hu
        · next hquery =>
            cases h
            exact ⟨by simpa using hquery, rfl, r, by simpa using hnot, hr⟩
  · rintro ⟨hquery, rfl, r, hr, h⟩
    exact ⟨_, h, by simp [hr, hquery]⟩

theorem openALFilter_eq : s.openALFilter b d .S_OK = ((s.isValid d).2.openDevice d).map fun r =>
    (b.referenceClock (if b.pin = false then .E_OUTOFMEMORY else .S_OK), r.2) := rfl

theorem not_initialises_of_not_loads (h : ¬ d.Loads s.library) :
    ¬ s.Initialises d ∧ s.openALFilter b d .S_OK = none := by
  have hloaded : (s.isValid d).2.library.loaded = false := by
    simpa using mt (isValid_loaded_iff d s).mp h
  refine ⟨fun hi => h ((isValid_succeeds_iff d s).mp hi.1), ?_⟩
  rw [openALFilter_eq, openDevice_of_not_loaded hloaded, Option.map_none]

/-- The three ways in which the filter is constructed once the library is loaded. -/
theorem openALFilter_cases (h : d.Loads s.library) :
    (d.Faults ∧ ¬ s.Initialises d ∧ s.openALFilter b d .S_OK = none) ∨
      ((∀ o, ¬ d.Opens o) ∧ ¬ d.Faults ∧ ¬ s.Initialises d ∧ ∃ t, s.openALFilter b d .S_OK =
        some (b.referenceClock (if b.pin = false then .E_OUTOFMEMORY else .S_OK), none, t)) ∨
      (s.Initialises d ∧ ∃ o t, d.Opens o ∧ t.library.loaded = true ∧ t.alc = s.alc.opened o ∧
        s.openALFilter b d .S_OK =
          some (b.referenceClock (if b.pin = false then .E_OUTOFMEMORY else .S_OK), some o, t)) := by
  have hloaded := (isValid_loaded_iff d s).mpr h
  have hvalid := (isValid_succeeds_iff d s).mpr h
  rw [openALFilter_eq]
  rcases openDevice_cases d hloaded with ⟨hfaults, hnone⟩ | ⟨hfaults, hopens, a, -, hfail⟩ |
    ⟨hfaults, o, ho, hok⟩
  · refine .inl ⟨hfaults, ?_, by rw [hnone, Option.map_none]⟩
    rintro ⟨-, r, hr, -⟩
    cases hnone.symm.trans hr
  · refine .inr (.inl ⟨hopens, hfaults, ?_, _, by rw [hfail, Option.map_some]⟩)
    rintro ⟨-, r, hr, hs⟩
    cases hfail.symm.trans hr
    cases hs
  · exact .inr (.inr ⟨⟨hvalid, _, hok, rfl⟩, o, { (s.isValid d).2 with alc := s.alc.opened o },
      ho, hloaded, rfl, congrArg (Option.map _) hok⟩)

/-- Construction reports a driver that does not initialise if and only if there is nothing to
report, or the base classes have failed anyway and nothing is accessed that is not there. -/
theorem reports_iff : s.Reports b d queryInterface ↔
    d.Loads s.library ∧ ((∃ o, d.Opens o) ∨ b.Fail ∧ ¬ d.Faults) := by
  by_cases hloads : d.Loads s.library
  swap
  · obtain ⟨hinit, hnone⟩ := not_initialises_of_not_loads (b := b) hloads
    refine iff_of_false (fun hr => ?_) fun h => hloads h.1
    obtain ⟨hr, opened, t, h, -⟩ := hr.failed hinit
    cases hnone.symm.trans h
  simp only [hloads, true_and]
  rcases openALFilter_cases (b := b) hloads with ⟨hfaults, hinit, hnone⟩ |
    ⟨hopens, hfaults, hinit, t, hfail⟩ | ⟨hinit, o, t, ho, hlib, halc, hok⟩
  · refine iff_of_false (fun hr => ?_) ?_
    · obtain ⟨hr, opened, t, h, -⟩ := hr.failed hinit
      cases hnone.symm.trans h
    · rintro (⟨o, ho⟩ | ⟨-, hnot⟩)
      · exact ho.not_faults hfaults
      · exact hnot hfaults
  · constructor
    · intro hr
      obtain ⟨hr, opened, u, h, hfailed⟩ := hr.failed hinit
      cases hfail.symm.trans h
      exact .inr ⟨b.referenceClock_failed_iff.mp hfailed, hfaults⟩
    · rintro (⟨o, ho⟩ | ⟨hb, -⟩)
      · exact absurd ho (hopens o)
      have hfailed := b.referenceClock_failed_iff.mpr hb
      refine ⟨fun _ => ⟨_, _, t, hfail, hfailed⟩, fun hr opened u h => ?_⟩
      obtain ⟨-, -, r, hr, h⟩ := createInstance_eq_some.mp h
      cases hfail.symm.trans h
      cases hfailed.symm.trans hr
  · refine iff_of_true ⟨fun hnot => absurd hinit hnot, fun hr opened u h => ?_⟩ (.inl ⟨o, ho⟩)
    obtain ⟨-, -, r, -, h⟩ := createInstance_eq_some.mp h
    cases hok.symm.trans h
    refine ⟨fun f => (Library.resolved_iff _ f).mpr hlib, o, rfl, ?_⟩
    simp [halc, Alc.opened, Alc.createContext, Alc.makeContextCurrent]

/-- A driver that has every function and no enumeration extension. -/
def withoutEnumeration : Driver ℕ ℕ where
  loadLibrary := true
  getProcAddress _ := true
  enumerationExt := false
  defaultDevice := none
  allDevices := none
  openDevice _ := none
  createContext _ := none

/-- `OpenDevice` fails, and a filter that has no context is handed out with `S_OK`. -/
theorem filter_handed_out_without_context :
    (∃ t, initial.createInstance {} withoutEnumeration .S_OK = some (.S_OK, some none, t)) ∧
      ¬ initial.Initialises withoutEnumeration ∧
      ¬ initial.Reports {} withoutEnumeration .S_OK := by
  have hcreate : (initial.createInstance {} withoutEnumeration .S_OK).map (fun r => (r.1, r.2.1)) =
      some (.S_OK, some none) := rfl
  obtain ⟨⟨hr, opened, t⟩, ht, heq⟩ := Option.map_eq_some_iff.mp hcreate
  cases heq
  refine ⟨⟨t, ht⟩, ?_, fun h => ?_⟩
  · rintro ⟨-, r, hr, hs⟩
    cases hr
    cases hs
  · obtain ⟨-, o, ho, -⟩ := h.usable _ _ _ ht
    cases ho

end Process

end OpenALRenderer
