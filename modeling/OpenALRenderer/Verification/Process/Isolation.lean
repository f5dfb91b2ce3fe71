import OpenALRenderer.Foundation.System
import OpenALRenderer.Verification.Process.Construction

/-! # Several streams in one process

A stream does not store its context. `Destroy` takes the one that is current in the process. -/

namespace OpenALRenderer

open Foundation

/-! ## The process and its streams -/

/-- The process, and what each live stream has opened. -/
structure Streams (ι δ κ : Type) where
  process : Process δ κ
  live : ι → Option (Opened δ κ)

variable {ι δ κ : Type} [DecidableEq ι] [DecidableEq δ] [DecidableEq κ]

namespace Streams

inductive Label (ι δ κ : Type) where
  | construct (i : ι) (b : Bases) (d : Driver δ κ) (hr : HRESULT)
  | destroy (i : ι)

/-- Every OpenAL call succeeds, and `alcOpenDevice` and `alcCreateContext` return handles that are
not in use. -/
def next (s : Streams ι δ κ) : Label ι δ κ → Option (Streams ι δ κ)
  | .construct i b d hr =>
      match s.live i, s.process.openALStream b d hr with
      | none, some (_, some o, p) =>
          if o.device ∉ s.process.alc.devices ∧ s.process.alc.contexts o.context = none then
            some { process := p, live := Function.update s.live i (some o) }
          else none
      | _, _ => none
  | .destroy i =>
      match s.live i with
      | none => none
      | some _ => s.process.closeDevice.map fun p =>
          { process := p, live := Function.update s.live i none }

/-- A process in which no stream was ever constructed. -/
def initial : Streams ι δ κ := ⟨.initial, fun _ => none⟩

def system : System (Streams ι δ κ) (Label ι δ κ) := .ofNext (fun s => s = initial) next

/-! ## Streams that keep apart, and the current context -/

/-- The step destroys the context and closes the device that its stream has opened, and no
others. -/
def ClosesOwn (s : Streams ι δ κ) : Label ι δ κ → Prop
  | .construct _ _ _ _ => True
  | .destroy i => ∀ o, s.live i = some o → ∃ p, s.process.closeDevice = some p ∧
      p.alc.contexts = Function.update s.process.alc.contexts o.context none ∧
      p.alc.devices = s.process.alc.devices.erase o.device

/-- What a run keeps apart: each destruction is of the stream's own objects, no live stream is
without its own, and none are left open when no stream is live. -/
structure Isolates (steps : List (Streams ι δ κ × Label ι δ κ)) (t : Streams ι δ κ) : Prop where
  own : ∀ x ∈ steps, x.1.ClosesOwn x.2
  kept : ∀ u ∈ System.visited steps t, ∀ i o, u.live i = some o →
    u.process.alc.contexts o.context = some o.device ∧ o.device ∈ u.process.alc.devices
  closed : ∀ u ∈ System.visited steps t, (∀ i, u.live i = none) →
    (∀ c, u.process.alc.contexts c = none) ∧ u.process.alc.devices = ∅

/-- A stream is destroyed while the context that it has opened is current. -/
def CurrentIsOwn (s : Streams ι δ κ) : Label ι δ κ → Prop
  | .construct _ _ _ _ => True
  | .destroy i => ∀ o, s.live i = some o → s.process.alc.current = some o.context

end Streams

/-! ## What the steps do -/

section Update

variable {α σ : Type} [DecidableEq α] {f : α → Option σ} {a b : α} {x y : σ}

theorem update_some_eq_some (h : f a = none) :
    Function.update f a (some x) b = some y ↔ b = a ∧ y = x ∨ f b = some y := by
  by_cases hb : b = a
  · simp [hb, h, eq_comm]
  · simp [hb]

theorem update_none_eq_some : Function.update f a none b = some y ↔ b ≠ a ∧ f b = some y := by
  by_cases hb : b = a <;> simp [hb]

/-- A new entry with a key of its own leaves the keys distinct. -/
theorem update_some_injective {ρ : Type} {key : σ → ρ} (h : f a = none)
    (hfresh : ∀ b y, f b = some y → key y ≠ key x)
    (hkey : ∀ b c y z, f b = some y → f c = some z → key y = key z → b = c) :
    ∀ b c y z, Function.update f a (some x) b = some y → Function.update f a (some x) c = some z →
      key y = key z → b = c := by
  intro b c y z hb hc heq
  rcases (update_some_eq_some h).mp hb with ⟨rfl, rfl⟩ | hold <;>
    rcases (update_some_eq_some h).mp hc with ⟨rfl, rfl⟩ | hold'
  · rfl
  · exact absurd heq.symm (hfresh c z hold')
  · exact absurd heq (hfresh b y hold)
  · exact hkey b c y z hold hold' heq

end Update

namespace Process

theorem closeDevice_eq_some {s p : Process δ κ} (h : s.closeDevice = some p) :
    (s.alc.current = none ∧ p.alc = s.alc) ∨ ∃ c, s.alc.current = some c ∧
      p.alc = ((s.alc.makeContextCurrent none).destroyContext c).closeDevice
        (s.alc.contexts c) := by
  cases hloaded : s.library.loaded with
  | false => simp [closeDevice, destroy, Library.call_of_not_loaded hloaded] at h
  | true =>
      have hcall := Library.call_of_loaded hloaded
      cases hcurrent : s.alc.current with
      | none =>
          simp only [closeDevice, destroy, hcall, hcurrent, Option.bind_eq_bind,
            Option.bind_some, Option.some.injEq] at h
          exact .inl ⟨rfl, h ▸ rfl⟩
      | some c =>
          simp only [closeDevice, destroy, hcall, hcurrent, Option.bind_eq_bind,
            Option.bind_some, Option.some.injEq] at h
          exact .inr ⟨c, rfl, h ▸ rfl⟩

theorem openALStream_opened {b : Bases} {d : Driver δ κ} {hr r : HRESULT} {s p : Process δ κ}
    {o : Opened δ κ} (h : s.openALStream b d hr = some (r, some o, p)) :
    p.alc = s.alc.opened o := by
  obtain ⟨⟨r', opened, p'⟩, hopen, heq⟩ := Option.map_eq_some_iff.mp h
  obtain ⟨-, rfl, rfl⟩ : _ ∧ opened = some o ∧ p' = p := by simpa using heq
  cases hloaded : (s.isValid d).2.library.loaded with
  | false => cases (openDevice_of_not_loaded hloaded).symm.trans hopen
  | true =>
      rcases openDevice_cases d hloaded with ⟨-, hnone⟩ | ⟨-, -, a, -, hfail⟩ | ⟨-, o', -, hok⟩
      · cases hnone.symm.trans hopen
      · cases hfail.symm.trans hopen
      · cases hok.symm.trans hopen
        rfl

end Process

namespace Streams

variable {s t : Streams ι δ κ}

/-- A construction opens a device and a context that were not there. -/
theorem next_construct {i : ι} {b : Bases} {d : Driver δ κ} {hr : HRESULT}
    (h : next s (.construct i b d hr) = some t) :
    s.live i = none ∧ ∃ o, o.device ∉ s.process.alc.devices ∧
      s.process.alc.contexts o.context = none ∧ t.process.alc = s.process.alc.opened o ∧
      t.live = Function.update s.live i (some o) := by
  simp only [next] at h
  split at h
  · next r o p hlive hopen =>
      split at h
      · next hfresh =>
          obtain rfl := Option.some.inj h
          exact ⟨hlive, o, hfresh.1, hfresh.2, Process.openALStream_opened hopen, rfl⟩
      · cases h
  · cases h

theorem next_destroy {i : ι} (h : next s (.destroy i) = some t) :
    (∃ o, s.live i = some o) ∧ s.process.closeDevice = some t.process ∧
      t.live = Function.update s.live i none := by
  simp only [next] at h
  split at h
  · cases h
  · next o hlive =>
      obtain ⟨p, hp, rfl⟩ := Option.map_eq_some_iff.mp h
      exact ⟨⟨o, hlive⟩, hp, rfl⟩

/-- The objects that are open are the ones that the live streams have opened, each its own. -/
structure Isolated (s : Streams ι δ κ) : Prop where
  contexts : ∀ c d, s.process.alc.contexts c = some d ↔ ∃ i, s.live i = some ⟨d, c⟩
  devices : ∀ d, d ∈ s.process.alc.devices ↔ ∃ i c, s.live i = some ⟨d, c⟩
  context_injective : ∀ i j o o', s.live i = some o → s.live j = some o' →
    o.context = o'.context → i = j
  device_injective : ∀ i j o o', s.live i = some o → s.live j = some o' →
    o.device = o'.device → i = j

theorem Isolated.construct {i : ι} {b : Bases} {d : Driver δ κ} {hr : HRESULT} (h : Isolated s)
    (hs : next s (.construct i b d hr) = some t) : Isolated t := by
  obtain ⟨hlive, o, hdevice, hcontext, halc, hlive'⟩ := next_construct hs
  have hcontexts : t.process.alc.contexts =
      Function.update s.process.alc.contexts o.context (some o.device) := by rw [halc]; rfl
  have hdevices : t.process.alc.devices = insert o.device s.process.alc.devices := by
    rw [halc]; rfl
  have hnew : ∀ j x, t.live j = some x ↔ j = i ∧ x = o ∨ s.live j = some x := by
    intro j x
    rw [hlive', update_some_eq_some hlive]
  have hold : ∀ j x, s.live j = some x → x.context ≠ o.context ∧ x.device ≠ o.device := by
    refine fun j x hx => ⟨fun heq => ?_, fun heq => ?_⟩
    · cases hcontext.symm.trans (heq ▸ (h.contexts _ _).mpr ⟨j, hx⟩)
    · exact hdevice (heq ▸ (h.devices _).mpr ⟨j, x.context, hx⟩)
  refine ⟨fun c d => ?_, fun d => ?_, ?_, ?_⟩
  · rw [hcontexts, update_some_eq_some hcontext, h.contexts]
    constructor
    · rintro (⟨rfl, rfl⟩ | ⟨j, hj⟩)
      · exact ⟨i, (hnew _ _).mpr (.inl ⟨rfl, rfl⟩)⟩
      · exact ⟨j, (hnew _ _).mpr (.inr hj)⟩
    · rintro ⟨j, hj⟩
      rcases (hnew _ _).mp hj with ⟨-, rfl⟩ | hj
      · exact .inl ⟨rfl, rfl⟩
      · exact .inr ⟨j, hj⟩
  · rw [hdevices, Finset.mem_insert, h.devices]
    constructor
    · rintro (rfl | ⟨j, c, hj⟩)
      · exact ⟨i, o.context, (hnew _ _).mpr (.inl ⟨rfl, rfl⟩)⟩
      · exact ⟨j, c, (hnew _ _).mpr (.inr hj)⟩
    · rintro ⟨j, c, hj⟩
      rcases (hnew _ _).mp hj with ⟨-, rfl⟩ | hj
      · exact .inl rfl
      · exact .inr ⟨j, c, hj⟩
  · rw [hlive']
    exact update_some_injective hlive (fun j x hx => (hold j x hx).1) h.context_injective
  · rw [hlive']
    exact update_some_injective hlive (fun j x hx => (hold j x hx).2) h.device_injective

theorem Isolated.destroy {i : ι} (h : Isolated s) (hown : CurrentIsOwn s (.destroy i))
    (hs : next s (.destroy i) = some t) : ClosesOwn s (.destroy i) ∧ Isolated t := by
  obtain ⟨⟨o, hlive⟩, hclose, hlive'⟩ := next_destroy hs
  have hcurrent : s.process.alc.current = some o.context := hown o hlive
  have hdevice : s.process.alc.contexts o.context = some o.device :=
    (h.contexts _ _).mpr ⟨i, hlive⟩
  have halc : t.process.alc = ((s.process.alc.makeContextCurrent none).destroyContext
      o.context).closeDevice (some o.device) := by
    rcases Process.closeDevice_eq_some hclose with ⟨hnone, -⟩ | ⟨c, hc, halc⟩
    · cases hnone.symm.trans hcurrent
    · cases hc.symm.trans hcurrent
      rw [halc, hdevice]
  have hcontexts : t.process.alc.contexts =
      Function.update s.process.alc.contexts o.context none := by rw [halc]; rfl
  have hdevices : t.process.alc.devices = s.process.alc.devices.erase o.device := by
    rw [halc]; rfl
  have hrest : ∀ j x, t.live j = some x ↔ j ≠ i ∧ s.live j = some x := by
    intro j x
    rw [hlive', update_none_eq_some]
  constructor
  · intro o' ho'
    cases hlive.symm.trans ho'
    exact ⟨_, hclose, hcontexts, hdevices⟩
  refine ⟨fun c d => ?_, fun d => ?_, ?_, ?_⟩
  · rw [hcontexts, update_none_eq_some, h.contexts]
    constructor
    · rintro ⟨hne, j, hj⟩
      refine ⟨j, (hrest _ _).mpr ⟨?_, hj⟩⟩
      rintro rfl
      cases hlive.symm.trans hj
      exact hne rfl
    · rintro ⟨j, hj⟩
      obtain ⟨hne, hj⟩ := (hrest _ _).mp hj
      exact ⟨fun heq => hne (h.context_injective j i _ o hj hlive heq), j, hj⟩
  · rw [hdevices, Finset.mem_erase, h.devices]
    constructor
    · rintro ⟨hne, j, c, hj⟩
      refine ⟨j, c, (hrest _ _).mpr ⟨?_, hj⟩⟩
      rintro rfl
      cases hlive.symm.trans hj
      exact hne rfl
    · rintro ⟨j, c, hj⟩
      obtain ⟨hne, hj⟩ := (hrest _ _).mp hj
      exact ⟨fun heq => hne (h.device_injective j i _ o hj hlive heq), j, c, hj⟩
  · intro j k x y hx hy
    exact h.context_injective j k x y ((hrest _ _).mp hx).2 ((hrest _ _).mp hy).2
  · intro j k x y hx hy
    exact h.device_injective j k x y ((hrest _ _).mp hx).2 ((hrest _ _).mp hy).2

theorem Isolated.next {l : Label ι δ κ} (h : Isolated s) (hown : CurrentIsOwn s l)
    (hs : next s l = some t) : ClosesOwn s l ∧ Isolated t := by
  cases l with
  | construct i b d hr => exact ⟨trivial, h.construct hs⟩
  | destroy i => exact h.destroy hown hs

omit [DecidableEq ι] [DecidableEq δ] [DecidableEq κ] in
theorem initial_isolated : Isolated (initial : Streams ι δ κ) := by
  constructor <;> simp [initial, Process.initial]

omit [DecidableEq ι] in
/-- A stream whose context is there can only destroy it when it is the current one. -/
theorem ClosesOwn.currentIsOwn {i : ι} (h : ClosesOwn s (.destroy i))
    (hkept : ∀ o, s.live i = some o → s.process.alc.contexts o.context = some o.device) :
    CurrentIsOwn s (.destroy i) := by
  intro o ho
  obtain ⟨p, hp, hcontexts, -⟩ := h o ho
  have hgone : p.alc.contexts o.context = none := by rw [hcontexts, Function.update_self]
  have hthere := hkept o ho
  rcases Process.closeDevice_eq_some hp with ⟨-, halc⟩ | ⟨c, hc, halc⟩
  · rw [halc] at hgone
    cases hthere.symm.trans hgone
  · by_contra hne
    have hsame : p.alc.contexts o.context = s.process.alc.contexts o.context := by
      rw [halc]
      exact Function.update_of_ne (fun heq => hne (by rw [hc, heq])) _ _
    cases hthere.symm.trans (hsame.symm.trans hgone)

/-- Along any sequence of constructions and destructions, streams are isolated from one another
if and only if each is destroyed while its own context is current. -/
theorem isolates_iff {steps : List (Streams ι δ κ × Label ι δ κ)}
    (hrun : system.Run initial steps t) :
    Isolates steps t ↔ ∀ x ∈ steps, CurrentIsOwn x.1 x.2 := by
  constructor
  · rintro h ⟨u, l⟩ hx
    cases l with
    | construct i b d hr => trivial
    | destroy i =>
        exact (h.own _ hx).currentIsOwn fun o ho =>
          (h.kept u (hrun.step_of_mem hx).1 i o ho).1
  · intro h
    have hinv : ∀ u ∈ System.visited steps t, Isolated u :=
      hrun.invariant initial_isolated fun u l v hu hmem hs => (hu.next (h _ hmem) hs).2
    refine ⟨fun x hx => ?_, fun u hu i o ho => ?_, fun u hu hnone => ⟨fun c => ?_, ?_⟩⟩
    · obtain ⟨hvisited, v, hs⟩ := hrun.step_of_mem hx
      exact ((hinv _ hvisited).next (h x hx) hs).1
    · exact ⟨((hinv u hu).contexts _ _).mpr ⟨i, ho⟩,
        ((hinv u hu).devices _).mpr ⟨i, o.context, ho⟩⟩
    · refine Option.eq_none_iff_forall_ne_some.mpr fun d hd => ?_
      obtain ⟨i, hi⟩ := ((hinv u hu).contexts c d).mp hd
      cases (hnone i).symm.trans hi
    · refine Finset.eq_empty_of_forall_notMem fun d hd => ?_
      obtain ⟨i, c, hi⟩ := ((hinv u hu).devices d).mp hd
      cases (hnone i).symm.trans hi

/-- A driver with one device, which it opens under the handles given. -/
def oneDevice (device context : ℕ) : Driver ℕ ℕ where
  loadLibrary := true
  getProcAddress _ := true
  enumerationExt := true
  defaultDevice := some "Speakers"
  allDevices := some ["Speakers"]
  openDevice _ := some device
  createContext _ := some context

instance (s : Streams ℕ ℕ ℕ) (l : Label ℕ ℕ ℕ) : Decidable (CurrentIsOwn s l) :=
  match l with
  | .construct _ _ _ _ => isTrue trivial
  | .destroy i => inferInstanceAs (Decidable (∀ o ∈ s.live i, s.process.alc.current = some o.context))

/-- One stream after the other, the second under the handles of the first. -/
theorem isolates_iff_sequential :
    ∃ (t : Streams ℕ ℕ ℕ) (steps : List (Streams ℕ ℕ ℕ × Label ℕ ℕ ℕ)),
      system.Run initial steps t ∧ steps.length = 4 ∧ Isolates steps t := by
  have h : (System.exec next CurrentIsOwn initial
      [.construct 0 {} (oneDevice 1 2) .S_OK, .destroy 0,
        .construct 1 {} (oneDevice 1 2) .S_OK, .destroy 1]).isSome := rfl
  obtain ⟨t, ht⟩ := Option.isSome_iff_exists.mp h
  obtain ⟨steps, hrun, hown, hlabels⟩ := System.exists_run_of_exec _ _ _ ht
  refine ⟨t, steps, hrun, ?_, (isolates_iff hrun).mpr hown⟩
  simpa using congrArg List.length hlabels

/-- Two streams live side by side; destroying the first takes away the context of the second. -/
theorem live_stream_loses_context :
    ∃ (t : Streams ℕ ℕ ℕ) (steps : List (Streams ℕ ℕ ℕ × Label ℕ ℕ ℕ)),
      system.Run initial steps t ∧ t.live 1 = some ⟨3, 4⟩ ∧ t.process.alc.contexts 4 = none ∧
        t.process.alc.contexts 2 = some 1 ∧ ¬ Isolates steps t := by
  have h : (System.exec next (fun _ _ => True) initial
      [.construct 0 {} (oneDevice 1 2) .S_OK, .construct 1 {} (oneDevice 3 4) .S_OK,
        .destroy 0]).map (fun t =>
          (t.live 1, t.process.alc.contexts 4, t.process.alc.contexts 2)) =
      some (some ⟨3, 4⟩, none, some 1) := rfl
  obtain ⟨t, ht, hfacts⟩ := Option.map_eq_some_iff.mp h
  simp only [Prod.mk.injEq] at hfacts
  obtain ⟨hlive, hgone, hleft⟩ := hfacts
  obtain ⟨steps, hrun, -, -⟩ := System.exists_run_of_exec _ _ _ ht
  refine ⟨t, steps, hrun, hlive, hgone, hleft, fun hisolates => ?_⟩
  have hkept := (hisolates.kept t (by simp [System.visited]) 1 _ hlive).1
  cases hgone.symm.trans hkept

end Streams

end OpenALRenderer
