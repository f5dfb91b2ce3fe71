import Mathlib.Logic.Relation
import Mathlib.Data.List.Basic
import Mathlib.Order.Defs.PartialOrder

/-! # Labelled transition systems, guarded reachability, and runs -/

namespace OpenALRenderer.Foundation

/-- A labelled transition system. A label names the acting party and carries every
choice the environment makes for that step. -/
structure System (σ α : Type*) where
  init : σ → Prop
  step : σ → α → σ → Prop

namespace System

variable {σ α : Type*}

/-- The system whose steps are the defined values of a partial next-state function. -/
def ofNext (init : σ → Prop) (next : σ → α → Option σ) : System σ α :=
  ⟨init, fun s a t => next s a = some t⟩

@[simp] theorem ofNext_init (init : σ → Prop) (next : σ → α → Option σ) (s : σ) :
    (ofNext init next).init s ↔ init s := Iff.rfl

@[simp] theorem ofNext_step (init : σ → Prop) (next : σ → α → Option σ) (s : σ) (a : α)
    (t : σ) : (ofNext init next).step s a t ↔ next s a = some t := Iff.rfl

variable (M : System σ α)

/-! ## Reachability -/

/-- The states reached from an initial state when every step taken meets `guard`. -/
inductive ReachableWhere (guard : σ → α → Prop) : σ → Prop where
  | init {s} (h : M.init s) : ReachableWhere guard s
  | step {s a t} (h : ReachableWhere guard s) (hg : guard s a) (hs : M.step s a t) :
      ReachableWhere guard t

/-- Reachability with no restriction on the steps. -/
abbrev Reachable : σ → Prop := M.ReachableWhere fun _ _ => True

variable {M} {guard : σ → α → Prop}

/-- A property of the initial states that every guarded step preserves is an invariant. -/
theorem ReachableWhere.invariant {I : σ → Prop} {s : σ} (h : M.ReachableWhere guard s)
    (hinit : ∀ s, M.init s → I s)
    (hstep : ∀ s a t, I s → guard s a → M.step s a t → I t) : I s := by
  induction h with
  | init h => exact hinit _ h
  | step _ hg hs ih => exact hstep _ _ _ ih hg hs

/-- The invariant rule relative to a property already known of the reached states. -/
theorem ReachableWhere.invariant_of {I J : σ → Prop} {s : σ} (h : M.ReachableWhere guard s)
    (hJ : ∀ s, M.ReachableWhere guard s → J s)
    (hinit : ∀ s, M.init s → I s)
    (hstep : ∀ s a t, J s → J t → I s → guard s a → M.step s a t → I t) : I s := by
  induction h with
  | init h => exact hinit _ h
  | step h hg hs ih => exact hstep _ _ _ (hJ _ h) (hJ _ (.step h hg hs)) ih hg hs

theorem ReachableWhere.mono {guard' : σ → α → Prop} {s : σ}
    (h : M.ReachableWhere guard s) (himp : ∀ s a, guard s a → guard' s a) :
    M.ReachableWhere guard' s := by
  induction h with
  | init h => exact .init h
  | step _ hg hs ih => exact .step ih (himp _ _ hg) hs

/-! ## Runs -/

variable (M)

/-- A run from `s` to `t` with the steps it takes, each as its pre-state and label. -/
inductive Run : σ → List (σ × α) → σ → Prop where
  | nil (s) : Run s [] s
  | cons {s a u steps t} (hs : M.step s a u) (h : Run u steps t) :
      Run s ((s, a) :: steps) t

variable {M}

/-- The states a run passes through, its last one included. -/
def visited (steps : List (σ × α)) (t : σ) : List σ := steps.map Prod.fst ++ [t]

/-- A step of a run starts in a state the run visits. -/
theorem Run.step_of_mem {s t : σ} {steps : List (σ × α)} (h : M.Run s steps t) {x : σ × α}
    (hx : x ∈ steps) : x.1 ∈ visited steps t ∧ ∃ u, M.step x.1 x.2 u := by
  induction h with
  | nil s => cases hx
  | @cons s a u steps t hs h ih =>
      rcases List.mem_cons.mp hx with rfl | hx
      · exact ⟨by simp [visited], u, hs⟩
      · obtain ⟨hv, hu⟩ := ih hx
        exact ⟨List.mem_cons_of_mem _ hv, hu⟩

theorem Run.append {s t u : σ} {steps steps' : List (σ × α)} (h : M.Run s steps t)
    (h' : M.Run t steps' u) : M.Run s (steps ++ steps') u := by
  induction h with
  | nil s => exact h'
  | cons hs _ ih => exact .cons hs (ih h')

theorem Run.concat {s t u : σ} {steps : List (σ × α)} {a : α} (h : M.Run s steps t)
    (hs : M.step t a u) : M.Run s (steps ++ [(t, a)]) u :=
  h.append (.cons hs (.nil u))

theorem Run.reachable {s t : σ} {steps : List (σ × α)} (h : M.Run s steps t)
    (hs : M.Reachable s) : M.Reachable t := by
  induction h with
  | nil s => exact hs
  | cons hs' _ ih => exact ih (hs.step trivial hs')

theorem Run.invariant {I : σ → Prop} {s t : σ} {steps : List (σ × α)}
    (h : M.Run s steps t) (hs : I s)
    (hstep : ∀ s a t, I s → (s, a) ∈ steps → M.step s a t → I t) :
    ∀ u ∈ visited steps t, I u := by
  induction h with
  | nil s =>
      intro u hu
      have hu' : u = s := by simpa [visited] using hu
      exact hu' ▸ hs
  | cons hs' h ih =>
      intro u hu
      simp only [visited, List.map_cons, List.cons_append, List.mem_cons] at hu
      rcases hu with rfl | hu
      · exact hs
      · refine ih (hstep _ _ _ hs (by simp) hs') ?_ u hu
        intro s a t hi hm
        exact hstep s a t hi (List.mem_cons_of_mem _ hm)

/-- What is noted of each step of a run, of its pre-state, its label and its post-state. -/
def trace {γ : Type*} (f : σ → α → σ → γ) : List (σ × α) → σ → List γ
  | [], _ => []
  | x :: steps, t => f x.1 x.2 ((steps.head?.map Prod.fst).getD t) :: trace f steps t

/-- The first step of a run leads to where the rest starts. -/
theorem Run.head_eq {s t : σ} {steps : List (σ × α)} (h : M.Run s steps t) :
    (steps.head?.map Prod.fst).getD t = s := by
  cases h <;> rfl

theorem Run.trace_cons {γ : Type*} (f : σ → α → σ → γ) {s u t : σ} {a : α}
    {steps : List (σ × α)} (h : M.Run u steps t) :
    trace f ((s, a) :: steps) t = f s a u :: trace f steps t := by
  rw [trace, h.head_eq]

theorem Run.trace_append {γ : Type*} (f : σ → α → σ → γ) {u t : σ} {steps' : List (σ × α)}
    (h : M.Run u steps' t) (steps : List (σ × α)) :
    trace f (steps ++ steps') t = trace f steps u ++ trace f steps' t := by
  induction steps with
  | nil => rfl
  | cons x steps ih =>
      have hhead : ((steps ++ steps').head?.map Prod.fst).getD t =
          (steps.head?.map Prod.fst).getD u := by
        cases steps with
        | nil => exact h.head_eq
        | cons y steps => rfl
      rw [List.cons_append, trace, ih, hhead]
      rfl

/-- The rule for a value accumulated along a run: what it has to do with the state reached is
kept by every step that notes itself in it. -/
theorem Run.foldl_invariant {η : Type*} {note : η → σ × α → η} {J : η → σ → Prop} {s t : σ}
    {steps : List (σ × α)} (h : M.Run s steps t) (g : η) (hs : J g s)
    (hstep : ∀ g s a t, J g s → M.step s a t → J (note g (s, a)) t) :
    J (steps.foldl note g) t := by
  induction h generalizing g with
  | nil s => exact hs
  | cons hs' _ ih => exact ih _ (hstep _ _ _ _ hs hs')

/-- The rule for a rank: a run has no more counted steps than the rank falls, when every counted
step lowers it and no other step raises it. -/
theorem Run.countP_add_le {I : σ → Prop} {rank : σ → ℕ} {counted : σ × α → Bool} {s t : σ}
    {steps : List (σ × α)} (h : M.Run s steps t) (hs : I s)
    (hstep : ∀ s a t, I s → M.step s a t →
      I t ∧ rank t + (if counted (s, a) then 1 else 0) ≤ rank s) :
    I t ∧ steps.countP counted + rank t ≤ rank s := by
  induction h with
  | nil s => exact ⟨hs, by simp⟩
  | @cons s a u steps t hs' h ih =>
      obtain ⟨hu, hle⟩ := hstep s a u hs hs'
      obtain ⟨ht, hrest⟩ := ih hu
      refine ⟨ht, ?_⟩
      rw [List.countP_cons]
      omega

/-- When a guard is, state by state, exactly what keeps `I`, a run keeps `I` in every state
it visits if and only if each of its steps meets the guard. -/
theorem Run.forall_visited_iff {I : σ → Prop} {s t : σ} {steps : List (σ × α)}
    (h : M.Run s steps t) (hs : I s)
    (hstep : ∀ s a t, I s → M.step s a t → (I t ↔ guard s a)) :
    (∀ u ∈ visited steps t, I u) ↔ ∀ x ∈ steps, guard x.1 x.2 := by
  induction h with
  | nil s => simpa [visited] using hs
  | @cons s a u steps t hs' h ih =>
      have hu := hstep s a u hs hs'
      simp only [visited, List.map_cons, List.cons_append, List.forall_mem_cons]
      constructor
      · rintro ⟨-, hrest⟩
        have hIu : I u := by
          apply hrest
          cases h <;> simp
        exact ⟨hu.mp hIu, (ih hIu).mp hrest⟩
      · rintro ⟨hg, hrest⟩
        exact ⟨hs, (ih (hu.mpr hg)).mpr hrest⟩

/-- When a guard is, step by step, exactly what does not lower a value, the values along a run
never fall if and only if each of its steps meets the guard. -/
theorem Run.pairwise_le_iff {γ : Type*} [Preorder γ] {f : σ → γ} {I : σ → Prop} {s t : σ}
    {steps : List (σ × α)} (h : M.Run s steps t) (hI : ∀ u ∈ visited steps t, I u)
    (hstep : ∀ s a t, I s → M.step s a t → (f s ≤ f t ↔ guard s a)) :
    ((visited steps t).map f).Pairwise (· ≤ ·) ↔ ∀ x ∈ steps, guard x.1 x.2 := by
  induction h with
  | nil s => simp [visited]
  | @cons s a u steps t hs h ih =>
      have hu := hstep s a u (hI s (by simp [visited])) hs
      have hrest := ih fun v hv => hI v (List.mem_cons_of_mem _ hv)
      have hhead : ∃ more, visited steps t = u :: more := by
        cases h with
        | nil => exact ⟨[], rfl⟩
        | cons => exact ⟨_, rfl⟩
      obtain ⟨more, hmore⟩ := hhead
      change (f s :: (visited steps t).map f).Pairwise (· ≤ ·) ↔ _
      rw [List.pairwise_cons, List.forall_mem_cons, ← hrest, ← hu]
      refine and_congr_left fun hpair => ?_
      rw [hmore, List.map_cons] at hpair ⊢
      rw [List.forall_mem_cons]
      refine ⟨And.left, fun hle => ⟨hle, fun x hx => ?_⟩⟩
      exact le_trans hle (List.rel_of_pairwise_cons hpair hx)

/-! ## History variables -/

section History

variable {η : Type*}

/-- The system next to a variable that notes its steps. No step depends on what is noted. -/
def withHistory (M : System σ α) (g₀ : η) (note : η → σ → α → σ → η) : System (σ × η) α where
  init x := M.init x.1 ∧ x.2 = g₀
  step x a y := M.step x.1 a y.1 ∧ y.2 = note x.2 x.1 a y.1

/-- A next-state function that notes its steps. -/
def record (next : σ → α → Option σ) (note : η → σ → α → σ → η) (x : σ × η) (a : α) :
    Option (σ × η) :=
  (next x.1 a).map fun t => (t, note x.2 x.1 a t)

theorem ofNext_withHistory (init : σ → Prop) (next : σ → α → Option σ) (g₀ : η)
    (note : η → σ → α → σ → η) :
    (ofNext init next).withHistory g₀ note =
      ofNext (fun x => init x.1 ∧ x.2 = g₀) (record next note) := by
  have hstep : ((ofNext init next).withHistory g₀ note).step =
      (ofNext (fun x : σ × η => init x.1 ∧ x.2 = g₀) (record next note)).step := by
    funext x a y
    simp only [withHistory, ofNext_step, record, Option.map_eq_some_iff, eq_iff_iff]
    constructor
    · rintro ⟨hs, hg⟩
      exact ⟨y.1, hs, Prod.ext rfl hg.symm⟩
    · rintro ⟨t, hs, rfl⟩
      exact ⟨hs, rfl⟩
  rw [withHistory, System.mk.injEq]
  exact ⟨rfl, hstep⟩

/-- Whatever is reached is reached with a history. -/
theorem ReachableWhere.exists_history {s : σ} (g₀ : η) (note : η → σ → α → σ → η)
    (h : M.ReachableWhere guard s) :
    ∃ g, (M.withHistory g₀ note).ReachableWhere (fun x => guard x.1) (s, g) := by
  induction h with
  | init hi => exact ⟨g₀, .init ⟨hi, rfl⟩⟩
  | @step s a t _ hg hs ih =>
      obtain ⟨g, hr⟩ := ih
      exact ⟨note g s a t, .step hr hg ⟨hs, rfl⟩⟩

end History

/-! ## Executing a schedule -/

section Exec

variable {init : σ → Prop} (next : σ → α → Option σ)
variable (guard : σ → α → Prop) [∀ s a, Decidable (guard s a)]

/-- Follow a list of labels; `none` as soon as a step is disabled or misses the guard. -/
def exec (s : σ) : List α → Option σ
  | [] => some s
  | a :: as => if guard s a then (next s a).bind fun t => exec t as else none

variable {next guard}

theorem reachableWhere_of_exec :
    ∀ (as : List α) (s t : σ), (ofNext init next).ReachableWhere guard s →
      exec next guard s as = some t → (ofNext init next).ReachableWhere guard t := by
  intro as
  induction as with
  | nil =>
      intro s t hs h
      simp only [exec, Option.some.injEq] at h
      exact h ▸ hs
  | cons a as ih =>
      intro s t hs h
      by_cases hg : guard s a
      · simp only [exec, hg, if_true, Option.bind_eq_some_iff] at h
        obtain ⟨u, hu, ht⟩ := h
        exact ih u t (.step hs hg hu) ht
      · simp [exec, hg] at h

/-- A schedule that can be followed is a run with these labels, and its steps meet the guard. -/
theorem exists_run_of_exec (as : List α) (s t : σ) (h : exec next guard s as = some t) :
    ∃ steps, (ofNext init next).Run s steps t ∧ (∀ x ∈ steps, guard x.1 x.2) ∧
      steps.map Prod.snd = as := by
  induction as generalizing s with
  | nil =>
      simp only [exec, Option.some.injEq] at h
      exact ⟨[], h ▸ .nil s, by simp, rfl⟩
  | cons a as ih =>
      by_cases hg : guard s a
      · simp only [exec, hg, if_true, Option.bind_eq_some_iff] at h
        obtain ⟨u, hu, ht⟩ := h
        obtain ⟨steps, hrun, hsteps, hlabels⟩ := ih u ht
        exact ⟨(s, a) :: steps, .cons hu hrun, by simpa [hg] using hsteps, by simp [hlabels]⟩
      · simp [exec, hg] at h

/-- A schedule that can be followed leads to a reachable state; what holds there can be
computed. -/
theorem exists_reachableWhere_of_exec {P : σ → Prop} [DecidablePred P] (as : List α) {s : σ}
    (hs : init s) (h : (exec next guard s as).any fun t => P t) :
    ∃ t, (ofNext init next).ReachableWhere guard t ∧ P t := by
  obtain ⟨t, ht, hP⟩ := (Option.any_eq_true _ _).mp h
  exact ⟨t, reachableWhere_of_exec as s t (.init hs) ht, of_decide_eq_true hP⟩

end Exec

end System

end OpenALRenderer.Foundation
