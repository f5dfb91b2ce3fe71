import OpenALRenderer.Foundation.System
import Mathlib.Logic.Function.Basic

/-! # Threads whose locks guard lexical scopes

Threads share a state and re-entrant locks. A program that takes its locks in order, and
calls its machines under one guard lock, never waits in a cycle and never runs two machines
at once. -/

namespace OpenALRenderer.Foundation

/-! ## Programs -/

/-- What is left of a thread's program. An action reads and writes the shared state in one
step; a call runs a machine with steps of its own. `running` and `held` are the forms that a
call and a scope take once they are entered. A thread that crashes keeps its locks. -/
inductive Prog (Λ ι ρ σ : Type) where
  | ret (r : ρ)
  | crash
  | act (f : σ → σ) (k : σ → Prog Λ ι ρ σ)
  | call (m : ι) (k : Prog Λ ι ρ σ)
  | running (m : ι) (k : Prog Λ ι ρ σ)
  | scope (l : Λ) (body : Prog Λ ι ρ σ) (k : ρ → Prog Λ ι ρ σ)
  | held (l : Λ) (body : Prog Λ ι ρ σ) (k : ρ → Prog Λ ι ρ σ)

/-- The machines that programs call. -/
structure Machine (ι σ : Type) where
  step : ι → σ → Option (ι × σ)
  ended : ι → Prop

namespace Prog

variable {Λ ι ρ σ : Type}

/-- A step of one thread; `free` tells the locks no other thread holds. -/
inductive Step (M : Machine ι σ) (free : Λ → Prop) :
    Prog Λ ι ρ σ → σ → Prog Λ ι ρ σ → σ → Prop where
  | act {f k s} : Step M free (.act f k) s (k s) (f s)
  | enter {m k s} : Step M free (.call m k) s (.running m k) s
  | machine {m k s m' s'} (h : M.step m s = some (m', s')) :
      Step M free (.running m k) s (.running m' k) s'
  | leave {m k s} (h : M.ended m) : Step M free (.running m k) s k s
  | acquire {l body k s} (h : free l) : Step M free (.scope l body k) s (.held l body k) s
  | inside {l body k s body' s'} (h : Step M free body s body' s') :
      Step M free (.held l body k) s (.held l body' k) s'
  | release {l r k s} : Step M free (.held l (.ret r) k) s (k r) s

/-- The locks the thread holds, the outermost first. -/
def locks : Prog Λ ι ρ σ → List Λ
  | .held l body _ => l :: body.locks
  | _ => []

/-- The lock the thread is about to take. -/
def wanted : Prog Λ ι ρ σ → Option Λ
  | .scope l _ _ => some l
  | .held _ body _ => body.wanted
  | _ => none

/-- The machine the thread is running. -/
def active : Prog Λ ι ρ σ → Option ι
  | .running m _ => some m
  | .held _ body _ => body.active
  | _ => none

end Prog

/-! ## The discipline -/

/-- The order in which locks are taken, the lock that guards the machines, the machines as
they are called, and what an action may do to the shared state. -/
structure Discipline (Λ ι σ : Type) where
  lt : Λ → Λ → Prop
  guard : Λ
  fresh : ι → Prop
  frame : σ → σ → Prop

namespace Prog

variable {Λ ι ρ σ : Type} (D : Discipline Λ ι σ)

/-- A program text obeys the discipline when it runs under the locks `hs`. -/
def Obeys : Prog Λ ι ρ σ → List Λ → Prop
  | .ret _, _ => True
  | .crash, _ => True
  | .act f k, hs => (∀ s, D.frame s (f s)) ∧ ∀ s, (k s).Obeys hs
  | .call m k, hs => D.guard ∈ hs ∧ D.fresh m ∧ k.Obeys hs
  | .running _ _, _ => False
  | .scope l body k, hs =>
      (l ∈ hs ∨ ∀ h ∈ hs, D.lt h l) ∧ body.Obeys (l :: hs) ∧ ∀ r, (k r).Obeys hs
  | .held _ _ _, _ => False

/-- What is left of a program that obeys the discipline, in the middle of its execution. -/
def Live : Prog Λ ι ρ σ → List Λ → Prop
  | .running _ k, hs => D.guard ∈ hs ∧ k.Obeys D hs
  | .held l body k, hs => body.Live (l :: hs) ∧ ∀ r, (k r).Obeys D hs
  | p, hs => p.Obeys D hs

variable {D} {M : Machine ι σ} {free : Λ → Prop} {p p' : Prog Λ ι ρ σ} {s s' : σ} {hs : List Λ}

theorem Obeys.live (h : p.Obeys D hs) : p.Live D hs := by
  cases p with
  | running m k => exact h.elim
  | held l body k => exact h.elim
  | ret r | crash | act f k | call m k | scope l body k => exact h

theorem Obeys.locks_eq_nil (h : p.Obeys D hs) : p.locks = [] := by
  cases p with
  | held l body k => exact h.elim
  | ret r | crash | act f k | call m k | running m k | scope l body k => rfl

theorem Obeys.active_eq_none (h : p.Obeys D hs) : p.active = none := by
  cases p with
  | running m k => exact h.elim
  | held l body k => exact h.elim
  | ret r | crash | act f k | call m k | scope l body k => rfl

/-- A thread that waits for a lock either holds it or holds smaller ones only. -/
theorem Live.of_wanted {l : Λ} (h : p.Live D hs) (hl : p.wanted = some l) :
    (l ∈ p.locks ∨ l ∈ hs) ∨ (∀ h ∈ p.locks, D.lt h l) ∧ ∀ h ∈ hs, D.lt h l := by
  induction p generalizing hs with
  | scope l' body k =>
      obtain rfl := Option.some.inj hl
      exact h.1.imp .inr fun hlt => ⟨by simp [locks], hlt⟩
  | held l' body k ih =>
      rcases ih h.1 hl with (hb | hb) | ⟨hb, hhs⟩
      · exact .inl (.inl (List.mem_cons_of_mem _ hb))
      · rcases List.mem_cons.mp hb with rfl | hb
        · exact .inl (.inl List.mem_cons_self)
        · exact .inl (.inr hb)
      · obtain ⟨hl', hhs⟩ := List.forall_mem_cons.mp hhs
        exact .inr ⟨List.forall_mem_cons.mpr ⟨hl', hb⟩, hhs⟩
  | ret r | crash | act f k | call m k | running m k => cases hl

/-- A thread that runs a machine holds the guard. -/
theorem Live.guard_of_active {m : ι} (h : p.Live D hs) (hm : p.active = some m) :
    D.guard ∈ p.locks ∨ D.guard ∈ hs := by
  induction p generalizing hs with
  | running m' k => exact .inr h.1
  | held l body k ih =>
      rcases ih h.1 hm with hg | hg
      · exact .inl (List.mem_cons_of_mem _ hg)
      · rcases List.mem_cons.mp hg with hg | hg
        · exact .inl (hg ▸ List.mem_cons_self)
        · exact .inr hg
  | ret r | crash | act f k | call m k | scope l body k => cases hm

/-- What obeys a discipline obeys one with the same locks and calls whose actions may do more. -/
theorem Obeys.mono {E : Discipline Λ ι σ} (hlt : E.lt = D.lt) (hguard : E.guard = D.guard)
    (hfresh : E.fresh = D.fresh) (hframe : ∀ s s', D.frame s s' → E.frame s s')
    (h : p.Obeys D hs) : p.Obeys E hs := by
  induction p generalizing hs with
  | ret r | crash => trivial
  | act f k ih => exact ⟨fun s => hframe _ _ (h.1 s), fun s => ih s (h.2 s)⟩
  | call m k ih => exact ⟨hguard ▸ h.1, hfresh ▸ h.2.1, ih h.2.2⟩
  | scope l body k ihb ihk => exact ⟨hlt ▸ h.1, ihb h.2.1, fun r => ihk r (h.2.2 r)⟩
  | running m k | held l body k => exact h.elim

/-! ## One step of a thread -/

theorem Step.live (hstep : Step M free p s p' s') (h : p.Live D hs) : p'.Live D hs := by
  induction hstep generalizing hs with
  | act => exact (h.2 _).live
  | enter => exact ⟨h.1, h.2.2⟩
  | machine _ => exact h
  | leave _ => exact h.2.live
  | acquire _ => exact ⟨h.2.1.live, h.2.2⟩
  | inside _ ih => exact ⟨ih h.1, h.2⟩
  | release => exact (h.2 _).live

/-- A step takes at most a free lock. -/
theorem Step.locks (hstep : Step M free p s p' s') (h : p.Live D hs) :
    ∀ l ∈ p'.locks, l ∈ p.locks ∨ free l := by
  induction hstep generalizing hs with
  | act | release =>
      intro l hl
      rw [(h.2 _).locks_eq_nil] at hl
      cases hl
  | enter | machine _ =>
      intro l hl
      cases hl
  | leave _ =>
      intro l hl
      rw [h.2.locks_eq_nil] at hl
      cases hl
  | acquire hfree =>
      intro l hl
      rw [Prog.locks, h.2.1.locks_eq_nil, List.mem_singleton] at hl
      exact .inr (hl ▸ hfree)
  | inside _ ih =>
      intro l hl
      rcases List.mem_cons.mp hl with rfl | hl
      · exact .inl List.mem_cons_self
      · exact (ih h.1 l hl).imp_left (List.mem_cons_of_mem _)

/-- What a step does to the shared state and to the thread's machine: an action runs no
machine; a machine takes its own step; any other step changes nothing, and a machine that is
running after it either was running before or has just been called. -/
theorem Step.effect (hstep : Step M free p s p' s') (h : p.Live D hs) :
    (D.frame s s' ∧ p'.active = none) ∨
      (∃ m m', p.active = some m ∧ p'.active = some m' ∧ M.step m s = some (m', s')) ∨
      (s' = s ∧ ∀ m, p'.active = some m → D.fresh m) := by
  induction hstep generalizing hs with
  | act => exact .inl ⟨h.1 _, (h.2 _).active_eq_none⟩
  | enter => exact .inr (.inr ⟨rfl, fun m hm => Option.some.inj hm ▸ h.2.1⟩)
  | machine hm => exact .inr (.inl ⟨_, _, rfl, rfl, hm⟩)
  | leave _ => exact .inr (.inr ⟨rfl, fun m hm => by simp [h.2.active_eq_none] at hm⟩)
  | acquire _ =>
      exact .inr (.inr ⟨rfl, fun m hm => by simp [active, h.2.1.active_eq_none] at hm⟩)
  | inside _ ih => exact ih h.1
  | release => exact .inr (.inr ⟨rfl, fun m hm => by simp [(h.2 _).active_eq_none] at hm⟩)

end Prog

/-! ## Programs that call a machine once -/

namespace Prog

variable {Λ ι ρ σ : Type}

/-- The program calls no machine. -/
def Silent : Prog Λ ι ρ σ → Prop
  | .ret _ | .crash => True
  | .act _ k => ∀ s, (k s).Silent
  | .call _ _ | .running _ _ => False
  | .scope _ body k | .held _ body k => body.Silent ∧ ∀ r, (k r).Silent

/-- The program has still to call a machine, one of `P`, and calls no other after it. It returns
without the call only with a result of `R`. -/
def CallsOnce (P : ι → Prop) (R : ρ → Prop) : Prog Λ ι ρ σ → Prop
  | .ret r => R r
  | .crash => True
  | .act _ k => ∀ s, (k s).CallsOnce P R
  | .call m k => P m ∧ k.Silent
  | .running _ _ => False
  | .scope _ body k | .held _ body k =>
      body.Silent ∧ (∀ r, (k r).CallsOnce P R) ∨
        body.CallsOnce P R ∧ ∀ r, (k r).Silent ∧ (R r → (k r).CallsOnce P R)

/-- The program runs a machine and calls no other after it. -/
def InCall : Prog Λ ι ρ σ → Prop
  | .running _ k => k.Silent
  | .held _ body k => body.InCall ∧ ∀ r, (k r).Silent
  | .ret _ | .crash | .act _ _ | .call _ _ | .scope _ _ _ => False

variable {P : ι → Prop} {R : ρ → Prop} {M : Machine ι σ} {free : Λ → Prop}
  {p p' : Prog Λ ι ρ σ} {s s' : σ}

theorem Silent.active_eq_none (h : p.Silent) : p.active = none := by
  induction p with
  | held l body k ih => exact ih h.1
  | running m k => exact h.elim
  | ret r | crash | act f k | call m k | scope l body k => rfl

theorem CallsOnce.active_eq_none (h : p.CallsOnce P R) : p.active = none := by
  induction p with
  | held l body k ih =>
      rcases h with ⟨hb, -⟩ | ⟨hb, -⟩
      · exact hb.active_eq_none
      · exact ih hb
  | running m k => exact h.elim
  | ret r | crash | act f k | call m k | scope l body k => rfl

theorem Step.silent (hstep : Step M free p s p' s') (h : p.Silent) : p'.Silent := by
  induction hstep with
  | act => exact h _
  | enter | machine _ | leave _ => exact h.elim
  | acquire _ => exact h
  | inside _ ih => exact ⟨ih h.1, h.2⟩
  | release => exact h.2 _

/-- A program in its call takes a step of the machine, or the machine has ended and it goes on. -/
theorem Step.inCall (hstep : Step M free p s p' s') (h : p.InCall) :
    (∃ m m', p.active = some m ∧ p'.active = some m' ∧ M.step m s = some (m', s') ∧ p'.InCall) ∨
      ∃ m, p.active = some m ∧ M.ended m ∧ s' = s ∧ p'.Silent := by
  induction hstep with
  | act | enter | acquire _ => exact h.elim
  | release => exact h.1.elim
  | machine hm => exact .inl ⟨_, _, rfl, rfl, hm, h⟩
  | leave hm => exact .inr ⟨_, rfl, hm, rfl, h⟩
  | inside _ ih =>
      rcases ih h.1 with ⟨m, m', hm, hm', hstep, hc⟩ | ⟨m, hm, hend, hs, hsilent⟩
      · exact .inl ⟨m, m', hm, hm', hstep, hc, h.2⟩
      · exact .inr ⟨m, hm, hend, hs, hsilent, h.2⟩

/-- A program that has its call before it still has, or has just made it. -/
theorem Step.callsOnce (hstep : Step M free p s p' s') (h : p.CallsOnce P R) :
    p'.CallsOnce P R ∨ ∃ m, P m ∧ p'.active = some m ∧ p'.InCall := by
  induction hstep with
  | act => exact .inl (h _)
  | enter => exact .inr ⟨_, h.1, rfl, h.2⟩
  | machine _ | leave _ => exact h.elim
  | acquire _ => exact .inl h
  | inside hstep ih =>
      rcases h with ⟨hb, hk⟩ | ⟨hb, hk⟩
      · exact .inl (.inl ⟨hstep.silent hb, hk⟩)
      · rcases ih hb with hb' | ⟨m, hm, ha, hc⟩
        · exact .inl (.inr ⟨hb', hk⟩)
        · exact .inr ⟨m, hm, ha, hc, fun r => (hk r).1⟩
  | release =>
      rcases h with ⟨-, hk⟩ | ⟨hb, hk⟩
      · exact .inl (hk _)
      · exact .inl ((hk _).2 hb)

end Prog

/-! ## Threads -/

/-- The threads and the state they share. -/
structure Threads (τ Λ ι ρ σ : Type) where
  prog : τ → Prog Λ ι ρ σ
  shared : σ

/-- Who moves: a thread begins an operation, a thread takes a step, or the environment does. -/
inductive Move (τ : Type) where
  | start (t : τ)
  | thread (t : τ)
  | environment

section Move

variable {τ : Type} [DecidableEq τ] {t : τ} {m : Move τ}

def Move.isThread (t : τ) : Move τ → Bool
  | .thread u => u = t
  | .start _ | .environment => false

@[simp] theorem Move.isThread_thread : (Move.thread t).isThread t = true := by simp [isThread]

theorem Move.isThread_of_ne (h : m ≠ .thread t) : m.isThread t = false := by
  cases m with
  | thread u => simpa [isThread] using h
  | start u | environment => rfl

end Move

namespace Threads

variable {τ Λ ι ρ σ : Type} {D : Discipline Λ ι σ} {S : Threads τ Λ ι ρ σ}

/-- No thread but `t` holds the lock. -/
def Free (S : Threads τ Λ ι ρ σ) (t : τ) (l : Λ) : Prop := ∀ u, u ≠ t → l ∉ (S.prog u).locks

/-- Every thread's rest obeys the discipline, and no lock has two holders. -/
structure Orderly (D : Discipline Λ ι σ) (S : Threads τ Λ ι ρ σ) : Prop where
  live : ∀ t, (S.prog t).Live D []
  exclusive : ∀ t u, t ≠ u → ∀ l ∈ (S.prog t).locks, l ∉ (S.prog u).locks

/-- Thread `t` waits for a lock that another thread `u` holds. -/
def WaitsFor (S : Threads τ Λ ι ρ σ) (t u : τ) : Prop :=
  t ≠ u ∧ ∃ l, (S.prog t).wanted = some l ∧ l ∈ (S.prog u).locks

/-! ## Orderly threads -/

/-- Machines do not overlap. -/
theorem Orderly.active_unique {t u : τ} {m m' : ι} (h : Orderly D S)
    (ht : (S.prog t).active = some m) (hu : (S.prog u).active = some m') : t = u := by
  by_contra hne
  have hgt := ((h.live t).guard_of_active ht).resolve_right List.not_mem_nil
  have hgu := ((h.live u).guard_of_active hu).resolve_right List.not_mem_nil
  exact h.exclusive t u hne _ hgt hgu

/-- A thread that waits for another one holds only locks below the one it wants. -/
theorem Orderly.lt_of_waitsFor {t u : τ} (h : Orderly D S) (hw : WaitsFor S t u) :
    ∃ l, (S.prog t).wanted = some l ∧ l ∈ (S.prog u).locks ∧
      ∀ l' ∈ (S.prog t).locks, D.lt l' l := by
  obtain ⟨hne, l, hl, hu⟩ := hw
  refine ⟨l, hl, hu, ?_⟩
  rcases (h.live t).of_wanted hl with (hown | hnil) | ⟨hlt, -⟩
  · exact absurd hu (h.exclusive t u hne l hown)
  · cases hnil
  · exact hlt

/-- Along a chain of waiting threads the wanted locks grow. -/
theorem Orderly.lt_of_chain [IsTrans Λ D.lt] {t u : τ} (h : Orderly D S)
    (hw : Relation.TransGen (WaitsFor S) t u) :
    ∃ l l', l' ∈ (S.prog u).locks ∧ (l = l' ∨ D.lt l l') ∧
      ∀ k ∈ (S.prog t).locks, D.lt k l := by
  induction hw with
  | single hw =>
      obtain ⟨l, -, hu, hlt⟩ := h.lt_of_waitsFor hw
      exact ⟨l, l, hu, .inl rfl, hlt⟩
  | tail _ hw ih =>
      obtain ⟨l, l', hl', hle, hlt⟩ := ih
      obtain ⟨k, -, hk, hklt⟩ := h.lt_of_waitsFor hw
      refine ⟨l, k, hk, .inr ?_, hlt⟩
      rcases hle with rfl | hle
      · exact hklt l hl'
      · exact IsTrans.trans _ _ _ hle (hklt l' hl')

/-- When locks are taken in a strict order, no thread waits, through others, for itself. -/
theorem Orderly.no_wait_cycle [IsStrictOrder Λ D.lt] (h : Orderly D S) (t : τ) :
    ¬ Relation.TransGen (WaitsFor S) t t := by
  intro hcycle
  obtain ⟨l, l', hl', hle, hlt⟩ := h.lt_of_chain hcycle
  rcases hle with rfl | hle
  · exact irrefl l (hlt l hl')
  · exact irrefl l (IsTrans.trans _ _ _ hle (hlt l' hl'))

/-! ## Steps -/

section Steps

variable [DecidableEq τ]

inductive Step (M : Machine ι σ) (operation : Prog Λ ι ρ σ → Prop) (env : σ → σ → Prop)
    (S : Threads τ Λ ι ρ σ) : Move τ → Threads τ Λ ι ρ σ → Prop where
  | start {t r p} (idle : S.prog t = .ret r) (hp : operation p) :
      Step M operation env S (.start t) { S with prog := Function.update S.prog t p }
  | thread {t p s} (h : Prog.Step M (S.Free t) (S.prog t) S.shared p s) :
      Step M operation env S (.thread t) ⟨Function.update S.prog t p, s⟩
  | environment {s} (h : env S.shared s) :
      Step M operation env S .environment { S with shared := s }

/-- All threads are idle at first. -/
def system (M : Machine ι σ) (operation : Prog Λ ι ρ σ → Prop) (env : σ → σ → Prop)
    (init : σ → Prop) : System (Threads τ Λ ι ρ σ) (Move τ) where
  init S := (∀ t, ∃ r, S.prog t = .ret r) ∧ init S.shared
  step := Step M operation env

variable {M : Machine ι σ} {operation : Prog Λ ι ρ σ → Prop} {env : σ → σ → Prop}
  {init : σ → Prop}

/-- What a move that begins no operation of thread `t` is to `t`. -/
theorem Step.thread_cases {S' : Threads τ Λ ι ρ σ} {m : Move τ} {t : τ}
    (h : Step M operation env S m S') (hm : m ≠ .start t) :
    (m = .thread t ∧ Prog.Step M (S.Free t) (S.prog t) S.shared (S'.prog t) S'.shared) ∨
      m ≠ .thread t ∧ S'.prog t = S.prog t := by
  cases h with
  | @start u r p idle hp =>
      have hne : t ≠ u := fun heq => hm (heq ▸ rfl)
      exact .inr ⟨by simp, Function.update_of_ne hne _ _⟩
  | @thread u p s hstep =>
      by_cases hu : t = u
      · subst hu
        exact .inl ⟨rfl, by simpa using hstep⟩
      · refine .inr ⟨fun heq => hu ?_, Function.update_of_ne hu _ _⟩
        cases heq
        rfl
  | environment henv => exact .inr ⟨by simp, rfl⟩

/-- In a run that changes what is left of a thread's program, the thread takes a first step. -/
theorem first_step {S T : Threads τ Λ ι ρ σ} {steps : List (Threads τ Λ ι ρ σ × Move τ)} {t : τ}
    (hrun : (system M operation env init).Run S steps T)
    (hstart : ∀ x ∈ steps, x.2 ≠ .start t) (hne : T.prog t ≠ S.prog t) :
    ∃ pre post U V, steps = pre ++ (U, .thread t) :: post ∧
      (system M operation env init).Run S pre U ∧
      (system M operation env init).step U (.thread t) V ∧
      (system M operation env init).Run V post T ∧ U.prog t = S.prog t ∧
      ∀ x ∈ pre, x.2 ≠ .thread t := by
  induction hrun with
  | nil S => exact absurd rfl hne
  | @cons S m S' steps T hs hrun ih =>
      obtain ⟨hm, hrest⟩ := List.forall_mem_cons.mp hstart
      rcases hs.thread_cases hm with ⟨rfl, -⟩ | ⟨hother, hprog⟩
      · exact ⟨[], steps, S, S', rfl, .nil S, hs, hrun, rfl, by simp⟩
      · obtain ⟨pre, post, U, V, rfl, hpre, hstep, hpost, hU, hquiet⟩ := ih hrest (hprog ▸ hne)
        exact ⟨(S, m) :: pre, post, U, V, rfl, .cons hs hpre, hstep, hpost, hU.trans hprog,
          List.forall_mem_cons.mpr ⟨hother, hquiet⟩⟩

/-- Replacing one thread's program keeps the threads orderly when the new one is live and
holds, beyond the old one's locks, only free ones. -/
theorem Orderly.update {t : τ} {p : Prog Λ ι ρ σ} {s : σ} (h : Orderly D S)
    (hp : p.Live D []) (hl : ∀ l ∈ p.locks, l ∈ (S.prog t).locks ∨ S.Free t l) :
    Orderly D ⟨Function.update S.prog t p, s⟩ := by
  have hother : ∀ u, u ≠ t → ∀ l ∈ p.locks, l ∉ (S.prog u).locks := by
    intro u hu l hlp
    rcases hl l hlp with hold | hfree
    · exact h.exclusive t u hu.symm l hold
    · exact hfree u hu
  constructor
  · intro u
    by_cases hu : u = t
    · subst hu
      simpa using hp
    · simpa [hu] using h.live u
  · intro u v huv l hlu hlv
    by_cases hu : u = t
    · subst hu
      have hv : v ≠ u := fun hv => huv hv.symm
      simp only [Function.update_self, Function.update_of_ne hv] at hlu hlv
      exact hother v hv l hlu hlv
    · by_cases hv : v = t
      · subst hv
        simp only [Function.update_self, Function.update_of_ne hu] at hlu hlv
        exact hother u hu l hlv hlu
      · simp only [Function.update_of_ne hu, Function.update_of_ne hv] at hlu hlv
        exact h.exclusive u v huv l hlu hlv

theorem orderly_of_reachable (hop : ∀ p, operation p → p.Obeys D [])
    (h : (system M operation env init).Reachable S) : Orderly D S := by
  refine h.invariant ?_ ?_
  · rintro S ⟨hidle, -⟩
    constructor
    · intro t
      obtain ⟨r, hr⟩ := hidle t
      rw [hr]
      trivial
    · intro t u _ l hl
      obtain ⟨r, hr⟩ := hidle t
      rw [hr] at hl
      cases hl
  · rintro S move S' hS - hstep
    cases hstep with
    | start _ hp =>
        refine hS.update (hop _ hp).live fun l hl => ?_
        rw [(hop _ hp).locks_eq_nil] at hl
        cases hl
    | thread hstep => exact hS.update (hstep.live (hS.live _)) (hstep.locks (hS.live _))
    | environment _ => exact ⟨hS.live, hS.exclusive⟩

/-- What holds of every machine as it is called, and what the steps of the machine, the
actions of other threads and the environment preserve, holds of every running machine. -/
theorem active_invariant {J : ι → σ → Prop} (hop : ∀ p, operation p → p.Obeys D [])
    (hfresh : ∀ m s, D.fresh m → J m s)
    (hframe : ∀ m s s', J m s → D.frame s s' → J m s')
    (henv : ∀ m s s', J m s → env s s' → J m s')
    (hmachine : ∀ m s m' s', J m s → M.step m s = some (m', s') → J m' s')
    (h : (system M operation env init).Reachable S) :
    ∀ t m, (S.prog t).active = some m → J m S.shared := by
  refine h.invariant_of (I := fun S => ∀ t m, (S.prog t).active = some m → J m S.shared)
    (fun S hS => orderly_of_reachable hop hS) ?_ ?_
  · rintro S ⟨hidle, -⟩ t m hm
    obtain ⟨r, hr⟩ := hidle t
    rw [hr] at hm
    cases hm
  · rintro S move S' hS hS' hJ - hstep u m hm
    cases hstep with
    | @start t r p idle hp =>
        by_cases hu : u = t
        · subst hu
          simp [(hop _ hp).active_eq_none] at hm
        · exact hJ u m (by simpa [hu] using hm)
    | @thread t p s hstep =>
        rcases hstep.effect (hS.live t) with ⟨hf, hnone⟩ | ⟨a, a', ha, ha', hstep⟩ | ⟨rfl, hnew⟩
        · by_cases hu : u = t
          · subst hu
            simp [hnone] at hm
          · exact hframe m _ _ (hJ u m (by simpa [hu] using hm)) hf
        · have hta : (Function.update S.prog t p t).active = some a' := by simpa using ha'
          obtain rfl := hS'.active_unique hta hm
          obtain rfl := Option.some.inj (hta.symm.trans hm)
          exact hmachine a _ _ _ (hJ _ a ha) hstep
        · by_cases hu : u = t
          · subst hu
            exact hfresh m _ (hnew m (by simpa using hm))
          · exact hJ u m (by simpa [hu] using hm)
    | environment henv' => exact henv m _ _ (hJ u m hm) henv'

end Steps

end Threads

/-! ## Executing one thread -/

namespace Prog

variable {Λ ι ρ σ : Type} (M : Machine ι σ) [DecidablePred M.ended]

def result? : Prog Λ ι ρ σ → Option ρ
  | .ret r => some r
  | _ => none

omit M in
theorem eq_ret_of_result? {p : Prog Λ ι ρ σ} {r : ρ} (h : p.result? = some r) : p = .ret r := by
  cases p with
  | ret r' =>
      cases h
      rfl
  | crash | act f k | call m k | running m k | scope l body k | held l body k => cases h

/-- The step of a thread that finds every lock free. -/
def advance : Prog Λ ι ρ σ → σ → Option (Prog Λ ι ρ σ × σ)
  | .ret _, _ | .crash, _ => none
  | .act f k, s => some (k s, f s)
  | .call m k, s => some (.running m k, s)
  | .running m k, s =>
      match M.step m s with
      | some (m', s') => some (.running m' k, s')
      | none => if M.ended m then some (k, s) else none
  | .scope l body k, s => some (.held l body k, s)
  | .held l body k, s =>
      match body.advance s with
      | some (body', s') => some (.held l body' k, s')
      | none => body.result?.map fun r => (k r, s)

/-- As many steps, each from a state that meets the guard. -/
def advances (guard : σ → Bool) : ℕ → Prog Λ ι ρ σ → σ → Option (Prog Λ ι ρ σ × σ)
  | 0, p, s => some (p, s)
  | n + 1, p, s => if guard s then (p.advance M s).bind fun x => advances guard n x.1 x.2 else none

variable {M} {p p' : Prog Λ ι ρ σ} {s s' : σ} {free : Λ → Prop}

theorem Step.of_advance (hfree : ∀ l, free l) (h : p.advance M s = some (p', s')) :
    Step M free p s p' s' := by
  induction p generalizing p' s' with
  | ret r | crash => cases h
  | act f k =>
      cases h
      exact .act
  | call m k =>
      cases h
      exact .enter
  | running m k =>
      simp only [advance] at h
      split at h
      · next hstep =>
          cases h
          exact .machine hstep
      · split at h
        · next hend =>
            cases h
            exact .leave hend
        · cases h
  | scope l body k =>
      cases h
      exact .acquire (hfree l)
  | held l body k ih =>
      simp only [advance] at h
      split at h
      · next hbody =>
          cases h
          exact .inside (ih hbody)
      · obtain ⟨r, hr, heq⟩ := Option.map_eq_some_iff.mp h
        cases heq
        rw [eq_ret_of_result? hr]
        exact .release

end Prog

/-- While the other threads hold no locks, a thread that can be executed can run. -/
theorem Threads.exists_run_of_advances {τ Λ ι ρ σ : Type} [DecidableEq τ] {M : Machine ι σ}
    [DecidablePred M.ended] {operation : Prog Λ ι ρ σ → Prop} {env : σ → σ → Prop}
    {init : σ → Prop} {guard : σ → Bool} {t : τ} {n : ℕ} {S : Threads τ Λ ι ρ σ}
    {p : Prog Λ ι ρ σ} {s : σ} (hfree : ∀ l, S.Free t l)
    (h : Prog.advances M guard n (S.prog t) S.shared = some (p, s)) :
    ∃ steps, (system M operation env init).Run S steps ⟨Function.update S.prog t p, s⟩ ∧
      ∀ x ∈ steps, x.2 = .thread t ∧ guard x.1.shared = true := by
  induction n generalizing S with
  | zero =>
      cases h
      exact ⟨[], by simpa using System.Run.nil S, by simp⟩
  | succ n ih =>
      simp only [Prog.advances] at h
      split at h
      · next hguard =>
          obtain ⟨⟨q, s'⟩, hq, hrest⟩ := Option.bind_eq_some_iff.mp h
          have hstep : Step M operation env S (.thread t) ⟨Function.update S.prog t q, s'⟩ :=
            .thread (Prog.Step.of_advance hfree hq)
          obtain ⟨steps, hrun, hsteps⟩ := ih (S := ⟨Function.update S.prog t q, s'⟩)
            (fun l u hu => by simpa [hu] using hfree l u hu) (by simpa using hrest)
          refine ⟨(S, .thread t) :: steps, .cons hstep ?_,
            List.forall_mem_cons.mpr ⟨⟨rfl, hguard⟩, hsteps⟩⟩
          simpa using hrun
      · cases h

end OpenALRenderer.Foundation
