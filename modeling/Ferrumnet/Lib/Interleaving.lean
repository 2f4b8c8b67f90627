import Mathlib.Tactic

/-
  A thread beside an environment — before each step that the thread takes on what it
  shares with its environment, the environment takes any number of its own.

  The environment's steps and its answers are a parameter of the run, so that what is
  proved of every run holds whatever the environment does. Every step is logged with
  the state it starts from.

  1. `Triple` — a pre- and a postcondition, and what holds at every step on the way.
  2. `triple_act`, `triple_bind` — from a condition that the environment keeps.
-/

namespace Interleaving

/-- What the environment does before a step, and its answer to the step. -/
structure Turn (ε ρ : Type) where
  acts : List ε
  answer : ρ

/-- The state shared, the turns to come, and the steps taken. -/
structure World (σ ε ρ ω : Type) where
  state : σ
  turns : Nat → Turn ε ρ
  log : List (σ × ω)

abbrev Thread (σ ε ρ ω α : Type) := StateM (World σ ε ρ ω) α

variable {σ ε ρ ω α β : Type} (env : σ → ε → σ)

/-- A step of the thread: the environment's turn, and then `f` on what it leaves. -/
def act (o : ω) (f : ρ → σ → α × σ) : Thread σ ε ρ ω α := fun w =>
  let turn := w.turns 0
  let s := turn.acts.foldl env w.state
  let r := f turn.answer s
  (r.1, { state := r.2, turns := fun n => w.turns (n + 1), log := w.log ++ [(s, o)] })

/-- A step on what the environment cannot see. -/
def silent (f : σ → α × σ) : Thread σ ε ρ ω α := fun w =>
  let r := f w.state
  (r.1, { w with state := r.2 })

variable {env} {Safe : σ → ω → Prop} {P P' : σ → Prop} {Q Q' : α → σ → Prop} {R : β → σ → Prop}

/-- Started where `P` holds, the thread ends where `Q` does, and takes only safe steps. -/
def Triple (Safe : σ → ω → Prop) (P : σ → Prop) (m : Thread σ ε ρ ω α) (Q : α → σ → Prop) : Prop :=
  ∀ w : World σ ε ρ ω, P w.state → (∀ e ∈ w.log, Safe e.1 e.2) →
    Q (m w).1 (m w).2.state ∧ ∀ e ∈ (m w).2.log, Safe e.1 e.2

theorem triple_pure (a : α) (h : ∀ s, P s → Q a s) : Triple Safe P (pure a : Thread σ ε ρ ω α) Q :=
  fun w hw hlog => ⟨h w.state hw, hlog⟩

theorem triple_bind {m : Thread σ ε ρ ω α} {f : α → Thread σ ε ρ ω β} (hm : Triple Safe P m Q)
    (hf : ∀ a, Triple Safe (Q a) (f a) R) : Triple Safe P (m >>= f) R := by
  intro w hw hlog
  obtain ⟨hq, hlog'⟩ := hm w hw hlog
  exact hf _ _ hq hlog'

theorem Triple.mono {m : Thread σ ε ρ ω α} (hm : Triple Safe P m Q) (hP : ∀ s, P' s → P s)
    (hQ : ∀ a s, Q a s → Q' a s) : Triple Safe P' m Q' := by
  intro w hw hlog
  obtain ⟨hq, hlog'⟩ := hm w (hP _ hw) hlog
  exact ⟨hQ _ _ hq, hlog'⟩

/-- A condition that the environment's steps keep. -/
def Stable (env : σ → ε → σ) (P : σ → Prop) : Prop := ∀ s e, P s → P (env s e)

theorem Stable.foldl (h : Stable env P) {s : σ} (hs : P s) (es : List ε) : P (es.foldl env s) := by
  induction es generalizing s with
  | nil => exact hs
  | cons e es ih => exact ih (h s e hs)

theorem triple_act (o : ω) (f : ρ → σ → α × σ) (hstable : Stable env P) (hsafe : ∀ s, P s → Safe s o)
    (hstep : ∀ r s, P s → Q (f r s).1 (f r s).2) : Triple Safe P (act env o f) Q := by
  intro w hw hlog
  have hs := hstable.foldl hw (w.turns 0).acts
  refine ⟨hstep _ _ hs, fun e he => ?_⟩
  rcases List.mem_append.mp he with he | he
  · exact hlog e he
  · rw [List.mem_singleton.mp he]
    exact hsafe _ hs

theorem triple_silent (f : σ → α × σ) (hstep : ∀ s, P s → Q (f s).1 (f s).2) :
    Triple Safe P (silent f : Thread σ ε ρ ω α) Q :=
  fun _ hw hlog => ⟨hstep _ hw, hlog⟩

end Interleaving
