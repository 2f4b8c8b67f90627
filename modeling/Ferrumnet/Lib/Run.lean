import Mathlib.Tactic

/-
  Runs of a machine given by an executable partial step — `step s a` is the
  state that action `a` leads to, `none` if it is not enabled in `s`.

  1. `run_invariant` — what holds at the start and is kept by every step holds
     at the end of every run.
  2. `run_invariant_along` — the same, when every step of the run also meets a
     condition on the state before it and the action.
  3. `run_simulates` — a relation between two machines that every step keeps holds
     at the end of every run.
  4. `exists_iterate` — a machine left to itself gets where a measure drives it.
-/

namespace Run

variable {σ α : Type*} (step : σ → α → Option σ)

/-- The state at the end of a run, `none` if a step was not enabled. -/
def run : σ → List α → Option σ
  | s, [] => some s
  | s, a :: as =>
    match step s a with
    | some s' => run s' as
    | none => none

/-- Every step of the run meets `C`, a condition on the state before it. -/
def Along (C : σ → α → Prop) : σ → List α → Prop
  | _, [] => True
  | s, a :: as => C s a ∧ ∀ s', step s a = some s' → Along C s' as

variable {step}

/-- Along a run that can be evaluated, a decidable condition can be. -/
instance decidableAlong {C : σ → α → Prop} [∀ s a, Decidable (C s a)] :
    ∀ s as, Decidable (Along step C s as)
  | _, [] => isTrue trivial
  | s, a :: as =>
    match h : step s a with
    | some s' =>
      have : Decidable (Along step C s' as) := decidableAlong s' as
      decidable_of_iff (C s a ∧ Along step C s' as) (by simp [Along, h])
    | none => decidable_of_iff (C s a) (by simp [Along, h])

@[simp] theorem run_nil (s : σ) : run step s [] = some s := rfl

theorem run_cons {s t : σ} {a : α} {as : List α} :
    run step s (a :: as) = some t ↔ ∃ s', step s a = some s' ∧ run step s' as = some t := by
  simp only [run]
  split
  · rename_i s' h
    simp [h]
  · rename_i h
    simp [h]

theorem run_append {s t : σ} {as bs : List α} :
    run step s (as ++ bs) = some t ↔ ∃ u, run step s as = some u ∧ run step u bs = some t := by
  induction as generalizing s with
  | nil => simp
  | cons a as ih =>
    simp only [List.cons_append, run_cons, ih]
    constructor
    · rintro ⟨s', h1, u, h2, h3⟩
      exact ⟨u, ⟨s', h1, h2⟩, h3⟩
    · rintro ⟨u, ⟨s', h1, h2⟩, h3⟩
      exact ⟨s', h1, u, h2, h3⟩

/-- A condition along a run is one along its first part and along the rest. -/
theorem along_append {C : σ → α → Prop} {s : σ} {as bs : List α} :
    Along step C s (as ++ bs) ↔
      Along step C s as ∧ ∀ t, run step s as = some t → Along step C t bs := by
  induction as generalizing s with
  | nil => simp [Along]
  | cons a as ih =>
    simp only [List.cons_append, Along, ih, run_cons]
    constructor
    · rintro ⟨h1, h2⟩
      refine ⟨⟨h1, fun s' hs => (h2 s' hs).1⟩, fun t ht => ?_⟩
      obtain ⟨s', hs, ht⟩ := ht
      exact (h2 s' hs).2 t ht
    · rintro ⟨⟨h1, h2⟩, h3⟩
      exact ⟨h1, fun s' hs => ⟨h2 s' hs, fun t ht => h3 t ⟨s', hs, ht⟩⟩⟩

/-- A condition on the actions alone. -/
theorem along_of_forall {C : α → Prop} {as : List α} (h : ∀ a ∈ as, C a) (s : σ) :
    Along step (fun _ a => C a) s as := by
  induction as generalizing s with
  | nil => trivial
  | cons a as ih =>
    exact ⟨h a List.mem_cons_self, fun s' _ => ih (fun b hb => h b (List.mem_cons_of_mem a hb)) s'⟩

/-- Two conditions along one run. -/
theorem along_and {C D : σ → α → Prop} {s : σ} {as : List α} (hc : Along step C s as)
    (hd : Along step D s as) : Along step (fun s a => C s a ∧ D s a) s as := by
  induction as generalizing s with
  | nil => trivial
  | cons a as ih => exact ⟨⟨hc.1, hd.1⟩, fun s' hs => ih (hc.2 s' hs) (hd.2 s' hs)⟩

/-- A weaker condition along the same run. -/
theorem along_mono {C D : σ → α → Prop} (h : ∀ s a, C s a → D s a) {s : σ} {as : List α}
    (hc : Along step C s as) : Along step D s as := by
  induction as generalizing s with
  | nil => trivial
  | cons a as ih => exact ⟨h s a hc.1, fun s' hs => ih (hc.2 s' hs)⟩

/-- A run that can be evaluated, with a check on the state it ends in. -/
theorem exists_run (step : σ → α → Option σ) (s : σ) (as : List α) (P : σ → Prop) [DecidablePred P]
    (h : (run step s as).any (fun t => decide (P t)) = true) : ∃ t, run step s as = some t ∧ P t := by
  obtain ⟨t, ht, hp⟩ := (Option.any_eq_true _ _).mp h
  exact ⟨t, ht, of_decide_eq_true hp⟩

/-- A run that is found step by step, with a condition along it. -/
theorem exists_cons {C : σ → α → Prop} {P : σ → Prop} {s s' : σ} {a : α} {as : List α}
    (hstep : step s a = some s') (hc : C s a)
    (h : ∃ t, run step s' as = some t ∧ Along step C s' as ∧ P t) :
    ∃ t, run step s (a :: as) = some t ∧ Along step C s (a :: as) ∧ P t := by
  obtain ⟨t, hrun, halong, ht⟩ := h
  refine ⟨t, run_cons.mpr ⟨s', hstep, hrun⟩, ⟨hc, fun u hu => ?_⟩, ht⟩
  rw [hstep] at hu
  cases hu
  exact halong

/-- What every step keeps, every run keeps, if each step meets the condition. -/
theorem run_invariant_along {I : σ → Prop} {C : σ → α → Prop}
    (hstep : ∀ s a s', I s → C s a → step s a = some s' → I s') {s t : σ} {as : List α} (hs : I s)
    (hc : Along step C s as) (h : run step s as = some t) : I t := by
  induction as generalizing s with
  | nil => cases h; exact hs
  | cons a as ih =>
    obtain ⟨s', h1, h2⟩ := run_cons.mp h
    exact ih (hstep s a s' hs hc.1 h1) (hc.2 s' h1) h2

/-- What every step keeps, every run keeps. -/
theorem run_invariant {I : σ → Prop} (hstep : ∀ s a s', I s → step s a = some s' → I s')
    {s t : σ} {as : List α} (hs : I s) (h : run step s as = some t) : I t := by
  induction as generalizing s with
  | nil => cases h; exact hs
  | cons a as ih =>
    obtain ⟨s', h1, h2⟩ := run_cons.mp h
    exact ih (hstep s a s' hs h1) h2

/-- A condition that follows from another, under an invariant that the other keeps. -/
theorem along_imp {I : σ → Prop} {C D : σ → α → Prop}
    (hstep : ∀ s a s', I s → C s a → step s a = some s' → I s') (h : ∀ s a, I s → C s a → D s a)
    {s : σ} (hs : I s) {as : List α} (hc : Along step C s as) : Along step D s as := by
  induction as generalizing s with
  | nil => trivial
  | cons a as ih => exact ⟨h s a hs hc.1, fun s' he => ih (hstep s a s' hs hc.1 he) (hc.2 s' he)⟩

/-- Two conditions that agree wherever an invariant holds hold along the same runs. The
invariant need only be kept by the steps that meet them. -/
theorem along_iff_along {I : σ → Prop} {C D : σ → α → Prop}
    (hstep : ∀ s a s', I s → D s a → step s a = some s' → I s') (h : ∀ s a, I s → (C s a ↔ D s a))
    {s : σ} (hs : I s) (as : List α) : Along step C s as ↔ Along step D s as := by
  induction as generalizing s with
  | nil => exact Iff.rfl
  | cons a as ih =>
    constructor
    · intro hc
      have hd := (h s a hs).mp hc.1
      exact ⟨hd, fun s' he => (ih (hstep s a s' hs hd he)).mp (hc.2 s' he)⟩
    · intro hd
      exact ⟨(h s a hs).mpr hd.1, fun s' he => (ih (hstep s a s' hs hd.1 he)).mpr (hd.2 s' he)⟩

/-- With an invariant that every step keeps. -/
theorem along_iff {I : σ → Prop} {C D : σ → α → Prop}
    (hstep : ∀ s a s', I s → step s a = some s' → I s') (h : ∀ s a, I s → (C s a ↔ D s a))
    {s : σ} (hs : I s) (as : List α) : Along step C s as ↔ Along step D s as :=
  along_iff_along (fun s a s' hi _ he => hstep s a s' hi he) h hs as

/-! ## Two machines in step -/

/-- A relation that every step keeps, every run keeps; the second machine takes the actions
that `f` makes of those of the first. -/
theorem run_simulates {τ β : Type*} {next : τ → β → Option τ} {R : σ → τ → Prop} {f : α → β}
    (hstep : ∀ s t a s', R s t → step s a = some s' → ∃ t', next t (f a) = some t' ∧ R s' t') {s s' : σ} {t : τ}
    {as : List α} (h : R s t) (hr : run step s as = some s') : ∃ t', run next t (as.map f) = some t' ∧ R s' t' := by
  induction as generalizing s t with
  | nil =>
    cases hr
    exact ⟨t, rfl, h⟩
  | cons a as ih =>
    obtain ⟨u, hs, hr⟩ := run_cons.mp hr
    obtain ⟨u', hs', h'⟩ := hstep s t a u h hs
    obtain ⟨t', hr', ht⟩ := ih h' hr
    exact ⟨t', run_cons.mpr ⟨u', hs', hr'⟩, ht⟩

/-! ## A machine left to itself -/

/-- A measure that every turn lowers until the goal is reached bounds the turns to it. -/
theorem exists_iterate {f : σ → σ} {I G : σ → Prop} (μ : σ → ℕ)
    (hturn : ∀ s, I s → G (f s) ∨ I (f s) ∧ μ (f s) < μ s) {s : σ} (hs : I s) : ∃ n, G (f^[n] s) := by
  -- induction on the measure, over every state that has it
  induction h : μ s using Nat.strong_induction_on generalizing s with
  | _ m ih =>
    rcases hturn s hs with hg | ⟨hi, hlt⟩
    · exact ⟨1, hg⟩
    · obtain ⟨n, hn⟩ := ih (μ (f s)) (by omega) hi rfl
      exact ⟨n + 1, hn⟩

end Run
