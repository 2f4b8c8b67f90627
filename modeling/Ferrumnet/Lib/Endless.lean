import Mathlib.Order.WellFounded
import Mathlib.Order.Monotone.Basic
import Mathlib.Data.Prod.Lex
import Mathlib.Tactic.Push

/-
  Endless runs of a machine.

  A measure in a well-founded order that never rises comes to rest. What is spent only
  while the measure falls is then spent finitely often, even if something else may lift
  the measure, as long as that happens finitely often.

  1. `spent_bounded` — what lifts the measure bounds what is spent.
  2. `rank_le`, `rank_lt` — such a measure out of three counts.
  3. `exists_trail` — a run that can always be carried on can be carried on for ever.
-/

namespace Endless

/-- A sequence has a least value. -/
theorem exists_least {α : Type*} [LinearOrder α] [WellFoundedLT α] (m : ℕ → α) : ∃ n, ∀ k, m n ≤ m k := by
  obtain ⟨x, ⟨n, rfl⟩, hleast⟩ := WellFounded.has_min (wellFounded_lt (α := α)) (Set.range m) ⟨m 0, 0, rfl⟩
  exact ⟨n, fun k => not_lt.mp (hleast (m k) ⟨k, rfl⟩)⟩

variable {α : Type*} [LinearOrder α] [WellFoundedLT α] {m : ℕ → α} {spent lifted : ℕ → ℕ}

/-- Where nothing lifts the measure it does not rise, and it falls whenever something is spent. -/
theorem spent_bounded (hspent : Monotone spent) (hlifted : Monotone lifted)
    (h : ∀ n, lifted (n + 1) = lifted n → m (n + 1) ≤ m n ∧ (spent (n + 1) ≠ spent n → m (n + 1) < m n))
    (hbound : ∃ M, ∀ n, lifted n ≤ M) : ∃ N, ∀ n, spent n ≤ N := by
  obtain ⟨M, hM⟩ := hbound
  -- from `a` on nothing is lifted, and from `a + b` on the measure is at its least
  obtain ⟨a, ha⟩ := exists_least fun n => M - lifted n
  have hstill : ∀ n, a ≤ n → lifted (n + 1) = lifted n := by
    intro n hn
    have h1 := hlifted hn
    have h2 := hlifted (Nat.le_add_right n 1)
    have h3 : M - lifted a ≤ M - lifted (n + 1) := ha (n + 1)
    have h4 := hM (n + 1)
    have h5 := hM a
    omega
  obtain ⟨b, hb⟩ := exists_least fun n => m (a + n)
  have hrest : ∀ k, m (a + b + k) = m (a + b) ∧ spent (a + b + k) = spent (a + b) := by
    intro k
    induction k with
    | zero => exact ⟨rfl, rfl⟩
    | succ k ih =>
      obtain ⟨hle, hlt⟩ := h (a + b + k) (hstill _ (by omega))
      have hmin : m (a + b) ≤ m (a + b + k + 1) := by
        rw [Nat.add_assoc, Nat.add_assoc]
        exact hb (b + (k + 1))
      rw [ih.1] at hle hlt
      refine ⟨le_antisymm hle hmin, ?_⟩
      by_contra hne
      exact absurd (hlt fun he => hne (he.trans ih.2)) (not_lt.mpr hmin)
  refine ⟨spent (a + b), fun n => ?_⟩
  calc spent n ≤ spent (a + b + n) := hspent (Nat.le_add_left n (a + b))
    _ = spent (a + b) := (hrest n).2

/-- Three counts, of which each outweighs the next. -/
def rank (a b c : ℕ) : ℕ ×ₗ ℕ ×ₗ ℕ := toLex (a, toLex (b, c))

variable {a b c a' b' c' : ℕ}

theorem rank_le (h : a' < a ∨ a' ≤ a ∧ b' ≤ b ∧ c' ≤ c) : rank a' b' c' ≤ rank a b c := by
  rw [rank, rank, Prod.Lex.toLex_le_toLex, Prod.Lex.toLex_le_toLex]
  omega

theorem rank_lt (h : a' < a ∨ a' ≤ a ∧ (b' < b ∨ b' ≤ b ∧ c' < c)) : rank a' b' c' < rank a b c := by
  rw [rank, rank, Prod.Lex.toLex_lt_toLex, Prod.Lex.toLex_lt_toLex]
  omega

/-- What holds of the `n`-th state lets the machine take a step to a state that is as good an
`n + 1`-st. -/
theorem exists_trail {σ β : Type*} {step : σ → β → Option σ} {I : ℕ → σ → Prop}
    (h : ∀ n s, I n s → ∃ a s', step s a = some s' ∧ I (n + 1) s') {s : σ} (h0 : I 0 s) :
    ∃ trail : ℕ → σ, trail 0 = s ∧ ∀ n, I n (trail n) ∧ ∃ a, step (trail n) a = some (trail (n + 1)) := by
  have hnext : ∀ p : (n : ℕ) × { s : σ // I n s }, ∃ q : { s : σ // I (p.1 + 1) s },
      ∃ a, step p.2.1 a = some q.1 := by
    rintro ⟨n, s, hs⟩
    obtain ⟨a, s', he, hs'⟩ := h n s hs
    exact ⟨⟨s', hs'⟩, a, he⟩
  choose next hstep using hnext
  let good : (n : ℕ) → { s : σ // I n s } := fun n => n.rec ⟨s, h0⟩ fun n p => next ⟨n, p⟩
  exact ⟨fun n => (good n).1, rfl, fun n => ⟨(good n).2, hstep ⟨n, good n⟩⟩⟩

end Endless
