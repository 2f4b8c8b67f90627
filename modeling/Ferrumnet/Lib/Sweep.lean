import Mathlib.Algebra.BigOperators.Intervals
import Mathlib.Algebra.BigOperators.Ring.Finset
import Mathlib.Tactic.Ring

/-
  Walks through every sequence of actions up to a depth, in depth-first order.

  1. `walk_eq` — a walk that emits something for every action emits it for the visits in turn.
  2. `mem_visits`, `length_visits` — every sequence is visited, and how many there are.
  3. `find_visits` — the first visit that fails ends a sequence of which no shorter part fails.
-/

namespace Sweep

variable {σ α ρ : Type*} (actions : List α) (step : σ → α → σ)

/-- Every action in turn, and after each of them the walk of one depth less. -/
def walk (emit : ρ → σ → α → ρ) : Nat → σ → ρ → ρ
  | 0, _, r => r
  | depth + 1, s, r => actions.foldl (fun r a => walk emit depth (step s a) (emit r s a)) r

/-- The actions taken, each with the state before it. -/
def visits : Nat → σ → List (σ × α)
  | 0, _ => []
  | depth + 1, s => actions.flatMap fun a => (s, a) :: visits depth (step s a)

variable {actions step}

theorem walk_eq (emit : ρ → σ → α → ρ) (depth : Nat) (s : σ) (r : ρ) :
    walk actions step emit depth s r = (visits actions step depth s).foldl (fun r v => emit r v.1 v.2) r := by
  induction depth generalizing s r with
  | zero => rfl
  | succ depth ih =>
    rw [walk, visits, List.foldl_flatMap]
    congr 1
    funext r a
    rw [List.foldl_cons]
    exact ih (step s a) (emit r s a)

theorem mem_visits {depth : Nat} {s t : σ} {a : α} : (t, a) ∈ visits actions step depth s ↔
    ∃ w : List α, w.length < depth ∧ (∀ b ∈ w, b ∈ actions) ∧ a ∈ actions ∧ w.foldl step s = t := by
  induction depth generalizing s with
  | zero =>
    constructor
    · intro h
      cases h
    · rintro ⟨w, hlen, -⟩
      exact absurd hlen (Nat.not_lt_zero _)
  | succ depth ih =>
    rw [visits, List.mem_flatMap]
    constructor
    · rintro ⟨b, hb, h⟩
      cases List.mem_cons.mp h with
      | inl he =>
        cases he
        exact ⟨[], Nat.succ_pos _, fun c hc => absurd hc List.not_mem_nil, hb, rfl⟩
      | inr h =>
        obtain ⟨w, hlen, hw, ha, ht⟩ := ih.mp h
        exact ⟨b :: w, Nat.succ_lt_succ hlen, List.forall_mem_cons.mpr ⟨hb, hw⟩, ha, ht⟩
    · rintro ⟨w, hlen, hw, ha, ht⟩
      cases w with
      | nil =>
        cases ht
        exact ⟨a, ha, List.mem_cons_self⟩
      | cons b w =>
        obtain ⟨hb, hw⟩ := List.forall_mem_cons.mp hw
        have hmem : (t, a) ∈ visits actions step depth (step s b) :=
          ih.mpr ⟨w, Nat.lt_of_succ_lt_succ hlen, hw, ha, ht⟩
        exact ⟨b, hb, List.mem_cons_of_mem _ hmem⟩

/-- One visit for each sequence of at least one and at most `depth` actions. -/
theorem length_visits (depth : Nat) (s : σ) :
    (visits actions step depth s).length = ∑ k ∈ Finset.range depth, actions.length ^ (k + 1) := by
  induction depth generalizing s with
  | zero => rfl
  | succ depth ih =>
    have hconst : ∀ a ∈ actions, ((s, a) :: visits actions step depth (step s a)).length =
        (∑ k ∈ Finset.range depth, actions.length ^ (k + 1)) + 1 := by
      intro a _
      rw [List.length_cons, ih]
    calc (visits actions step (depth + 1) s).length
        = actions.length * ((∑ k ∈ Finset.range depth, actions.length ^ (k + 1)) + 1) := by
          rw [visits, List.length_flatMap, List.map_congr_left hconst, List.map_const', List.sum_replicate, Nat.nsmul_eq_mul]
      _ = ∑ k ∈ Finset.range (depth + 1), actions.length ^ (k + 1) := by
          rw [Finset.sum_range_succ', mul_add, Finset.mul_sum]
          congr 1
          · exact Finset.sum_congr rfl fun k _ => by ring
          · ring

/-- The first visit that fails ends a sequence of which no shorter part fails. -/
theorem find_visits (fails : σ → α → Bool) {depth : Nat} {s t : σ} {a : α}
    (h : (visits actions step depth s).find? (fun v => fails v.1 v.2) = some (t, a)) :
    ∃ w : List α, w.length < depth ∧ (∀ b ∈ w, b ∈ actions) ∧ a ∈ actions ∧ w.foldl step s = t ∧ fails t a = true ∧
      ∀ u b v, w = u ++ b :: v → fails (u.foldl step s) b = false := by
  induction depth generalizing s with
  | zero => cases h
  | succ depth ih =>
    rw [visits, List.find?_flatMap] at h
    obtain ⟨b, hb, h⟩ := List.exists_of_findSome?_eq_some h
    rw [List.find?_cons] at h
    cases hf : fails s b with
    | true =>
      rw [hf] at h
      cases h
      refine ⟨[], Nat.succ_pos _, fun c hc => absurd hc List.not_mem_nil, hb, rfl, hf, fun u c v hw => ?_⟩
      exact absurd hw.symm (List.append_ne_nil_of_right_ne_nil u (List.cons_ne_nil c v))
    | false =>
      rw [hf] at h
      obtain ⟨w, hlen, hw, ha, ht, hbad, hmin⟩ := ih h
      refine ⟨b :: w, Nat.succ_lt_succ hlen, List.forall_mem_cons.mpr ⟨hb, hw⟩, ha, ht, hbad, fun u c v hu => ?_⟩
      cases u with
      | nil =>
        cases hu
        exact hf
      | cons d u =>
        cases hu
        exact hmin u c v rfl

end Sweep
