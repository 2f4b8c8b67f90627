import Mathlib.Tactic

/-
  A running count that is reflected modulo `n` in cumulative acknowledgements.

  The receiver counts marks, and stamps every acknowledgement with how far it has
  got in the stream and with its count. Acknowledgements are lost, repeated and
  overtaken. The sender takes one only when it moves its left edge, knows the
  count modulo `n`, and adds up the differences to the one it took before.

  1. `delta_eq` — the difference is exact below `n`.
  2. `Step.exact`, `exact_run` — if every acknowledgement taken has a count less
     than `n` above the one taken before, the sum is the count of the last.
-/

namespace Tally

structure State where
  /-- The marks counted by the receiver. -/
  count : Nat
  /-- How far the receiver has got. -/
  position : Nat
  /-- Position and count of every acknowledgement emitted, in this order. -/
  emitted : List (Nat × Nat)
  /-- The left edge of the sender. -/
  edge : Nat
  /-- The count of the last acknowledgement taken. -/
  taken : Nat
  /-- The sum of the differences. -/
  sum : Nat

/-- The difference between two counts of which the residues are known. -/
def delta (n a b : Nat) : Nat := (b % n + n - a % n) % n

variable {n a b : Nat}

theorem delta_eq (h1 : a ≤ b) (h2 : b < a + n) : delta n a b = b - a := by
  have hn : 0 < n := by omega
  have ha : a % n < n := Nat.mod_lt a hn
  obtain ⟨d, rfl⟩ := Nat.exists_eq_add_of_le h1
  have hd : d < n := by omega
  have hmod : (a + d) % n = (a % n + d) % n := by rw [Nat.add_mod, Nat.mod_eq_of_lt hd]
  have hsub : a + d - a = d := by omega
  rw [delta, hmod, hsub]
  rcases Nat.lt_or_ge (a % n + d) n with hlt | hge
  · calc ((a % n + d) % n + n - a % n) % n
        = (a % n + d + n - a % n) % n := by rw [Nat.mod_eq_of_lt hlt]
      _ = (d + n) % n := by congr 1; omega
      _ = d := by rw [Nat.add_mod_right, Nat.mod_eq_of_lt hd]
  · have hwrap : (a % n + d) % n = a % n + d - n := by
      rw [Nat.mod_eq_sub_mod hge, Nat.mod_eq_of_lt (by omega)]
    calc ((a % n + d) % n + n - a % n) % n
        = (a % n + d - n + n - a % n) % n := by rw [hwrap]
      _ = d % n := by congr 1; omega
      _ = d := Nat.mod_eq_of_lt hd

theorem delta_self (hn : 0 < n) : delta n a a = 0 := by
  rw [delta_eq le_rfl (by omega), Nat.sub_self]

/-- What may happen. Anything that is lost, repeated or does not move the edge is
no step at all. -/
inductive Step (n : Nat) (s : State) : State → Prop
  | receive (marks octets : Nat) :
      Step n s { s with count := s.count + marks, position := s.position + octets }
  | emit : Step n s { s with emitted := s.emitted ++ [(s.position, s.count)] }
  | take (q : Nat × Nat) : q ∈ s.emitted → s.edge < q.1 → q.2 < s.taken + n →
      Step n s { s with edge := q.1, taken := q.2, sum := s.sum + delta n s.taken q.2 }

/-- A step of the receiver, from what it leaves behind. -/
theorem Step.received {s t : State} (hc : s.count ≤ t.count) (hp : s.position ≤ t.position)
    (ht : t = { s with count := t.count, position := t.position }) : Step n s t := by
  have h := Step.receive (n := n) (s := s) (t.count - s.count) (t.position - s.position)
  rw [Nat.add_sub_of_le hc, Nat.add_sub_of_le hp, ← ht] at h
  exact h

/-- What keeps the sum exact: acknowledgements are emitted in the order of their
positions and of their counts, so one that moves the edge was emitted later. -/
structure Exact (s : State) : Prop where
  order : s.emitted.Pairwise fun p q => p.1 ≤ q.1 ∧ p.2 ≤ q.2
  below : ∀ q ∈ s.emitted, q.1 ≤ s.position ∧ q.2 ≤ s.count
  ahead : ∀ q ∈ s.emitted, s.edge < q.1 → s.taken ≤ q.2
  taken_le : s.taken ≤ s.count
  sum_eq : s.sum = s.taken

variable {s t : State}

/-- Of two acknowledgements emitted, the one with the greater position has the
greater count. -/
theorem Exact.mono (h : Exact s) {p q : Nat × Nat} (hp : p ∈ s.emitted) (hq : q ∈ s.emitted)
    (hlt : p.1 < q.1) : p.2 ≤ q.2 := by
  obtain ⟨i, hi, rfl⟩ := List.getElem_of_mem hp
  obtain ⟨j, hj, rfl⟩ := List.getElem_of_mem hq
  have hpair := List.pairwise_iff_getElem.mp h.order
  rcases Nat.lt_trichotomy i j with hij | hij | hij
  · exact (hpair i j hi hj hij).2
  · subst hij
    exact le_rfl
  · have := (hpair j i hj hi hij).1
    omega

theorem Step.exact (hst : Step n s t) (h : Exact s) : Exact t := by
  cases hst with
  | receive marks octets =>
    refine ⟨h.order, fun q hq => ?_, h.ahead, ?_, h.sum_eq⟩
    · obtain ⟨h1, h2⟩ := h.below q hq
      exact ⟨h1.trans (Nat.le_add_right _ _), h2.trans (Nat.le_add_right _ _)⟩
    · exact h.taken_le.trans (Nat.le_add_right _ _)
  | emit =>
    -- the new one has everything that was counted so far
    refine ⟨?_, fun q hq => ?_, fun q hq hlt => ?_, h.taken_le, h.sum_eq⟩
    · apply List.pairwise_append.mpr
      refine ⟨h.order, List.pairwise_singleton _ _, fun p hp q hq => ?_⟩
      cases List.mem_singleton.mp hq
      exact h.below p hp
    · rcases List.mem_append.mp hq with hq | hq
      · exact h.below q hq
      · cases List.mem_singleton.mp hq
        exact ⟨le_rfl, le_rfl⟩
    · rcases List.mem_append.mp hq with hq | hq
      · exact h.ahead q hq hlt
      · cases List.mem_singleton.mp hq
        exact h.taken_le
  | take q hq hedge hlt =>
    have hle : s.taken ≤ q.2 := h.ahead q hq hedge
    refine ⟨h.order, h.below, fun p hp hpq => h.mono hq hp hpq, (h.below q hq).2, ?_⟩
    change s.sum + delta n s.taken q.2 = q.2
    rw [h.sum_eq, delta_eq hle hlt]
    omega

/-- What any number of steps keeps. -/
theorem exact_run (hst : Relation.ReflTransGen (Step n) s t) (h : Exact s) : Exact t := by
  induction hst with
  | refl => exact h
  | tail _ hstep ih => exact hstep.exact ih

end Tally
