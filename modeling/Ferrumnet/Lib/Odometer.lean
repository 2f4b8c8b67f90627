import Mathlib.Data.List.Nodup
import Mathlib.Data.Nat.Choose.Sum

/-
  Enumerations that fold over every object once.

  1. `mem_words`, `nodup_words`, `length_words` — the words of a length over an alphabet.
  2. `mem_compositions`, `nodup_compositions`, `length_compositions` — a number as a sum of
     at most so many positive parts, in order.
  3. `foldWords_eq`, `foldCompositions_eq` — the recursions that build one object at a time.
-/

namespace Odometer

variable {α ρ : Type*}

/-! ## Words -/

/-- The words of a length. -/
def words (alphabet : List α) : ℕ → List (List α)
  | 0 => [[]]
  | n + 1 => alphabet.flatMap fun a => (words alphabet n).map (a :: ·)

/-- `f` over every word that extends `buf` by `n` letters. -/
def foldWords (alphabet : List α) (f : ρ → List α → ρ) : ℕ → List α → ρ → ρ
  | 0, buf, r => f r buf
  | n + 1, buf, r => alphabet.foldl (fun r a => foldWords alphabet f n (buf ++ [a]) r) r

variable {alphabet : List α} {n k : ℕ}

theorem mem_words {w : List α} : w ∈ words alphabet n ↔ w.length = n ∧ ∀ a ∈ w, a ∈ alphabet := by
  induction n generalizing w with
  | zero =>
    rw [words, List.mem_singleton]
    constructor
    · rintro rfl
      exact ⟨rfl, fun a ha => absurd ha List.not_mem_nil⟩
    · intro h
      exact List.length_eq_zero_iff.mp h.1
  | succ n ih =>
    rw [words, List.mem_flatMap]
    constructor
    · rintro ⟨a, ha, h⟩
      obtain ⟨v, hv, rfl⟩ := List.mem_map.mp h
      obtain ⟨hlen, hall⟩ := ih.mp hv
      exact ⟨by rw [List.length_cons, hlen], List.forall_mem_cons.mpr ⟨ha, hall⟩⟩
    · rintro ⟨hlen, hall⟩
      cases w with
      | nil => cases hlen
      | cons a v =>
        obtain ⟨ha, hall⟩ := List.forall_mem_cons.mp hall
        exact ⟨a, ha, List.mem_map.mpr ⟨v, ih.mpr ⟨Nat.succ.inj hlen, hall⟩, rfl⟩⟩

/-- First letters that differ make words that differ. -/
theorem nodup_flatMap_cons {β : Type*} {l : List β} {g : β → α} {f : β → List (List α)} (hl : l.Nodup)
    (hg : Function.Injective g) (hf : ∀ a ∈ l, (f a).Nodup) : (l.flatMap fun a => (f a).map (g a :: ·)).Nodup := by
  rw [List.nodup_flatMap]
  refine ⟨fun a ha => (hf a ha).map List.cons_injective, hl.imp fun {a b} hne => ?_⟩
  intro w ha hb
  obtain ⟨u, -, rfl⟩ := List.mem_map.mp ha
  obtain ⟨v, -, he⟩ := List.mem_map.mp hb
  exact hne (hg (List.head_eq_of_cons_eq he).symm)

theorem nodup_words (h : alphabet.Nodup) (n : ℕ) : (words alphabet n).Nodup := by
  induction n with
  | zero => exact List.nodup_singleton _
  | succ n ih => exact nodup_flatMap_cons h Function.injective_id fun _ _ => ih

theorem length_words (alphabet : List α) (n : ℕ) : (words alphabet n).length = alphabet.length ^ n := by
  induction n with
  | zero => rfl
  | succ n ih =>
    have hrow : ∀ a ∈ alphabet, ((words alphabet n).map (a :: ·)).length = alphabet.length ^ n := by
      intro a _
      rw [List.length_map, ih]
    rw [words, List.length_flatMap, List.map_congr_left hrow, List.map_const', List.sum_replicate, Nat.nsmul_eq_mul,
      Nat.pow_succ, Nat.mul_comm]

theorem foldWords_eq (f : ρ → List α → ρ) (n : ℕ) (buf : List α) (r : ρ) :
    foldWords alphabet f n buf r = (words alphabet n).foldl (fun r w => f r (buf ++ w)) r := by
  induction n generalizing buf r with
  | zero =>
    show f r buf = f r (buf ++ [])
    rw [List.append_nil]
  | succ n ih =>
    rw [foldWords, words, List.foldl_flatMap]
    congr 1
    funext r a
    rw [ih, List.foldl_map]
    simp only [List.append_assoc, List.singleton_append]

/-! ## Compositions -/

/-- `n` as a sum of at most `k` positive parts, by the first part. -/
def compositions : ℕ → ℕ → List (List ℕ)
  | _, 0 => [[]]
  | 0, _ + 1 => []
  | k + 1, n + 1 => (List.range (n + 1)).flatMap fun i => (compositions k (n - i)).map ((i + 1) :: ·)

/-- `f` over every composition of `n` into at most `k` parts, behind the parts in `parts`. -/
def foldCompositions (f : ρ → List ℕ → ρ) : ℕ → ℕ → List ℕ → ρ → ρ
  | _, 0, parts, r => f r parts
  | 0, _ + 1, _, r => r
  | k + 1, n + 1, parts, r =>
    (List.range (n + 1)).foldl (fun r i => foldCompositions f k (n - i) (parts ++ [i + 1]) r) r

theorem compositions_zero (k : ℕ) : compositions k 0 = [[]] := by
  cases k <;> rfl

theorem mem_compositions {parts : List ℕ} : parts ∈ compositions k n ↔
    parts.sum = n ∧ parts.length ≤ k ∧ ∀ p ∈ parts, 0 < p := by
  induction k generalizing n parts with
  | zero =>
    cases n with
    | zero =>
      rw [compositions_zero, List.mem_singleton]
      constructor
      · rintro rfl
        exact ⟨rfl, le_rfl, fun p hp => absurd hp List.not_mem_nil⟩
      · intro h
        exact List.length_eq_zero_iff.mp (Nat.le_zero.mp h.2.1)
    | succ n =>
      constructor
      · intro h
        cases h
      · rintro ⟨hsum, hlen, -⟩
        rw [List.length_eq_zero_iff.mp (Nat.le_zero.mp hlen)] at hsum
        cases hsum
  | succ k ih =>
    cases n with
    | zero =>
      rw [compositions_zero, List.mem_singleton]
      constructor
      · rintro rfl
        exact ⟨rfl, Nat.zero_le _, fun p hp => absurd hp List.not_mem_nil⟩
      · rintro ⟨hsum, -, hpos⟩
        cases parts with
        | nil => rfl
        | cons p parts =>
          have hp := hpos p List.mem_cons_self
          rw [List.sum_cons] at hsum
          omega
    | succ n =>
      rw [compositions, List.mem_flatMap]
      constructor
      · rintro ⟨i, hi, h⟩
        obtain ⟨rest, hrest, rfl⟩ := List.mem_map.mp h
        obtain ⟨hsum, hlen, hpos⟩ := ih.mp hrest
        have hle := List.mem_range.mp hi
        refine ⟨?_, Nat.succ_le_succ hlen, List.forall_mem_cons.mpr ⟨Nat.succ_pos i, hpos⟩⟩
        rw [List.sum_cons, hsum]
        omega
      · rintro ⟨hsum, hlen, hpos⟩
        cases parts with
        | nil => cases hsum
        | cons p rest =>
          obtain ⟨hp, hrest⟩ := List.forall_mem_cons.mp hpos
          have hfirst : p - 1 + 1 = p := Nat.sub_add_cancel hp
          rw [List.sum_cons] at hsum
          have hmem : rest ∈ compositions k (n - (p - 1)) :=
            ih.mpr ⟨by omega, Nat.le_of_succ_le_succ hlen, hrest⟩
          refine ⟨p - 1, List.mem_range.mpr (by omega), List.mem_map.mpr ⟨rest, hmem, ?_⟩⟩
          rw [hfirst]

theorem nodup_compositions (k n : ℕ) : (compositions k n).Nodup := by
  induction k generalizing n with
  | zero =>
    cases n with
    | zero => exact List.nodup_singleton _
    | succ n => exact List.nodup_nil
  | succ k ih =>
    cases n with
    | zero => exact List.nodup_singleton _
    | succ n => exact nodup_flatMap_cons List.nodup_range (add_left_injective 1) fun i _ => ih (n - i)

/-- Choices by their largest element. -/
theorem sum_choose (n j : ℕ) : ∑ m ∈ Finset.range n, m.choose j = n.choose (j + 1) := by
  induction n with
  | zero => rfl
  | succ n ih => rw [Finset.sum_range_succ, ih, Nat.choose_succ_succ, Nat.add_comm]

/-- By the number of parts: the places where the number is cut. -/
theorem length_compositions (k n : ℕ) : (compositions k (n + 1)).length = ∑ j ∈ Finset.range k, n.choose j := by
  induction k generalizing n with
  | zero => rfl
  | succ k ih =>
    have hsum : (compositions (k + 1) (n + 1)).length =
        ∑ i ∈ Finset.range (n + 1), (compositions k (n - i)).length := by
      rw [compositions, List.length_flatMap]
      simp only [List.length_map]
      rfl
    calc (compositions (k + 1) (n + 1)).length
        = ∑ m ∈ Finset.range (n + 1), (compositions k m).length := by
          rw [hsum]
          exact Finset.sum_range_reflect (fun m => (compositions k m).length) (n + 1)
      _ = (∑ m ∈ Finset.range n, ∑ j ∈ Finset.range k, m.choose j) + 1 := by
          rw [Finset.sum_range_succ', compositions_zero]
          exact congrArg (· + 1) (Finset.sum_congr rfl fun m _ => ih m)
      _ = (∑ j ∈ Finset.range k, n.choose (j + 1)) + 1 := by
          rw [Finset.sum_comm]
          exact congrArg (· + 1) (Finset.sum_congr rfl fun j _ => sum_choose n j)
      _ = ∑ j ∈ Finset.range (k + 1), n.choose j := by
          rw [Finset.sum_range_succ', Nat.choose_zero_right]

theorem foldCompositions_eq (f : ρ → List ℕ → ρ) (k n : ℕ) (parts : List ℕ) (r : ρ) :
    foldCompositions f k n parts r = (compositions k n).foldl (fun r w => f r (parts ++ w)) r := by
  induction k generalizing n parts r with
  | zero =>
    cases n with
    | zero =>
      show f r parts = f r (parts ++ [])
      rw [List.append_nil]
    | succ n => rfl
  | succ k ih =>
    cases n with
    | zero =>
      show f r parts = f r (parts ++ [])
      rw [List.append_nil]
    | succ n =>
      rw [foldCompositions, compositions, List.foldl_flatMap]
      congr 1
      funext r i
      rw [ih, List.foldl_map]
      simp only [List.append_assoc, List.singleton_append]

end Odometer
