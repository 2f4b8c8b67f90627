import Mathlib.Data.List.InsertIdx
import Mathlib.Data.List.Perm.Basic
import Mathlib.Tactic

/-
  The best so many of the items seen so far, kept in order.

  1. `Best` — what the list kept has to do with all the items.
  2. `keep_best` — one more item: it is put in its place and the list is cut off, if it is
     better than the worst or there is room.
-/

namespace Elite

variable {α : Type*} {key : α → ℕ} {k : ℕ} {a : α} {l all : List α}

/-- Put `a` behind the items that are at least as good. -/
def put (key : α → ℕ) (a : α) (l : List α) : List α := l.insertIdx (l.findIdx fun b => decide (key b < key a)) a

/-- The key of the worst item. -/
def worst (key : α → ℕ) (l : List α) : ℕ := (l.getLast?.map key).getD 0

/-- One more item. -/
def keep (key : α → ℕ) (k : ℕ) (a : α) (l : List α) : List α :=
  if l.length < k ∨ key a > worst key l then (put key a l).take k else l

/-- `l` is the best `k` items of `all`, the best first. -/
structure Best (key : α → ℕ) (k : ℕ) (l all : List α) : Prop where
  sorted : l.Pairwise fun a b => key b ≤ key a
  length : l.length = min k all.length
  top : ∃ out, (l ++ out).Perm all ∧ ∀ a ∈ l, ∀ b ∈ out, key b ≤ key a

theorem best_nil (key : α → ℕ) (k : ℕ) : Best key k [] [] :=
  ⟨.nil, (Nat.min_zero k).symm, [], .nil, fun _ ha => absurd ha List.not_mem_nil⟩

theorem Best.mem (h : Best key k l all) (ha : a ∈ l) : a ∈ all := by
  obtain ⟨out, hperm, -⟩ := h.top
  exact hperm.mem_iff.mp (List.mem_append_left out ha)

theorem put_perm (key : α → ℕ) (a : α) (l : List α) : (put key a l).Perm (a :: l) :=
  List.perm_insertIdx a l List.findIdx_le_length

theorem put_cons (key : α → ℕ) (a b : α) (l : List α) :
    put key a (b :: l) = if key b < key a then a :: b :: l else b :: put key a l := by
  unfold put
  rw [List.findIdx_cons]
  split
  · rename_i h
    rw [decide_eq_true h]
    rfl
  · rename_i h
    rw [decide_eq_false h]
    rfl

theorem put_sorted (a : α) (h : l.Pairwise fun a b => key b ≤ key a) :
    (put key a l).Pairwise fun a b => key b ≤ key a := by
  induction h with
  | nil => exact List.pairwise_singleton _ _
  | @cons b l hb hl ih =>
    rw [put_cons]
    split
    · rename_i hlt
      refine List.pairwise_cons.mpr ⟨fun c hc => ?_, List.pairwise_cons.mpr ⟨hb, hl⟩⟩
      rcases List.mem_cons.mp hc with rfl | hc
      · exact hlt.le
      · exact (hb c hc).trans hlt.le
    · rename_i hge
      refine List.pairwise_cons.mpr ⟨fun c hc => ?_, ih⟩
      rcases List.mem_cons.mp ((put_perm key a l).mem_iff.mp hc) with rfl | hc
      · exact not_lt.mp hge
      · exact hb c hc

/-- No item is worse than the last. -/
theorem worst_le (h : l.Pairwise fun a b => key b ≤ key a) (ha : a ∈ l) : worst key l ≤ key a := by
  rcases List.eq_nil_or_concat l with rfl | ⟨m, z, rfl⟩
  · cases ha
  · have hworst : worst key (m.concat z) = key z := by
      rw [worst, List.concat_eq_append, List.getLast?_concat]
      rfl
    rw [hworst]
    rw [List.concat_eq_append] at h ha
    rcases List.mem_append.mp ha with ha | ha
    · exact (List.pairwise_append.mp h).2.2 a ha z (List.mem_singleton_self z)
    · cases List.mem_singleton.mp ha
      exact le_rfl

/-- A better item, or one for which there is room, is put in its place. -/
theorem Best.take_put (h : Best key k l all) (hbetter : l.length < k ∨ key a > worst key l) :
    Best key k ((put key a l).take k) (all ++ [a]) := by
  obtain ⟨hsorted, hlen, out, hperm, htop⟩ := h
  have hall : (l ++ out).length = all.length := hperm.length_eq
  rw [List.length_append] at hall
  have hput := put_perm key a l
  have hputlen := hput.length_eq
  have hputsorted := put_sorted a hsorted
  rw [List.length_cons] at hputlen
  refine ⟨hputsorted.sublist (List.take_sublist _ _), ?_, (put key a l).drop k ++ out, ?_, ?_⟩
  · rw [List.length_take, hputlen, List.length_append, List.length_singleton]
    omega
  · rw [← List.append_assoc, List.take_append_drop]
    calc (put key a l ++ out).Perm (a :: l ++ out) := hput.append_right out
      _ |>.Perm (a :: all) := hperm.cons a
      _ |>.Perm (all ++ [a]) := (List.perm_append_singleton a all).symm
  · intro x hx y hy
    rcases List.mem_append.mp hy with hcut | hout
    · rw [← List.take_append_drop k (put key a l)] at hputsorted
      exact (List.pairwise_append.mp hputsorted).2.2 x hx y hcut
    · rcases List.mem_cons.mp (hput.mem_iff.mp (List.mem_of_mem_take hx)) with he | hold
      · -- something is out, so the list is full, and `a` is better than the worst of it
        have hfull := List.length_pos_of_mem hout
        have hpos : 0 < k := by
          rcases Nat.eq_zero_or_pos k with rfl | hpos
          · cases hx
          · exact hpos
        have hworst : worst key l < key a := by omega
        obtain ⟨m, z, rfl⟩ := (List.eq_nil_or_concat l).resolve_left (List.ne_nil_of_length_pos (by omega))
        rw [List.concat_eq_append] at hworst htop
        rw [worst, List.getLast?_concat] at hworst
        rw [he]
        exact (htop z (List.mem_append_right m (List.mem_singleton_self z)) y hout).trans (Nat.le_of_lt hworst)
      · exact htop x hold y hout

/-- An item for which there is no room, and which is no better than the worst, changes nothing. -/
theorem Best.pass (h : Best key k l all) (hfull : k ≤ l.length) (hworse : key a ≤ worst key l) :
    Best key k l (all ++ [a]) := by
  obtain ⟨hsorted, hlen, out, hperm, htop⟩ := h
  refine ⟨hsorted, ?_, a :: out, ?_, ?_⟩
  · rw [List.length_append, List.length_singleton]
    omega
  · calc (l ++ a :: out).Perm (a :: (l ++ out)) := List.perm_middle
      _ |>.Perm (a :: all) := hperm.cons a
      _ |>.Perm (all ++ [a]) := (List.perm_append_singleton a all).symm
  · intro x hx y hy
    rcases List.mem_cons.mp hy with rfl | hy
    · exact hworse.trans (worst_le hsorted hx)
    · exact htop x hx y hy

theorem keep_best (h : Best key k l all) (a : α) : Best key k (keep key k a l) (all ++ [a]) := by
  unfold keep
  split
  · rename_i hbetter
    exact h.take_put hbetter
  · rename_i hworse
    rw [not_or, not_lt, not_lt] at hworse
    exact h.pass hworse.1 hworse.2

end Elite
