import Mathlib.Data.FinEnum
import Mathlib.Data.Int.CardIntervalMod
import Mathlib.Tactic

/-
  Invertible mixing steps on words of `w` bits, and counters that pass every word.

  1. `injective_xorShift`, `injective_mul` — a word can be recovered from either step.
  2. `bijective_of_injective` — and on words that makes it a bijection.
  3. `bijective_counter` — multiples of a unit, from any word on, are all the words.
  4. `card_mod` — how often all the words, in whatever order, give one remainder.
  5. `streak_le` — so a streak of small remainders ends.
-/

namespace Mixing

variable {w : ℕ}

/-- `x ^ (x >> s)` -/
def xorShift (s : ℕ) (x : BitVec w) : BitVec w := x ^^^ x >>> s

theorem xorShift_xor (s : ℕ) (x y : BitVec w) : xorShift s (x ^^^ y) = xorShift s x ^^^ xorShift s y := by
  simp only [xorShift, BitVec.ushiftRight_xor_distrib]
  ac_rfl

/-- Only zero equals its own shift to the right. -/
theorem eq_zero_of_xorShift {s : ℕ} (hs : 0 < s) {x : BitVec w} (h : xorShift s x = 0#w) : x = 0#w := by
  have he : x = x >>> s := BitVec.xor_eq_zero_iff.mp h
  have hn : x.toNat = x.toNat >>> s := by
    conv_lhs => rw [he]
    exact BitVec.toNat_ushiftRight x s
  rw [Nat.shiftRight_eq_div_pow] at hn
  have hpow : 1 < 2 ^ s := Nat.one_lt_two_pow hs.ne'
  apply BitVec.eq_of_toNat_eq
  rw [BitVec.toNat_ofNat, Nat.zero_mod]
  by_contra hne
  have hlt := Nat.div_lt_self (Nat.pos_of_ne_zero hne) hpow
  omega

theorem injective_xorShift {s : ℕ} (hs : 0 < s) : Function.Injective (xorShift s : BitVec w → BitVec w) := by
  intro x y h
  have hzero : xorShift s (x ^^^ y) = 0#w := by
    rw [xorShift_xor, h, BitVec.xor_self]
  exact BitVec.xor_eq_zero_iff.mp (eq_zero_of_xorShift hs hzero)

/-- A factor with an inverse. -/
theorem injective_mul {c d : BitVec w} (h : c * d = 1#w) : Function.Injective (· * c) := by
  intro x y hxy
  change x * c = y * c at hxy
  calc x = x * c * d := by rw [BitVec.mul_assoc, h, BitVec.mul_one]
    _ = y * c * d := by rw [hxy]
    _ = y := by rw [BitVec.mul_assoc, h, BitVec.mul_one]

theorem bijective_of_injective {f : BitVec w → BitVec w} (h : Function.Injective f) : Function.Bijective f :=
  Finite.injective_iff_bijective.mp h

/-- From any word on, steps of a unit pass every word once before they repeat. -/
theorem bijective_counter {c d : BitVec w} (h : c * d = 1#w) (x : BitVec w) :
    Function.Bijective fun k : Fin (2 ^ w) => x + BitVec.ofNat w k * c := by
  constructor
  · intro j k hjk
    have hmul : BitVec.ofNat w j * c = BitVec.ofNat w k * c := (BitVec.add_right_inj x).mp hjk
    have hnat := congrArg BitVec.toNat (injective_mul h hmul)
    rw [BitVec.toNat_ofNat, BitVec.toNat_ofNat, Nat.mod_eq_of_lt j.isLt, Nat.mod_eq_of_lt k.isLt] at hnat
    exact Fin.ext hnat
  · intro y
    refine ⟨((y - x) * d).toFin, ?_⟩
    show x + BitVec.ofNat w ((y - x) * d).toNat * c = y
    calc x + BitVec.ofNat w ((y - x) * d).toNat * c
        = x + (y - x) * (c * d) := by
          rw [BitVec.ofNat_toNat, BitVec.setWidth_eq, BitVec.mul_assoc, BitVec.mul_comm d c]
      _ = y := by
          rw [h, BitVec.mul_one, BitVec.add_comm, BitVec.sub_add_cancel]

theorem ofNat_wrap (k : ℕ) : BitVec.ofNat w (k + 2 ^ w) = BitVec.ofNat w k := by
  apply BitVec.eq_of_toNat_eq
  rw [BitVec.toNat_ofNat, BitVec.toNat_ofNat, Nat.add_mod_right]

/-- All the words in some order: each remainder as often as any other, give or take one. -/
theorem card_mod {f : Fin (2 ^ w) → BitVec w} (hf : Function.Bijective f) {n v : ℕ} (hn : 0 < n) (hv : v < n) :
    (Finset.univ.filter fun k : Fin (2 ^ w) => (f k).toNat % n = v).card =
      2 ^ w / n + if v < 2 ^ w % n then 1 else 0 := by
  have hcard : (Finset.univ.filter fun k : Fin (2 ^ w) => (f k).toNat % n = v).card =
      ((Finset.range (2 ^ w)).filter fun m => m % n = v).card := by
    refine Finset.card_bij (fun k _ => (f k).toNat) (fun k hk => ?_) (fun j _ k _ h => ?_) (fun m hm => ?_)
    · rw [Finset.mem_filter, Finset.mem_range]
      exact ⟨(f k).isLt, (Finset.mem_filter.mp hk).2⟩
    · exact hf.1 (BitVec.eq_of_toNat_eq h)
    · obtain ⟨hlt, hmod⟩ := Finset.mem_filter.mp hm
      obtain ⟨k, hk⟩ := hf.2 (BitVec.ofNat w m)
      have htoNat : (f k).toNat = m := by
        rw [hk, BitVec.toNat_ofNat]
        exact Nat.mod_eq_of_lt (Finset.mem_range.mp hlt)
      refine ⟨k, ?_, htoNat⟩
      rw [Finset.mem_filter, htoNat]
      exact ⟨Finset.mem_univ k, hmod⟩
  have hcount : ((Finset.range (2 ^ w)).filter fun m => m % n = v).card = (2 ^ w).count fun m => m ≡ v [MOD n] := by
    rw [Nat.count_eq_card_filter_range]
    congr 1
    apply Finset.filter_congr
    intro m _
    rw [Nat.ModEq, Nat.mod_eq_of_lt hv]
  rw [hcard, hcount, Nat.count_modEq_card _ hn, Nat.mod_eq_of_lt hv]

theorem card_mod_lt {f : Fin (2 ^ w) → BitVec w} (hf : Function.Bijective f) {n p : ℕ} (hp : p ≤ n) :
    (Finset.univ.filter fun k : Fin (2 ^ w) => (f k).toNat % n < p).card ≤ p * (2 ^ w / n + 1) := by
  have hmaps : Set.MapsTo (fun k : Fin (2 ^ w) => (f k).toNat % n)
      (Finset.univ.filter fun k : Fin (2 ^ w) => (f k).toNat % n < p) (Finset.range p) := by
    intro k hk
    exact Finset.mem_coe.mpr (Finset.mem_range.mpr (Finset.mem_filter.mp (Finset.mem_coe.mp hk)).2)
  rw [Finset.card_eq_sum_card_fiberwise hmaps]
  have hfiber : ∀ v ∈ Finset.range p, ((Finset.univ.filter fun k : Fin (2 ^ w) => (f k).toNat % n < p).filter
      fun k => (f k).toNat % n = v).card ≤ 2 ^ w / n + 1 := by
    intro v hv
    have hlt := Finset.mem_range.mp hv
    calc _ ≤ (Finset.univ.filter fun k : Fin (2 ^ w) => (f k).toNat % n = v).card :=
          Finset.card_le_card (Finset.filter_subset_filter _ (Finset.filter_subset _ _))
      _ = 2 ^ w / n + if v < 2 ^ w % n then 1 else 0 := card_mod hf (by omega) (by omega)
      _ ≤ 2 ^ w / n + 1 := by split <;> omega
  calc _ ≤ ∑ _v ∈ Finset.range p, (2 ^ w / n + 1) := Finset.sum_le_sum hfiber
    _ = p * (2 ^ w / n + 1) := by rw [Finset.sum_const, Finset.card_range, smul_eq_mul]

/-- Words of which the first `2 ^ w` are all there are: no more of them in a row than there
are words with such remainders. -/
theorem streak_le {f : ℕ → BitVec w} (hf : Function.Bijective fun k : Fin (2 ^ w) => f k) {n p k : ℕ} (hn : 0 < n)
    (hp : p * (2 ^ w / n + 1) < 2 ^ w) (h : ∀ i < k, (f i).toNat % n < p) : k ≤ p * (2 ^ w / n + 1) := by
  have hpn : p ≤ n := by
    by_contra hlt
    have hmul : n * (2 ^ w / n + 1) ≤ p * (2 ^ w / n + 1) := Nat.mul_le_mul_right _ (by omega)
    have hover := Nat.lt_mul_div_succ (2 ^ w) hn
    omega
  by_contra hk
  -- one more than there are, all of them in one period
  let first : Fin (p * (2 ^ w / n + 1) + 1) → Fin (2 ^ w) := fun i => ⟨i, by omega⟩
  have hinj : Function.Injective first := by
    intro i j hij
    have hval : (first i).val = (first j).val := congrArg Fin.val hij
    exact Fin.ext hval
  have hsub : Finset.univ.map ⟨first, hinj⟩ ⊆ Finset.univ.filter fun k : Fin (2 ^ w) => (f k).toNat % n < p := by
    intro j hj
    obtain ⟨i, -, rfl⟩ := Finset.mem_map.mp hj
    exact Finset.mem_filter.mpr ⟨Finset.mem_univ _, h i (by omega)⟩
  have hcard := (Finset.card_le_card hsub).trans (card_mod_lt hf hpn)
  rw [Finset.card_map, Finset.card_univ, Fintype.card_fin] at hcard
  omega

end Mixing
