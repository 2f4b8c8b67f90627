import Mathlib.Data.BitVec
import Mathlib.Tactic

/-
  Serial-number arithmetic — wrapped counters of any width against the natural
  numbers they stand for.

  A counter of `w` bits stands for a natural number `n` through a base `b`: its
  value is `b + n` modulo `2 ^ w`. Two such values are compared by the signed
  reading of their difference (RFC 1982). Everything here is reduced to the
  unsigned difference `udist`: the signed one is positive exactly below half
  the space (`sdist_pos_iff`) and negative exactly from half the space on
  (`sdist_neg_iff`), and unsigned differences add up modulo `2 ^ w`
  (`udist_trans`), so that what is left of a goal is linear arithmetic.
-/

namespace Serial

variable {w : Nat}

/-- The signed difference of two wrapped values. -/
def sdist (a b : BitVec w) : Int := (a - b).toInt

/-- The unsigned difference of two wrapped values. -/
def udist (a b : BitVec w) : Nat := (a - b).toNat

theorem udist_lt (a b : BitVec w) : udist a b < 2 ^ w := (a - b).isLt

@[simp] theorem udist_self (a : BitVec w) : udist a a = 0 := by simp [udist]

theorem sdist_eq (a b : BitVec w) :
    sdist a b = if 2 * udist a b < 2 ^ w then (udist a b : Int) else udist a b - (2 ^ w : Nat) :=
  BitVec.toInt_eq_toNat_cond (a - b)

theorem sdist_pos_iff (a b : BitVec w) :
    0 < sdist a b ↔ 0 < udist a b ∧ 2 * udist a b < 2 ^ w := by
  have hlt := udist_lt a b
  rw [sdist_eq]
  split <;> omega

theorem sdist_neg_iff (a b : BitVec w) : sdist a b < 0 ↔ 2 ^ w ≤ 2 * udist a b := by
  have hlt := udist_lt a b
  rw [sdist_eq]
  split <;> omega

/-- Unsigned differences add up modulo the size of the space. -/
theorem udist_trans (a b c : BitVec w) : (udist a b + udist b c) % 2 ^ w = udist a c := by
  have h : (a - b) + (b - c) = a - c := by abel
  rw [udist, udist, ← BitVec.toNat_add, h, udist]

/-- Every value is its base plus its unsigned difference from it. -/
theorem add_udist (a b : BitVec w) : b + BitVec.ofNat w (udist a b) = a := by
  simp only [udist, BitVec.ofNat_toNat, BitVec.setWidth_eq]
  abel

theorem udist_add (b : BitVec w) (n : Nat) : udist (b + BitVec.ofNat w n) b = n % 2 ^ w := by
  have h : b + BitVec.ofNat w n - b = BitVec.ofNat w n := by abel
  rw [udist, h, BitVec.toNat_ofNat]

end Serial
