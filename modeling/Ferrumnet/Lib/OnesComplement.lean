import Mathlib.Tactic

/-
  One's-complement sums.

  1. `fold` — a sum folded into `w` bits with end-around carry. It keeps the
     residue modulo `2 ^ w - 1`, and only zero folds to zero.
  2. `add`, `sum` — one's-complement addition. `fold_eq_sum` — a sum that is added
     up first and folded afterwards is the same.
  3. `octetSum` — the sum of a byte string as big-endian 16-bit words, an odd
     last byte being the high byte of its word.
  4. `octetSum_flip` — one flipped bit changes the sum by a power of two less
     than the modulus, so it never keeps the residue.
-/

namespace OnesComplement

/-! ## End-around carry -/

/-- Fold the carry back in until none is left, at most `fuel` times. -/
def foldLoop (w : Nat) : Nat → Nat → Nat
  | 0, acc => acc
  | fuel + 1, acc =>
    if acc / 2 ^ w ≠ 0 then foldLoop w fuel (acc % 2 ^ w + acc / 2 ^ w) else acc

/-- Each round makes a sum that does not fit smaller. -/
def fold (w acc : Nat) : Nat := foldLoop w acc acc

variable {w : Nat}

theorem foldLoop_mod (fuel acc : Nat) : foldLoop w fuel acc % (2 ^ w - 1) = acc % (2 ^ w - 1) := by
  induction fuel generalizing acc with
  | zero => rfl
  | succ fuel ih =>
    rw [foldLoop]
    split
    · rw [ih]
      have hpos : 0 < 2 ^ w := Nat.two_pow_pos w
      have hsplit : acc = acc % 2 ^ w + acc / 2 ^ w + (2 ^ w - 1) * (acc / 2 ^ w) := by
        have := Nat.mod_add_div acc (2 ^ w)
        have hmul : (2 ^ w - 1) * (acc / 2 ^ w) + acc / 2 ^ w = 2 ^ w * (acc / 2 ^ w) := by
          rw [← Nat.succ_mul, Nat.succ_eq_add_one, Nat.sub_add_cancel hpos]
        omega
      conv_rhs => rw [hsplit]
      rw [Nat.add_mul_mod_self_left]
    · rfl

theorem foldLoop_eq_zero (fuel acc : Nat) : foldLoop w fuel acc = 0 ↔ acc = 0 := by
  induction fuel generalizing acc with
  | zero => rfl
  | succ fuel ih =>
    rw [foldLoop]
    split
    · rename_i hne
      rw [ih]
      constructor
      · intro h
        exact absurd (Nat.add_eq_zero_iff.mp h).2 hne
      · rintro rfl
        simp at hne
    · rfl

theorem foldLoop_lt (hw : 0 < w) (fuel acc : Nat) (h : acc ≤ fuel) : foldLoop w fuel acc < 2 ^ w := by
  induction fuel generalizing acc with
  | zero =>
    rw [foldLoop, Nat.le_zero.mp h]
    exact Nat.two_pow_pos w
  | succ fuel ih =>
    rw [foldLoop]
    split
    · rename_i hne
      refine ih _ ?_
      -- the high part counts for at least twice as much before it is folded in
      have htwo : 2 ≤ 2 ^ w := Nat.le_self_pow (Nat.pos_iff_ne_zero.mp hw) 2
      have hdiv := Nat.mod_add_div acc (2 ^ w)
      have hmul : 2 * (acc / 2 ^ w) ≤ 2 ^ w * (acc / 2 ^ w) := Nat.mul_le_mul_right _ htwo
      omega
    · rename_i hz
      exact (Nat.div_eq_zero_iff_lt (Nat.two_pow_pos w)).mp (not_not.mp hz)

theorem fold_mod (w acc : Nat) : fold w acc % (2 ^ w - 1) = acc % (2 ^ w - 1) := foldLoop_mod _ _

theorem fold_eq_zero (w acc : Nat) : fold w acc = 0 ↔ acc = 0 := foldLoop_eq_zero _ _

theorem fold_lt (hw : 0 < w) (acc : Nat) : fold w acc < 2 ^ w := foldLoop_lt hw _ _ le_rfl

/-- A sum folds to all ones exactly if it is a positive multiple of the modulus. -/
theorem fold_eq_ones (hw : 1 < w) (acc : Nat) :
    fold w acc = 2 ^ w - 1 ↔ acc ≠ 0 ∧ acc % (2 ^ w - 1) = 0 := by
  have hlt := fold_lt (w := w) (by omega) acc
  have hmod := fold_mod w acc
  have hzero := fold_eq_zero w acc
  have htwo : 2 ^ 1 < 2 ^ w := Nat.pow_lt_pow_right (by omega) hw
  constructor
  · intro h
    rw [h, Nat.mod_self] at hmod
    refine ⟨fun h0 => ?_, hmod.symm⟩
    have := hzero.mpr h0
    omega
  · rintro ⟨h1, h2⟩
    rw [h2] at hmod
    have hne : fold w acc ≠ 0 := fun h => h1 (hzero.mp h)
    by_contra hno
    have hsmall : fold w acc < 2 ^ w - 1 := by omega
    rw [Nat.mod_eq_of_lt hsmall] at hmod
    exact hne hmod

/-! ## One's-complement addition -/

/-- The carry out of the top bit is added back in. -/
def add (w a b : Nat) : Nat := if a + b < 2 ^ w then a + b else a + b - (2 ^ w - 1)

/-- The one's-complement sum of words of `w` bits, from `acc` on. -/
def sum (w acc : Nat) (words : List Nat) : Nat := words.foldl (add w) acc

theorem add_lt {a b : Nat} (ha : a < 2 ^ w) (hb : b < 2 ^ w) : add w a b < 2 ^ w := by
  unfold add
  split
  · assumption
  · omega

theorem add_mod (w a b : Nat) : add w a b % (2 ^ w - 1) = (a + b) % (2 ^ w - 1) := by
  unfold add
  split
  · rfl
  · rename_i h
    have hpos : 0 < 2 ^ w := Nat.two_pow_pos w
    calc (a + b - (2 ^ w - 1)) % (2 ^ w - 1)
        = (a + b - (2 ^ w - 1) + (2 ^ w - 1)) % (2 ^ w - 1) := (Nat.add_mod_right ..).symm
      _ = (a + b) % (2 ^ w - 1) := by rw [Nat.sub_add_cancel (by omega)]

theorem add_eq_zero (w a b : Nat) : add w a b = 0 ↔ a + b = 0 := by
  have hpos : 0 < 2 ^ w := Nat.two_pow_pos w
  unfold add
  split
  · rfl
  · omega

theorem sum_lt {acc : Nat} {words : List Nat} (ha : acc < 2 ^ w) (hw : ∀ x ∈ words, x < 2 ^ w) :
    sum w acc words < 2 ^ w := by
  induction words generalizing acc with
  | nil => exact ha
  | cons x words ih =>
    apply ih (add_lt ha (hw x List.mem_cons_self))
    intro y hy
    exact hw y (List.mem_cons_of_mem _ hy)

theorem sum_mod (w acc : Nat) (words : List Nat) :
    sum w acc words % (2 ^ w - 1) = (acc + words.sum) % (2 ^ w - 1) := by
  induction words generalizing acc with
  | nil => rfl
  | cons x words ih =>
    calc sum w acc (x :: words) % (2 ^ w - 1)
        = (add w acc x + words.sum) % (2 ^ w - 1) := ih _
      _ = (acc + x + words.sum) % (2 ^ w - 1) := by rw [Nat.add_mod, add_mod, ← Nat.add_mod]
      _ = (acc + (x :: words).sum) % (2 ^ w - 1) := by rw [List.sum_cons, Nat.add_assoc]

theorem sum_eq_zero (w acc : Nat) (words : List Nat) : sum w acc words = 0 ↔ acc + words.sum = 0 := by
  induction words generalizing acc with
  | nil => rfl
  | cons x words ih =>
    have h1 : sum w acc (x :: words) = 0 ↔ add w acc x + words.sum = 0 := ih _
    have h2 := add_eq_zero w acc x
    rw [h1, List.sum_cons]
    omega

/-- A value of `w` bits is known from its residue and from being zero or not. -/
theorem eq_of_mod_eq {a b : Nat} (ha : a < 2 ^ w) (hb : b < 2 ^ w)
    (hmod : a % (2 ^ w - 1) = b % (2 ^ w - 1)) (hzero : a = 0 ↔ b = 0) : a = b := by
  -- only zero and the modulus itself share a residue
  have key : ∀ x, x < 2 ^ w → x ≠ 0 → x % (2 ^ w - 1) = if x = 2 ^ w - 1 then 0 else x := by
    intro x hx h0
    split
    · rename_i h
      rw [h, Nat.mod_self]
    · exact Nat.mod_eq_of_lt (by omega)
  by_cases h0 : a = 0
  · rw [h0, hzero.mp h0]
  · have h1 := key a ha h0
    have h2 := key b hb fun h => h0 (hzero.mpr h)
    rw [h1, h2] at hmod
    split_ifs at hmod <;> omega

theorem fold_congr (hw : 0 < w) {a b : Nat} (hmod : a % (2 ^ w - 1) = b % (2 ^ w - 1))
    (hzero : a = 0 ↔ b = 0) : fold w a = fold w b := by
  apply eq_of_mod_eq (fold_lt hw a) (fold_lt hw b)
  · rw [fold_mod, fold_mod, hmod]
  · rw [fold_eq_zero, fold_eq_zero, hzero]

/-- Adding up first and folding afterwards gives the one's-complement sum. -/
theorem fold_eq_sum (hw : 0 < w) {acc : Nat} {words : List Nat} (ha : acc < 2 ^ w)
    (hwords : ∀ x ∈ words, x < 2 ^ w) : fold w (acc + words.sum) = sum w acc words := by
  apply eq_of_mod_eq (fold_lt hw _) (sum_lt ha hwords)
  · rw [fold_mod, sum_mod]
  · rw [fold_eq_zero, sum_eq_zero]

/-! ## The sum of a byte string -/

/-- The big-endian 16-bit words, an odd last byte padded with zero. -/
def words : List UInt8 → List Nat
  | [] => []
  | [last] => [last.toNat * 256]
  | hi :: lo :: rest => (hi.toNat * 256 + lo.toNat) :: words rest

theorem words_lt (data : List UInt8) : ∀ x ∈ words data, x < 2 ^ 16 := by
  induction data using words.induct with
  | case1 => intro x hx; cases hx
  | case2 last =>
    intro x hx
    have := last.toNat_lt
    rw [words, List.mem_singleton] at hx
    omega
  | case3 hi lo rest ih =>
    intro x hx
    have := hi.toNat_lt
    have := lo.toNat_lt
    rw [words, List.mem_cons] at hx
    cases hx with
    | inl he => omega
    | inr hx => exact ih x hx

/-- The sum of the big-endian 16-bit words. -/
def octetSum : List UInt8 → Nat
  | [] => 0
  | [last] => last.toNat * 256
  | hi :: lo :: rest => hi.toNat * 256 + lo.toNat + octetSum rest

theorem octetSum_eq (data : List UInt8) : octetSum data = (words data).sum := by
  induction data using words.induct with
  | case1 => rfl
  | case2 last => simp [octetSum, words]
  | case3 hi lo rest ih => rw [octetSum, words, List.sum_cons, ih]

/-- What a byte counts for in the sum. -/
def weight (i : Nat) : Nat := if i % 2 = 0 then 256 else 1

theorem octetSum_append (xs ys : List UInt8) (h : xs.length % 2 = 0) :
    octetSum (xs ++ ys) = octetSum xs + octetSum ys := by
  induction xs using octetSum.induct with
  | case1 => simp [octetSum]
  | case2 last => simp at h
  | case3 hi lo rest ih =>
    simp only [List.length_cons] at h
    simp only [List.cons_append, octetSum, ih (by omega)]
    omega

/-- One byte replaced. -/
theorem octetSum_set (xs : List UInt8) (i : Nat) (b : UInt8) (h : i < xs.length) :
    octetSum (xs.set i b) + weight i * xs[i].toNat = octetSum xs + weight i * b.toNat := by
  induction xs using octetSum.induct generalizing i with
  | case1 => simp at h
  | case2 last =>
    obtain rfl : i = 0 := by simpa using h
    simp [octetSum, weight]
    omega
  | case3 hi lo rest ih =>
    match i, h with
    | 0, _ => simp [octetSum, weight]; omega
    | 1, _ => simp [octetSum, weight]; omega
    | i + 2, h =>
      have hw : weight (i + 2) = weight i := by simp [weight]
      have := ih i (by simpa using h)
      simp only [List.set_cons_succ, octetSum, List.getElem_cons_succ, hw]
      omega

/-- The word at byte `i`, as it is summed. -/
def word (xs : List UInt8) (i : Nat) : Nat := (xs.getD i 0).toNat * 256 + (xs.getD (i + 1) 0).toNat

/-- The word at byte `i` replaced; behind an odd last byte there is nothing to replace. -/
def setWord (xs : List UInt8) (i : Nat) (hi lo : UInt8) : List UInt8 := (xs.set i hi).set (i + 1) lo

@[simp] theorem length_setWord (xs : List UInt8) (i : Nat) (hi lo : UInt8) :
    (setWord xs i hi lo).length = xs.length := by simp [setWord]

/-- One word replaced. -/
theorem octetSum_setWord (xs : List UInt8) {i : Nat} (hi lo : UInt8) (heven : i % 2 = 0) (h : i < xs.length) :
    octetSum (setWord xs i hi lo) + word xs i = octetSum xs + word (setWord xs i hi lo) i := by
  have hw : weight i = 256 := by rw [weight, if_pos heven]
  have hw' : weight (i + 1) = 1 := by rw [weight, if_neg (by omega)]
  have hhigh := octetSum_set xs i hi h
  have hfirst : (setWord xs i hi lo).getD i 0 = hi := by simp [setWord, h]
  have hget : xs.getD i 0 = xs[i] := by simp [h]
  rw [hw] at hhigh
  rw [word, word, hfirst, hget]
  by_cases h' : i + 1 < xs.length
  · have hin : i + 1 < (xs.set i hi).length := by simpa using h'
    have hlow := octetSum_set (xs.set i hi) (i + 1) lo hin
    have hnext : (setWord xs i hi lo).getD (i + 1) 0 = lo := by simp [setWord, h']
    have hget' : xs.getD (i + 1) 0 = xs[i + 1] := by simp [h']
    have hkept : (xs.set i hi)[i + 1] = xs[i + 1] := by simp
    rw [hw', hkept] at hlow
    rw [hnext, hget', setWord]
    omega
  · have hsame : setWord xs i hi lo = xs.set i hi := by
      rw [setWord, List.set_eq_of_length_le]
      simpa using h'
    have hnone : xs.getD (i + 1) 0 = 0 := by simp [List.getElem?_eq_none (Nat.le_of_not_lt h')]
    have hnone' : (setWord xs i hi lo).getD (i + 1) 0 = 0 := by simp [hsame, Nat.le_of_not_lt h']
    rw [hnone, hnone', hsame]
    omega

/-! ## One flipped bit -/

/-- Flip bit `k` of byte `i`. -/
def flipBit (xs : List UInt8) (i k : Nat) : List UInt8 :=
  xs.modify i fun b => b ^^^ UInt8.ofNat (2 ^ k)

@[simp] theorem length_flipBit (xs : List UInt8) (i k : Nat) :
    (flipBit xs i k).length = xs.length := by simp [flipBit]

theorem flipBit_other (xs : List UInt8) {i j : Nat} (k : Nat) (h : j ≠ i) :
    (flipBit xs i k)[j]? = xs[j]? := by
  simp [flipBit, Ne.symm h]

theorem xor_bit : ∀ b < 256, ∀ k < 8,
    b ^^^ 2 ^ k = b + 2 ^ k ∨ b = (b ^^^ 2 ^ k) + 2 ^ k := by decide +kernel

theorem flip_toNat (b : UInt8) {k : Nat} (hk : k < 8) :
    (b ^^^ UInt8.ofNat (2 ^ k)).toNat = b.toNat + 2 ^ k ∨
      b.toNat = (b ^^^ UInt8.ofNat (2 ^ k)).toNat + 2 ^ k := by
  have hpow : 2 ^ k < 256 := Nat.pow_lt_pow_right (by omega : 1 < 2) hk
  have := xor_bit b.toNat (UInt8.toNat_lt b) k hk
  rwa [UInt8.toNat_xor, UInt8.toNat_ofNat', Nat.mod_eq_of_lt hpow]

/-- A flipped bit moves the sum up or down by a power of two below `2 ^ 16`. -/
theorem octetSum_flip (xs : List UInt8) {i k : Nat} (hi : i < xs.length) (hk : k < 8) :
    ∃ j < 16, octetSum (flipBit xs i k) = octetSum xs + 2 ^ j ∨
      octetSum xs = octetSum (flipBit xs i k) + 2 ^ j := by
  have hset : flipBit xs i k = xs.set i (xs[i] ^^^ UInt8.ofNat (2 ^ k)) := by
    rw [flipBit, List.modify_eq_set, List.getElem?_eq_getElem hi, Option.getD_some]
  have hsum := octetSum_set xs i (xs[i] ^^^ UInt8.ofNat (2 ^ k)) hi
  rw [← hset] at hsum
  have hbit := flip_toNat xs[i] hk
  generalize (xs[i] ^^^ UInt8.ofNat (2 ^ k)).toNat = b at hsum hbit
  by_cases hpar : i % 2 = 0
  · rw [weight, if_pos hpar] at hsum
    refine ⟨k + 8, by omega, ?_⟩
    rw [pow_add]
    omega
  · rw [weight, if_neg hpar] at hsum
    exact ⟨k, by omega, by omega⟩

end OnesComplement
