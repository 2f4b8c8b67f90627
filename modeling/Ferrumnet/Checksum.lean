import Ferrumnet.Octets

/-
  The Internet checksum (`wire/checksum.rs`) against its definition: the
  one's-complement sum of the big-endian 16-bit words.

  1. `fold_accumulate` — the wide accumulator, folded, is that sum.
  2. `fold_accumulate_append` — an even number of bytes may be summed apart. The
     accumulators themselves differ: only their folds agree (`accumulate_differs`).
  3. `filled_valid`, `replaced_invalid` — a filled-in checksum verifies, and one word
     with another residue is always found.
-/

namespace Ferrumnet

open OnesComplement (octetSum words word setWord)

/-! ## The accumulator -/

theorem accumulatePairs_le (sum : Nat) (data : List UInt8) :
    accumulatePairs sum data ≤ sum + data.length * 65536 := by
  induction sum, data using accumulatePairs.induct with
  | case1 sum b0 b1 rest ih =>
    have := b0.toNat_lt
    have := b1.toNat_lt
    rw [accumulatePairs]
    simp only [List.length_cons, fromBe16] at ih ⊢
    omega
  | case2 sum last =>
    have := last.toNat_lt
    simp only [accumulatePairs, List.length_cons, List.length_nil]
    omega
  | case3 sum => simp [accumulatePairs]

/-- What each byte can add to the accumulator. -/
theorem accumulateOctets_le (sum : Nat) (data : List UInt8) :
    accumulateOctets sum data ≤ sum + data.length * 1073741824 := by
  induction sum, data using accumulateOctets.induct with
  | case1 sum o0 o1 o2 o3 o4 o5 o6 o7 rest ih =>
    have hword : ∀ b0 b1 b2 b3 : UInt8, fromBe32 b0 b1 b2 b3 < 4294967296 := by
      intro b0 b1 b2 b3
      have := b0.toNat_lt
      have := b1.toNat_lt
      have := b2.toNat_lt
      have := b3.toNat_lt
      simp only [fromBe32, fromBe16]
      omega
    have h1 := hword o0 o1 o2 o3
    have h2 := hword o4 o5 o6 o7
    rw [accumulateOctets]
    simp only [List.length_cons]
    omega
  | case2 sum tail h =>
    rw [accumulateOctets]
    · exact (accumulatePairs_le sum tail).trans (Nat.add_le_add_left (Nat.mul_le_mul_left _ (by norm_num)) _)
    · exact h

/-- The `u64` accumulator has room for any datagram. -/
theorem accumulateOctets_lt {acc : Nat} {data : List UInt8} (ha : acc < 2 ^ 32) (h : data.length ≤ 65535) :
    accumulateOctets acc data < 2 ^ 64 := by
  calc accumulateOctets acc data
      ≤ acc + data.length * 1073741824 := accumulateOctets_le acc data
    _ ≤ 2 ^ 32 + 65535 * 1073741824 := Nat.add_le_add ha.le (Nat.mul_le_mul_right _ h)
    _ < 2 ^ 64 := by norm_num

theorem accumulate_lt (acc : Nat) (data : List UInt8) : accumulate acc data < 2 ^ 32 :=
  OnesComplement.fold_lt (by omega) _

/-- Folding once more before the end changes nothing. -/
theorem fold_add (acc n : Nat) : fold (fold acc + n) = fold (acc + n) := by
  apply OnesComplement.fold_congr (by omega)
  · rw [Nat.add_mod, fold, OnesComplement.fold_mod, ← Nat.add_mod]
  · have := OnesComplement.fold_eq_zero 16 acc
    rw [fold]
    omega

theorem fold_accumulate_add (acc : Nat) (data : List UInt8) :
    fold (accumulate acc data) = fold (acc + octetSum data) :=
  OnesComplement.fold_congr (by omega) (accumulate_mod acc data) (accumulate_eq_zero acc data)

/-- The folded accumulator is the one's-complement sum of the words. -/
theorem fold_accumulate (acc : Nat) (data : List UInt8) :
    fold (accumulate acc data) = OnesComplement.sum 16 (fold acc) (words data) := by
  calc fold (accumulate acc data)
      = fold (acc + octetSum data) := fold_accumulate_add acc data
    _ = fold (fold acc + (words data).sum) := by rw [fold_add, OnesComplement.octetSum_eq]
    _ = OnesComplement.sum 16 (fold acc) (words data) :=
        OnesComplement.fold_eq_sum (by omega) (OnesComplement.fold_lt (by omega) acc)
          (OnesComplement.words_lt data)

/-- Two pieces in turn, the first of even length. -/
theorem fold_accumulate_append (acc : Nat) {xs : List UInt8} (ys : List UInt8) (h : xs.length % 2 = 0) :
    fold (accumulate (accumulate acc xs) ys) = fold (accumulate acc (xs ++ ys)) := by
  have hxs := fold_accumulate_add acc xs
  calc fold (accumulate (accumulate acc xs) ys)
      = fold (accumulate acc xs + octetSum ys) := fold_accumulate_add _ ys
    _ = fold (fold (acc + octetSum xs) + octetSum ys) := by rw [← hxs, fold_add]
    _ = fold (acc + octetSum (xs ++ ys)) := by
        rw [fold_add, OnesComplement.octetSum_append xs ys h, Nat.add_assoc]
    _ = fold (accumulate acc (xs ++ ys)) := (fold_accumulate_add acc _).symm

/-- Before they are folded the accumulators need not agree: bytes that a call sums as a
16-bit word are half of a 32-bit word in the other. -/
theorem accumulate_differs : ([0, 1] : List UInt8).length % 2 = 0 ∧
    accumulate (accumulate 0 [0, 1]) [0, 0, 0, 0, 0, 0] ≠ accumulate 0 ([0, 1] ++ [0, 0, 0, 0, 0, 0]) := by
  decide

/-! ## The checksum field -/

/-- The segment with its checksum filled in, computed over a zero field. -/
def filled (src dst : BitVec 32) (segment : List UInt8) : List UInt8 :=
  let csum := tcpChecksum src dst (setWord segment 16 0 0)
  setWord segment 16 (UInt8.ofNat (csum / 256)) (UInt8.ofNat csum)

/-- A filled-in checksum verifies. -/
theorem filled_valid (src dst : BitVec 32) {segment : List UInt8} (h : 18 ≤ segment.length) :
    tcpChecksumValid src dst (filled src dst segment) = true := by
  have hlen : (filled src dst segment).length = (setWord segment 16 0 0).length := by
    rw [filled, OnesComplement.length_setWord, OnesComplement.length_setWord]
  have hsum := segmentSum_mod src dst hlen
  have hfold := OnesComplement.fold_mod 16 (segmentSum src dst (setWord segment 16 0 0))
  have hlt := OnesComplement.fold_lt (w := 16) (by omega) (segmentSum src dst (setWord segment 16 0 0))
  have hcsum : tcpChecksum src dst (setWord segment 16 0 0) +
      OnesComplement.fold 16 (segmentSum src dst (setWord segment 16 0 0)) = 65535 := by
    rw [tcpChecksum, fold]
    omega
  have hzero := OnesComplement.octetSum_setWord segment 0 0 (i := 16) (by omega) (by omega)
  have hfill := OnesComplement.octetSum_setWord segment
    (UInt8.ofNat (tcpChecksum src dst (setWord segment 16 0 0) / 256))
    (UInt8.ofNat (tcpChecksum src dst (setWord segment 16 0 0))) (i := 16) (by omega) (by omega)
  -- the field reads as what was stored in it
  have hword : ∀ hi lo : UInt8, word (setWord segment 16 hi lo) 16 = hi.toNat * 256 + lo.toNat := by
    intro hi lo
    have h1 : 16 < segment.length := by omega
    have h2 : 17 < segment.length := by omega
    simp [word, setWord, h1, h2]
  rw [hword] at hzero hfill
  simp only [UInt8.toNat_ofNat'] at hfill
  have hnone : (0 : UInt8).toNat = 0 := rfl
  rw [hnone] at hzero
  have hfield : octetSum (filled src dst segment) =
      octetSum (setWord segment 16 0 0) + tcpChecksum src dst (setWord segment 16 0 0) := by
    simp only [filled]
    omega
  rw [hfield] at hsum
  rw [tcpChecksumValid_iff]
  clear hfield hzero hfill hlen
  omega

/-- A word with another residue does not. -/
theorem replaced_invalid (src dst : BitVec 32) {segment : List UInt8} {i : Nat} {hi lo : UInt8}
    (heven : i % 2 = 0) (h : i < segment.length) (hvalid : tcpChecksumValid src dst segment = true)
    (hne : word (setWord segment i hi lo) i % 65535 ≠ word segment i % 65535) :
    tcpChecksumValid src dst (setWord segment i hi lo) = false := by
  have hsum := segmentSum_mod src dst (OnesComplement.length_setWord segment i hi lo)
  have hset := OnesComplement.octetSum_setWord segment hi lo heven h
  rw [tcpChecksumValid_iff] at hvalid
  refine Bool.eq_false_iff.mpr fun hstill => ?_
  rw [tcpChecksumValid_iff] at hstill
  omega

/-- The code computes the Internet checksum. -/
theorem checksum_rfc1071 :
    (∀ (acc : Nat) (data : List UInt8), acc < 2 ^ 32 → data.length ≤ 65535 →
      accumulateOctets acc data < 2 ^ 64 ∧ accumulate acc data < 2 ^ 32 ∧
        fold (accumulate acc data) = OnesComplement.sum 16 (fold acc) (words data)) ∧
    (∀ (acc : Nat) (xs ys : List UInt8), xs.length % 2 = 0 →
      fold (accumulate (accumulate acc xs) ys) = fold (accumulate acc (xs ++ ys))) ∧
    (∀ (src dst : BitVec 32) (segment : List UInt8), 18 ≤ segment.length → segment.length ≤ 65535 →
      tcpChecksumValid src dst (filled src dst segment) = true) ∧
    (∀ (src dst : BitVec 32) (segment : List UInt8) (i : Nat) (hi lo : UInt8), segment.length ≤ 65535 →
      i % 2 = 0 → i < segment.length → tcpChecksumValid src dst segment = true →
      word (setWord segment i hi lo) i % 65535 ≠ word segment i % 65535 →
      tcpChecksumValid src dst (setWord segment i hi lo) = false) := by
  refine ⟨?_, ?_, ?_, ?_⟩
  · intro acc data ha h
    exact ⟨accumulateOctets_lt ha h, accumulate_lt acc data, fold_accumulate acc data⟩
  · intro acc xs ys h
    exact fold_accumulate_append acc ys h
  · intro src dst segment h _
    exact filled_valid src dst h
  · intro src dst segment i hi lo _ heven h hvalid hne
    exact replaced_invalid src dst heven h hvalid hne

theorem checksum_rfc1071_odd : fold (accumulate 0 [0xff, 0xff, 0x01]) = 256 ∧
    tcpChecksumValid 1 2 (filled 1 2 (List.replicate 19 7)) = true ∧
    tcpChecksumValid 1 2 (setWord (filled 1 2 (List.replicate 19 7)) 18 8 0) = false := by
  obtain ⟨h1, -, h3, h4⟩ := checksum_rfc1071
  refine ⟨?_, h3 1 2 _ (by decide) (by decide), ?_⟩
  · rw [(h1 0 [0xff, 0xff, 0x01] (by decide) (by decide)).2.2]
    decide
  · exact h4 1 2 _ 18 8 0 (by decide) (by decide) (by decide) (h3 1 2 _ (by decide) (by decide)) (by decide)

end Ferrumnet
