import Ferrumnet.Lib.Serial

/-
  TCP sequence numbers (`seq.rs`): 32-bit serial arithmetic.

  Every comparison goes through `distance`, the signed reading of a wrapping
  subtraction. `s + n` advances by a byte count, wrapping; a count of 2^32 or
  more is cut to 32 bits first, as the source's `as u32` casts do.

  Proofs about sequence numbers go through `offsetFrom`: the four comparisons
  are conditions on it (`gt_iff`, `lt_iff`), and on two positions of one base
  it is their difference modulo 2^32 (`offsetFrom_pos`).
-/

namespace Ferrumnet

/-- A 32-bit TCP sequence (or acknowledgement) number. -/
structure SeqNumber where
  raw : BitVec 32
  deriving DecidableEq, Repr

namespace SeqNumber

def new (value : Nat) : SeqNumber := ⟨BitVec.ofNat 32 value⟩

/-- Signed distance `self - other`: positive means `self` is after `other`. -/
def distance (s other : SeqNumber) : Int := Serial.sdist s.raw other.raw

/-- Unsigned forward offset `self - base`. -/
def offsetFrom (s base : SeqNumber) : Nat := Serial.udist s.raw base.raw

def lt (s other : SeqNumber) : Bool := s.distance other < 0
def le (s other : SeqNumber) : Bool := s.distance other ≤ 0
def gt (s other : SeqNumber) : Bool := s.distance other > 0
def ge (s other : SeqNumber) : Bool := s.distance other ≥ 0

/-- Smaller of two sequence numbers in serial order. -/
def min (s other : SeqNumber) : SeqNumber := if s.le other then s else other

/-- Larger of two sequence numbers in serial order. -/
def max (s other : SeqNumber) : SeqNumber := if s.ge other then s else other

/-- `seq + len` advances by a byte count, wrapping. -/
def add (s : SeqNumber) (n : Nat) : SeqNumber := ⟨s.raw + BitVec.ofNat 32 n⟩

instance : HAdd SeqNumber Nat SeqNumber := ⟨add⟩

theorem add_def (s : SeqNumber) (n : Nat) : s + n = ⟨s.raw + BitVec.ofNat 32 n⟩ := rfl

@[simp] theorem add_zero (s : SeqNumber) : s + 0 = s := by simp [add_def]

@[simp] theorem add_add (s : SeqNumber) (m n : Nat) : s + m + n = s + (m + n) := by
  simp [add_def, BitVec.ofNat_add, BitVec.add_assoc]

/-! ## Comparisons as conditions on the unsigned offset -/

variable (s t u : SeqNumber)

theorem offsetFrom_lt : s.offsetFrom t < 4294967296 := Serial.udist_lt _ _

@[simp] theorem offsetFrom_self : s.offsetFrom s = 0 := Serial.udist_self _

theorem gt_iff : s.gt t = true ↔ 0 < s.offsetFrom t ∧ s.offsetFrom t < 2147483648 := by
  simp only [gt, distance, gt_iff_lt, decide_eq_true_eq, Serial.sdist_pos_iff, offsetFrom]
  omega

theorem lt_iff : s.lt t = true ↔ 2147483648 ≤ s.offsetFrom t := by
  simp only [lt, distance, decide_eq_true_eq, Serial.sdist_neg_iff, offsetFrom]
  omega

theorem le_eq : s.le t = !s.gt t := by
  simp only [le, gt]
  by_cases h : 0 < s.distance t
  · simp [h]
  · simp [h]; omega

theorem ge_eq : s.ge t = !s.lt t := by
  simp only [ge, lt]
  by_cases h : s.distance t < 0
  · simp [h]
  · simp [h]; omega

theorem le_iff : s.le t = true ↔ s.offsetFrom t = 0 ∨ 2147483648 ≤ s.offsetFrom t := by
  have := gt_iff s t
  rw [le_eq, Bool.not_eq_true', ← Bool.not_eq_true, this]
  omega

theorem ge_iff : s.ge t = true ↔ s.offsetFrom t < 2147483648 := by
  have := lt_iff s t
  rw [ge_eq, Bool.not_eq_true', ← Bool.not_eq_true, this]
  omega

theorem offsetFrom_trans :
    (s.offsetFrom t + t.offsetFrom u) % 4294967296 = s.offsetFrom u :=
  Serial.udist_trans s.raw t.raw u.raw

/-- A sequence number is its base plus its offset from it. -/
theorem add_offsetFrom : t + s.offsetFrom t = s := by
  simp [add_def, offsetFrom, Serial.add_udist]

theorem offsetFrom_add (n : Nat) : (s + n).offsetFrom s = n % 4294967296 :=
  Serial.udist_add s.raw n

/-- Two positions of one base differ by their difference modulo 2^32. -/
theorem offsetFrom_pos (m n : Nat) :
    (s + m).offsetFrom (s + n) = (m + (4294967296 - n % 4294967296)) % 4294967296 := by
  have h := offsetFrom_trans (s + m) (s + n) s
  rw [offsetFrom_add, offsetFrom_add] at h
  have := offsetFrom_lt (s + m) (s + n)
  omega

theorem eq_iff_offsetFrom : s = t ↔ s.offsetFrom t = 0 := by
  constructor
  · rintro rfl; simp
  · intro h; have := add_offsetFrom s t; rw [h, add_zero] at this; exact this.symm

variable {s t} in
theorem offset_pos_of_lt (h : s.lt t = true) : 0 < t.offsetFrom s := by
  by_contra hz
  rw [(eq_iff_offsetFrom t s).mpr (by omega), lt_iff, offsetFrom_self] at h
  omega

theorem add_inj {m n : Nat} (h : s + m = s + n) : m % 4294967296 = n % 4294967296 := by
  have := (eq_iff_offsetFrom _ _).mp h
  rw [offsetFrom_pos] at this
  omega

variable {s t} in
theorem add_left_inj {n : Nat} (h : s + n = t + n) : s = t := by
  have hraw : s.raw + BitVec.ofNat 32 n = t.raw + BitVec.ofNat 32 n := congrArg raw h
  have heq : s.raw = t.raw := by bv_omega
  rw [← add_zero s, ← add_zero t, add_def, add_def, heq]

theorem add_ne_self {n : Nat} (h : n % 4294967296 ≠ 0) : s + n ≠ s := by
  intro he
  have := offsetFrom_add s n
  rw [he, offsetFrom_self] at this
  omega

/-! ## Comparisons of two positions of one base

Two positions less than half the space apart compare as the numbers they are. -/

section Positions

variable {x y : Nat}

theorem offsetFrom_pos_le (h1 : y ≤ x) (h2 : x < y + 4294967296) :
    (s + x).offsetFrom (s + y) = x - y := by
  rw [offsetFrom_pos]; omega

theorem pos_lt (h1 : x < y + 2147483648) (h2 : y ≤ x + 2147483648) :
    (s + x).lt (s + y) = decide (x < y) := by
  have := lt_iff (s + x) (s + y)
  rw [offsetFrom_pos] at this
  rw [Bool.eq_iff_iff, this, decide_eq_true_eq]
  omega

theorem pos_gt (h1 : x < y + 2147483648) (h2 : y ≤ x + 2147483648) :
    (s + x).gt (s + y) = decide (y < x) := by
  have := gt_iff (s + x) (s + y)
  rw [offsetFrom_pos] at this
  rw [Bool.eq_iff_iff, this, decide_eq_true_eq]
  omega

theorem pos_le (h1 : x < y + 2147483648) (h2 : y ≤ x + 2147483648) :
    (s + x).le (s + y) = decide (x ≤ y) := by
  rw [le_eq, pos_gt s h1 h2, Bool.eq_iff_iff]
  simp

theorem pos_ge (h1 : x < y + 2147483648) (h2 : y ≤ x + 2147483648) :
    (s + x).ge (s + y) = decide (y ≤ x) := by
  rw [ge_eq, pos_lt s h1 h2, Bool.eq_iff_iff]
  simp

theorem pos_eq (h1 : x < y + 4294967296) (h2 : y < x + 4294967296) :
    s + x = s + y ↔ x = y := by
  constructor
  · intro h
    have := add_inj s h
    omega
  · rintro rfl; rfl

theorem pos_min (h1 : x < y + 2147483648) (h2 : y ≤ x + 2147483648) :
    (s + x).min (s + y) = s + Min.min x y := by
  rw [min, pos_le s h1 h2]
  by_cases h : x ≤ y
  · simp [h]
  · simp [h, Nat.min_eq_right (by omega : y ≤ x)]

theorem pos_max (h1 : x < y + 2147483648) (h2 : y ≤ x + 2147483648) :
    (s + x).max (s + y) = s + Max.max x y := by
  rw [max, pos_ge s h1 h2]
  by_cases h : y ≤ x
  · simp [h]
  · simp [h, Nat.max_eq_right (by omega : x ≤ y)]

end Positions

/-- An acknowledgement taken as new, `una < ack ≤ nxt`, splits the offset from
`una` to `nxt` in two, provided that offset is less than half the space. -/
theorem offsetFrom_between {una ack nxt : SeqNumber} (h1 : ack.gt una = true)
    (h2 : ack.gt nxt = false) (hw : nxt.offsetFrom una < 2147483648) :
    0 < ack.offsetFrom una ∧
      ack.offsetFrom una + nxt.offsetFrom ack = nxt.offsetFrom una := by
  have hu := (gt_iff ack una).mp h1
  have hn := mt (gt_iff ack nxt).mpr (by simp [h2])
  have ht := offsetFrom_trans ack nxt una
  have ht' := offsetFrom_trans nxt ack una
  have := offsetFrom_lt ack nxt
  have := offsetFrom_lt nxt ack
  omega

end SeqNumber

end Ferrumnet
