import Ferrumnet.Lib.Run
import Ferrumnet.Congestion
import Ferrumnet.Rtt

/-
  The bounds of the retransmission-timeout estimator.

  Both averages are rounded up, and still stay within the bounds of what they average: the
  bound is a whole number. So SRTT does not leave the range of the samples, and RTTVAR not
  the larger of its first value and the width of that range; and no product of them comes
  near the largest 32-bit value.

  1. `average_le`, `le_average` — the averages.
  2. `Within.sample` — a sample.
  3. `estimator_bounds` — every run.
-/

namespace Ferrumnet

/-! ## Checked arithmetic -/

/-- The value of an operation on `u32`, if it does not overflow. -/
def checked (n : Nat) : Option Nat := if n ≤ u32Max then some n else none

/-- The value of a subtraction on unsigned integers, if it does not underflow. -/
def checkedSub (a b : Nat) : Option Nat := if b ≤ a then some (a - b) else none

/-- `a.abs_diff(b)`. -/
def absDiff (a b : Nat) : Option Nat := if a ≤ b then checkedSub b a else checkedSub a b

namespace RttEstimator

/-- The first part of `on_sample` with every operation checked. -/
def absorbChecked (e : RttEstimator) (r : Nat) : Option RttEstimator :=
  if e.haveMeasurement then do
    let delta ← absDiff e.srtt r
    let kept ← checked (3 * e.rttvar)
    let spread ← checked (kept + delta)
    let held ← checked (7 * e.srtt)
    let total ← checked (held + r)
    some { e with rttvar := divCeil spread 4, srtt := divCeil total 8 }
  else some { e with srtt := r, rttvar := r / 2, haveMeasurement := true }

/-- `on_sample` with every operation checked, but for the addition that saturates. -/
def onSampleChecked (e : RttEstimator) (r : Nat) : Option RttEstimator := do
  let e ← e.absorbChecked (min r maxRto)
  let scaled ← checked (rtoK * e.rttvar)
  let base := min (max (min (e.srtt + max scaled clockGranularity) u32Max) minRto) maxRto
  some { e with baseRto := base, rto := base, consecutiveTimeouts := 0 }

/-- `on_timeout` with the operation on a time checked. -/
def onTimeoutChecked (e : RttEstimator) : Option RttEstimator := do
  let doubled ← checked (e.rto * 2)
  some
    { e with
      rto := min doubled maxRto
      consecutiveTimeouts := e.consecutiveTimeouts + 1
      haveMeasurement :=
        if e.consecutiveTimeouts + 1 ≥ rebootstrapAfter then false else e.haveMeasurement }

end RttEstimator

/-! ## The averages -/

/-- An average rounded up does not exceed a bound of what it averages. -/
theorem average_le {n a b bound : Nat} (ha : a ≤ bound) (hb : b ≤ bound) :
    RttEstimator.divCeil (n * a + b) (n + 1) ≤ bound := by
  have hsum : n * a + b ≤ (n + 1) * bound := by
    calc n * a + b
        ≤ n * bound + bound := Nat.add_le_add (Nat.mul_le_mul_left n ha) hb
      _ = (n + 1) * bound := (Nat.succ_mul n bound).symm
  rw [RttEstimator.divCeil]
  apply Nat.le_of_lt_succ
  rw [Nat.div_lt_iff_lt_mul (Nat.succ_pos n)]
  change n * a + b + (n + 1) - 1 < (bound + 1) * (n + 1)
  have hnext : (bound + 1) * (n + 1) = (n + 1) * bound + (n + 1) := by ring
  omega

/-- Nor does it fall below one. -/
theorem le_average {n a b bound : Nat} (ha : bound ≤ a) (hb : bound ≤ b) :
    bound ≤ RttEstimator.divCeil (n * a + b) (n + 1) := by
  have hsum : (n + 1) * bound ≤ n * a + b := by
    calc (n + 1) * bound
        = n * bound + bound := Nat.succ_mul n bound
      _ ≤ n * a + b := Nat.add_le_add (Nat.mul_le_mul_left n ha) hb
  rw [RttEstimator.divCeil, Nat.le_div_iff_mul_le (Nat.succ_pos n), Nat.mul_comm]
  change (n + 1) * bound ≤ n * a + b + (n + 1) - 1
  omega

/-! ## The samples of a measurement -/

inductive RttEvent where
  | sample (r : Nat)
  | timeout
  | cleanAck
  deriving DecidableEq, Repr

/-- The estimator, and the samples since the one that last started a measurement, each cut to the
largest RTO. -/
structure Measured where
  estimator : RttEstimator
  first : Nat
  rest : List Nat
  deriving DecidableEq, Repr

namespace Measured

def new : Measured := ⟨RttEstimator.new, 0, []⟩

/-- The smallest sample. -/
def lowest (m : Measured) : Nat := m.rest.foldl min m.first

/-- The largest sample. -/
def highest (m : Measured) : Nat := m.rest.foldl max m.first

/-- A sample starts a measurement, or goes on with the one that is held. -/
def sampled (m : Measured) (r : Nat) : Measured :=
  if m.estimator.haveMeasurement then ⟨m.estimator.onSample r, m.first, m.rest ++ [min r maxRto]⟩
  else ⟨m.estimator.onSample r, min r maxRto, []⟩

/-- A sample is a `u32` of at least 1. -/
def step (m : Measured) : RttEvent → Option Measured
  | .sample r => if 1 ≤ r ∧ r ≤ u32Max then some (m.sampled r) else none
  | .timeout => some { m with estimator := m.estimator.onTimeout }
  | .cleanAck => some { m with estimator := m.estimator.onCleanAck }

end Measured

/-! ## A sample -/

/-- The averages of samples of which the first, the smallest and the largest are these. -/
structure Averages (e : RttEstimator) (first low high : Nat) : Prop where
  low_le : low ≤ e.srtt
  le_high : e.srtt ≤ high
  first_le : first ≤ high
  rttvar_le : e.rttvar ≤ max (first / 2) (high - low)
  high_le : high ≤ maxRto

namespace Averages

variable {e : RttEstimator} {first low high r : Nat}

/-- RTTVAR has a bound of its own. -/
theorem rttvar_le_maxRto (h : Averages e first low high) : e.rttvar ≤ maxRto := by
  have hfirst : first / 2 ≤ maxRto := (Nat.div_le_self first 2).trans (h.first_le.trans h.high_le)
  have hspread : high - low ≤ maxRto := (Nat.sub_le high low).trans h.high_le
  exact h.rttvar_le.trans (max_le hfirst hspread)

theorem start (hno : e.haveMeasurement = false) (hr : r ≤ maxRto) : Averages (e.absorb r) r r r := by
  have habsorb : e.absorb r = { e with srtt := r, rttvar := r / 2, haveMeasurement := true } :=
    if_neg (by rw [hno]; exact Bool.false_ne_true)
  rw [habsorb]
  exact ⟨le_rfl, le_rfl, le_rfl, le_max_left _ _, hr⟩

theorem next (h : Averages e first low high) (hyes : e.haveMeasurement = true) (hr : r ≤ maxRto) :
    Averages (e.absorb r) first (min low r) (max high r) := by
  have hlow := h.low_le
  have hhigh := h.le_high
  -- the deviation from the old SRTT is no wider than the range that has the sample in it
  have hdelta : (if e.srtt ≤ r then r - e.srtt else e.srtt - r) ≤ max high r - min low r := by
    split <;> omega
  have hold : e.rttvar ≤ max (first / 2) (max high r - min low r) := by
    have := h.rttvar_le
    omega
  have habsorb : e.absorb r = { e with
      rttvar := RttEstimator.divCeil (3 * e.rttvar + if e.srtt ≤ r then r - e.srtt else e.srtt - r) 4
      srtt := RttEstimator.divCeil (7 * e.srtt + r) 8 } := if_pos hyes
  rw [habsorb]
  constructor
  · exact le_average ((min_le_left _ _).trans hlow) (min_le_right _ _)
  · exact average_le (hhigh.trans (le_max_left _ _)) (le_max_right _ _)
  · exact h.first_le.trans (le_max_left _ _)
  · exact average_le hold (hdelta.trans (le_max_right _ _))
  · exact max_le h.high_le hr

/-- No operation of the first part overflows. -/
theorem absorbChecked (h : Averages e first low high) (hr : r ≤ maxRto) : e.absorbChecked r = some (e.absorb r) := by
  have hsrtt : e.srtt ≤ maxRto := h.le_high.trans h.high_le
  have hrttvar := h.rttvar_le_maxRto
  simp only [maxRto] at hr hsrtt hrttvar
  have hfits : ∀ n, n ≤ 480000000 → checked n = some n := fun n hn => if_pos (hn.trans (by decide))
  have hdelta : absDiff e.srtt r = some (if e.srtt ≤ r then r - e.srtt else e.srtt - r) := by
    rw [absDiff]
    split
    · rename_i hle
      exact if_pos hle
    · rename_i hgt
      exact if_pos (Nat.le_of_not_le hgt)
  have hdist : (if e.srtt ≤ r then r - e.srtt else e.srtt - r) ≤ 60000000 := by
    split <;> omega
  rw [RttEstimator.absorbChecked, RttEstimator.absorb, hdelta]
  generalize (if e.srtt ≤ r then r - e.srtt else e.srtt - r) = delta at hdist
  have h1 := hfits (3 * e.rttvar) (by omega)
  have h2 := hfits (3 * e.rttvar + delta) (by omega)
  have h3 := hfits (7 * e.srtt) (by omega)
  have h4 := hfits (7 * e.srtt + r) (by omega)
  split
  · simp only [h1, h2, h3, h4, Option.bind_eq_bind, Option.bind_some]
  · rfl

end Averages

namespace Measured

/-! ## Every run -/

/-- The invariant. -/
structure Within (m : Measured) : Prop where
  base_ge : minRto ≤ m.estimator.baseRto
  base_le : m.estimator.baseRto ≤ m.estimator.rto
  rto_le : m.estimator.rto ≤ maxRto
  averages : m.estimator.haveMeasurement = true → Averages m.estimator m.first m.lowest m.highest

variable {m : Measured} {r : Nat}

/-- The averages after the first part of `on_sample`. -/
theorem Within.absorb (h : Within m) (r : Nat) : Averages (m.estimator.absorb (min r maxRto)) (m.sampled r).first
    (m.sampled r).lowest (m.sampled r).highest := by
  have hr : min r maxRto ≤ maxRto := min_le_right _ _
  cases hheld : m.estimator.haveMeasurement with
  | false =>
    have hsampled : m.sampled r = ⟨m.estimator.onSample r, min r maxRto, []⟩ :=
      if_neg (by rw [hheld]; exact Bool.false_ne_true)
    rw [hsampled]
    exact Averages.start hheld hr
  | true =>
    have hsampled : m.sampled r = ⟨m.estimator.onSample r, m.first, m.rest ++ [min r maxRto]⟩ := if_pos hheld
    rw [hsampled, lowest, highest, List.foldl_append, List.foldl_append]
    exact (h.averages hheld).next hheld hr

theorem estimator_sampled (m : Measured) (r : Nat) : (m.sampled r).estimator = m.estimator.onSample r := by
  rw [sampled]
  split <;> rfl

theorem Within.sampled (h : Within m) (r : Nat) : Within (m.sampled r) := by
  have havg := h.absorb r
  have hrange : minRto ≤ (m.estimator.onSample r).baseRto ∧ (m.estimator.onSample r).baseRto ≤ maxRto := by
    constructor
    · exact le_min (le_max_right _ _) (by decide)
    · exact min_le_right _ _
  constructor
  · rw [estimator_sampled]
    exact hrange.1
  · rw [estimator_sampled]
    exact le_rfl
  · rw [estimator_sampled]
    exact hrange.2
  · intro _
    rw [estimator_sampled]
    exact ⟨havg.low_le, havg.le_high, havg.first_le, havg.rttvar_le, havg.high_le⟩

theorem Within.step (h : Within m) {a : RttEvent} {m' : Measured} (hstep : m.step a = some m') : Within m' := by
  have hbase := h.base_le
  have hrto := h.rto_le
  cases a with
  | sample r =>
    obtain ⟨-, hstep⟩ := Option.ite_none_right_eq_some.mp hstep
    cases hstep
    exact h.sampled r
  | timeout =>
    cases hstep
    refine ⟨h.base_ge, ?_, min_le_right _ _, fun hheld => ?_⟩
    · exact le_min (hbase.trans (Nat.le_mul_of_pos_right _ (by decide))) (hbase.trans hrto)
    · have hold : m.estimator.haveMeasurement = true := by
        simp only [RttEstimator.onTimeout] at hheld
        split at hheld
        · cases hheld
        · exact hheld
      have havg := h.averages hold
      exact ⟨havg.low_le, havg.le_high, havg.first_le, havg.rttvar_le, havg.high_le⟩
  | cleanAck =>
    cases hstep
    refine ⟨h.base_ge, le_rfl, hbase.trans hrto, fun hheld => ?_⟩
    have havg := h.averages hheld
    exact ⟨havg.low_le, havg.le_high, havg.first_le, havg.rttvar_le, havg.high_le⟩

/-- No operation on a time overflows or underflows. -/
theorem Within.checked (h : Within m) (r : Nat) :
    m.estimator.onSampleChecked r = some (m.estimator.onSample r) ∧
      m.estimator.onTimeoutChecked = some m.estimator.onTimeout := by
  constructor
  · have habsorb : m.estimator.absorbChecked (min r maxRto) = some (m.estimator.absorb (min r maxRto)) := by
      cases hheld : m.estimator.haveMeasurement with
      | false =>
        have hno : ¬ m.estimator.haveMeasurement = true := by
          rw [hheld]
          exact Bool.false_ne_true
        rw [RttEstimator.absorbChecked, RttEstimator.absorb, if_neg hno, if_neg hno]
      | true => exact (h.averages hheld).absorbChecked (min_le_right _ _)
    have hrttvar := (h.absorb r).rttvar_le_maxRto
    rw [RttEstimator.onSampleChecked, habsorb, RttEstimator.onSample]
    generalize m.estimator.absorb (min r maxRto) = e at hrttvar
    have hscaled : Ferrumnet.checked (rtoK * e.rttvar) = some (rtoK * e.rttvar) := by
      refine if_pos ?_
      simp only [rtoK, maxRto, u32Max] at hrttvar ⊢
      omega
    have hsaturated : min (max (min (e.srtt + max (rtoK * e.rttvar) clockGranularity) u32Max) minRto) maxRto =
        min (max (e.srtt + max (rtoK * e.rttvar) clockGranularity) minRto) maxRto := by
      simp only [u32Max, minRto, maxRto]
      omega
    simp only [Option.bind_eq_bind, Option.bind_some, hscaled, hsaturated]
  · have hrto := h.rto_le
    have hdoubled : Ferrumnet.checked (m.estimator.rto * 2) = some (m.estimator.rto * 2) := by
      refine if_pos ?_
      simp only [maxRto, u32Max] at hrto ⊢
      omega
    simp only [RttEstimator.onTimeoutChecked, hdoubled, Option.bind_eq_bind, Option.bind_some, RttEstimator.onTimeout]

theorem within_new : Within new :=
  ⟨by decide, le_rfl, by decide, fun h => absurd h Bool.false_ne_true⟩

/-- In every run the RTO stays in its range and no lower than the RTO before any backoff, the next
call overflows and underflows nowhere, and while a measurement is held SRTT and RTTVAR stay
within the bounds that its samples set. -/
theorem estimator_bounds {events : List RttEvent} {m : Measured} (h : Run.run step new events = some m) :
    (minRto ≤ m.estimator.rtoMicros ∧ m.estimator.rtoMicros ≤ maxRto ∧
      m.estimator.baseRto ≤ m.estimator.rtoMicros) ∧
    (∀ r, m.estimator.onSampleChecked r = some (m.estimator.onSample r)) ∧
    m.estimator.onTimeoutChecked = some m.estimator.onTimeout ∧
    (m.estimator.haveMeasurement = true →
      m.lowest ≤ m.estimator.srtt ∧ m.estimator.srtt ≤ m.highest ∧
        m.estimator.rttvar ≤ max (m.first / 2) (m.highest - m.lowest)) := by
  have hwithin : Within m := Run.run_invariant (fun _ _ _ hi he => hi.step he) within_new h
  refine ⟨⟨hwithin.base_ge.trans hwithin.base_le, hwithin.rto_le, hwithin.base_le⟩, fun r => (hwithin.checked r).1,
    (hwithin.checked 1).2, fun hheld => ?_⟩
  have havg := hwithin.averages hheld
  exact ⟨havg.low_le, havg.le_high, havg.rttvar_le⟩

/-- Two samples, three timeouts, which drop the measurement, and a sample that starts another. -/
theorem estimator_bounds_restart : ∃ m, Run.run step new
      [.sample 100000, .sample 4294967295, .timeout, .timeout, .timeout, .cleanAck, .sample 1, .sample 30] = some m ∧
    m.lowest ≤ m.estimator.srtt ∧ m.estimator.srtt ≤ m.highest :=
  have hrun : Run.run step new [.sample 100000, .sample 4294967295, .timeout, .timeout, .timeout, .cleanAck,
    .sample 1, .sample 30] = some ⟨_, _, _⟩ := rfl
  ⟨_, hrun, ((estimator_bounds hrun).2.2.2 rfl).1, ((estimator_bounds hrun).2.2.2 rfl).2.1⟩

end Measured

end Ferrumnet
