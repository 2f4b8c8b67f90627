import Mathlib.Data.Rat.Floor
import Mathlib.Tactic
import Ferrumnet.Lib.Credit
import Ferrumnet.Congestion

/-
  The scalable controllers (`congestion.rs`): DCTCP, TCP Prague and the learned
  one. Each has Reno's window and loss response, and cuts the window in
  proportion to the fraction of bytes that were CE-marked.

  The source computes the fraction, its average and the cut in `f64`; here they
  are rationals, and nothing is rounded but where the source casts to an integer.

  1. `WindowLaws` — what the connection relies on of every one of them.
  2. `Reno`, `Dctcp`, `Prague`, `Learned` obey these laws.
-/

namespace Ferrumnet

/-- `x as u32`: towards zero, and saturating. -/
def toU32 (x : ℚ) : Nat := min ⌊x⌋.toNat u32Max

/-- DCTCP smoothing weight. -/
def dctcpG : ℚ := 1 / 16

/-- `clamp_f64`. -/
def clamp (x lo hi : ℚ) : ℚ := if x < lo then lo else if x > hi then hi else x

/-! ## What the three have in common -/

/-- The marked fraction, smoothed, and the observation window it is taken over. -/
structure MarkWindow where
  alpha : ℚ
  ackedInWindow : Nat
  markedInWindow : Nat
  /-- Bytes that must be acknowledged to close the window. -/
  windowBytes : Nat
  deriving DecidableEq, Repr

namespace MarkWindow

def new (mss : Nat) : MarkWindow := ⟨1, 0, 0, initialWindow mss⟩

def count (m : MarkWindow) (acked marked : Nat) : MarkWindow :=
  { m with ackedInWindow := min (m.ackedInWindow + acked) u32Max
           markedInWindow := min (m.markedInWindow + min marked acked) u32Max }

/-- The average after the window closes. -/
def nextAlpha (m : MarkWindow) : ℚ :=
  (1 - dctcpG) * m.alpha + dctcpG * (m.markedInWindow / m.ackedInWindow)

end MarkWindow

namespace Reno

/-- The loop of congestion avoidance with a step of its own. -/
def creditBy (step : Nat) : Nat → Reno → Reno
  | 0, c => c
  | fuel + 1, c =>
    if c.caAcc ≥ c.cwnd then
      creditBy step fuel { c with caAcc := c.caAcc - c.cwnd, cwnd := min (c.cwnd + step) u32Max }
    else c

/-- `on_ack` with a step of its own. -/
def onAckBy (c : Reno) (step acked : Nat) : Reno :=
  let c := { c with dupAcks := 0 }
  if acked = 0 then c
  else if c.inSlowStart then { c with cwnd := min (c.cwnd + min acked c.mss) u32Max }
  else
    let c := { c with caAcc := min (c.caAcc + acked) u32Max }
    creditBy step c.caAcc c

/-- The window cut to the fraction that `cut` leaves, at least one segment. -/
def cutBy (c : Reno) (cut : ℚ) : Reno :=
  let w := max (toU32 (c.cwnd * (1 - cut))) c.mss
  { c with cwnd := w, ssthresh := w, caAcc := 0 }

/-- `on_ecn`: count the marks; once the window has closed, refresh the average and,
if it saw a mark, cut. -/
def onEcnBy (c : Reno) (m : MarkWindow) (cut : ℚ → ℚ) (acked marked : Nat) : Reno × MarkWindow :=
  if acked = 0 then (c, m)
  else
    let m := m.count acked marked
    if m.ackedInWindow < m.windowBytes then (c, m)
    else
      let alpha := m.nextAlpha
      (if m.markedInWindow > 0 then c.cutBy (cut alpha) else c,
        { alpha := alpha, ackedInWindow := 0, markedInWindow := 0, windowBytes := max c.cwnd c.mss })

/-- The loss response with a window of its own. -/
def onDupAckTo (c : Reno) (w : Nat) : Reno × Bool :=
  let c := { c with dupAcks := min (c.dupAcks + 1) 255 }
  if c.dupAcks = 3 then ({ c with ssthresh := w, cwnd := w, caAcc := 0 }, true) else (c, false)

end Reno

/-! ## DCTCP -/

structure Dctcp extends Reno, MarkWindow where
  deriving DecidableEq, Repr

namespace Dctcp

def new (mss : Nat) : Dctcp := { toReno := Reno.new mss, toMarkWindow := MarkWindow.new mss }

def onAck (c : Dctcp) (acked : Nat) : Dctcp := { c with toReno := c.toReno.onAck acked }

def onDupAck (c : Dctcp) (flightSize : Nat) : Dctcp × Bool :=
  ({ c with toReno := (c.toReno.onDupAck flightSize).1 }, (c.toReno.onDupAck flightSize).2)

def enterRecovery (c : Dctcp) (flightSize : Nat) : Dctcp :=
  { c with toReno := c.toReno.enterRecovery flightSize }

def onRto (c : Dctcp) (flightSize : Nat) : Dctcp := { c with toReno := c.toReno.onRto flightSize }

def onEcn (c : Dctcp) (acked marked : Nat) : Dctcp :=
  let p := c.toReno.onEcnBy c.toMarkWindow (fun alpha => alpha / 2) acked marked
  { toReno := p.1, toMarkWindow := p.2 }

instance : CongestionControl Dctcp where
  new _ mss := Dctcp.new mss
  cwnd c := c.cwnd
  onAck c _ acked := c.onAck acked
  onDupAck c _ flight := c.onDupAck flight
  enterRecovery c _ flight := c.enterRecovery flight
  onRto c _ flight := c.onRto flight
  onEcn c _ acked marked := c.onEcn acked marked

end Dctcp

/-! ## TCP Prague -/

/-- The reference RTT of the additive increase, in microseconds. -/
def pragueRttRefUs : ℚ := 25000

structure Prague extends Reno, MarkWindow where
  srttUs : Nat
  deriving DecidableEq, Repr

namespace Prague

def new (mss : Nat) : Prague :=
  { toReno := Reno.new mss, toMarkWindow := MarkWindow.new mss, srttUs := 0 }

/-- The additive-increase step; one MSS before the first RTT sample. -/
def aiStep (c : Prague) : Nat :=
  if c.srttUs = 0 then c.mss
  else toU32 (clamp (c.mss * (c.srttUs / pragueRttRefUs)) (max (c.mss / 4) 1 : Nat) (c.mss * 4 : Nat))

def onAck (c : Prague) (acked : Nat) : Prague := { c with toReno := c.toReno.onAckBy c.aiStep acked }

def onDupAck (c : Prague) (flightSize : Nat) : Prague × Bool :=
  ({ c with toReno := (c.toReno.onDupAck flightSize).1 }, (c.toReno.onDupAck flightSize).2)

def enterRecovery (c : Prague) (flightSize : Nat) : Prague :=
  { c with toReno := c.toReno.enterRecovery flightSize }

def onRto (c : Prague) (flightSize : Nat) : Prague := { c with toReno := c.toReno.onRto flightSize }

def onEcn (c : Prague) (acked marked : Nat) : Prague :=
  let p := c.toReno.onEcnBy c.toMarkWindow (fun alpha => alpha / 2) acked marked
  { c with toReno := p.1, toMarkWindow := p.2 }

def onRttSample (c : Prague) (srttUs : Nat) : Prague := { c with srttUs := srttUs }

instance : CongestionControl Prague where
  new _ mss := Prague.new mss
  cwnd c := c.cwnd
  onAck c _ acked := c.onAck acked
  onDupAck c _ flight := c.onDupAck flight
  enterRecovery c _ flight := c.enterRecovery flight
  onRto c _ flight := c.onRto flight
  onEcn c _ acked marked := c.onEcn acked marked
  onRttSample c srtt := c.onRttSample srtt

end Prague

/-! ## The learned controller -/

/-- The gains of the controller. -/
structure LearnedParams where
  aiGain : ℚ
  mdLoss : ℚ
  ecnA : ℚ
  ecnB : ℚ
  ecnMax : ℚ
  deriving DecidableEq, Repr

namespace LearnedParams

/-- The genome the controller ships with. -/
def baked : LearnedParams :=
  { aiGain := 8608600807626614 / 10000000000000000
    mdLoss := 17665019197744708 / 100000000000000000
    ecnA := 18471102809453077 / 100000000000000000
    ecnB := 11656344382528598 / 1000000000000000000
    ecnMax := 6282775233572743 / 10000000000000000 }

/-- Every gene clamped to the range the controller is defined on. -/
def sanitized (p : LearnedParams) : LearnedParams :=
  { aiGain := clamp p.aiGain (1 / 20) 8
    mdLoss := clamp p.mdLoss (1 / 10) (19 / 20)
    ecnA := clamp p.ecnA 0 2
    ecnB := clamp p.ecnB (-1) 2
    ecnMax := clamp p.ecnMax (1 / 20) (19 / 20) }

end LearnedParams

structure Learned extends Reno, MarkWindow where
  p : LearnedParams
  deriving DecidableEq, Repr

namespace Learned

def withRawParams (mss : Nat) (p : LearnedParams) : Learned :=
  { toReno := Reno.new mss, toMarkWindow := MarkWindow.new mss, p := p }

def withParams (mss : Nat) (p : LearnedParams) : Learned := withRawParams mss p.sanitized

def new (mss : Nat) : Learned := withParams mss LearnedParams.baked

/-- The evolved loss response. -/
def lossSsthresh (c : Learned) (flightSize : Nat) : Nat :=
  max (toU32 (flightSize * c.p.mdLoss)) (2 * c.mss)

/-- Bytes added per window of acknowledged bytes, at least one. -/
def step (c : Learned) : Nat := max (toU32 (c.p.aiGain * c.mss)) 1

def onAck (c : Learned) (acked : Nat) : Learned := { c with toReno := c.toReno.onAckBy c.step acked }

def onDupAck (c : Learned) (flightSize : Nat) : Learned × Bool :=
  ({ c with toReno := (c.toReno.onDupAckTo (c.lossSsthresh flightSize)).1 },
    (c.toReno.onDupAckTo (c.lossSsthresh flightSize)).2)

def enterRecovery (c : Learned) (flightSize : Nat) : Learned :=
  let w := c.lossSsthresh flightSize
  { c with ssthresh := w, cwnd := w, caAcc := 0, dupAcks := 0 }

def onRto (c : Learned) (flightSize : Nat) : Learned :=
  { c with ssthresh := c.lossSsthresh flightSize, cwnd := c.mss, caAcc := 0 }

/-- The learned response curve. -/
def cut (c : Learned) (alpha : ℚ) : ℚ :=
  clamp (c.p.ecnA * alpha + c.p.ecnB * alpha * alpha) 0 c.p.ecnMax

def onEcn (c : Learned) (acked marked : Nat) : Learned :=
  let p := c.toReno.onEcnBy c.toMarkWindow c.cut acked marked
  { c with toReno := p.1, toMarkWindow := p.2 }

instance : CongestionControl Learned where
  new _ mss := Learned.new mss
  cwnd c := c.cwnd
  onAck c _ acked := c.onAck acked
  onDupAck c _ flight := c.onDupAck flight
  enterRecovery c _ flight := c.enterRecovery flight
  onRto c _ flight := c.onRto flight
  onEcn c _ acked marked := c.onEcn acked marked

end Learned

/-! ## Windows that fit -/

namespace Reno

open Credit (Till settle buy)

/-- The window is at least one segment, and both are in the range of their types. -/
structure Fit (c : Reno) : Prop where
  mss : c.mss ≤ 65535
  floor : c.mss ≤ c.cwnd
  range : c.cwnd ≤ u32Max

variable {c : Reno}

theorem fit_new {mss : Nat} (h : mss ≤ 65535) : (new mss).Fit := by
  have hw : mss ≤ initialWindow mss ∧ initialWindow mss ≤ u32Max := by
    simp only [initialWindow, u32Max]
    omega
  exact ⟨h, hw.1, hw.2⟩

/-- Reno's loop is the one with a step of one segment. -/
theorem creditLoop_eq (fuel : Nat) (c : Reno) : creditLoop fuel c = creditBy c.mss fuel c := by
  induction fuel generalizing c with
  | zero => rfl
  | succ fuel ih =>
    simp only [creditLoop, creditBy]
    split
    · rw [ih]
    · rfl

theorem onAck_eq (c : Reno) (acked : Nat) : c.onAck acked = c.onAckBy c.mss acked := by
  simp only [onAck, onAckBy]
  split
  · rfl
  · split
    · rfl
    · exact creditLoop_eq ..

/-- The loop only ever adds to the window. -/
theorem Fit.creditBy (h : c.Fit) (step fuel : Nat) :
    (c.creditBy step fuel).Fit ∧ c.cwnd ≤ (c.creditBy step fuel).cwnd := by
  induction fuel generalizing c with
  | zero => exact ⟨h, le_rfl⟩
  | succ fuel ih =>
    simp only [Reno.creditBy]
    split
    · have hle : c.cwnd ≤ min (c.cwnd + step) u32Max := le_min (Nat.le_add_right ..) h.range
      have hfit : Fit { c with caAcc := c.caAcc - c.cwnd, cwnd := min (c.cwnd + step) u32Max } :=
        ⟨h.mss, h.floor.trans hle, min_le_right ..⟩
      obtain ⟨h1, h2⟩ := ih hfit
      exact ⟨h1, hle.trans h2⟩
    · exact ⟨h, le_rfl⟩

/-- So does an ACK. -/
theorem Fit.onAckBy (h : c.Fit) (step acked : Nat) :
    (c.onAckBy step acked).Fit ∧ c.cwnd ≤ (c.onAckBy step acked).cwnd := by
  simp only [Reno.onAckBy]
  split
  · exact ⟨⟨h.mss, h.floor, h.range⟩, le_rfl⟩
  · split
    · have hle : c.cwnd ≤ min (c.cwnd + min acked c.mss) u32Max :=
        le_min (Nat.le_add_right ..) h.range
      exact ⟨⟨h.mss, h.floor.trans hle, min_le_right ..⟩, hle⟩
    · exact Fit.creditBy (c := { c with dupAcks := 0, caAcc := min (c.caAcc + acked) u32Max })
        ⟨h.mss, h.floor, h.range⟩ step _

theorem Fit.onAck (h : c.Fit) (acked : Nat) :
    (c.onAck acked).Fit ∧ c.cwnd ≤ (c.onAck acked).cwnd := by
  rw [onAck_eq]
  exact h.onAckBy c.mss acked

/-! ## The loop as purchases -/

/-- The price of the next step. -/
def raise (step p : Nat) : Nat := min (p + step) u32Max

def till (c : Reno) : Till := ⟨c.caAcc, c.cwnd⟩

def withTill (c : Reno) (t : Till) : Reno := { c with caAcc := t.credit, cwnd := t.price }

theorem creditBy_eq (step fuel : Nat) (c : Reno) :
    creditBy step fuel c = c.withTill (buy (raise step) fuel c.till) := by
  induction fuel generalizing c with
  | zero => rfl
  | succ fuel ih =>
    by_cases h : c.caAcc ≥ c.cwnd
    · rw [creditBy, if_pos h, ih, Credit.buy_pay (t := c.till) h]
      rfl
    · have hset : c.till.Settled := Nat.not_le.mp h
      rw [creditBy, if_neg h, Credit.buy_of_settled hset]
      rfl

/-- Windows of at least `w` bytes. -/
def Wide (w p : Nat) : Prop := 0 < p ∧ w ≤ p ∧ p ≤ u32Max

theorem Wide.raise {w p : Nat} (h : Wide w p) (step : Nat) : 0 < p ∧ Wide w (raise step p) := by
  obtain ⟨h1, h2, h3⟩ := h
  refine ⟨h1, ?_⟩
  simp only [Wide, Reno.raise]
  omega

theorem onAckBy_avoid (step : Nat) {acked : Nat} (h : c.ssthresh ≤ c.cwnd) (hne : acked ≠ 0) : c.onAckBy step acked =
    ({ c with dupAcks := 0 } : Reno).withTill (settle (raise step) ⟨min (c.caAcc + acked) u32Max, c.cwnd⟩) := by
  have hslow : ({ c with dupAcks := 0 } : Reno).inSlowStart = false := decide_eq_false (Nat.not_lt.mpr h)
  simp only [onAckBy, if_neg hne, hslow, Bool.false_eq_true, if_false]
  exact creditBy_eq ..

/-- The loop of congestion avoidance ends by its own condition, and rounds to spare change
nothing. -/
theorem credit_ends (h : c.Fit) (hpos : 1 ≤ c.mss) (step : Nat) {acked : Nat} (hne : acked ≠ 0)
    (hslow : c.inSlowStart = false) :
    (c.onAckBy step acked).caAcc < (c.onAckBy step acked).cwnd ∧
      ∀ fuel, min (c.caAcc + acked) u32Max ≤ fuel →
        creditBy step fuel { c with dupAcks := 0, caAcc := min (c.caAcc + acked) u32Max } = c.onAckBy step acked := by
  have hfloor := h.floor
  have hprice : Wide c.mss c.cwnd := ⟨by omega, hfloor, h.range⟩
  have hP : ∀ q, Wide c.mss q → 0 < q ∧ Wide c.mss (raise step q) := fun _ hq => hq.raise step
  have hack : c.onAckBy step acked = creditBy step (min (c.caAcc + acked) u32Max)
      { c with dupAcks := 0, caAcc := min (c.caAcc + acked) u32Max } := by
    have hslow' : ({ c with dupAcks := 0 } : Reno).inSlowStart = false := hslow
    simp only [onAckBy, if_neg hne, hslow', Bool.false_eq_true, if_false]
  obtain ⟨hset, hmore⟩ := Credit.buy_settled hP (t := ⟨min (c.caAcc + acked) u32Max, c.cwnd⟩) hprice le_rfl
  refine ⟨?_, fun fuel hle => ?_⟩
  · rw [hack, creditBy_eq]
    exact hset
  · obtain ⟨more, rfl⟩ := Nat.exists_eq_add_of_le hle
    rw [hack, creditBy_eq, creditBy_eq]
    exact congrArg _ (hmore more)

/-- The window a loss leaves. -/
theorem Fit.lossWindow (h : c.Fit) {flight : Nat} (hf : flight ≤ u32Max) :
    2 * c.mss ≤ c.lossWindow flight ∧ c.lossWindow flight ≤ u32Max := by
  have := h.mss
  simp only [Reno.lossWindow, u32Max] at hf ⊢
  omega

theorem Fit.toWindow (h : c.Fit) {w : Nat} (h1 : 2 * c.mss ≤ w) (h2 : w ≤ u32Max) (acc dups : Nat) :
    Fit { c with cwnd := w, ssthresh := w, caAcc := acc, dupAcks := dups } :=
  ⟨h.mss, by change c.mss ≤ w; omega, h2⟩

theorem Fit.onDupAckTo (h : c.Fit) {w : Nat} (h1 : 2 * c.mss ≤ w) (h2 : w ≤ u32Max) :
    (c.onDupAckTo w).1.Fit := by
  simp only [Reno.onDupAckTo]
  split
  · exact h.toWindow h1 h2 _ _
  · exact ⟨h.mss, h.floor, h.range⟩

/-- The third duplicate ACK in a row fires, and no other touches the window. -/
theorem onDupAckTo_spec (c : Reno) (w : Nat) :
    (c.onDupAckTo w).2 = decide (c.dupAcks = 2) ∧
      (c.dupAcks ≠ 2 → (c.onDupAckTo w).1.cwnd = c.cwnd) := by
  have hcount : min (c.dupAcks + 1) 255 = 3 ↔ c.dupAcks = 2 := by omega
  simp only [Reno.onDupAckTo, hcount]
  split
  · rename_i h
    exact ⟨(decide_eq_true h).symm, fun hne => absurd h hne⟩
  · rename_i h
    exact ⟨(decide_eq_false h).symm, fun _ => rfl⟩

/-- The duplicate that engages a loss response. -/
theorem onDupAckTo_lost {w f flight : Nat} (h : (if (c.onDupAckTo w).2 = true then some f else none) = some flight) :
    f = flight ∧ (c.onDupAckTo w).1.cwnd = w ∧ (c.onDupAckTo w).1.ssthresh = w := by
  simp only [onDupAckTo] at h ⊢
  split at h
  · rename_i hlost
    cases h
    rw [if_pos hlost]
    exact ⟨rfl, rfl, rfl⟩
  · cases h

theorem Fit.enterRecovery (h : c.Fit) {flight : Nat} (hf : flight ≤ u32Max) :
    (c.enterRecovery flight).Fit :=
  h.toWindow (h.lossWindow hf).1 (h.lossWindow hf).2 0 0

theorem Fit.onRto (h : c.Fit) (flight : Nat) : (c.onRto flight).Fit :=
  ⟨h.mss, le_rfl, by have := h.mss; change c.mss ≤ 4294967295; omega⟩

/-- What is left of a number does not exceed it. -/
theorem toU32_le {n : Nat} {x : ℚ} (h : x ≤ n) : toU32 x ≤ n := by
  have hfloor : ⌊x⌋ ≤ (n : ℤ) := Int.floor_le_iff.mpr (by push_cast; linarith)
  exact (min_le_left ..).trans (by omega)

/-- A cut leaves at most the window there was, and at least one segment. -/
theorem Fit.cutBy (h : c.Fit) {cut : ℚ} (hcut : 0 ≤ cut) :
    (c.cutBy cut).Fit ∧ (c.cutBy cut).cwnd ≤ c.cwnd := by
  have hle : (c.cwnd : ℚ) * (1 - cut) ≤ c.cwnd := by
    have hpos : (0 : ℚ) ≤ c.cwnd * cut := mul_nonneg (Nat.cast_nonneg _) hcut
    linarith
  have hw : max (toU32 (c.cwnd * (1 - cut))) c.mss ≤ c.cwnd := max_le (toU32_le hle) h.floor
  exact ⟨⟨h.mss, le_max_right .., hw.trans h.range⟩, hw⟩

end Reno

namespace MarkWindow

variable {m : MarkWindow}

/-- The average of fractions is not negative. -/
theorem nextAlpha_nonneg (h : 0 ≤ m.alpha) : 0 ≤ m.nextAlpha := by
  have h1 : (0 : ℚ) ≤ (1 - dctcpG) * m.alpha := mul_nonneg (by norm_num [dctcpG]) h
  have h2 : (0 : ℚ) ≤ dctcpG * (m.markedInWindow / m.ackedInWindow) :=
    mul_nonneg (by norm_num [dctcpG]) (by positivity)
  exact add_nonneg h1 h2

end MarkWindow

namespace Reno

variable {c : Reno} {m : MarkWindow}

/-- An ECN event never adds to the window. -/
theorem Fit.onEcnBy (h : c.Fit) (hm : 0 ≤ m.alpha) (cut : ℚ → ℚ) (hcut : ∀ a, 0 ≤ a → 0 ≤ cut a)
    (acked marked : Nat) :
    (c.onEcnBy m cut acked marked).1.Fit ∧ (c.onEcnBy m cut acked marked).1.cwnd ≤ c.cwnd ∧
      0 ≤ (c.onEcnBy m cut acked marked).2.alpha := by
  simp only [Reno.onEcnBy]
  split
  · exact ⟨h, le_rfl, hm⟩
  · split
    · exact ⟨h, le_rfl, hm⟩
    · have halpha : 0 ≤ (m.count acked marked).nextAlpha := MarkWindow.nextAlpha_nonneg hm
      split
      · obtain ⟨h1, h2⟩ := h.cutBy (hcut _ halpha)
        exact ⟨h1, h2, halpha⟩
      · exact ⟨h, le_rfl, halpha⟩

end Reno

/-! ## What the connection relies on -/

/-- A property of controllers that every call of the connection keeps. -/
structure Kept {κ : Type} [CongestionControl κ] (P : κ → Prop) : Prop where
  new : ∀ kind mss, mss ≤ 65535 → P (CongestionControl.new kind mss)
  onAck : ∀ c now n, P c → P (CongestionControl.onAck c now n)
  onDupAck : ∀ c now f, f ≤ u32Max → P c → P (CongestionControl.onDupAck c now f).1
  enterRecovery : ∀ c now f, f ≤ u32Max → P c → P (CongestionControl.enterRecovery c now f)
  onRto : ∀ c now f, P c → P (CongestionControl.onRto c now f)
  onTransmit : ∀ c now q n f b, P c → P (CongestionControl.onTransmit c now q n f b)
  onAckSample : ∀ c now q f n pipe b, P c → P (CongestionControl.onAckSample c now q f n pipe b)
  onEcn : ∀ c now n m, P c → P (CongestionControl.onEcn c now n m)
  onRttSample : ∀ c n, P c → P (CongestionControl.onRttSample c n)

/-- A controller that counts duplicate ACKs and whose window only ACKs of new data
enlarge outside recovery. -/
class WindowLaws (κ : Type) [CongestionControl κ] where
  dupAcks : κ → Nat
  Fit : κ → Prop
  kept : Kept Fit
  fires : ∀ (c : κ) now f, (CongestionControl.onDupAck c now f).2 = decide (dupAcks c = 2)
  quiet : ∀ (c : κ) now f, dupAcks c ≠ 2 →
    CongestionControl.cwnd (CongestionControl.onDupAck c now f).1 = CongestionControl.cwnd c
  onTransmit : ∀ (c : κ) now q n f b,
    CongestionControl.cwnd (CongestionControl.onTransmit c now q n f b) = CongestionControl.cwnd c
  onAckSample : ∀ (c : κ) now q f n pipe b,
    CongestionControl.cwnd (CongestionControl.onAckSample c now q f n pipe b) = CongestionControl.cwnd c
  onEcn : ∀ (c : κ) now n m, Fit c →
    CongestionControl.cwnd (CongestionControl.onEcn c now n m) ≤ CongestionControl.cwnd c
  onRttSample : ∀ (c : κ) n,
    CongestionControl.cwnd (CongestionControl.onRttSample c n) = CongestionControl.cwnd c

theorem Reno.kept : Kept Reno.Fit where
  new _ _ h := Reno.fit_new h
  onAck _ _ n h := (h.onAck n).1
  onDupAck _ _ _ hf h := h.onDupAckTo (h.lossWindow hf).1 (h.lossWindow hf).2
  enterRecovery _ _ _ hf h := h.enterRecovery hf
  onRto _ _ f h := h.onRto f
  onTransmit _ _ _ _ _ _ h := h
  onAckSample _ _ _ _ _ _ _ h := h
  onEcn _ _ _ _ h := h
  onRttSample _ _ h := h

instance : WindowLaws Reno where
  dupAcks c := c.dupAcks
  Fit := Reno.Fit
  kept := Reno.kept
  fires c _ f := (c.onDupAckTo_spec (c.lossWindow f)).1
  quiet c _ f h := (c.onDupAckTo_spec (c.lossWindow f)).2 h
  onTransmit _ _ _ _ _ _ := rfl
  onAckSample _ _ _ _ _ _ _ := rfl
  onEcn _ _ _ _ _ := le_rfl
  onRttSample _ _ := rfl

/-- The cut of DCTCP and Prague. -/
theorem half_nonneg (a : ℚ) (ha : 0 ≤ a) : 0 ≤ (fun alpha : ℚ => alpha / 2) a :=
  div_nonneg ha (by norm_num)

/-- Reno's window fits, and the average is not negative. -/
def Dctcp.Fit (c : Dctcp) : Prop := c.toReno.Fit ∧ 0 ≤ c.alpha

theorem Dctcp.kept : Kept Dctcp.Fit where
  new _ _ h := ⟨Reno.fit_new h, by change (0 : ℚ) ≤ 1; norm_num⟩
  onAck _ _ n h := ⟨(h.1.onAck n).1, h.2⟩
  onDupAck _ _ _ hf h := ⟨h.1.onDupAckTo (h.1.lossWindow hf).1 (h.1.lossWindow hf).2, h.2⟩
  enterRecovery _ _ _ hf h := ⟨h.1.enterRecovery hf, h.2⟩
  onRto _ _ f h := ⟨h.1.onRto f, h.2⟩
  onTransmit _ _ _ _ _ _ h := h
  onAckSample _ _ _ _ _ _ _ h := h
  onEcn _ _ n m h := by
    obtain ⟨h1, -, h3⟩ := h.1.onEcnBy h.2 _ half_nonneg n m
    exact ⟨h1, h3⟩
  onRttSample _ _ h := h

instance : WindowLaws Dctcp where
  dupAcks c := c.dupAcks
  Fit := Dctcp.Fit
  kept := Dctcp.kept
  fires c _ f := (c.toReno.onDupAckTo_spec (c.lossWindow f)).1
  quiet c _ f h := (c.toReno.onDupAckTo_spec (c.lossWindow f)).2 h
  onTransmit _ _ _ _ _ _ := rfl
  onAckSample _ _ _ _ _ _ _ := rfl
  onEcn _ _ n m h := (h.1.onEcnBy h.2 _ half_nonneg n m).2.1
  onRttSample _ _ := rfl

def Prague.Fit (c : Prague) : Prop := c.toReno.Fit ∧ 0 ≤ c.alpha

theorem Prague.kept : Kept Prague.Fit where
  new _ _ h := ⟨Reno.fit_new h, by change (0 : ℚ) ≤ 1; norm_num⟩
  onAck c _ n h := ⟨(h.1.onAckBy c.aiStep n).1, h.2⟩
  onDupAck _ _ _ hf h := ⟨h.1.onDupAckTo (h.1.lossWindow hf).1 (h.1.lossWindow hf).2, h.2⟩
  enterRecovery _ _ _ hf h := ⟨h.1.enterRecovery hf, h.2⟩
  onRto _ _ f h := ⟨h.1.onRto f, h.2⟩
  onTransmit _ _ _ _ _ _ h := h
  onAckSample _ _ _ _ _ _ _ h := h
  onEcn _ _ n m h := by
    obtain ⟨h1, -, h3⟩ := h.1.onEcnBy h.2 _ half_nonneg n m
    exact ⟨h1, h3⟩
  onRttSample _ _ h := h

instance : WindowLaws Prague where
  dupAcks c := c.dupAcks
  Fit := Prague.Fit
  kept := Prague.kept
  fires c _ f := (c.toReno.onDupAckTo_spec (c.lossWindow f)).1
  quiet c _ f h := (c.toReno.onDupAckTo_spec (c.lossWindow f)).2 h
  onTransmit _ _ _ _ _ _ := rfl
  onAckSample _ _ _ _ _ _ _ := rfl
  onEcn _ _ n m h := (h.1.onEcnBy h.2 _ half_nonneg n m).2.1
  onRttSample _ _ := rfl

namespace Learned

/-- The cap of the ECN cut is not negative either. -/
def Fit (c : Learned) : Prop := c.toReno.Fit ∧ 0 ≤ c.alpha ∧ 0 ≤ c.p.ecnMax

variable {c : Learned}

theorem cut_nonneg (h : 0 ≤ c.p.ecnMax) (a : ℚ) : 0 ≤ c.cut a := by
  simp only [cut, clamp]
  split
  · exact le_rfl
  · split
    · exact h
    · rename_i hlt _
      exact not_lt.mp hlt

theorem lossSsthresh_spec (h : c.Fit) (flight : Nat) :
    2 * c.mss ≤ c.lossSsthresh flight ∧ c.lossSsthresh flight ≤ u32Max := by
  refine ⟨le_max_right .., max_le (min_le_right ..) ?_⟩
  have := h.1.mss
  change 2 * c.mss ≤ 4294967295
  omega

theorem kept : Kept Learned.Fit where
  new _ _ h := by
    refine ⟨Reno.fit_new h, ?_, ?_⟩
    · change (0 : ℚ) ≤ 1
      norm_num
    · change (0 : ℚ) ≤ clamp (6282775233572743 / 10000000000000000) (1 / 20) (19 / 20)
      norm_num [clamp]
  onAck c _ n h := ⟨(h.1.onAckBy c.step n).1, h.2⟩
  onDupAck _ _ f _ h := ⟨h.1.onDupAckTo (lossSsthresh_spec h f).1 (lossSsthresh_spec h f).2, h.2⟩
  enterRecovery _ _ f _ h :=
    ⟨h.1.toWindow (lossSsthresh_spec h f).1 (lossSsthresh_spec h f).2 0 0, h.2⟩
  onRto _ _ f h := ⟨⟨h.1.mss, le_rfl, (h.1.onRto f).range⟩, h.2⟩
  onTransmit _ _ _ _ _ _ h := h
  onAckSample _ _ _ _ _ _ _ h := h
  onEcn _ _ n m h := by
    obtain ⟨h1, -, h3⟩ := h.1.onEcnBy h.2.1 _ (fun a _ => cut_nonneg h.2.2 a) n m
    exact ⟨h1, h3, h.2.2⟩
  onRttSample _ _ h := h

instance : WindowLaws Learned where
  dupAcks c := c.dupAcks
  Fit := Learned.Fit
  kept := Learned.kept
  fires c _ f := (c.toReno.onDupAckTo_spec (c.lossSsthresh f)).1
  quiet c _ f h := (c.toReno.onDupAckTo_spec (c.lossSsthresh f)).2 h
  onTransmit _ _ _ _ _ _ := rfl
  onAckSample _ _ _ _ _ _ _ := rfl
  onEcn _ _ n m h := (h.1.onEcnBy h.2.1 _ (fun a _ => cut_nonneg h.2.2 a) n m).2.1
  onRttSample _ _ := rfl

end Learned

end Ferrumnet
