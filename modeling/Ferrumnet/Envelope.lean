import Ferrumnet.Lib.Run
import Ferrumnet.Scalable

/-
  The safety envelope of Reno (`cc_safety_invariants` of `bmc.rs`), over runs of any
  length with any byte counts.

  `applyCc` feeds a controller one event and says whether a loss response engaged.
  What keeps the window positive, and so lets the loop of congestion avoidance end,
  is the floor of one segment (`Tame`).

  1. `creditLoop_le` — the loop leaves the other fields alone; that it ends is `credit_ends`.
  2. `tame_next`, `envelope` — one event.
  3. `reno_envelope` — every run.
-/

namespace Ferrumnet

/-- An event the connection can deliver to a controller. -/
inductive CcEvent where
  | ack (acked : Nat)
  | ecn (acked marked : Nat)
  | rtt (srtt : Nat)
  | dupAck (flight : Nat)
  | rto (flight : Nat)
  | enterRecovery (flight : Nat)
  deriving DecidableEq, Repr

/-- The counts are `u32`. -/
def CcEvent.Fits : CcEvent → Prop
  | .ack acked => acked ≤ u32Max
  | .ecn acked marked => acked ≤ u32Max ∧ marked ≤ u32Max
  | .rtt srtt => srtt ≤ u32Max
  | .dupAck flight | .rto flight | .enterRecovery flight => flight ≤ u32Max

/-- Apply one event; `some flight` if it engaged the loss response. -/
def applyCc {κ : Type} [CongestionControl κ] (c : κ) (now : Instant) : CcEvent → κ × Option Nat
  | .ack acked => (CongestionControl.onAck c now acked, none)
  | .ecn acked marked => (CongestionControl.onEcn c now acked marked, none)
  | .rtt srtt => (CongestionControl.onRttSample c srtt, none)
  | .dupAck flight =>
    let p := CongestionControl.onDupAck c now flight
    (p.1, if p.2 then some flight else none)
  | .rto flight => (CongestionControl.onRto c now flight, some flight)
  | .enterRecovery flight => (CongestionControl.enterRecovery c now flight, some flight)

namespace Reno

/-- Events in turn, each at a time of its own. -/
def ccStep (c : Reno) (e : Instant × CcEvent) : Option Reno := some (applyCc c e.1 e.2).1

/-! ## The loop of congestion avoidance -/

theorem creditLoop_le (fuel : Nat) (c : Reno) : (creditLoop fuel c).caAcc ≤ c.caAcc ∧
    (creditLoop fuel c).ssthresh = c.ssthresh ∧ (creditLoop fuel c).dupAcks = c.dupAcks ∧
      (creditLoop fuel c).mss = c.mss := by
  induction fuel generalizing c with
  | zero => exact ⟨le_rfl, rfl, rfl, rfl⟩
  | succ fuel ih =>
    rw [creditLoop]
    split
    · obtain ⟨h1, h2⟩ := ih { c with caAcc := c.caAcc - c.cwnd, cwnd := min (c.cwnd + c.mss) u32Max }
      exact ⟨h1.trans (Nat.sub_le ..), h2⟩
    · exact ⟨le_rfl, rfl, rfl, rfl⟩

/-! ## One event -/

/-- The window is at least one segment, and every field is in the range of its type. -/
structure Tame (size : Nat) (c : Reno) : Prop extends c.Fit where
  size : c.mss = size
  ssthresh : c.ssthresh ≤ u32Max
  caAcc : c.caAcc ≤ u32Max
  dupAcks : c.dupAcks ≤ 255

variable {mss : Nat} {c : Reno}

theorem tame_new (h : mss ≤ 65535) : Tame mss (Reno.new mss) :=
  ⟨fit_new h, rfl, le_rfl, Nat.zero_le _, Nat.zero_le _⟩

/-- A window that fits, with the other fields in range. -/
theorem Fit.tame {d : Reno} (hfit : d.Fit)
    (h : d.mss = mss ∧ d.ssthresh ≤ u32Max ∧ d.caAcc ≤ u32Max ∧ d.dupAcks ≤ 255) : Tame mss d :=
  ⟨hfit, h.1, h.2.1, h.2.2.1, h.2.2.2⟩

theorem Tame.onAck (h : Tame mss c) (acked : Nat) : Tame mss (c.onAck acked) := by
  apply (h.toFit.onAck acked).1.tame
  simp only [Reno.onAck]
  split
  · exact ⟨h.size, h.ssthresh, h.caAcc, Nat.zero_le _⟩
  · split
    · exact ⟨h.size, h.ssthresh, h.caAcc, Nat.zero_le _⟩
    · obtain ⟨h1, h2, h3, h4⟩ := creditLoop_le (min (c.caAcc + acked) u32Max)
        { c with dupAcks := 0, caAcc := min (c.caAcc + acked) u32Max }
      exact ⟨h4.trans h.size, h2.trans_le h.ssthresh, h1.trans (Nat.min_le_right ..),
        h3.trans_le (Nat.zero_le _)⟩

theorem Tame.onDupAck (h : Tame mss c) {flight : Nat} (hf : flight ≤ u32Max) : Tame mss (c.onDupAck flight).1 := by
  have hw := h.toFit.lossWindow hf
  apply Fit.tame (h.toFit.onDupAckTo hw.1 hw.2)
  change (c.onDupAck flight).1.mss = mss ∧ (c.onDupAck flight).1.ssthresh ≤ u32Max ∧
    (c.onDupAck flight).1.caAcc ≤ u32Max ∧ (c.onDupAck flight).1.dupAcks ≤ 255
  simp only [Reno.onDupAck]
  split
  · exact ⟨h.size, hw.2, Nat.zero_le _, Nat.min_le_right ..⟩
  · exact ⟨h.size, h.ssthresh, h.caAcc, Nat.min_le_right ..⟩

/-- No event leaves the ranges. -/
theorem Tame.next (h : Tame mss c) (now : Instant) {e : CcEvent} (he : e.Fits) : Tame mss (applyCc c now e).1 := by
  cases e with
  | ack acked => exact h.onAck acked
  | ecn acked marked => exact h
  | rtt srtt => exact h
  | dupAck flight => exact h.onDupAck he
  | rto flight =>
    have hw := h.toFit.lossWindow he
    exact ⟨h.toFit.onRto flight, h.size, hw.2, Nat.zero_le _, h.dupAcks⟩
  | enterRecovery flight =>
    have hw := h.toFit.lossWindow he
    exact ⟨h.toFit.enterRecovery he, h.size, hw.2, Nat.zero_le _, Nat.zero_le _⟩

/-- What one event from `c` may do. -/
structure Envelope (mss : Nat) (c : Reno) (now : Instant) (e : CcEvent) : Prop where
  /-- Starvation-freedom. -/
  floor : mss ≤ (applyCc c now e).1.cwnd
  /-- An engaged loss response stays within the pipe. -/
  loss : ∀ flight, (applyCc c now e).2 = some flight →
    (applyCc c now e).1.cwnd ≤ max flight (2 * mss) ∧ 2 * mss ≤ (applyCc c now e).1.ssthresh
  ack : ∀ acked, e = .ack acked → c.cwnd ≤ (applyCc c now e).1.cwnd
  ecn : ∀ acked marked, e = .ecn acked marked → (applyCc c now e).1.cwnd ≤ c.cwnd
  /-- The loop ends: it stops by its own condition, however many rounds it is given beyond
  the credit there is. -/
  ends : ∀ acked, e = .ack acked → acked ≠ 0 → c.inSlowStart = false →
    (applyCc c now e).1.caAcc < (applyCc c now e).1.cwnd ∧
      ∀ fuel, min (c.caAcc + acked) u32Max ≤ fuel →
        creditLoop fuel { c with dupAcks := 0, caAcc := min (c.caAcc + acked) u32Max } = (applyCc c now e).1
  /-- Nothing overflows. -/
  range : (applyCc c now e).1.cwnd ≤ u32Max ∧ (applyCc c now e).1.ssthresh ≤ u32Max ∧
    (applyCc c now e).1.caAcc ≤ u32Max ∧ (applyCc c now e).1.dupAcks ≤ 255 ∧ 10 * mss ≤ u32Max

theorem Tame.loss (h : Tame mss c) {now : Instant} {e : CcEvent} {flight : Nat}
    (he : (applyCc c now e).2 = some flight) :
    (applyCc c now e).1.cwnd ≤ max flight (2 * mss) ∧ 2 * mss ≤ (applyCc c now e).1.ssthresh := by
  have hw : ∀ f, c.lossWindow f ≤ max f (2 * mss) ∧ 2 * mss ≤ c.lossWindow f := by
    intro f
    have := h.size
    simp only [Reno.lossWindow]
    omega
  cases e with
  | ack acked => cases he
  | ecn acked marked => cases he
  | rtt srtt => cases he
  | dupAck f =>
    obtain ⟨rfl, hcwnd, hssthresh⟩ := Reno.onDupAckTo_lost he
    exact ⟨hcwnd.le.trans (hw f).1, (hw f).2.trans hssthresh.ge⟩
  | rto f =>
    cases he
    have := h.size
    exact ⟨(by omega : c.mss ≤ 2 * mss).trans (le_max_right ..), (hw flight).2⟩
  | enterRecovery f =>
    cases he
    exact hw flight

theorem Tame.ends (h : Tame mss c) (hpos : 1 ≤ mss) {now : Instant} {acked : Nat} (hne : acked ≠ 0)
    (hslow : c.inSlowStart = false) :
    (applyCc c now (.ack acked)).1.caAcc < (applyCc c now (.ack acked)).1.cwnd ∧
      ∀ fuel, min (c.caAcc + acked) u32Max ≤ fuel →
        creditLoop fuel { c with dupAcks := 0, caAcc := min (c.caAcc + acked) u32Max } =
          (applyCc c now (.ack acked)).1 := by
  have hends := credit_ends h.toFit (hpos.trans_eq h.size.symm) c.mss hne hslow
  rw [← onAck_eq] at hends
  refine ⟨hends.1, fun fuel hle => ?_⟩
  rw [creditLoop_eq]
  exact hends.2 fuel hle

/-- Every event stays in the envelope. -/
theorem Tame.envelope (h : Tame mss c) (hpos : 1 ≤ mss) (now : Instant) {e : CcEvent} (he : e.Fits) :
    Envelope mss c now e := by
  have hnext := h.next now he
  have hmss := h.mss
  rw [h.size] at hmss
  refine ⟨?_, fun flight => h.loss, ?_, ?_, ?_, hnext.range, hnext.ssthresh, hnext.caAcc, hnext.dupAcks, ?_⟩
  · rw [← hnext.size]
    exact hnext.floor
  · intro acked ha
    rw [ha]
    exact (h.toFit.onAck acked).2
  · intro acked marked ha
    rw [ha]
    exact le_rfl
  · intro acked ha hne hslow
    rw [ha]
    exact h.ends hpos hne hslow
  · simp only [u32Max]
    omega

/-! ## Every run -/

/-- Reno stays in the envelope in every run. -/
theorem reno_envelope {es : List (Instant × CcEvent)} (hpos : 1 ≤ mss) (hmss : mss ≤ 65535)
    (hes : ∀ e ∈ es, e.2.Fits) (hr : Run.run ccStep (Reno.new mss) es = some c) {now : Instant} {e : CcEvent}
    (he : e.Fits) : Envelope mss c now e := by
  refine Tame.envelope ?_ hpos now he
  have hfits : Run.Along ccStep (fun _ e => e.2.Fits) (Reno.new mss) es := Run.along_of_forall hes _
  refine Run.run_invariant_along (I := Tame mss) (fun c e c' hc hf hs => ?_) (tame_new hmss) hfits hr
  cases hs
  exact hc.next e.1 hf

/-- A timeout with more in flight than the window, and an ACK in congestion avoidance. -/
theorem reno_envelope_stale : ∃ c : Reno,
    Run.run ccStep (Reno.new 1000) [(⟨0⟩, .rto 40000), (⟨0⟩, .enterRecovery 4000)] = some c ∧
      Envelope 1000 c ⟨0⟩ (.ack 5000) := by
  have hes : ∀ e ∈ [((⟨0⟩ : Instant), CcEvent.rto 40000), (⟨0⟩, .enterRecovery 4000)], e.2.Fits := by
    intro e he
    rw [List.mem_cons, List.mem_singleton] at he
    cases he with
    | inl he =>
      rw [he]
      exact (by decide : (40000 : Nat) ≤ u32Max)
    | inr he =>
      rw [he]
      exact (by decide : (4000 : Nat) ≤ u32Max)
  exact ⟨_, rfl, reno_envelope (by decide) (by decide) hes rfl (by decide : (5000 : Nat) ≤ u32Max)⟩

end Reno

end Ferrumnet
