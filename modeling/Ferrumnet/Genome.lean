import Ferrumnet.AckDivision

/-
  The learned controller is safe with every genome.

  `sanitized` clamps the genes, whatever they are, and then each clause of the safety
  envelope rests on one of them or on none: the loss response on `md_loss` being at most
  one, the ECN response on the cut not being negative, and the loop of congestion
  avoidance on its step of at least one byte.

  1. `Sized.loss`, `Sized.ends` — the loss response and the loop.
  2. `genome_safe` — every genome, every run.
-/

namespace Ferrumnet

namespace Learned

variable {c : Learned} {mss : Nat} {p : LearnedParams}

/-- The evolved loss window stays within the pipe, but for the floor. -/
theorem lossSsthresh_le (h : c.p.mdLoss ≤ 1) (flight : Nat) :
    c.lossSsthresh flight ≤ max flight (2 * c.mss) := by
  refine max_le_max (Reno.toU32_le ?_) le_rfl
  calc (flight : ℚ) * c.p.mdLoss ≤ flight * 1 := mul_le_mul_of_nonneg_left h (Nat.cast_nonneg _)
    _ = flight := mul_one _

/-- An engaged loss response. -/
theorem Sized.loss (h : c.Sized mss p) (hp : p.mdLoss ≤ 1) {now : Instant} {e : CcEvent} {flight : Nat}
    (he : (applyCc c now e).2 = some flight) :
    (applyCc c now e).1.cwnd ≤ max flight (2 * mss) ∧ 2 * mss ≤ (applyCc c now e).1.ssthresh := by
  obtain ⟨hfit, hmss, hgenes⟩ := h
  have hw : ∀ f, c.lossSsthresh f ≤ max f (2 * mss) ∧ 2 * mss ≤ c.lossSsthresh f := by
    intro f
    rw [← hmss]
    exact ⟨lossSsthresh_le (hgenes ▸ hp) f, (lossSsthresh_spec hfit f).1⟩
  cases e with
  | ack acked => cases he
  | ecn acked marked => cases he
  | rtt srtt => cases he
  | dupAck f =>
    obtain ⟨rfl, hcwnd, hssthresh⟩ := Reno.onDupAckTo_lost he
    exact ⟨hcwnd.le.trans (hw f).1, (hw f).2.trans hssthresh.ge⟩
  | rto f =>
    cases he
    refine ⟨?_, (hw flight).2⟩
    calc c.mss ≤ 2 * mss := by omega
      _ ≤ max flight (2 * mss) := le_max_right ..
  | enterRecovery f =>
    cases he
    exact hw flight

/-- The loop of congestion avoidance ends by its own condition, and further rounds change
nothing. -/
theorem Sized.ends (h : c.Sized mss p) (hpos : 1 ≤ mss) {acked : Nat} (hne : acked ≠ 0)
    (hslow : c.inSlowStart = false) :
    (c.onAck acked).caAcc < (c.onAck acked).cwnd ∧
      ∀ fuel, min (c.caAcc + acked) u32Max ≤ fuel →
        Reno.creditBy c.step fuel { c.toReno with dupAcks := 0, caAcc := min (c.caAcc + acked) u32Max } =
          (c.onAck acked).toReno :=
  Reno.credit_ends h.1.1 (hpos.trans_eq h.2.1.symm) c.step hne hslow

theorem Sized.safe (h : c.Sized mss p) (hp : p.mdLoss ≤ 1) (now : Instant) {e : CcEvent} (he : e.Fits) :
    CcSafe (fun c : Learned => c.ssthresh) mss c now e := by
  have hnext := Sized.next h now he
  refine ⟨?_, fun flight hf => h.loss hp hf, fun acked marked ha => ?_, fun acked ha => ?_⟩
  · exact hnext.2.1.symm.trans_le hnext.1.1.floor
  · rw [ha]
    exact (h.1.1.onEcnBy h.1.2.1 _ (fun a _ => cut_nonneg h.1.2.2 a) acked marked).2.1
  · rw [ha]
    exact (h.1.1.onAckBy c.step acked).2

/-- Whatever the genome, the controller built from its sanitized form stays in the safety
envelope in every run, and the loop of congestion avoidance ends. -/
theorem genome_safe (p : LearnedParams) {es : List (Instant × CcEvent)} (hpos : 1 ≤ mss) (hmss : mss ≤ 65535)
    (hes : ∀ e ∈ es, e.2.Fits) (hr : Run.run drive (withParams mss p) es = some c) :
    (∀ now e, e.Fits → CcSafe (fun c : Learned => c.ssthresh) mss c now e) ∧
      ∀ acked, acked ≠ 0 → c.inSlowStart = false →
        (c.onAck acked).caAcc < (c.onAck acked).cwnd ∧
          ∀ fuel, min (c.caAcc + acked) u32Max ≤ fuel →
            Reno.creditBy c.step fuel { c.toReno with dupAcks := 0, caAcc := min (c.caAcc + acked) u32Max } =
              (c.onAck acked).toReno := by
  have hI : ∀ (c : Learned) now e, e.Fits → c.Sized mss p.sanitized → (applyCc c now e).1.Sized mss p.sanitized :=
    fun c now e he hc => Sized.next hc now he
  have hc : c.Sized mss p.sanitized := drive_invariant (I := fun c : Learned => c.Sized mss p.sanitized) hI
    (sized_withParams hmss p) hes hr
  have hp : p.sanitized.mdLoss ≤ 1 := by
    calc p.sanitized.mdLoss ≤ 19 / 20 := clamp_le (by norm_num)
      _ ≤ 1 := by norm_num
  exact ⟨fun now e he => Sized.safe hc hp now he, fun acked hne hslow => Sized.ends hc hpos hne hslow⟩

/-- A genome far outside the ranges, after a loss. -/
theorem genome_safe_wild : ∃ c : Learned,
    Run.run drive (withParams 1000 ⟨-5, 7, -3, 100, 40⟩) [(⟨0⟩, .enterRecovery 8000)] = some c ∧ c.cwnd = 7600 ∧
      CcSafe (fun c : Learned => c.ssthresh) 1000 c ⟨0⟩ (.ecn 20000 9000) := by
  have hes : ∀ e ∈ [((⟨0⟩ : Instant), CcEvent.enterRecovery 8000)], e.2.Fits := by
    intro e he
    rw [List.mem_singleton.mp he]
    exact (by decide : (8000 : Nat) ≤ u32Max)
  refine ⟨_, rfl, by decide +kernel, ?_⟩
  exact (genome_safe ⟨-5, 7, -3, 100, 40⟩ (by decide) (by decide) hes rfl).1 _ _
    ⟨(by decide : (20000 : Nat) ≤ u32Max), (by decide : (9000 : Nat) ≤ u32Max)⟩

end Learned

end Ferrumnet
