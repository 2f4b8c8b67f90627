import Ferrumnet.Driven

/-
  ACK division: what a receiver gains by acknowledging the same bytes in more ACKs.

  In congestion avoidance the bytes acknowledged buy window, a step at the price of one
  window (`creditBy_eq`), so it does not matter in how many parts they come. And as long as
  a step is no more than its price, the window grows by no more than the bytes.

  1. `foldl_avoid` — in congestion avoidance only the total counts.
  2. `onAckBy_le`, `foldl_le` — the byte bound, for a step that a window pays for.
  3. `ack_division` — Reno and DCTCP.
  4. `prague_division`, `learned_division` — where the scaled steps break the bound.
-/

namespace Ferrumnet

open Credit (Till settle buy)

namespace Reno

variable {c : Reno} {step acked : Nat}

/-! ## An ACK -/

theorem onAckBy_slow (step : Nat) (h : c.cwnd < c.ssthresh) (hne : acked ≠ 0) : c.onAckBy step acked =
    { c with dupAcks := 0, cwnd := min (c.cwnd + min acked c.mss) u32Max } := by
  have hslow : ({ c with dupAcks := 0 } : Reno).inSlowStart = true := decide_eq_true h
  simp only [onAckBy, if_neg hne, hslow, if_true]

/-- An ACK moves the window, the accumulator and the count of duplicates only. -/
theorem onAckBy_frame (c : Reno) (step acked : Nat) :
    (c.onAckBy step acked).mss = c.mss ∧ (c.onAckBy step acked).ssthresh = c.ssthresh := by
  by_cases hne : acked = 0
  · rw [hne]
    exact ⟨rfl, rfl⟩
  · rcases Nat.lt_or_ge c.cwnd c.ssthresh with h | h
    · rw [onAckBy_slow step h hne]
      exact ⟨rfl, rfl⟩
    · rw [onAckBy_avoid step h hne]
      exact ⟨rfl, rfl⟩

/-! ## Congestion avoidance -/

/-- Short of saturation, ACKs in turn are deposits in turn. -/
theorem foldl_till (hpos : 0 < c.cwnd) (hrange : c.cwnd ≤ u32Max) (h : c.ssthresh ≤ c.cwnd) {parts : List Nat}
    (hparts : ∀ a ∈ parts, 0 < a) (hsum : c.caAcc + parts.sum ≤ u32Max) :
    (parts.foldl (onAckBy · step) c).till =
      parts.foldl (fun t n => settle (raise step) (t.deposit n)) c.till := by
  induction parts generalizing c with
  | nil => rfl
  | cons a parts ih =>
    rw [List.sum_cons] at hsum
    have hne : a ≠ 0 := Nat.ne_of_gt (hparts a List.mem_cons_self)
    have hcount : min (c.caAcc + a) u32Max = c.caAcc + a := by omega
    have hack := onAckBy_avoid step h hne
    rw [hcount] at hack
    have hP : ∀ p, Wide c.cwnd p → 0 < p ∧ Wide c.cwnd (raise step p) := fun _ hp => hp.raise step
    have hwide : Wide c.cwnd c.cwnd := ⟨hpos, le_rfl, hrange⟩
    have hprice := Credit.settle_price hP ⟨c.caAcc + a, c.cwnd⟩ hwide
    have hcredit := Credit.settle_credit_le hP ⟨c.caAcc + a, c.cwnd⟩ hwide
    rw [List.foldl_cons, List.foldl_cons, hack]
    refine ih hprice.1 hprice.2.2 (h.trans hprice.2.1) (fun b hb => hparts b (List.mem_cons_of_mem a hb)) ?_
    change (settle (raise step) ⟨c.caAcc + a, c.cwnd⟩).credit ≤ c.caAcc + a at hcredit
    change (settle (raise step) ⟨c.caAcc + a, c.cwnd⟩).credit + parts.sum ≤ u32Max
    omega

/-- However the bytes are split, the window and the accumulator end up the same. -/
theorem foldl_avoid (hpos : 0 < c.cwnd) (hrange : c.cwnd ≤ u32Max) (h : c.ssthresh ≤ c.cwnd) {parts : List Nat}
    (hparts : ∀ a ∈ parts, 0 < a) (hsum : c.caAcc + parts.sum ≤ u32Max) :
    (parts.foldl (onAckBy · step) c).till = (c.onAckBy step parts.sum).till := by
  rcases parts.eq_nil_or_concat' with rfl | ⟨front, a, rfl⟩
  · rfl
  · have hne : front ++ [a] ≠ [] := List.concat_ne_nil a front
    have hle : a ≤ (front ++ [a]).sum := List.single_le_sum (fun _ _ => Nat.zero_le _) a (by simp)
    have hpart := hparts a (by simp)
    have hcount : min (c.caAcc + (front ++ [a]).sum) u32Max = c.caAcc + (front ++ [a]).sum := by omega
    rw [foldl_till hpos hrange h hparts hsum, onAckBy_avoid step h (by omega), hcount]
    exact Credit.settle_foldl (P := Wide c.cwnd) (fun _ hp => hp.raise step) hne c.till ⟨hpos, le_rfl, hrange⟩

/-! ## The byte bound -/

/-- In slow start the bytes themselves are the bound; beyond it a window pays for a step. -/
theorem onAckBy_le (hpos : 0 < c.cwnd) (hrange : c.cwnd ≤ u32Max) (hstep : step ≤ max c.cwnd c.ssthresh)
    (acked : Nat) : (c.onAckBy step acked).cwnd + (c.onAckBy step acked).caAcc ≤ c.cwnd + c.caAcc + acked ∧
      c.cwnd ≤ (c.onAckBy step acked).cwnd ∧ (c.onAckBy step acked).cwnd ≤ u32Max := by
  by_cases hne : acked = 0
  · rw [hne]
    exact ⟨le_rfl, le_rfl, hrange⟩
  · rcases Nat.lt_or_ge c.cwnd c.ssthresh with h | h
    · rw [onAckBy_slow step h hne]
      dsimp only
      omega
    · have hwide : Wide c.cwnd c.cwnd := ⟨hpos, le_rfl, hrange⟩
      have hP : ∀ p, Wide c.cwnd p → 0 < p ∧ Wide c.cwnd (raise step p) := fun _ hp => hp.raise step
      have hdouble : ∀ p, Wide c.cwnd p → raise step p ≤ p + p := by
        rintro p ⟨-, hp, -⟩
        simp only [raise]
        omega
      have hle := Credit.settle_le hP hdouble ⟨min (c.caAcc + acked) u32Max, c.cwnd⟩ hwide
      have hprice := Credit.settle_price hP ⟨min (c.caAcc + acked) u32Max, c.cwnd⟩ hwide
      rw [onAckBy_avoid step h hne]
      refine ⟨?_, hprice.2.1, hprice.2.2⟩
      calc _ ≤ c.cwnd + min (c.caAcc + acked) u32Max := hle
        _ ≤ c.cwnd + c.caAcc + acked := by omega

theorem foldl_le (hpos : 0 < c.cwnd) (hrange : c.cwnd ≤ u32Max) (hstep : step ≤ max c.cwnd c.ssthresh)
    (parts : List Nat) : (parts.foldl (onAckBy · step) c).cwnd ≤ c.cwnd + c.caAcc + parts.sum := by
  induction parts generalizing c with
  | nil =>
    change c.cwnd ≤ c.cwnd + c.caAcc + 0
    omega
  | cons a parts ih =>
    obtain ⟨hle, hup, hmax⟩ := onAckBy_le hpos hrange hstep a
    obtain ⟨-, hss⟩ := c.onAckBy_frame step a
    have hrest := ih (c := c.onAckBy step a) (hpos.trans_le hup) hmax (by rw [hss]; omega)
    rw [List.foldl_cons, List.sum_cons]
    omega

/-- Acknowledged byte by byte, slow start is used up to its last byte. -/
theorem foldl_bytes (step : Nat) (hmss : 1 ≤ c.mss) (hss : c.ssthresh ≤ u32Max) {n : Nat} (h : c.cwnd + n ≤ c.ssthresh) :
    ((List.replicate n 1).foldl (onAckBy · step) c).cwnd = c.cwnd + n ∧
      ((List.replicate n 1).foldl (onAckBy · step) c).caAcc = c.caAcc ∧
      ((List.replicate n 1).foldl (onAckBy · step) c).ssthresh = c.ssthresh := by
  induction n generalizing c with
  | zero => exact ⟨rfl, rfl, rfl⟩
  | succ n ih =>
    have hslow : c.cwnd < c.ssthresh := by omega
    have hgrow : min (c.cwnd + min 1 c.mss) u32Max = c.cwnd + 1 := by omega
    have hack := onAckBy_slow step hslow one_ne_zero
    rw [hgrow] at hack
    rw [List.replicate_succ, List.foldl_cons, hack]
    obtain ⟨h1, h2, h3⟩ := ih (c := { c with dupAcks := 0, cwnd := c.cwnd + 1 }) hmss hss
      (by change c.cwnd + 1 + n ≤ c.ssthresh; omega)
    refine ⟨?_, h2, h3⟩
    rw [h1]
    change c.cwnd + 1 + n = c.cwnd + (n + 1)
    omega

/-- With an empty accumulator every split stays within the byte bound exactly if the window
that congestion avoidance starts from pays for a step. -/
theorem bound_iff (hmss : 1 ≤ c.mss) (hpos : 0 < c.cwnd) (hrange : c.cwnd ≤ u32Max) (hacc : c.caAcc = 0)
    (hstep : step ≤ 524280) :
    (∀ parts : List Nat, (∀ a ∈ parts, 0 < a ∧ a ≤ u32Max) →
      (parts.foldl (onAckBy · step) c).cwnd ≤ c.cwnd + parts.sum) ↔ step ≤ max c.cwnd c.ssthresh := by
  constructor
  · intro hall
    by_contra hlt
    have hmax : (u32Max : Nat) = 4294967295 := rfl
    obtain ⟨w, hw⟩ : ∃ w, w = max c.cwnd c.ssthresh := ⟨_, rfl⟩
    -- byte by byte to the end of slow start, then one window at once
    obtain ⟨n, hn⟩ : ∃ n, n = w - c.cwnd := ⟨_, rfl⟩
    have hbytes : ((List.replicate n 1).foldl (onAckBy · step) c).cwnd = w ∧
        ((List.replicate n 1).foldl (onAckBy · step) c).caAcc = 0 ∧
        ((List.replicate n 1).foldl (onAckBy · step) c).ssthresh = c.ssthresh := by
      rcases Nat.lt_or_ge c.cwnd c.ssthresh with h | h
      · obtain ⟨h1, h2, h3⟩ := foldl_bytes (n := n) step hmss (by omega) (by omega)
        exact ⟨by omega, h2.trans hacc, h3⟩
      · have hzero : n = 0 := by omega
        rw [hzero]
        exact ⟨by change c.cwnd = w; omega, hacc, rfl⟩
    obtain ⟨h1, h2, h3⟩ := hbytes
    have hparts : ∀ a ∈ List.replicate n 1 ++ [w], 0 < a ∧ a ≤ u32Max := by
      intro a ha
      rcases List.mem_append.mp ha with ha | ha
      · rw [List.eq_of_mem_replicate ha, hmax]
        omega
      · rw [List.mem_singleton.mp ha]
        omega
    have hle := hall _ hparts
    rw [List.foldl_append, List.sum_append, List.foldl_cons, List.foldl_nil, List.sum_replicate, List.sum_singleton,
      smul_eq_mul, mul_one] at hle
    revert hle h1 h2 h3
    generalize (List.replicate n 1).foldl (onAckBy · step) c = d
    intro h1 h2 h3 hle
    -- the price is paid once, and the window is wider by a whole step
    have hcount : min (d.caAcc + w) u32Max = w := by omega
    have hP : ∀ p, Wide 1 p → 0 < p ∧ Wide 1 (raise step p) := fun _ hp => hp.raise step
    have hbuy : settle (raise step) ⟨w, w⟩ = ⟨0, w + step⟩ := by
      rw [Credit.settle_pay hP (t := ⟨w, w⟩) ⟨by dsimp only; omega, by dsimp only; omega, by dsimp only; omega⟩ le_rfl]
      have hnext : raise step w = w + step := by
        simp only [raise]
        omega
      simp only [Nat.sub_self, hnext]
      exact Credit.settle_of_settled (by change 0 < w + step; omega)
    have hack : d.onAckBy step w = _ := onAckBy_avoid step (by omega) (by omega)
    rw [hcount, h1, hbuy] at hack
    rw [hack] at hle
    change w + step ≤ c.cwnd + (n + w) at hle
    omega
  · intro hle parts hparts
    have hbound := foldl_le hpos hrange hle parts
    omega

end Reno

/-! ## Reno and DCTCP -/

/-- The bytes that an event acknowledges. -/
def CcEvent.acked : CcEvent → Nat
  | .ack acked => acked
  | _ => 0

def total (es : List (Instant × CcEvent)) : Nat := (es.map (·.2.acked)).sum

section

variable {κ : Type} [CongestionControl κ]

/-- One ACK for each part. -/
def acks (c : κ) (now : Instant) (parts : List Nat) : κ :=
  parts.foldl (fun c a => CongestionControl.onAck c now a) c

/-- ACKs are ACKs of the embedded Reno, with a step that they leave alone. -/
theorem acks_fold (reno : κ → Reno) (step : κ → Nat) {now : Instant}
    (hack : ∀ c a, reno (CongestionControl.onAck c now a) = (reno c).onAckBy (step c) a)
    (hstep : ∀ c a, step (CongestionControl.onAck c now a) = step c) (c : κ) (parts : List Nat) :
    reno (acks c now parts) = parts.foldl (Reno.onAckBy · (step c)) (reno c) := by
  induction parts generalizing c with
  | nil => rfl
  | cons a parts ih =>
    have hrest := ih (CongestionControl.onAck c now a)
    rw [hstep, hack] at hrest
    exact hrest

/-- The event engages no loss response, which is what empties the accumulator. -/
def Unlost (c : κ) (e : Instant × CcEvent) : Prop := (applyCc c e.1 e.2).2 = none

instance (c : κ) (e : Instant × CcEvent) : Decidable (Unlost c e) := inferInstanceAs (Decidable (_ = none))

/-- If no event adds more to the window and the accumulator than it acknowledges, no run does. -/
theorem total_le (reno : κ → Reno) {I : κ → Prop} (hI : ∀ c now e, e.Fits → I c → I (applyCc c now e).1)
    (hle : ∀ c now e, I c → (applyCc c now e).2 = none →
      (reno (applyCc c now e).1).cwnd + (reno (applyCc c now e).1).caAcc ≤
        (reno c).cwnd + (reno c).caAcc + e.acked)
    {es : List (Instant × CcEvent)} (hes : ∀ e ∈ es, e.2.Fits) {c d : κ} (hc : I c)
    (halong : Run.Along drive Unlost c es) (hr : Run.run drive c es = some d) :
    (reno d).cwnd + (reno d).caAcc ≤ (reno c).cwnd + (reno c).caAcc + total es := by
  induction es generalizing c with
  | nil =>
    cases hr
    exact le_rfl
  | cons e es ih =>
    have hfirst := hle c e.1 e.2 hc halong.1
    have hrest := ih (fun e he => hes e (List.mem_cons_of_mem _ he)) (hI c e.1 e.2 (hes e List.mem_cons_self) hc)
      (halong.2 _ rfl) hr
    calc _ ≤ _ := hrest
      _ ≤ (reno c).cwnd + (reno c).caAcc + e.2.acked + total es := Nat.add_le_add_right hfirst _
      _ = (reno c).cwnd + (reno c).caAcc + total (e :: es) := by
        rw [total, total, List.map_cons, List.sum_cons, Nat.add_assoc]

end

namespace Reno

variable {c : Reno}

/-- Congestion avoidance, and parts that saturate nothing. -/
structure Divides (c : Reno) (parts : List Nat) : Prop where
  pos : 0 < c.cwnd
  range : c.cwnd ≤ u32Max
  avoid : c.ssthresh ≤ c.cwnd
  positive : ∀ a ∈ parts, 0 < a
  short : c.caAcc + parts.sum ≤ u32Max

theorem acks_eq (c : Reno) (now : Instant) (parts : List Nat) :
    acks c now parts = parts.foldl (onAckBy · c.mss) c :=
  acks_fold (fun c : Reno => c) (·.mss) (fun c a => onAck_eq c a)
    (fun c a => (congrArg Reno.mss (onAck_eq c a)).trans (onAckBy_frame c c.mss a).1) c parts

theorem Divides.acks {parts : List Nat} (h : Divides c parts) (now : Instant) :
    (acks c now parts).till = (c.onAck parts.sum).till := by
  rw [acks_eq, foldl_avoid h.pos h.range h.avoid h.positive h.short, onAck_eq]

/-- An ACK adds to the window and the accumulator no more than its bytes. -/
theorem Fit.onAck_le (h : c.Fit) (hmss : 1 ≤ c.mss) (acked : Nat) :
    (c.onAck acked).cwnd + (c.onAck acked).caAcc ≤ c.cwnd + c.caAcc + acked := by
  have hfloor := h.floor
  rw [onAck_eq]
  exact (onAckBy_le (by omega) h.range (hfloor.trans (le_max_left ..)) acked).1

/-- A duplicate ACK below the threshold adds nothing. -/
theorem onDupAckTo_unlost {w flight : Nat} (h : (if (c.onDupAckTo w).2 then some flight else none) = none) :
    (c.onDupAckTo w).1.cwnd = c.cwnd ∧ (c.onDupAckTo w).1.caAcc = c.caAcc := by
  simp only [onDupAckTo] at h ⊢
  split at h
  · cases h
  · rename_i hne
    rw [if_neg hne]
    exact ⟨rfl, rfl⟩

theorem unlost_le (h : c.Fit) (hmss : 1 ≤ c.mss) (now : Instant) (e : CcEvent) (hlost : (applyCc c now e).2 = none) :
    (applyCc c now e).1.cwnd + (applyCc c now e).1.caAcc ≤ c.cwnd + c.caAcc + e.acked := by
  cases e with
  | ack acked => exact h.onAck_le hmss acked
  | ecn acked marked => exact le_rfl
  | rtt srtt => exact le_rfl
  | dupAck flight =>
    obtain ⟨h1, h2⟩ := onDupAckTo_unlost (c := c) (w := c.lossWindow flight) hlost
    exact (Nat.le_of_eq (congrArg₂ (· + ·) h1 h2)).trans (Nat.le_add_right ..)
  | rto flight => cases hlost
  | enterRecovery flight => cases hlost

theorem onAck_frame (c : Reno) (acked : Nat) : (c.onAck acked).mss = c.mss := by
  rw [onAck_eq]
  exact (onAckBy_frame c c.mss acked).1

theorem onDupAckTo_frame (c : Reno) (w : Nat) : (c.onDupAckTo w).1.mss = c.mss := by
  simp only [onDupAckTo]
  split <;> rfl

theorem mss_applyCc (c : Reno) (now : Instant) (e : CcEvent) : (applyCc c now e).1.mss = c.mss := by
  cases e with
  | ack acked => exact c.onAck_frame acked
  | dupAck flight => exact c.onDupAckTo_frame _
  | _ => rfl

/-- A marked window or not, an ECN event adds nothing. -/
theorem Fit.onEcnBy_le (h : c.Fit) {m : MarkWindow} (hm : 0 ≤ m.alpha) {cut : ℚ → ℚ} (hcut : ∀ a, 0 ≤ a → 0 ≤ cut a)
    (acked marked : Nat) :
    (c.onEcnBy m cut acked marked).1.cwnd + (c.onEcnBy m cut acked marked).1.caAcc ≤ c.cwnd + c.caAcc ∧
      (c.onEcnBy m cut acked marked).1.mss = c.mss := by
  obtain ⟨-, hle, -⟩ := h.onEcnBy hm cut hcut acked marked
  have hacc : (c.onEcnBy m cut acked marked).1.caAcc ≤ c.caAcc ∧ (c.onEcnBy m cut acked marked).1.mss = c.mss := by
    simp only [Reno.onEcnBy]
    split
    · exact ⟨le_rfl, rfl⟩
    · split
      · exact ⟨le_rfl, rfl⟩
      · split
        · exact ⟨Nat.zero_le _, rfl⟩
        · exact ⟨le_rfl, rfl⟩
  exact ⟨Nat.add_le_add hle hacc.1, hacc.2⟩

end Reno

namespace Dctcp

variable {c : Dctcp}

/-- What every event keeps. -/
def Sized (mss : Nat) (c : Dctcp) : Prop := c.Fit ∧ c.mss = mss

theorem Sized.next {mss : Nat} (h : c.Sized mss) (now : Instant) {e : CcEvent} (he : e.Fits) :
    Sized mss (applyCc c now e).1 := by
  refine ⟨Dctcp.kept.applyCc h.1 now he, Eq.trans ?_ h.2⟩
  cases e with
  | ack acked => exact c.toReno.onAck_frame acked
  | ecn acked marked => exact (h.1.1.onEcnBy_le h.1.2 half_nonneg acked marked).2
  | dupAck flight => exact c.toReno.onDupAckTo_frame _
  | _ => rfl

theorem unlost_le (h : c.Fit) (hmss : 1 ≤ c.mss) (now : Instant) (e : CcEvent) (hlost : (applyCc c now e).2 = none) :
    (applyCc c now e).1.cwnd + (applyCc c now e).1.caAcc ≤ c.cwnd + c.caAcc + e.acked := by
  cases e with
  | ack acked => exact h.1.onAck_le hmss acked
  | ecn acked marked => exact (h.1.onEcnBy_le h.2 half_nonneg acked marked).1
  | rtt srtt => exact le_rfl
  | dupAck flight =>
    obtain ⟨h1, h2⟩ := Reno.onDupAckTo_unlost (c := c.toReno) (w := c.lossWindow flight) hlost
    exact (Nat.le_of_eq (congrArg₂ (· + ·) h1 h2)).trans (Nat.le_add_right ..)
  | rto flight => cases hlost
  | enterRecovery flight => cases hlost

theorem acks_toReno (c : Dctcp) (now : Instant) (parts : List Nat) :
    (acks c now parts).toReno = acks c.toReno now parts := by
  rw [Reno.acks_eq]
  exact acks_fold (fun c : Dctcp => c.toReno) (·.mss) (fun c a => Reno.onAck_eq c.toReno a)
    (fun c a => c.toReno.onAck_frame a) c parts

end Dctcp

/-- For Reno and DCTCP, in congestion avoidance only the total of the bytes acknowledged
counts; and as long as no loss empties the accumulator again, the window grows by no more
than that total, in every regime and whatever comes between the ACKs. -/
theorem ack_division (now : Instant) :
    (∀ (c : Reno) (parts : List Nat), c.Divides parts →
      (acks c now parts).cwnd = (c.onAck parts.sum).cwnd ∧ (acks c now parts).caAcc = (c.onAck parts.sum).caAcc) ∧
    (∀ (c : Dctcp) (parts : List Nat), c.toReno.Divides parts →
      (acks c now parts).cwnd = (c.onAck parts.sum).cwnd ∧ (acks c now parts).caAcc = (c.onAck parts.sum).caAcc) ∧
    (∀ (mss : Nat) (past es : List (Instant × CcEvent)) (c d : Reno), 1 ≤ mss → mss ≤ 65535 →
      (∀ e ∈ past ++ es, e.2.Fits) → Run.run drive (Reno.new mss) past = some c → c.caAcc = 0 →
      Run.Along drive Unlost c es → Run.run drive c es = some d → d.cwnd ≤ c.cwnd + total es) ∧
    ∀ (mss : Nat) (past es : List (Instant × CcEvent)) (c d : Dctcp), 1 ≤ mss → mss ≤ 65535 →
      (∀ e ∈ past ++ es, e.2.Fits) → Run.run drive (Dctcp.new mss) past = some c → c.caAcc = 0 →
      Run.Along drive Unlost c es → Run.run drive c es = some d → d.cwnd ≤ c.cwnd + total es := by
  refine ⟨fun c parts h => ?_, fun c parts h => ?_, ?_, ?_⟩
  · have htill := h.acks now
    exact ⟨congrArg Till.price htill, congrArg Till.credit htill⟩
  · have htill := h.acks now
    rw [← Dctcp.acks_toReno] at htill
    exact ⟨congrArg Till.price htill, congrArg Till.credit htill⟩
  · intro mss past es c d h1 h2 hes hpast hacc halong hr
    have hI : ∀ (c : Reno) now e, e.Fits → c.Fit ∧ c.mss = mss →
        (applyCc c now e).1.Fit ∧ (applyCc c now e).1.mss = mss :=
      fun c now e he hc => ⟨Reno.kept.applyCc hc.1 now he, (c.mss_applyCc now e).trans hc.2⟩
    have hc : c.Fit ∧ c.mss = mss := drive_invariant (I := fun c : Reno => c.Fit ∧ c.mss = mss) hI
      ⟨Reno.fit_new h2, rfl⟩ (fun e he => hes e (List.mem_append_left es he)) hpast
    have hle := total_le (fun c : Reno => c) hI
      (fun c now e hc => Reno.unlost_le hc.1 (h1.trans_eq hc.2.symm) now e)
      (fun e he => hes e (List.mem_append_right past he)) hc halong hr
    omega
  · intro mss past es c d h1 h2 hes hpast hacc halong hr
    have hI : ∀ (c : Dctcp) now e, e.Fits → c.Sized mss → (applyCc c now e).1.Sized mss :=
      fun c now e he hc => hc.next now he
    have hc : c.Sized mss := drive_invariant (I := fun c : Dctcp => c.Sized mss) hI
      ⟨Dctcp.kept.new .dctcp mss h2, rfl⟩ (fun e he => hes e (List.mem_append_left es he)) hpast
    have hle := total_le (fun c : Dctcp => c.toReno) hI
      (fun c now e hc => Dctcp.unlost_le hc.1 (h1.trans_eq hc.2.symm) now e)
      (fun e he => hes e (List.mem_append_right past he)) hc halong hr
    omega

/-- Twelve thousand bytes in three parts, after a loss that leaves four segments. -/
theorem ack_division_thirds :
    (acks (⟨4000, 4000, 1000, 0, 0⟩ : Reno) ⟨0⟩ [1000, 5000, 6000]).cwnd =
        (Reno.onAck ⟨4000, 4000, 1000, 0, 0⟩ 12000).cwnd ∧
      (acks (⟨4000, 4000, 1000, 0, 0⟩ : Reno) ⟨0⟩ [1000, 5000, 6000]).caAcc =
        (Reno.onAck ⟨4000, 4000, 1000, 0, 0⟩ 12000).caAcc :=
  (ack_division ⟨0⟩).1 ⟨4000, 4000, 1000, 0, 0⟩ [1000, 5000, 6000]
    ⟨by decide, by decide, by decide, by decide, by decide⟩

/-! ## The scaled steps -/

theorem le_clamp {x lo hi : ℚ} (h : lo ≤ hi) : lo ≤ clamp x lo hi := by
  simp only [clamp]
  split
  · exact le_rfl
  · rename_i hx
    split
    · exact h
    · exact not_lt.mp hx

theorem clamp_le {x lo hi : ℚ} (h : lo ≤ hi) : clamp x lo hi ≤ hi := by
  simp only [clamp]
  split
  · exact h
  · split
    · exact le_rfl
    · rename_i hx
      exact not_lt.mp hx

/-- The split-proof bound: however the bytes are split, the window grows by no more than
their total. -/
def DivisionBound {κ : Type} [CongestionControl κ] (c : κ) (now : Instant) : Prop :=
  ∀ parts : List Nat, (∀ a ∈ parts, 0 < a ∧ a ≤ u32Max) →
    CongestionControl.cwnd (acks c now parts) ≤ CongestionControl.cwnd c + parts.sum

namespace Prague

variable {c : Prague} {mss : Nat}

/-- What every event keeps. -/
def Sized (mss : Nat) (c : Prague) : Prop := c.Fit ∧ c.mss = mss

theorem Sized.next (h : c.Sized mss) (now : Instant) {e : CcEvent} (he : e.Fits) :
    Sized mss (applyCc c now e).1 := by
  refine ⟨Prague.kept.applyCc h.1 now he, Eq.trans ?_ h.2⟩
  cases e with
  | ack acked => exact (c.toReno.onAckBy_frame c.aiStep acked).1
  | ecn acked marked => exact (h.1.1.onEcnBy_le h.1.2 half_nonneg acked marked).2
  | dupAck flight => exact c.toReno.onDupAckTo_frame _
  | _ => rfl

/-- A step is at most four segments. -/
theorem aiStep_le (h : 1 ≤ c.mss) : c.aiStep ≤ c.mss * 4 := by
  rw [aiStep]
  split
  · omega
  · refine Reno.toU32_le (clamp_le ?_)
    exact_mod_cast (by omega : max (c.mss / 4) 1 ≤ c.mss * 4)

theorem acks_toReno (c : Prague) (now : Instant) (parts : List Nat) :
    (acks c now parts).toReno = parts.foldl (Reno.onAckBy · c.aiStep) c.toReno := by
  -- the step depends on the segment size and the RTT, which an ACK leaves alone
  have hstep : ∀ (c : Prague) a, (c.onAck a).aiStep = c.aiStep := by
    intro c a
    have hmss : (c.onAck a).mss = c.mss := (c.toReno.onAckBy_frame c.aiStep a).1
    simp only [aiStep, hmss]
    rfl
  exact acks_fold (fun c : Prague => c.toReno) aiStep (fun _ _ => rfl) hstep c parts

theorem division_iff (h : c.Sized mss) (h1 : 1 ≤ mss) (hacc : c.caAcc = 0) (now : Instant) :
    DivisionBound c now ↔ c.aiStep ≤ max c.cwnd c.ssthresh := by
  have hmss : 1 ≤ c.mss := h1.trans_eq h.2.symm
  have hfit := h.1.1
  have hstep := (aiStep_le hmss).trans (Nat.mul_le_mul_right 4 hfit.mss)
  have hfloor := hfit.floor
  rw [← Reno.bound_iff hmss (by omega) hfit.range hacc (by omega)]
  refine forall₂_congr fun parts _ => ?_
  change (acks c now parts).toReno.cwnd ≤ _ ↔ _
  rw [acks_toReno]
  exact Iff.rfl

end Prague

namespace Learned

variable {c : Learned} {mss : Nat} {p : LearnedParams}

/-- What every event keeps. -/
def Sized (mss : Nat) (p : LearnedParams) (c : Learned) : Prop := c.Fit ∧ c.mss = mss ∧ c.p = p

theorem sized_withParams (h : mss ≤ 65535) (p : LearnedParams) : Sized mss p.sanitized (withParams mss p) := by
  refine ⟨⟨Reno.fit_new h, ?_, ?_⟩, rfl, rfl⟩
  · change (0 : ℚ) ≤ 1
    norm_num
  · calc (0 : ℚ) ≤ 1 / 20 := by norm_num
      _ ≤ p.sanitized.ecnMax := le_clamp (by norm_num)

theorem Sized.next (h : c.Sized mss p) (now : Instant) {e : CcEvent} (he : e.Fits) :
    Sized mss p (applyCc c now e).1 := by
  refine ⟨Learned.kept.applyCc h.1 now he, Eq.trans ?_ h.2.1, Eq.trans ?_ h.2.2⟩
  · cases e with
    | ack acked => exact (c.toReno.onAckBy_frame c.step acked).1
    | ecn acked marked => exact (h.1.1.onEcnBy_le h.1.2.1 (fun a _ => cut_nonneg h.1.2.2 a) acked marked).2
    | dupAck flight => exact c.toReno.onDupAckTo_frame _
    | _ => rfl
  · cases e with
    | _ => rfl

/-- A step is at most eight segments. -/
theorem step_le (h : 1 ≤ c.mss) (hp : c.p.aiGain ≤ 8) : c.step ≤ 8 * c.mss := by
  refine max_le (Reno.toU32_le ?_) (by omega)
  push_cast
  exact mul_le_mul_of_nonneg_right hp (Nat.cast_nonneg _)

theorem acks_toReno (c : Learned) (now : Instant) (parts : List Nat) :
    (acks c now parts).toReno = parts.foldl (Reno.onAckBy · c.step) c.toReno := by
  have hstep : ∀ (c : Learned) a, (c.onAck a).step = c.step := by
    intro c a
    have hmss : (c.onAck a).mss = c.mss := (c.toReno.onAckBy_frame c.step a).1
    simp only [step, hmss]
    rfl
  exact acks_fold (fun c : Learned => c.toReno) step (fun _ _ => rfl) hstep c parts

theorem division_iff (h : c.Sized mss p) (h1 : 1 ≤ mss) (hp : p.aiGain ≤ 8) (hacc : c.caAcc = 0) (now : Instant) :
    DivisionBound c now ↔ c.step ≤ max c.cwnd c.ssthresh := by
  have hmss : 1 ≤ c.mss := h1.trans_eq h.2.1.symm
  have hfit := h.1.1
  have hstep := (step_le hmss (h.2.2 ▸ hp)).trans (Nat.mul_le_mul_left 8 hfit.mss)
  have hfloor := hfit.floor
  rw [← Reno.bound_iff hmss (by omega) hfit.range hacc (by omega)]
  refine forall₂_congr fun parts _ => ?_
  change (acks c now parts).toReno.cwnd ≤ _ ↔ _
  rw [acks_toReno]
  exact Iff.rfl

end Learned

/-- For Prague and the learned controller, whatever the RTT and the genome: from a reachable
state with an empty accumulator the byte bound holds of every split exactly if the window
that congestion avoidance starts from is at least a step. -/
theorem scaled_division (now : Instant) :
    (∀ (mss : Nat) (past : List (Instant × CcEvent)) (c : Prague), 1 ≤ mss → mss ≤ 65535 →
      (∀ e ∈ past, e.2.Fits) → Run.run drive (Prague.new mss) past = some c → c.caAcc = 0 →
      (DivisionBound c now ↔ c.aiStep ≤ max c.cwnd c.ssthresh)) ∧
    ∀ (mss : Nat) (p : LearnedParams) (past : List (Instant × CcEvent)) (c : Learned), 1 ≤ mss → mss ≤ 65535 →
      (∀ e ∈ past, e.2.Fits) → Run.run drive (Learned.withParams mss p) past = some c → c.caAcc = 0 →
      (DivisionBound c now ↔ c.step ≤ max c.cwnd c.ssthresh) := by
  refine ⟨fun mss past c h1 h2 hes hr hacc => ?_, fun mss p past c h1 h2 hes hr hacc => ?_⟩
  · have hI : ∀ (c : Prague) now e, e.Fits → c.Sized mss → (applyCc c now e).1.Sized mss :=
      fun c now e he hc => hc.next now he
    have hc : c.Sized mss := drive_invariant (I := fun c : Prague => c.Sized mss) hI
      ⟨Prague.kept.new .prague mss h2, rfl⟩ hes hr
    exact Prague.division_iff hc h1 hacc now
  · have hI : ∀ (c : Learned) now e, e.Fits → c.Sized mss p.sanitized → (applyCc c now e).1.Sized mss p.sanitized :=
      fun c now e he hc => hc.next now he
    have hc : c.Sized mss p.sanitized := drive_invariant (I := fun c : Learned => c.Sized mss p.sanitized) hI
      (Learned.sized_withParams h2 p) hes hr
    exact Learned.division_iff hc h1 (clamp_le (by norm_num)) hacc now

/-- Prague at an RTT of a tenth of a second, and the window that a timeout and one ACK leave
it at. -/
theorem scaled_division_slow : ∃ c : Prague,
    Run.run drive (Prague.new 1000) [(⟨0⟩, .rtt 100000), (⟨0⟩, .rto 0)] = some c ∧ c.cwnd = 1000 ∧
      (DivisionBound c ⟨0⟩ ↔ c.aiStep ≤ max c.cwnd c.ssthresh) := by
  have hes : ∀ e ∈ [((⟨0⟩ : Instant), CcEvent.rtt 100000), (⟨0⟩, .rto 0)], e.2.Fits := by
    intro e he
    rw [List.mem_cons, List.mem_singleton] at he
    cases he with
    | inl he =>
      rw [he]
      exact (by decide : (100000 : Nat) ≤ u32Max)
    | inr he =>
      rw [he]
      exact (by decide : (0 : Nat) ≤ u32Max)
  refine ⟨_, rfl, rfl, ?_⟩
  exact (scaled_division ⟨0⟩).1 1000 _ _ (by decide) (by decide) hes rfl rfl

/-- A loss with nothing in flight leaves two segments. Then two segments acknowledged add
four to Prague's window at an RTT of a tenth of a second, and eight to a window that learned
the largest gain. -/
theorem scaled_amplified :
    (∃ c : Prague, Run.run drive (Prague.new 1000) [(⟨0⟩, .rtt 100000), (⟨0⟩, .enterRecovery 0)] = some c ∧
      c.caAcc = 0 ∧ c.cwnd = 2000 ∧ c.cwnd + [2000].sum < (acks c ⟨0⟩ [2000]).cwnd) ∧
    ∃ c : Learned,
      Run.run drive (Learned.withParams 1000 ⟨8, 1 / 2, 1 / 2, 0, 1 / 2⟩) [(⟨0⟩, .enterRecovery 0)] = some c ∧
        c.caAcc = 0 ∧ c.cwnd = 2000 ∧ c.cwnd + [2000].sum < (acks c ⟨0⟩ [2000]).cwnd := by
  refine ⟨⟨_, rfl, ?_, ?_, ?_⟩, _, rfl, ?_, ?_, ?_⟩
  all_goals decide +kernel

end Ferrumnet
