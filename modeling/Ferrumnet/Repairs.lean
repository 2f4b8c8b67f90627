import Ferrumnet.EcnRound
import Ferrumnet.Synth

/-
  The repairs of a synthesised program are sound for every program.

  A repair overwrites the last instruction of one sub-program, or the whole of it; what
  the output register then holds does not depend on the rest (`eval_set`, `eval_half`).
  What a bound on the output means for the window, the floors and the cap of the
  conversion to bytes decide.

  1. `loss_le`, `half_le_inc`, `ecn_eq` — the output of a repaired sub-program.
  2. `Sound.next` — the ranges, which every program keeps.
  3. `Sound.loss`, `Sound.ack`, `Sound.ecn` — one clause for each repair.
  4. `repairs_sound` — every program, every run.
-/

namespace Ferrumnet

/-! ## The output registers -/

theorem synthGuard_le {v f : ℚ} (hf : 0 ≤ f) (h : v ≤ f) : synthGuard v ≤ f := by
  simp only [synthGuard, clamp]
  split
  · have : (0 : ℚ) ≤ synthCap := by norm_num [synthCap]
    linarith
  · split
    · linarith
    · exact h

theorem le_synthGuard {v f : ℚ} (hf : f ≤ synthCap) (h : f ≤ v) (hpos : 0 ≤ f) : f ≤ synthGuard v := by
  simp only [synthGuard, clamp]
  split
  · have : (0 : ℚ) ≤ synthCap := by norm_num [synthCap]
    linarith
  · split
    · exact hf
    · exact h

theorem synthGuard_of_unit {v : ℚ} (h0 : 0 ≤ v) (h1 : v ≤ 1) : synthGuard v = v := by
  have hcap : (1 : ℚ) ≤ synthCap := by norm_num [synthCap]
  simp only [synthGuard, clamp]
  rw [if_neg (by linarith), if_neg (by linarith)]

/-- An overwritten output reads the register before it and an input, whatever the rest does. -/
theorem eval_set (prog : SubProgram) (op : SynthOp) {b : UInt8} (hb : b.toNat < 8) {inputs : List ℚ}
    (hlen : inputs.length = 8) : ∃ x,
      synthEval (prog.set 7 ⟨op, ControlProgram.outPrev, b⟩) inputs =
        synthGuard (op.apply x (inputs.getD b.toNat 0)) := by
  have hlist : (prog.set 7 ⟨op, ControlProgram.outPrev, b⟩).toList =
      prog.toList.take 7 ++ [⟨op, ControlProgram.outPrev, b⟩] := by
    have hdrop : prog.toList.drop 8 = [] := List.drop_eq_nil_of_le (by simp)
    rw [Vector.toList_set, List.set_eq_take_append_cons_drop, if_pos (by simp), hdrop]
  have hcount : synthRegsIn + synthProgLen - 1 = inputs.length + (prog.toList.take 7).length := by
    rw [hlen, List.length_take, Vector.length_toList]
    rfl
  have hread := Straight.read_run synthMachine (i := b.toNat) (by rw [hlen]; exact hb) (prog.toList.take 7)
  refine ⟨Straight.read synthMachine (Straight.run synthMachine inputs (prog.toList.take 7))
    ControlProgram.outPrev.toNat, ?_⟩
  have hlast := Straight.getD_run_concat synthMachine hcount ⟨op, ControlProgram.outPrev, b⟩
  rw [synthEval, hlist]
  refine hlast.trans ?_
  change synthGuard (op.apply _ (Straight.read synthMachine _ b.toNat)) = _
  rw [hread]
  rfl

/-- The seed that multiplies by one half hands the product on to the output. -/
theorem eval_half {inputs : List ℚ} (hlen : inputs.length = 8) (hhalf : inputs.getD 5 0 = 1 / 2)
    (h0 : 0 ≤ inputs.getD 3 0) (h1 : inputs.getD 3 0 ≤ 1) :
    synthEval (seedProg .mul rAlpha rHalf) inputs = inputs.getD 3 0 / 2 := by
  have hlist : (seedProg .mul rAlpha rHalf).toList = ⟨.mul, 3, 5⟩ ::
      [⟨.max, 8, 8⟩, ⟨.max, 9, 9⟩, ⟨.max, 10, 10⟩, ⟨.max, 11, 11⟩, ⟨.max, 12, 12⟩, ⟨.max, 13, 13⟩, ⟨.max, 14, 14⟩] := by
    decide
  obtain ⟨v, hv⟩ : ∃ v, v = inputs.getD 3 0 / 2 := ⟨_, rfl⟩
  have hself : synthGuard (SynthOp.max.apply v v) = v := by
    have hmax : SynthOp.max.apply v v = v := if_neg (lt_irrefl v)
    rw [hmax]
    exact synthGuard_of_unit (by linarith) (by linarith)
  have hfirst : Straight.exec synthMachine inputs ⟨.mul, 3, 5⟩ = inputs ++ [v] := by
    have hread : ∀ i, i < 8 → Straight.read synthMachine inputs i = inputs.getD i 0 := by
      intro i hi
      rw [Straight.read, hlen, Nat.min_eq_left (by omega)]
      rfl
    change inputs ++ [synthGuard (Straight.read synthMachine inputs 3 * Straight.read synthMachine inputs 5)] = _
    rw [hread 3 (by omega), hread 5 (by omega), hhalf, mul_one_div, ← hv]
    rw [synthGuard_of_unit (by linarith) (by linarith)]
  obtain ⟨rest, hrest⟩ : ∃ rest : List Instr, rest =
      [⟨.max, 8, 8⟩, ⟨.max, 9, 9⟩, ⟨.max, 10, 10⟩, ⟨.max, 11, 11⟩, ⟨.max, 12, 12⟩, ⟨.max, 13, 13⟩, ⟨.max, 14, 14⟩] :=
    ⟨_, rfl⟩
  have hcarry : (Straight.run synthMachine (inputs ++ [v]) rest).getLast? = some v := by
    refine Straight.run_carry synthMachine (List.getLast?_concat ..) fun k ins hk => ?_
    have hshape : ∀ k ins, rest[k]? = some ins → ins = ⟨.max, UInt8.ofNat (8 + k), UInt8.ofNat (8 + k)⟩ ∧ k < 7 := by
      intro k ins hk
      rw [hrest] at hk
      rcases k with _ | _ | _ | _ | _ | _ | _ | k
      all_goals first
        | (cases hk; exact ⟨rfl, by omega⟩)
        | cases hk
    obtain ⟨rfl, hk7⟩ := hshape k ins hk
    have hop : (UInt8.ofNat (8 + k)).toNat = 8 + k := by
      rw [UInt8.toNat_ofNat']
      omega
    have hpos : (inputs ++ [v]).length + k - 1 = 8 + k := by
      rw [List.length_append, hlen, List.length_singleton]
      omega
    rw [hpos]
    exact ⟨hop, hop, hself⟩
  have hlen16 : (Straight.run synthMachine (inputs ++ [v]) rest).length = 16 := by
    rw [Straight.length_run, List.length_append, hlen, hrest]
    rfl
  rw [List.getLast?_eq_getElem?, hlen16] at hcarry
  rw [synthEval, hlist, ← hrest, Straight.run, List.foldl_cons, hfirst, ← Straight.run, List.getD_eq_getElem?_getD]
  rw [← hv]
  exact congrArg (Option.getD · 0) hcarry

/-! ## The conversion to bytes -/

section

variable {v : ℚ} {n floor : Nat}

theorem cap_range : synthCwndCap ≤ u32Max := by decide

theorem synthToCwnd_le (h : v ≤ n) : synthToCwnd v floor ≤ max n floor := by
  simp only [synthToCwnd]
  split
  · exact le_max_right ..
  · refine le_max_of_le_left ?_
    split
    · rename_i hcap
      exact_mod_cast (hcap.le.trans h : (synthCwndCap : ℚ) ≤ n)
    · exact Reno.toU32_le h

theorem le_synthToCwnd (h : n ≤ v) (hn : n ≤ synthCwndCap) : n ≤ synthToCwnd v floor := by
  simp only [synthToCwnd]
  split
  · rename_i hlow
    exact_mod_cast (h.trans hlow.le : (n : ℚ) ≤ floor)
  · split
    · exact hn
    · exact le_toU32 h (hn.trans cap_range)

theorem floor_le_synthToCwnd (h : floor ≤ synthCwndCap) : floor ≤ synthToCwnd v floor := by
  simp only [synthToCwnd]
  split
  · exact le_rfl
  · rename_i hlow
    split
    · exact h
    · exact le_toU32 (not_lt.mp hlow) (h.trans cap_range)

theorem synthToCwnd_le_cap (h : floor ≤ synthCwndCap) : synthToCwnd v floor ≤ synthCwndCap := by
  simp only [synthToCwnd]
  split
  · exact h
  · split
    · exact le_rfl
    · rename_i hcap
      exact Reno.toU32_le (not_lt.mp hcap)

end

namespace Synth

variable {c : Synth} {mss flight acked : Nat} {prog : ControlProgram}

/-! ## Every program -/

/-- The loop of congestion avoidance as purchases. -/
theorem creditTo_eq (step : ℚ) (fuel : Nat) (c : Reno) : creditTo step fuel c =
    c.withTill (Credit.buy (fun q => synthToCwnd (q + step) c.mss) fuel c.till) := by
  induction fuel generalizing c with
  | zero => rfl
  | succ fuel ih =>
    by_cases h : c.caAcc ≥ c.cwnd
    · rw [creditTo, if_pos h, ih, Credit.buy_pay (t := c.till) h]
      rfl
    · have hset : c.till.Settled := Nat.not_le.mp h
      rw [creditTo, if_neg h, Credit.buy_of_settled hset]
      rfl

/-- What every event keeps, whatever the program. -/
structure Sound (mss : Nat) (prog : ControlProgram) (c : Synth) : Prop where
  fit : c.toReno.Fit
  gauged : c.toMarkWindow.Gauged
  size : c.mss = mss
  prog : c.prog = prog

theorem sound_new (h : mss ≤ 65535) (prog : ControlProgram) : Sound mss prog (withProgram mss prog) :=
  ⟨Reno.fit_new h, MarkWindow.gauged_new mss, rfl, rfl⟩

theorem Sound.small (h : Sound mss prog c) : 2 * c.mss ≤ synthCwndCap := by
  have := h.fit.mss
  change 2 * c.mss ≤ 1073741824
  omega

/-- A converted window fits, if its floor is a segment at least. -/
theorem Sound.toWindow (h : Sound mss prog c) {w : Nat} (h1 : c.mss ≤ w) (h2 : w ≤ synthCwndCap) (ss acc dups : Nat) :
    Reno.Fit { c.toReno with cwnd := w, ssthresh := ss, caAcc := acc, dupAcks := dups } :=
  ⟨h.fit.mss, h1, h2.trans cap_range⟩

theorem Sound.lossTarget (h : Sound mss prog c) (flight : Nat) :
    2 * c.mss ≤ c.lossTarget flight ∧ c.lossTarget flight ≤ synthCwndCap :=
  ⟨floor_le_synthToCwnd h.small, synthToCwnd_le_cap h.small⟩

/-- The bytes acknowledged, in slow start and in congestion avoidance. -/
theorem onAck_slow (hne : acked ≠ 0) (hslow : c.inSlowStart = true) : c.onAck acked =
    { c with dupAcks := 0, cwnd := min (c.cwnd + min acked c.mss) u32Max } := by
  have hslow' : ({ c.toReno with dupAcks := 0 } : Reno).inSlowStart = true := hslow
  simp only [onAck, if_neg hne, hslow', if_true]

theorem onAck_avoid (hne : acked ≠ 0) (hslow : c.inSlowStart = false) : c.onAck acked =
    { c with toReno := ({ c.toReno with dupAcks := 0 } : Reno).withTill (Credit.settle
        (fun q => synthToCwnd (q + synthEval c.prog.inc (c.signals c.cwnd acked) * c.mss) c.mss)
        ⟨min (c.caAcc + acked) u32Max, c.cwnd⟩) } := by
  have hslow' : ({ c.toReno with dupAcks := 0 } : Reno).inSlowStart = false := hslow
  simp only [onAck, if_neg hne, hslow', Bool.false_eq_true, if_false]
  exact congrArg (fun r : Reno => { c with toReno := r }) (creditTo_eq ..)

/-- Windows that the loop passes through. -/
theorem Sound.wide (h : Sound mss prog c) (hpos : 1 ≤ mss) (step : ℚ) :
    Reno.Wide c.mss c.cwnd ∧ ∀ q, Reno.Wide c.mss q → 0 < q ∧ Reno.Wide c.mss (synthToCwnd (q + step) c.mss) := by
  have hsmall : c.mss ≤ synthCwndCap := by
    have := h.small
    omega
  have hmss : 0 < c.mss := hpos.trans_eq h.size.symm
  refine ⟨⟨hmss.trans_le h.fit.floor, h.fit.floor, h.fit.range⟩, fun q hq => ⟨hq.1, ?_⟩⟩
  have hfloor : c.mss ≤ synthToCwnd (q + step) c.mss := floor_le_synthToCwnd hsmall
  exact ⟨hmss.trans_le hfloor, hfloor, (synthToCwnd_le_cap hsmall).trans cap_range⟩

theorem Sound.onAck (h : Sound mss prog c) (hpos : 1 ≤ mss) (acked : Nat) : Sound mss prog (c.onAck acked) := by
  by_cases hne : acked = 0
  · rw [hne]
    exact ⟨⟨h.fit.mss, h.fit.floor, h.fit.range⟩, h.gauged, h.size, h.prog⟩
  · cases hslow : c.inSlowStart with
    | true =>
      rw [onAck_slow hne hslow]
      have hle : c.cwnd ≤ min (c.cwnd + min acked c.mss) u32Max := le_min (Nat.le_add_right ..) h.fit.range
      exact ⟨⟨h.fit.mss, h.fit.floor.trans hle, Nat.min_le_right ..⟩, h.gauged, h.size, h.prog⟩
    | false =>
      rw [onAck_avoid hne hslow]
      obtain ⟨hwide, hP⟩ := h.wide hpos (synthEval c.prog.inc (c.signals c.cwnd acked) * c.mss)
      have hprice := Credit.settle_price hP ⟨min (c.caAcc + acked) u32Max, c.cwnd⟩ hwide
      exact ⟨⟨h.fit.mss, hprice.2.1, hprice.2.2⟩, h.gauged, h.size, h.prog⟩

theorem Sound.onEcn (h : Sound mss prog c) (acked marked : Nat) : Sound mss prog (c.onEcn acked marked) := by
  have hcount := h.gauged.count acked marked
  simp only [Synth.onEcn]
  split
  · exact h
  · split
    · exact ⟨h.fit, hcount, h.size, h.prog⟩
    · have hgauged : MarkWindow.Gauged
          { alpha := (c.toMarkWindow.count acked marked).nextAlpha, ackedInWindow := 0, markedInWindow := 0,
            windowBytes := max c.cwnd c.mss } := ⟨hcount.nextAlpha.1, hcount.nextAlpha.2, le_rfl⟩
      split
      · have hsmall : c.mss ≤ synthCwndCap := by
          have := h.small
          omega
        exact ⟨h.toWindow (floor_le_synthToCwnd hsmall) (synthToCwnd_le_cap hsmall) _ _ _, hgauged, h.size, h.prog⟩
      · exact ⟨h.fit, hgauged, h.size, h.prog⟩

theorem Sound.next (h : Sound mss prog c) (hpos : 1 ≤ mss) (now : Instant) (e : CcEvent) :
    Sound mss prog (applyCc c now e).1 := by
  have htarget : ∀ f, c.mss ≤ c.lossTarget f := by
    intro f
    have := (h.lossTarget f).1
    omega
  cases e with
  | ack acked => exact h.onAck hpos acked
  | ecn acked marked => exact h.onEcn acked marked
  | rtt srtt => exact ⟨h.fit, h.gauged, h.size, h.prog⟩
  | dupAck f =>
    refine ⟨?_, h.gauged, (c.toReno.onDupAckTo_frame _).trans h.size, h.prog⟩
    exact h.fit.onDupAckTo (h.lossTarget f).1 ((h.lossTarget f).2.trans cap_range)
  | rto f => exact ⟨⟨h.fit.mss, le_rfl, h.fit.floor.trans h.fit.range⟩, h.gauged, h.size, h.prog⟩
  | enterRecovery f =>
    exact ⟨h.toWindow (htarget f) (h.lossTarget f).2 _ _ _, h.gauged, h.size, h.prog⟩

theorem Sound.run (hpos : 1 ≤ mss) (hmss : mss ≤ 65535) {es : List (Instant × CcEvent)}
    (hr : Run.run drive (withProgram mss prog) es = some c) : Sound mss prog c := by
  refine Run.run_invariant (I := fun c : Synth => Sound mss prog c) (fun c e c' hc hs => ?_) (sound_new hmss prog) hr
  cases hs
  exact hc.next hpos e.1 e.2

/-! ## One clause for each repair -/

theorem getD_signals (c : Synth) (flight acked : Nat) :
    (c.signals flight acked).length = 8 ∧ (c.signals flight acked).getD 1 0 = flight / (max c.mss 1 : Nat) ∧
      (c.signals flight acked).getD 3 0 = c.alpha ∧ (c.signals flight acked).getD 5 0 = 1 / 2 :=
  ⟨rfl, rfl, rfl, rfl⟩

/-- The repaired loss response stays within the pipe, but for the floor. -/
theorem lossTarget_le {p : ControlProgram} (hmd : c.prog.md = p.repairLoss.md) (hpos : 1 ≤ c.mss) (flight : Nat) :
    c.lossTarget flight ≤ max flight (2 * c.mss) := by
  obtain ⟨hlen, hflight, -, -⟩ := c.getD_signals flight 0
  obtain ⟨x, hx⟩ := eval_set p.md .min (b := rFlight) (by decide) hlen
  have hmss : (0 : ℚ) < (max c.mss 1 : Nat) := by
    have : 0 < max c.mss 1 := by omega
    exact_mod_cast this
  have hout : synthEval c.prog.md (c.signals flight 0) ≤ flight / (max c.mss 1 : Nat) := by
    have hmin : ∀ f : ℚ, SynthOp.min.apply x f ≤ f := by
      intro f
      simp only [SynthOp.apply]
      split
      · rename_i hlt
        exact hlt.le
      · exact le_rfl
    rw [hmd]
    refine hx.trans_le (synthGuard_le ?_ ?_)
    · exact hflight ▸ div_nonneg (Nat.cast_nonneg _) hmss.le
    · exact (hmin _).trans_eq hflight
  refine synthToCwnd_le ?_
  have hmax : max c.mss 1 = c.mss := max_eq_left hpos
  rw [hmax] at hout hmss
  calc synthEval c.prog.md (c.signals flight 0) * c.mss ≤ flight / c.mss * c.mss :=
        mul_le_mul_of_nonneg_right hout hmss.le
    _ = flight := div_mul_cancel₀ _ hmss.ne'

theorem Sound.loss (h : Sound mss prog c) (hpos : 1 ≤ mss) {p : ControlProgram} (hmd : prog.md = p.repairLoss.md)
    {now : Instant} {e : CcEvent} {flight : Nat} (he : (applyCc c now e).2 = some flight) :
    (applyCc c now e).1.cwnd ≤ max flight (2 * mss) ∧ 2 * mss ≤ (applyCc c now e).1.ssthresh := by
  have hw : ∀ f, c.lossTarget f ≤ max f (2 * mss) ∧ 2 * mss ≤ c.lossTarget f := by
    intro f
    have hle := lossTarget_le (c := c) (h.prog ▸ hmd) (hpos.trans_eq h.size.symm) f
    rw [h.size] at hle
    exact ⟨hle, h.size ▸ (h.lossTarget f).1⟩
  cases e with
  | ack acked => cases he
  | ecn acked marked => cases he
  | rtt srtt => cases he
  | dupAck f =>
    obtain ⟨rfl, hcwnd, hssthresh⟩ := Reno.onDupAckTo_lost he
    exact ⟨hcwnd.le.trans (hw f).1, (hw f).2.trans hssthresh.ge⟩
  | rto f =>
    cases he
    refine ⟨?_, (hw flight).2⟩
    calc c.mss = mss := h.size
      _ ≤ 2 * mss := by omega
      _ ≤ max flight (2 * mss) := le_max_right ..
  | enterRecovery f =>
    cases he
    exact hw flight

/-- The repaired step is positive, and a window within the cap does not shrink by it. -/
theorem Sound.ack (h : Sound mss prog c) (hpos : 1 ≤ mss) {p : ControlProgram}
    (hinc : prog.inc = p.repairIncrease.inc) (hcap : c.cwnd ≤ synthCwndCap) (acked : Nat) :
    c.cwnd ≤ (c.onAck acked).cwnd := by
  by_cases hne : acked = 0
  · rw [hne]
    exact le_rfl
  · cases hslow : c.inSlowStart with
    | true =>
      rw [onAck_slow hne hslow]
      exact le_min (Nat.le_add_right ..) h.fit.range
    | false =>
      rw [onAck_avoid hne hslow]
      obtain ⟨hlen, -, -, hhalf⟩ := c.getD_signals c.cwnd acked
      obtain ⟨x, hx⟩ := eval_set p.inc .max (b := rHalf) (by decide) hlen
      have hout : 1 / 2 ≤ synthEval c.prog.inc (c.signals c.cwnd acked) := by
        have hmax : ∀ f : ℚ, f ≤ SynthOp.max.apply x f := by
          intro f
          simp only [SynthOp.apply]
          split
          · rename_i hlt
            exact hlt.le
          · exact le_rfl
        rw [h.prog, hinc]
        refine le_of_le_of_eq (le_synthGuard ?_ ?_ ?_) hx.symm
        · norm_num [synthCap]
        · exact hhalf.symm.trans_le (hmax _)
        · norm_num
      generalize hstep : synthEval c.prog.inc (c.signals c.cwnd acked) * c.mss = step
      have hup : (0 : ℚ) ≤ step := by
        rw [← hstep]
        exact mul_nonneg (by linarith) (Nat.cast_nonneg _)
      -- prices within the cap, and those the conversion gives are
      have hsmall := h.small
      have hfloor := h.fit.floor
      have hmss : 0 < c.mss := hpos.trans_eq h.size.symm
      have hP : ∀ q, (0 < q ∧ q ≤ synthCwndCap) → 0 < q ∧ 0 < synthToCwnd (q + step) c.mss ∧
          synthToCwnd (q + step) c.mss ≤ synthCwndCap :=
        fun q hq => ⟨hq.1, hmss.trans_le (floor_le_synthToCwnd (by omega)), synthToCwnd_le_cap (by omega)⟩
      exact Credit.le_settle hP (fun q hq => le_synthToCwnd (by linarith) hq.2)
        ⟨min (c.caAcc + acked) u32Max, c.cwnd⟩ ⟨by dsimp only; omega, hcap⟩

/-- The repaired ECN response cuts by half the average. -/
theorem Sound.ecn (h : Sound mss prog c) (hecn : prog.ecn = ControlProgram.aimd.ecn) (acked marked : Nat) :
    (c.onEcn acked marked).cwnd ≤ c.cwnd := by
  simp only [Synth.onEcn]
  split
  · exact le_rfl
  · split
    · exact le_rfl
    · split
      · have halpha := (h.gauged.count acked marked).nextAlpha
        generalize (c.toMarkWindow.count acked marked).nextAlpha = alpha at halpha ⊢
        obtain ⟨hlen, -, hat, hhalf⟩ := Synth.getD_signals { c with alpha := alpha } c.cwnd 0
        have hcut := eval_half hlen hhalf (halpha.1.trans_eq hat.symm) (hat.trans_le halpha.2)
        have hprog : c.prog.ecn = seedProg .mul rAlpha rHalf := by
          rw [h.prog, hecn]
          rfl
        have hle : (c.cwnd : ℚ) * (1 - synthEval c.prog.ecn ({ c with alpha := alpha }.signals c.cwnd 0)) ≤ c.cwnd := by
          rw [hprog, hcut, hat]
          have hnonneg : (0 : ℚ) ≤ c.cwnd * (alpha / 2) := mul_nonneg (Nat.cast_nonneg _) (by linarith)
          linarith
        exact (synthToCwnd_le hle).trans (max_le le_rfl h.fit.floor)
      · exact le_rfl

/-- Windows and flights below 2^29 bytes. -/
def Below (c : Synth) : CcEvent → Prop
  | .dupAck flight | .rto flight | .enterRecovery flight => c.cwnd < 536870912 ∧ flight < 536870912
  | _ => c.cwnd < 536870912

instance (c : Synth) : (e : CcEvent) → Decidable (c.Below e)
  | .dupAck flight | .rto flight | .enterRecovery flight =>
    inferInstanceAs (Decidable (c.cwnd < 536870912 ∧ flight < 536870912))
  | .ack _ | .ecn .. | .rtt _ => inferInstanceAs (Decidable (c.cwnd < 536870912))

theorem Below.cap {e : CcEvent} (h : c.Below e) : c.cwnd ≤ synthCwndCap := by
  have hlt : c.cwnd < 536870912 := by
    cases e with
    | dupAck f => exact h.1
    | rto f => exact h.1
    | enterRecovery f => exact h.1
    | _ => exact h
  change c.cwnd ≤ 1073741824
  omega

/-- Whatever the program was: with all three repairs every event of every run stays in the
safety envelope, and each repair by itself establishes its own clause and leaves the other
two sub-programs as they were. -/
theorem repairs_sound (p : ControlProgram) (hpos : 1 ≤ mss) (hmss : mss ≤ 65535) :
    (∀ es c, Run.run drive (withProgram mss p.repairLoss.repairIncrease.repairEcn) es = some c →
      ∀ now e, c.Below e → CcSafe (fun c : Synth => c.ssthresh) mss c now e) ∧
    ((∀ es c, Run.run drive (withProgram mss p.repairLoss) es = some c →
      ∀ now e flight, (applyCc c now e).2 = some flight →
        (applyCc c now e).1.cwnd ≤ max flight (2 * mss) ∧ 2 * mss ≤ (applyCc c now e).1.ssthresh) ∧
      p.repairLoss.inc = p.inc ∧ p.repairLoss.ecn = p.ecn) ∧
    ((∀ es c, Run.run drive (withProgram mss p.repairIncrease) es = some c →
      ∀ now acked, c.Below (.ack acked) → c.cwnd ≤ (applyCc c now (.ack acked)).1.cwnd) ∧
      p.repairIncrease.md = p.md ∧ p.repairIncrease.ecn = p.ecn) ∧
    ((∀ es c, Run.run drive (withProgram mss p.repairEcn) es = some c →
      ∀ now acked marked, (applyCc c now (.ecn acked marked)).1.cwnd ≤ c.cwnd) ∧
      p.repairEcn.inc = p.inc ∧ p.repairEcn.md = p.md) := by
  refine ⟨fun es c hr now e hbelow => ?_, ⟨fun es c hr now e flight he => ?_, rfl, rfl⟩,
    ⟨fun es c hr now acked hbelow => ?_, rfl, rfl⟩, fun es c hr now acked marked => ?_, rfl, rfl⟩
  · have hc := Sound.run hpos hmss hr
    have hnext := hc.next hpos now e
    refine ⟨hnext.size.symm.trans_le hnext.fit.floor, fun flight he => hc.loss hpos (p := p) rfl he,
      fun acked marked ha => ?_, fun acked ha => ?_⟩
    · rw [ha]
      exact hc.ecn rfl acked marked
    · rw [ha]
      exact hc.ack hpos (p := p.repairLoss) rfl hbelow.cap acked
  · exact (Sound.run hpos hmss hr).loss hpos (p := p) rfl he
  · exact (Sound.run hpos hmss hr).ack hpos (p := p) rfl hbelow.cap acked
  · exact (Sound.run hpos hmss hr).ecn rfl acked marked

/-- A loss response of twice the flight. -/
def doubling : ControlProgram := { ControlProgram.aimd with md := seedProg .mul rFlight 7 }

/-- Repaired, it leaves the flight. -/
theorem repairs_sound_doubling : ∃ c : Synth,
    Run.run drive (withProgram 1000 doubling.repairLoss.repairIncrease.repairEcn) [(⟨0⟩, .enterRecovery 8000)] = some c ∧
      c.cwnd = 8000 ∧ CcSafe (fun c : Synth => c.ssthresh) 1000 c ⟨1⟩ (.ack 9000) := by
  refine ⟨_, rfl, by decide +kernel, ?_⟩
  exact (repairs_sound doubling (by decide) (by decide)).1 [(⟨0⟩, .enterRecovery 8000)] _ rfl _ _ (by decide +kernel)

end Synth

end Ferrumnet
