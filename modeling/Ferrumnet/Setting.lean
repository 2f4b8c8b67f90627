import Ferrumnet.Outcome

/-
  What no received segment and no timer touches: the bucket of pacing, which only
  transmissions count, and the two endpoints, which nothing changes.

  1. `fixture_acks`, `fixture_onText` — ACK processing and what follows it leave the
     count of challenge ACKs and the owed RST alone as well.
  2. `setting_onSegment`, `setting_onTimer`.
-/

namespace Ferrumnet

namespace Tcb

variable {κ : Type} [CongestionControl κ] (t : Tcb κ) (now : Instant)

/-- The bucket, when it was counted, the timer of pacing, and the endpoints. -/
def setting (t : Tcb κ) : Nat × Instant × Option Instant × Endpoint × Endpoint :=
  (t.paceTokens, t.paceLast, t.paceDeadline, t.localEnd, t.remote)

/-- The same, the count of challenge ACKs, and the owed RST. -/
def fixture (t : Tcb κ) :
    (Nat × Instant × Option Instant × Endpoint × Endpoint) × Instant × Nat × Option SeqNumber :=
  (t.setting, t.challengeWindowStart, t.challengeCount, t.pendingReset)

/-! ## The stages of a segment -/

omit [CongestionControl κ] in
theorem fixture_advanceTsRecent (p : TcpPacket) : (t.advanceTsRecent p).fixture = t.fixture := by
  simp only [advanceTsRecent]
  split
  · split <;> rfl
  · rfl

omit [CongestionControl κ] in
theorem fixture_updateWindow (q a : SeqNumber) (w : Nat) :
    (t.updateWindow q a w).fixture = t.fixture := by
  simp only [updateWindow]
  split <;> rfl

theorem fixture_ackTimer : (t.ackTimer now).fixture = t.fixture := by
  simp only [ackTimer]
  split <;> split <;> rfl

omit [CongestionControl κ] in
theorem fixture_ackRtt (a : SeqNumber) (e : Option (BitVec 32)) : (t.ackRtt now a e).fixture = t.fixture := by
  simp only [ackRtt]
  split
  · split
    · split <;> rfl
    · rfl
  · split
    · rfl
    · split
      · split <;> rfl
      · rfl

omit [CongestionControl κ] in
theorem fixture_ackGbn : t.ackGbn.fixture = t.fixture := by
  simp only [ackGbn]
  split
  · split <;> rfl
  · rfl

theorem fixture_ackScoreboard : (t.ackScoreboard now).fixture = t.fixture := by
  simp only [ackScoreboard]
  split
  · split <;> rfl
  · rfl

theorem fixture_ackEcn (ace n : Nat) (b : Bool) : (t.ackEcn now ace n b).fixture = t.fixture := by
  simp only [ackEcn]
  split
  · split <;> rfl
  · rfl

theorem fixture_ackAdvance (a : SeqNumber) (e : Option (BitVec 32)) (ace : Nat) :
    (t.ackAdvance a e ace now).fixture = t.fixture := by
  simp only [ackAdvance]
  rw [fixture_ackTimer, fixture_ackRtt, fixture_ackGbn, fixture_ackScoreboard, fixture_ackEcn]
  rfl

theorem fixture_detected (p : TcpPacket) (isDup : Bool) :
    (t.detected now p isDup).fixture = t.fixture := by
  unfold detected
  split
  · simp only [sackIngest, sackDetect]
    split
    · split <;> split <;> rfl
    · rfl
  · split
    · simp only [legacyDupAck]
      split <;> rfl
    · rfl

theorem fixture_acks (p : TcpPacket) : (t.acks now p).fixture = t.fixture := by
  rw [acks, fixture_detected, advanced, fixture_updateWindow]
  split
  · exact fixture_ackAdvance ..
  · rfl

omit [CongestionControl κ] in
theorem fixture_opened (p : TcpPacket) : (t.opened p).fixture = t.fixture :=
  fixture_updateWindow ({ t with sndUna := p.ack } : Tcb κ) p.seq p.ack p.window

omit [CongestionControl κ] in
theorem fixture_scheduleAck (b : Bool) : (t.scheduleAck now b).fixture = t.fixture := by
  simp only [scheduleAck, armDelayedAck]
  split
  · split
    · rfl
    · split <;> rfl
  · rfl

omit [CongestionControl κ] in
theorem fixture_onText (p : TcpPacket) (ce : Bool) : (t.onText now p ce).fixture = t.fixture := by
  have hdata : (t.onData now p ce).fixture = t.fixture := by
    simp only [onData]
    split
    · rfl
    · rw [fixture_scheduleAck]
      split <;> rfl
  have hfin : ∀ u : Tcb κ, (u.onFin p).fixture = u.fixture := by
    intro u
    unfold onFin
    split <;> rfl
  have hpending : ∀ u : Tcb κ, u.onPendingFin.fixture = u.fixture := by
    intro u
    unfold onPendingFin
    split
    · split <;> rfl
    · rfl
  have hclosing : ∀ u : Tcb κ, (u.recomputeClosingState now).fixture = u.fixture := by
    intro u
    simp only [recomputeClosingState]
    split
    · split <;> rfl
    · rfl
  rw [onText, hclosing, hpending, hfin, hdata]

/-- SYN-SENT has its own processing. -/
theorem setting_onSegmentSynSent (p : TcpPacket) : (t.onSegmentSynSent p).setting = t.setting := by
  have hgreeting := t.onSegmentSynSent_greeting p
  generalize t.onSegmentSynSent p = u at hgreeting
  cases hgreeting <;> rfl

/-- No segment touches it. -/
theorem setting_onSegment (p : TcpPacket) (ce : Bool) : (t.onSegment now p ce).setting = t.setting := by
  by_cases hst : t.state = .synSent
  · rw [onSegment, if_pos hst]
    exact t.setting_onSegmentSynSent p
  have hreceipt := t.onSegment_receipt now p ce hst
  generalize t.onSegment now p ce = u at hreceipt ⊢
  cases hreceipt with
  | spared => rfl
  | reset => rfl
  | lingers => rfl
  | synAgain => rfl
  | badAck => exact congrArg Prod.fst (t.fixture_advanceTsRecent p)
  | opens =>
    have hopens := (((t.advanceTsRecent p).opened p).fixture_onText now p ce).trans ((t.advanceTsRecent p).fixture_opened p)
    exact congrArg Prod.fst (hopens.trans (t.fixture_advanceTsRecent p))
  | taken =>
    have htaken := (((t.advanceTsRecent p).acks now p).fixture_onText now p ce).trans ((t.advanceTsRecent p).fixture_acks now p)
    exact congrArg Prod.fst (htaken.trans (t.fixture_advanceTsRecent p))

/-- No timer does. -/
theorem setting_onTimer : (t.onTimer now).setting = t.setting := by
  have hrtx : (t.onRtxTimer now).setting = t.setting := by
    simp only [onRtxTimer]
    split
    · split
      · simp only [synTimeout]
        split <;> rfl
      · rfl
    · rfl
  have hpersist : ∀ u : Tcb κ, (u.onPersistTimer now).setting = u.setting := by
    intro u
    simp only [onPersistTimer]
    split <;> rfl
  have hwait : ∀ u : Tcb κ, (u.onTimeWaitTimer now).setting = u.setting := by
    intro u
    unfold onTimeWaitTimer
    split <;> rfl
  have hdelayed : ∀ u : Tcb κ, (u.onDelayedAckTimer now).setting = u.setting := by
    intro u
    unfold onDelayedAckTimer
    split <;> rfl
  rw [onTimer, hdelayed, hwait, hpersist, hrtx]

end Tcb

end Ferrumnet
