import Ferrumnet.Receipt

/-
  What a Tcb owes.

  An ACK (`needs_ack`), a RST (`pending_reset`), and the timer that will close the
  connection are set in few places. Most stages of the inbound and the outbound
  path leave them alone; each has a simp lemma saying so.

  1. `alarms_onSegment` — a segment changes the RST and the closing timer only when
     it closes the connection or leads to a state with a closing timer.
  2. `onTimer_calm` — no other timer closes a connection past SYN-SENT.
  3. `alarms_pollTransmit` — no transmission sets either.
-/

namespace Ferrumnet

namespace Tcb

set_option linter.unusedSectionVars false

variable {κ : Type} [CongestionControl κ] (t : Tcb κ) (now : Instant)

/-- What can end a connection that its peer does not end: the owed RST and the
closing timer. -/
def alarms (t : Tcb κ) : Option SeqNumber × Option Instant := (t.pendingReset, t.timeWaitDeadline)

/-- The alarms, and the owed ACK. -/
def debts (t : Tcb κ) : Bool × Option SeqNumber × Option Instant := (t.needsAck, t.alarms)

/-! ## Stages that leave them alone -/

@[simp] theorem debts_startRtx : (t.startRtx now).debts = t.debts := by
  unfold startRtx
  split <;> rfl

@[simp] theorem alarms_startRtx : (t.startRtx now).alarms = t.alarms :=
  congrArg Prod.snd (t.debts_startRtx now)

@[simp] theorem debts_armPersist : (t.armPersist now).debts = t.debts := by
  unfold armPersist
  split <;> rfl

@[simp] theorem alarms_updateWindow (q a : SeqNumber) (w : Nat) :
    (t.updateWindow q a w).alarms = t.alarms := by
  simp only [updateWindow]
  split <;> rfl

@[simp] theorem alarms_sackDetect (d : Bool) : (t.sackDetect now d).alarms = t.alarms := by
  simp only [sackDetect]
  split
  · split <;> split <;> rfl
  · rfl

@[simp] theorem alarms_sackIngest (d : Bool) (bs : List SackBlock) :
    (t.sackIngest now d bs).alarms = t.alarms := by
  simp only [sackIngest, alarms_sackDetect]
  rfl

@[simp] theorem alarms_legacyDupAck : (t.legacyDupAck now).alarms = t.alarms := by
  simp only [legacyDupAck]
  split <;> rfl

@[simp] theorem alarms_advanceTsRecent (p : TcpPacket) :
    (t.advanceTsRecent p).alarms = t.alarms := by
  simp only [advanceTsRecent]
  split
  · split <;> rfl
  · rfl

@[simp] theorem alarms_onPersistTimer : (t.onPersistTimer now).alarms = t.alarms := by
  simp only [onPersistTimer]
  split <;> rfl

@[simp] theorem alarms_onDelayedAckTimer : (t.onDelayedAckTimer now).alarms = t.alarms := by
  simp only [onDelayedAckTimer]
  split <;> rfl

@[simp] theorem alarms_onRtxTimer : (t.onRtxTimer now).alarms = t.alarms := by
  simp only [onRtxTimer]
  split
  · split
    · simp only [synTimeout]
      split <;> rfl
    · rfl
  · rfl

@[simp] theorem alarms_armDelayedAck : (t.armDelayedAck now).alarms = t.alarms := by
  unfold armDelayedAck
  split <;> rfl

@[simp] theorem alarms_scheduleAck (b : Bool) : (t.scheduleAck now b).alarms = t.alarms := by
  simp only [scheduleAck]
  split
  · split
    · rfl
    · exact alarms_armDelayedAck ..
  · rfl

@[simp] theorem alarms_ackEcn (ace n : Nat) (b : Bool) :
    (t.ackEcn now ace n b).alarms = t.alarms := by
  simp only [ackEcn]
  split
  · split <;> rfl
  · rfl

@[simp] theorem alarms_ackScoreboard : (t.ackScoreboard now).alarms = t.alarms := by
  simp only [ackScoreboard]
  split
  · split <;> rfl
  · rfl

@[simp] theorem alarms_ackGbn : t.ackGbn.alarms = t.alarms := by
  simp only [ackGbn]
  split
  · split <;> rfl
  · rfl

@[simp] theorem alarms_ackRtt (a : SeqNumber) (e : Option (BitVec 32)) :
    (t.ackRtt now a e).alarms = t.alarms := by
  simp only [ackRtt]
  split
  · split
    · split <;> rfl
    · rfl
  · split
    · rfl
    · split
      · split <;> rfl
      · rfl

@[simp] theorem alarms_ackTimer : (t.ackTimer now).alarms = t.alarms := by
  simp only [ackTimer]
  split <;> split <;> rfl

@[simp] theorem alarms_ackAdvance (a : SeqNumber) (e : Option (BitVec 32)) (ace : Nat) :
    (t.ackAdvance a e ace now).alarms = t.alarms := by
  simp only [ackAdvance, alarms_ackTimer, alarms_ackRtt, alarms_ackGbn, alarms_ackScoreboard,
    alarms_ackEcn]
  rfl

@[simp] theorem alarms_opened (p : TcpPacket) : (t.opened p).alarms = t.alarms := by
  rw [show (t.opened p).alarms = (({ t with sndUna := p.ack } : Tcb κ).updateWindow p.seq p.ack p.window).alarms
    from rfl, alarms_updateWindow]
  rfl

@[simp] theorem alarms_acks (p : TcpPacket) : (t.acks now p).alarms = t.alarms := by
  have hadv : (t.advanced now p).alarms = t.alarms := by
    rw [advanced, alarms_updateWindow]
    split
    · exact alarms_ackAdvance ..
    · rfl
  rw [acks, detected, ← hadv]
  split
  · exact alarms_sackIngest ..
  · split
    · exact alarms_legacyDupAck ..
    · rfl

theorem alarms_recomputeClosingState (h1 : (t.recomputeClosingState now).state ≠ .timeWait)
    (h2 : (t.recomputeClosingState now).state ≠ .finWait2) :
    (t.recomputeClosingState now).alarms = t.alarms := by
  have hst : (t.recomputeClosingState now).state = closingState t.state t.finAcked t.peerFinSeen :=
    congrArg Core.state (t.core_recomputeClosingState now)
  rw [hst] at h1 h2
  simp only [recomputeClosingState]
  split <;> rfl

/-- Steps 6 and 7, before the closing state is recomputed. -/
theorem alarms_accept (p : TcpPacket) (ce : Bool) :
    (((t.onData now p ce).onFin p).onPendingFin).alarms = t.alarms := by
  have hdata : (t.onData now p ce).alarms = t.alarms := by
    simp only [onData]
    split
    · rfl
    · rw [alarms_scheduleAck]
      split <;> rfl
  have hfin : ((t.onData now p ce).onFin p).alarms = t.alarms := by
    rw [← hdata]
    unfold onFin
    split <;> rfl
  rw [← hfin]
  unfold onPendingFin
  split
  · split <;> rfl
  · rfl

/-- Text arms the closing timer only when it leads to TIME-WAIT or FIN-WAIT-2. -/
theorem alarms_onText (p : TcpPacket) (ce : Bool) (h1 : (t.onText now p ce).state ≠ .timeWait)
    (h2 : (t.onText now p ce).state ≠ .finWait2) : (t.onText now p ce).alarms = t.alarms :=
  (alarms_recomputeClosingState _ now h1 h2).trans (t.alarms_accept now p ce)

/-- What a segment does to the alarms, past SYN-SENT: nothing, unless it closes the
connection or leads to a state that has a closing timer. -/
theorem alarms_onSegment (hns : t.state ≠ .synSent) (p : TcpPacket) (ce : Bool)
    (h1 : (t.onSegment now p ce).state ≠ .timeWait) (h2 : (t.onSegment now p ce).state ≠ .finWait2)
    (h3 : (t.onSegment now p ce).state ≠ .closed) : (t.onSegment now p ce).alarms = t.alarms := by
  have hreceipt := t.onSegment_receipt now p ce hns
  generalize t.onSegment now p ce = u at hreceipt h1 h2 h3
  cases hreceipt with
  | spared => rfl
  | reset => exact absurd rfl h3
  | lingers htw => exact absurd htw h1
  | synAgain => rfl
  | badAck => exact absurd rfl h3
  | opens => rw [alarms_onText _ now p ce h1 h2, alarms_opened, alarms_advanceTsRecent]
  | taken => rw [alarms_onText _ now p ce h1 h2, alarms_acks, alarms_advanceTsRecent]

/-- No timer closes a connection past SYN-SENT whose closing timer is not armed. -/
theorem onTimer_calm (hw : t.timeWaitDeadline = none) (hns : t.state ≠ .synSent) :
    (t.onTimer now).core = t.core ∧ (t.onTimer now).alarms = t.alarms := by
  have halarms : ((t.onRtxTimer now).onPersistTimer now).alarms = t.alarms := by simp
  have hwait : ((t.onRtxTimer now).onPersistTimer now).timeWaitDeadline = none :=
    (congrArg Prod.snd halarms).trans hw
  have hskip : ((t.onRtxTimer now).onPersistTimer now).onTimeWaitTimer now =
      (t.onRtxTimer now).onPersistTimer now := by
    simp [onTimeWaitTimer, hwait, Instant.due]
  rw [onTimer, hskip, core_onDelayedAckTimer, core_onPersistTimer, alarms_onDelayedAckTimer]
  refine ⟨?_, halarms⟩
  rcases t.core_onRtxTimer now with h | ⟨h, -⟩
  · exact h
  · exact absurd h hns

/-! ## `poll_transmit` -/

/-- What both steps leave alone, the one after the other does. -/
theorem Emit.orElse_frame {α : Type} (f : Tcb κ → α) {p : Emit κ} {next : Tcb κ → Emit κ} {a : α}
    (hp : f p.1 = a) (hnext : ∀ u : Tcb κ, f (next u).1 = f u) : f (p.orElse next).1 = a := by
  obtain ⟨u, o⟩ := p
  cases o with
  | some d => exact hp
  | none => exact (hnext u).trans hp

@[simp] theorem alarms_emitOwedAck : t.emitOwedAck.1.alarms = t.alarms := by
  unfold emitOwedAck
  split <;> rfl

theorem debts_resendOldest : (t.resendOldest now).1.debts = t.debts := by
  simp only [resendOldest]
  split
  · simp only [Emit.after, debts_startRtx]
    rfl
  · split
    · split
      · simp only [Emit.after, debts_startRtx]
        rfl
      · rfl
    · rfl

theorem debts_retransmitOldest : (t.retransmitOldest now).1.debts = t.debts := by
  simp only [retransmitOldest]
  split
  · exact debts_resendOldest { t with retransmit := false } now
  · rfl

theorem debts_sackRetransmit : (t.sackRetransmit now).1.debts = t.debts := by
  simp only [sackRetransmit]
  split
  · split
    · split
      · split
        · simp only [Emit.after, debts_startRtx]
          rfl
        · rfl
      · rfl
    · rfl
  · rfl

theorem debts_pace (n : Nat) : (t.pace now n).1.debts = t.debts := by
  simp only [pace]
  split
  · rfl
  · split <;> rfl

theorem debts_sendNewData : (t.sendNewData now).1.debts = t.debts := by
  have hpace := t.debts_pace now (min t.cwndRoom t.rwndRoom)
  simp only [sendNewData]
  generalize t.pace now (min t.cwndRoom t.rwndRoom) = p at hpace ⊢
  split
  · simp only [sendAllowed]
    split
    · simp only [Emit.after, debts_startRtx, ← hpace]
      simp only [noteSent]
      split <;> split <;> rfl
    · exact hpace
  · split
    · rw [← hpace, ← debts_armPersist p.1 now]
      unfold probe
      split <;> rfl
    · exact hpace

theorem debts_sendFin : (t.sendFin now).1.debts = t.debts := by
  simp only [sendFin]
  split
  · simp only [Emit.after, noteFin]
    exact debts_startRtx ..
  · rfl

/-- Sending data or the FIN neither pays nor makes a debt. -/
theorem debts_transmitDataOrFin : (t.transmitDataOrFin now).1.debts = t.debts := by
  refine Emit.orElse_frame debts ?_ (fun u => u.debts_sendFin now)
  refine Emit.orElse_frame debts ?_ (fun u => u.debts_sendNewData now)
  exact Emit.orElse_frame debts (t.debts_retransmitOldest now) (fun u => u.debts_sackRetransmit now)

theorem alarms_pollSynReceived : (t.pollSynReceived now).1.alarms = t.alarms := by
  simp only [pollSynReceived]
  split
  · simp only [Emit.after, alarms_startRtx]
    rfl
  · split
    · rfl
    · exact t.alarms_emitOwedAck

theorem alarms_pollSynSent : (t.pollSynSent now).1.alarms = t.alarms := by
  simp only [pollSynSent]
  split
  · exact alarms_startRtx ..
  · split <;> rfl

/-- No transmission owes a RST or arms the closing timer. -/
theorem alarms_pollTransmit (h : t.pendingReset = none) :
    (t.pollTransmit now).1.alarms = t.alarms := by
  have hsame : ({ t with curTsval := BitVec.ofNat 32 now.micros } : Tcb κ).alarms = t.alarms := rfl
  simp only [pollTransmit, h]
  rw [← hsame]
  split
  · rfl
  · rfl
  · exact alarms_pollSynSent ..
  · exact alarms_pollSynReceived ..
  · exact alarms_emitOwedAck ..
  · exact Emit.orElse_frame alarms (congrArg Prod.snd (debts_transmitDataOrFin ..))
      (fun u => u.alarms_emitOwedAck)

end Tcb

end Ferrumnet
