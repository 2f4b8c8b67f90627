import Ferrumnet.Core

/-
  The Tcb refines its stream core.

  1. `core_onSegment` — a received segment acts on the core as `Core.onSegment`.
  2. `core_onTimer` — a timer moves no sequence number; it may close.
  3. `pollTransmit_cases` — `poll_transmit` emits nothing and leaves the core
     alone, or emits an owed RST, or a SYN, or a segment that `Core.Sends`.

  The bookkeeping stages (RTT, congestion control, loss recovery, timers) leave
  the core alone; each has a simp lemma saying so.
-/

namespace Ferrumnet

namespace Tcb

set_option linter.unusedSectionVars false

variable {κ : Type} [CongestionControl κ] (t : Tcb κ) (now : Instant)

/-! ## Stages that leave the core alone -/

@[simp] theorem core_startRtx : (t.startRtx now).core = t.core := by
  unfold startRtx; split <;> rfl

@[simp] theorem core_restartRtx : (t.restartRtx now).core = t.core := rfl

@[simp] theorem core_armPersist : (t.armPersist now).core = t.core := by
  unfold armPersist; split <;> rfl

@[simp] theorem core_armDelayedAck : (t.armDelayedAck now).core = t.core := by
  unfold armDelayedAck; split <;> rfl

@[simp] theorem core_armTimeWait : (t.armTimeWait now).core = t.core := rfl

@[simp] theorem core_challengeAck : (t.challengeAck now).core = t.core := by
  simp only [challengeAck]; split <;> split <;> rfl

@[simp] theorem core_ackSample (n : Nat) (b : Bool) : (t.ackSample now n b).core = t.core := rfl

@[simp] theorem core_ackEcn (ace n : Nat) (b : Bool) : (t.ackEcn now ace n b).core = t.core := by
  simp only [ackEcn]; split
  · split <;> rfl
  · rfl

@[simp] theorem core_ackScoreboard : (t.ackScoreboard now).core = t.core := by
  simp only [ackScoreboard]; split
  · split <;> rfl
  · rfl

@[simp] theorem core_ackGbn : t.ackGbn.core = t.core := by
  simp only [ackGbn]; split
  · split <;> rfl
  · rfl

@[simp] theorem core_ackRtt (a : SeqNumber) (e : Option (BitVec 32)) :
    (t.ackRtt now a e).core = t.core := by
  simp only [ackRtt]; split
  · split
    · split <;> rfl
    · rfl
  · split
    · rfl
    · split
      · split <;> rfl
      · rfl

@[simp] theorem core_ackTimer : (t.ackTimer now).core = t.core := by
  simp only [ackTimer]; split <;> split <;> rfl

@[simp] theorem core_noteDupAck : (t.noteDupAck now).1.core = t.core := rfl

@[simp] theorem core_beginSackRecovery (d : Bool) : (t.beginSackRecovery now d).core = t.core := rfl

@[simp] theorem core_sackDetect (d : Bool) : (t.sackDetect now d).core = t.core := by
  simp only [sackDetect]; split
  · split <;> split <;> simp
  · rfl

@[simp] theorem core_sackIngest (d : Bool) (bs : List SackBlock) :
    (t.sackIngest now d bs).core = t.core := by
  simp only [sackIngest, core_sackDetect]; rfl

@[simp] theorem core_legacyDupAck : (t.legacyDupAck now).core = t.core := by
  simp only [legacyDupAck]; split <;> rfl

@[simp] theorem core_scheduleAck (b : Bool) : (t.scheduleAck now b).core = t.core := by
  simp only [scheduleAck]; split
  · split
    · rfl
    · simp only [core_armDelayedAck]; rfl
  · rfl

/-! ## Stages that act on the core -/

theorem core_updateWindow (q a : SeqNumber) (w : Nat) :
    (t.updateWindow q a w).core =
      { t.core with toSendWindow := t.core.toSendWindow.update t.core.sndWscale q a w } := by
  simp only [updateWindow]; split <;> rfl

theorem core_ackAdvance (a : SeqNumber) (e : Option (BitVec 32)) (ace : Nat) :
    (t.ackAdvance a e ace now).core =
      { t.core with toSendSpace := t.core.toSendSpace.consume a } := by
  simp only [ackAdvance, core_ackTimer, core_ackRtt, core_ackGbn, core_ackScoreboard,
    core_ackEcn, core_ackSample]
  rfl

/-! ## The ACK step -/

section AckStep

variable (p : TcpPacket)

/-- The ACK of our SYN-ACK. -/
def opened (t : Tcb κ) (p : TcpPacket) : Tcb κ :=
  { ({ t with sndUna := p.ack } : Tcb κ).updateWindow p.seq p.ack p.window with
    state := .established, rtxDeadline := none, retransmit := false }

/-- The ACK of data, before losses are looked for. -/
def advanced (t : Tcb κ) (now : Instant) (p : TcpPacket) : Tcb κ :=
  (if p.ack.gt t.sndUna then t.ackAdvance p.ack ((t.segTs p).map (·.2)) p.ace now
    else t).updateWindow p.seq p.ack p.window

/-- The losses that an ACK shows; `isDup` says whether it repeats an earlier one. -/
def detected (t : Tcb κ) (now : Instant) (p : TcpPacket) (isDup : Bool) : Tcb κ :=
  if t.sackEnabled then t.sackIngest now isDup p.sackBlocks
  else if isDup then t.legacyDupAck now
  else t

/-- The ACK of a segment taken in whole, past the handshake. -/
def acks (t : Tcb κ) (now : Instant) (p : TcpPacket) : Tcb κ :=
  (t.advanced now p).detected now p (t.isDupAck p)

/-- The ACK step, as what its outcomes are made of. -/
theorem onAck_eq : t.onAck now p =
    if t.core.validAck p then
      .ok (if t.state = .synReceived then t.opened p else t.acks now p)
    else if t.state = .synReceived then
      .error { t with pendingReset := some p.ack, state := .closed }
    else .error { t with needsAck := true } := by
  by_cases hst : t.state = .synReceived
  · have hc : t.core.state = .synReceived := hst
    have hv : t.core.validAck p = (p.ack.gt t.sndUna && p.ack.le t.sndNxt) := by
      rw [Core.validAck, if_pos hc]
      rfl
    rw [onAck, if_pos hst, hv, if_pos hst, if_pos hst]
    rfl
  · have hc : t.core.state ≠ .synReceived := hst
    have hv : t.core.validAck p = !p.ack.gt t.sndNxt := by
      rw [Core.validAck, if_neg hc]
      rfl
    rw [onAck, if_neg hst, hv, if_neg hst, if_neg hst]
    by_cases hgt : p.ack.gt t.sndNxt = true
    · simp only [processAck, hgt, if_true, Bool.not_true, Bool.false_eq_true, if_false]
    · simp only [processAck, hgt, Bool.false_eq_true, if_false, Bool.not_false, if_true]
      rfl

theorem core_opened (h : t.state = .synReceived) : (t.opened p).core = t.core.acked p := by
  have hc : t.core.state = .synReceived := h
  have hw := ({ t with sndUna := p.ack } : Tcb κ).core_updateWindow p.seq p.ack p.window
  rw [Core.acked, Core.ackedSend, Core.ackedState, if_pos hc, if_pos hc]
  exact congrArg (Core.withState · .established) hw

theorem core_detected (d : Bool) : (t.detected now p d).core = t.core := by
  unfold detected
  split
  · exact core_sackIngest ..
  · split
    · exact core_legacyDupAck ..
    · rfl

theorem core_advanced : (t.advanced now p).core =
    { t.core with
      toSendSpace := if p.ack.gt t.sndUna then t.toSendSpace.consume p.ack else t.toSendSpace
      toSendWindow := t.core.toSendWindow.update t.core.sndWscale p.seq p.ack p.window } := by
  rw [advanced, core_updateWindow]
  split
  · rw [core_ackAdvance]
    rfl
  · rfl

theorem core_acks (h : t.state ≠ .synReceived) : (t.acks now p).core = t.core.acked p := by
  have hc : t.core.state ≠ .synReceived := h
  rw [acks, core_detected, core_advanced, Core.acked, Core.ackedSend, Core.ackedState, if_neg hc, if_neg hc]
  rfl

theorem state_acks (h : t.state ≠ .synReceived) : (t.acks now p).state = t.state :=
  (congrArg Core.state (t.core_acks now p h)).trans (if_neg h)

end AckStep

/-! ## Data and FIN -/

theorem core_onData (tcp : TcpPacket) (ce : Bool) :
    (t.onData now tcp ce).core =
      t.core.withRecv (t.core.toRecvSpace.acceptData t.core.sackEnabled tcp) := by
  simp only [onData, RecvSpace.acceptData]
  split
  · rfl
  · simp only [core_scheduleAck]; split <;> rfl

theorem core_onFin (tcp : TcpPacket) :
    (t.onFin tcp).core = t.core.withRecv (t.core.toRecvSpace.acceptFin tcp) := by
  simp only [onFin, RecvSpace.acceptFin]; split <;> rfl

theorem core_onPendingFin :
    t.onPendingFin.core = t.core.withRecv t.core.toRecvSpace.takePendingFin := by
  change _ = t.core.withRecv t.toRecvSpace.takePendingFin
  simp only [onPendingFin, RecvSpace.takePendingFin]
  rcases t.toRecvSpace.pendingFin with _ | finAt
  · rfl
  · dsimp only
    split <;> rfl

theorem core_recomputeClosingState :
    (t.recomputeClosingState now).core =
      t.core.withState (closingState t.core.state t.core.finAcked t.core.peerFinSeen) := by
  simp only [recomputeClosingState]
  split <;> rename_i h
  · split <;> rfl
  · rfl

theorem core_onText (tcp : TcpPacket) (ce : Bool) :
    (t.onText now tcp ce).core =
      (t.core.withRecv (t.core.toRecvSpace.text t.core.sackEnabled tcp)).withState
        (closingState t.core.state t.core.finAcked
          (t.core.toRecvSpace.text t.core.sackEnabled tcp).peerFinSeen) := by
  rw [onText, core_recomputeClosingState, core_onPendingFin, core_onFin, core_onData]
  rfl

theorem core_advanceTsRecent (tcp : TcpPacket) :
    (t.advanceTsRecent tcp).core = t.core.advanceTsRecent tcp := by
  have hts : t.core.segTs tcp = t.segTs tcp := rfl
  simp only [advanceTsRecent, Core.advanceTsRecent, Core.tsRecentAfter, hts]
  cases t.segTs tcp with
  | none => rfl
  | some ts =>
    by_cases hle : tcp.seq.le t.rcvNxt = true <;> simp only [core_recv, hle, if_true] <;> rfl

theorem core_onAcceptable (tcp : TcpPacket) (ce : Bool) :
    (t.onAcceptable now tcp ce).core = t.core.onAcceptable tcp := by
  simp only [onAcceptable, Core.onAcceptable, ← core_advanceTsRecent]
  generalize t.advanceTsRecent tcp = u
  split
  · rw [onAck_eq]
    by_cases hv : u.core.validAck tcp = true
    · rw [if_pos hv, if_pos hv]
      by_cases hst : u.state = .synReceived
      · rw [if_pos hst]
        exact (core_onText _ now tcp ce).trans (congrArg (Core.onText · tcp) (core_opened _ _ hst))
      · rw [if_neg hst]
        exact (core_onText _ now tcp ce).trans (congrArg (Core.onText · tcp) (core_acks _ _ _ hst))
    · rw [if_neg hv, if_neg hv]
      by_cases hst : u.state = .synReceived
      · have hc : u.core.state = .synReceived := hst
        rw [if_pos hst, if_pos hc]
        rfl
      · have hc : u.core.state ≠ .synReceived := hst
        rw [if_neg hst, if_neg hc]
        rfl
  · rfl

theorem core_onSegmentSynSent (tcp : TcpPacket) :
    (t.onSegmentSynSent tcp).core = t.core.onSegmentSynSent tcp := by
  have ha : t.core.acksSyn tcp = (tcp.flags.ack && tcp.ack.gt t.iss && tcp.ack.le t.sndNxt) := rfl
  simp only [onSegmentSynSent, Core.onSegmentSynSent, ← ha]
  split
  · split <;> rfl
  · split
    · split <;> rfl
    · split
      · split <;> rfl
      · rfl

/-- A received segment acts on the core as the core machine says. -/
theorem core_onSegment (tcp : TcpPacket) (ce : Bool) :
    (t.onSegment now tcp ce).core = t.core.onSegment tcp := by
  have h1 : t.core.state = t.state := rfl
  have h2 : t.core.toRecvSpace = t.toRecvSpace := rfl
  have h3 : t.core.pawsStale tcp = t.pawsStale tcp := rfl
  simp only [onSegment, Core.onSegment, h1, h2, h3]
  split
  · exact core_onSegmentSynSent t tcp
  split
  · simp only [onRst]
    split <;> rename_i hw
    · rw [hw, Bool.true_and]
      by_cases hq : tcp.seq = t.rcvNxt
      · simp only [hq]; rfl
      · simp only [hq, if_false, core_challengeAck]; rfl
    · simp [hw]
  split
  · rfl
  split
  · simp only [onSyn]
    split
    · rfl
    · split
      · exact core_challengeAck ..
      · rfl
  split
  · rfl
  split
  · exact core_onAcceptable ..
  · rfl

/-! ## Timers and the application -/

theorem core_onRtxTimer :
    (t.onRtxTimer now).core = t.core ∨
      (t.state = .synSent ∧ (t.onRtxTimer now).core = t.core.withState .closed) := by
  simp only [onRtxTimer]
  split
  · split <;> rename_i hs
    · simp only [synTimeout]
      split
      · exact .inr ⟨hs, rfl⟩
      · exact .inl rfl
    · exact .inl rfl
  · exact .inl rfl

@[simp] theorem core_onPersistTimer : (t.onPersistTimer now).core = t.core := by
  simp only [onPersistTimer]; split <;> rfl

@[simp] theorem core_onDelayedAckTimer : (t.onDelayedAckTimer now).core = t.core := by
  simp only [onDelayedAckTimer]; split <;> rfl

theorem core_onTimeWaitTimer :
    (t.onTimeWaitTimer now).core = t.core ∨
      (t.onTimeWaitTimer now).core = t.core.withState .closed := by
  simp only [onTimeWaitTimer]
  split
  · exact .inr rfl
  · exact .inl rfl

/-- The timers move no sequence number; they may close the connection. -/
theorem core_onTimer :
    (t.onTimer now).core = t.core ∨ (t.onTimer now).core = t.core.withState .closed := by
  simp only [onTimer, core_onDelayedAckTimer]
  rcases core_onTimeWaitTimer ((t.onRtxTimer now).onPersistTimer now) now with h | h <;>
    rcases core_onRtxTimer t now with h' | ⟨_, h'⟩ <;>
    simp only [h, core_onPersistTimer, h']
  · exact .inl trivial
  · exact .inr trivial
  · exact .inr trivial
  · exact .inr rfl

theorem core_send' (data : Bytes) :
    ((t.state = .established ∨ t.state = .closeWait) ∧ (t.send data).2 = (t.tx.write data).2 ∧
      (t.send data).1.core = { t.core with tx := (t.tx.write data).1 }) ∨
    ((t.send data).2 = 0 ∧ (t.send data).1.core = t.core) := by
  simp only [send]
  split
  · rename_i hs; exact .inl ⟨.inl hs, rfl, rfl⟩
  · rename_i hs; exact .inl ⟨.inr hs, rfl, rfl⟩
  · exact .inr ⟨rfl, rfl⟩

/-! ## `poll_transmit` -/

/-- What one call of `poll_transmit` does. A segment is built by a Tcb that
differs from the caller's only outside the core, and carries the clock. -/
inductive Polls (t : Tcb κ) (now : Instant) : Tcb κ → Option Datagram → Prop
  | idle {t' : Tcb κ} : t'.core = t.core → Polls t now t' none
  | rst {t' : Tcb κ} (seq : SeqNumber) : t.pendingReset = some seq → t'.core = t.core →
      Polls t now t' (some (t.buildRst seq))
  | syn {t' : Tcb κ} : t.state = .synSent →
      (t.sndNxt = t.iss ∧ t'.core = { t.core with sndNxt := t.iss + 1 }) ∨
        (t.sndNxt ≠ t.iss ∧ t'.core = t.core) →
      Polls t now t' (some { t with curTsval := BitVec.ofNat 32 now.micros }.buildSyn)
  | segment {t' : Tcb κ} (t₀ : Tcb κ) {seq : SeqNumber} {extra : TcpFlags} {payload : Bytes}
      {s : SendSpace} {st : State} : t₀.core = t.core →
      t₀.curTsval = BitVec.ofNat 32 now.micros → t.core.Sends seq extra payload s st →
      t'.core = t.core.sent s st → Polls t now t' (some (t₀.build seq extra payload).2)

@[simp] theorem aceFlags_fin (f : TcpFlags) : (t.aceFlags f).1.fin = f.fin := by
  unfold aceFlags; split <;> rfl

@[simp] theorem aceFlags_syn (f : TcpFlags) : (t.aceFlags f).1.syn = f.syn := by
  unfold aceFlags; split <;> rfl

@[simp] theorem aceFlags_rst (f : TcpFlags) : (t.aceFlags f).1.rst = f.rst := by
  unfold aceFlags; split <;> rfl

@[simp] theorem aceFlags_ack (f : TcpFlags) : (t.aceFlags f).1.ack = f.ack := by
  unfold aceFlags; split <;> rfl

/-- The flags and the numbers of a built segment. -/
theorem build_spec (seq : SeqNumber) (extra : TcpFlags) (payload : Bytes) :
    (t.build seq extra payload).2.repr.seq = seq ∧
      (t.build seq extra payload).2.repr.ack = t.rcvNxt ∧
      (t.build seq extra payload).2.payload = payload ∧
      (t.build seq extra payload).2.repr.flags.fin = extra.fin ∧
      (t.build seq extra payload).2.repr.flags.syn = extra.syn ∧
      (t.build seq extra payload).2.repr.flags.rst = extra.rst ∧
      (t.build seq extra payload).2.repr.flags.ack = true :=
  ⟨rfl, rfl, rfl, aceFlags_fin .., aceFlags_syn .., aceFlags_rst .., aceFlags_ack ..⟩

theorem core_build (seq : SeqNumber) (extra : TcpFlags) (payload : Bytes) :
    (t.build seq extra payload).1.core =
      t.core.withRecv (t.core.toRecvSpace.advertisedWindow t.core.rcvWscale).1 := rfl

/-- What a source of the data path does: nothing to the core, or a segment. -/
def DataStep (t : Tcb κ) (p : Emit κ) : Prop :=
  (p.2 = none ∧ p.1.core = t.core ∧ p.1.curTsval = t.curTsval) ∨
    ∃ (t₀ : Tcb κ) (seq : SeqNumber) (extra : TcpFlags) (payload : Bytes) (s : SendSpace) (st : State),
      t₀.core = t.core ∧ t₀.curTsval = t.curTsval ∧ t.core.Sends seq extra payload s st ∧
        p.1.core = t.core.sent s st ∧ p.2 = some (t₀.build seq extra payload).2

variable {t}

theorem DataStep.orElse {p : Emit κ} {next : Tcb κ → Emit κ} (hp : DataStep t p)
    (hnext : ∀ t', t'.core = t.core → t'.curTsval = t.curTsval → DataStep t' (next t')) :
    DataStep t (p.orElse next) := by
  obtain ⟨t', o⟩ := p
  cases o with
  | some d => exact hp
  | none =>
    rcases hp with ⟨-, hc, hv⟩ | ⟨_, _, _, _, _, _, _, _, _, _, h⟩
    · have hc' : t'.core = t.core := hc
      have hv' : t'.curTsval = t.curTsval := hv
      have h := hnext t' hc' hv'
      simp only [DataStep, hc', hv'] at h
      exact h
    · cases h

theorem DataStep.emit {t₀ : Tcb κ} {seq : SeqNumber} {extra : TcpFlags} {payload : Bytes}
    {f : Tcb κ → Tcb κ} (s : SendSpace) (st : State) (h0 : t₀.core = t.core)
    (hv : t₀.curTsval = t.curTsval) (hs : t.core.Sends seq extra payload s st)
    (hf : (f (t₀.build seq extra payload).1).core = t.core.sent s st) :
    DataStep t ((t₀.emit seq extra payload).after f) :=
  .inr ⟨t₀, seq, extra, payload, s, st, h0, hv, hs, hf, rfl⟩

theorem DataStep.mono {t₀ : Tcb κ} {p : Emit κ} (h0 : t₀.core = t.core)
    (hv : t₀.curTsval = t.curTsval) (h : DataStep t₀ p) : DataStep t p := by
  simpa only [DataStep, h0, hv] using h

theorem DataStep.none (h0 : t'.core = t.core) (hv : t'.curTsval = t.curTsval) :
    DataStep t (t', none) := .inl ⟨rfl, h0, hv⟩

variable (t)

theorem emitOwedAck_step (h1 : t.state ≠ .closed) (h2 : t.state ≠ .listen)
    (h3 : t.state ≠ .synSent) (h4 : t.state = .synReceived → t.sndNxt ≠ t.iss) :
    DataStep t t.emitOwedAck := by
  simp only [emitOwedAck]
  split
  · exact .inr ⟨{ t with needsAck := false }, _, _, _, _, _, rfl, rfl, .ack h1 h2 h3 h4, rfl, rfl⟩
  · exact .none rfl rfl

theorem resendOldest_step (hs : t.state.synchronized = true) (hi : 0 < t.inflight) :
    DataStep t (t.resendOldest now) := by
  simp only [resendOldest]
  split
  · rename_i hn
    refine .emit t.toSendSpace t.state rfl rfl ?_ (core_startRtx ..)
    have h := Core.Sends.again (c := t.core) 0 (min (min t.inflight t.tx.len) t.maxSegmentPayload)
      (decide (min (min t.inflight t.tx.len) t.maxSegmentPayload = t.tx.len)) hs hn
      (by simp only [core_send]; omega) (by change _ ≤ t.inflight; omega)
    simpa only [core_send, core_state, SeqNumber.add_zero] using h
  · split
    · rename_i fs hf
      split
      · rename_i hc
        simp only [Bool.and_eq_true, Bool.not_eq_true', decide_eq_true_eq] at hc
        exact .emit _ _ rfl rfl (.finAgain fs hs hf hc.1 hc.2 hi) (core_startRtx ..)
      · exact .none rfl rfl
    · exact .none rfl rfl

theorem retransmitOldest_step (hs : t.state.synchronized = true) :
    DataStep t (t.retransmitOldest now) := by
  simp only [retransmitOldest]
  split
  · rename_i hr
    simp only [Bool.and_eq_true, decide_eq_true_eq] at hr
    exact .mono rfl rfl (resendOldest_step { t with retransmit := false } now hs hr.2)
  · exact .none rfl rfl

theorem sackRetransmit_step (hs : t.state.synchronized = true) (hw : t.inflight < 2147483648) :
    DataStep t (t.sackRetransmit now) := by
  simp only [sackRetransmit]
  split
  · split
    · split
      · rename_i seq rescue hnext
        split
        · rename_i hn
          obtain ⟨-, -, -, hl⟩ := t.scoreboard.nextSeg_spec hw hnext
          have hn' : min (min (t.scoreboard.unsackedRunLen seq t.sndNxt) t.maxSegmentPayload)
              (t.tx.len - seq.offsetFrom t.sndUna) ≤ min (t.scoreboard.unsackedRunLen seq t.sndNxt)
                (t.tx.len - seq.offsetFrom t.sndUna) := by omega
          refine .emit t.toSendSpace t.state rfl rfl ?_ (core_startRtx ..)
          generalize min (min (t.scoreboard.unsackedRunLen seq t.sndNxt) t.maxSegmentPayload)
            (t.tx.len - seq.offsetFrom t.sndUna) = n at hn hn'
          have h := Core.Sends.again (c := t.core) (seq.offsetFrom t.sndUna) n
            (decide (seq.offsetFrom t.sndUna + n = t.tx.len)) hs hn
            (by simp only [core_send]; omega)
            (by change _ ≤ t.sndNxt.offsetFrom t.sndUna; omega)
          simpa only [core_send, core_state, SeqNumber.add_offsetFrom] using h
        · exact .none rfl rfl
      · exact .none rfl rfl
    · exact .none rfl rfl
  · exact .none rfl rfl

theorem pace_core (allowed : Nat) :
    (t.pace now allowed).1.core = t.core ∧ (t.pace now allowed).1.curTsval = t.curTsval ∧
      (t.pace now allowed).2 ≤ allowed := by
  simp only [pace]
  split
  · exact ⟨rfl, rfl, le_rfl⟩
  · split
    · exact ⟨rfl, rfl, by omega⟩
    · exact ⟨rfl, rfl, by omega⟩

theorem core_noteSent (n room : Nat) :
    (t.noteSent now n room).core = { t.core with sndNxt := t.sndNxt + n } := by
  simp only [noteSent]
  split <;> split <;> rfl

theorem sendAllowed_step (allowed room : Nat) (hs : t.state.synchronized = true)
    (ha : allowed ≤ t.rwndRoom) : DataStep t (t.sendAllowed now allowed room) := by
  simp only [sendAllowed]
  split
  · rename_i hn
    refine .emit _ _ rfl rfl (Core.Sends.data (c := t.core) _ _ hs hn ?_ ?_) ?_
    · change _ ≤ t.unsentData; omega
    · change _ ≤ t.rwndRoom; omega
    · rw [core_startRtx, core_noteSent]; rfl
  · exact .none rfl rfl

theorem sendNewData_step (hs : t.state.synchronized = true) : DataStep t (t.sendNewData now) := by
  obtain ⟨hc, hv, hle⟩ := pace_core t now (min t.cwndRoom t.rwndRoom)
  simp only [sendNewData]
  generalize t.pace now (min t.cwndRoom t.rwndRoom) = p at hc hv hle ⊢
  have hst : p.1.state = t.state := congrArg Core.state hc
  have hroom : p.1.rwndRoom = t.rwndRoom := congrArg Core.rwndRoom hc
  split
  · exact .mono hc hv (sendAllowed_step p.1 now p.2 _ (by rw [hst]; exact hs) (by omega))
  · split
    · rename_i hz
      simp only [Bool.and_eq_true, decide_eq_true_eq] at hz
      have hp : (p.1.armPersist now).core = t.core := by rw [core_armPersist, hc]
      have hpv : (p.1.armPersist now).curTsval = t.curTsval := by
        rw [← hv]; unfold armPersist; split <;> rfl
      generalize p.1.armPersist now = q at hp hpv ⊢
      have hsend : q.toSendSpace = t.toSendSpace := congrArg Core.toSendSpace hp
      refine .mono hp hpv ?_
      have h := Core.Sends.probe (c := q.core) (by rw [hp]; exact hs) (by rw [hp]; exact hz.1.2)
        (by rw [hp]; exact hz.2) (by rw [hp]; exact hz.1.1)
      simp only [probe]
      split
      · exact .inr ⟨{ q with sendProbe := false }, _, _, _, _, _, rfl, rfl, h, rfl, rfl⟩
      · exact .none rfl rfl
    · exact .none hc hv

theorem core_noteFin :
    (t.noteFin now).core =
      { t.core with finSeq := some t.dataEnd, sndNxt := t.dataEnd + 1, state := finState t.state } := by
  have h := core_startRtx { t with finSeq := some t.dataEnd, sndNxt := t.dataEnd + 1 } now
  have hst := congrArg Core.state h
  have hdef : (t.noteFin now).core =
      ({ t with finSeq := some t.dataEnd, sndNxt := t.dataEnd + 1 }.startRtx now).core.withState
        (finState ({ t with finSeq := some t.dataEnd, sndNxt := t.dataEnd + 1 }.startRtx now).state) :=
    rfl
  simp only [core_state] at hst
  rw [hdef, h, hst]
  rfl

theorem sendFin_step (hs : t.state.synchronized = true) : DataStep t (t.sendFin now) := by
  simp only [sendFin]
  split
  · rename_i hf
    simp only [Bool.and_eq_true, Bool.not_eq_true', decide_eq_true_eq] at hf
    refine .emit _ _ rfl rfl (.fin hs hf.1.1 hf.1.2 hf.2) ?_
    rw [core_noteFin]; rfl
  · exact .none rfl rfl

/-- The stages of the data path up to new data, one after the other. -/
theorem data_stages (hs : t.state.synchronized = true) (hw : t.inflight < 2147483648) :
    DataStep t (t.retransmitOldest now) ∧ DataStep t ((t.retransmitOldest now).orElse (·.sackRetransmit now)) ∧
      DataStep t (((t.retransmitOldest now).orElse (·.sackRetransmit now)).orElse (·.sendNewData now)) := by
  have key : ∀ t' : Tcb κ, t'.core = t.core →
      t'.state.synchronized = true ∧ t'.inflight < 2147483648 := by
    intro t' hc
    have hst : t'.state = t.state := congrArg Core.state hc
    have hin : t'.inflight = t.inflight := congrArg Core.inflight hc
    exact ⟨by rw [hst]; exact hs, by omega⟩
  have hold := retransmitOldest_step t now hs
  have hrepair : DataStep t ((t.retransmitOldest now).orElse (·.sackRetransmit now)) :=
    hold.orElse fun t' hc _ => sackRetransmit_step t' now (key t' hc).1 (key t' hc).2
  exact ⟨hold, hrepair, hrepair.orElse fun t' hc _ => sendNewData_step t' now (key t' hc).1⟩

theorem transmitDataOrFin_step (hs : t.state.synchronized = true) (hw : t.inflight < 2147483648) :
    DataStep t (t.transmitDataOrFin now) := by
  refine (data_stages t now hs hw).2.2.orElse fun t' hc _ => sendFin_step t' now ?_
  rw [show t'.state = t.state from congrArg Core.state hc]
  exact hs

theorem pollSynReceived_step (hs : t.state = .synReceived) :
    DataStep t (t.pollSynReceived now) := by
  simp only [pollSynReceived]
  split
  · rename_i hn
    exact .emit _ _ rfl rfl (.synAck hs hn) (by rw [core_startRtx]; rfl)
  · rename_i hn
    split
    · exact .inr ⟨{ t with retransmit := false }, _, _, _, _, _, rfl, rfl, .synAckAgain hs hn, rfl, rfl⟩
    · exact emitOwedAck_step t (by simp [hs]) (by simp [hs]) (by simp [hs]) fun _ => hn

/-- A data step is one of the outcomes of `poll_transmit`. -/
theorem DataStep.polls {t₀ : Tcb κ} {p : Emit κ} (hc : t₀.core = t.core)
    (hv : t₀.curTsval = BitVec.ofNat 32 now.micros) (h : DataStep t₀ p) : Polls t now p.1 p.2 := by
  obtain ⟨t', o⟩ := p
  rcases h with ⟨ho, hc', -⟩ | ⟨t₁, seq, extra, payload, s, st, h0, hv', hs, hc', ho⟩
  · cases ho; exact .idle (hc'.trans hc)
  · cases ho
    rw [hc] at h0 hs
    exact .segment t₁ h0 (hv'.trans hv) hs (by rw [hc', hc])

/-- One call of `poll_transmit`, while less than half the sequence space is in flight. -/
theorem pollTransmit_polls (hw : t.inflight < 2147483648) :
    Polls t now (t.pollTransmit now).1 (t.pollTransmit now).2 := by
  have hc : { t with curTsval := BitVec.ofNat 32 now.micros }.core = t.core := rfl
  unfold pollTransmit
  generalize hu : { t with curTsval := BitVec.ofNat 32 now.micros } = u at hc
  have hv : u.curTsval = BitVec.ofNat 32 now.micros := by rw [← hu]
  have hp : u.pendingReset = t.pendingReset := by rw [← hu]
  have hst : u.state = t.state := by rw [← hu]
  have hin : u.inflight < 2147483648 := by rw [← hu]; exact hw
  dsimp only
  split
  · rename_i seq hr
    have : u.buildRst seq = t.buildRst seq := by rw [← hu]; rfl
    rw [this]
    exact .rst seq (hp ▸ hr) hc
  split
  · exact .idle hc
  · exact .idle hc
  · rename_i hs
    have hsyn : t.state = .synSent := hst ▸ hs
    have hsend : u.toSendSpace = t.toSendSpace := congrArg Core.toSendSpace hc
    simp only [pollSynSent]
    split
    · rename_i hn
      rw [hsend] at hn
      rw [← hu]
      exact .syn hsyn (.inl ⟨hn, by rw [core_startRtx]; rfl⟩)
    · rename_i hn
      rw [hsend] at hn
      split
      · rw [← hu]; exact .syn hsyn (.inr ⟨hn, rfl⟩)
      · exact .idle hc
  · rename_i hs
    exact (pollSynReceived_step u now hs).polls t now hc hv
  · rename_i hs
    exact (emitOwedAck_step u (by simp [hs]) (by simp [hs]) (by simp [hs]) (by simp [hs])).polls
      t now hc hv
  · have hs : u.state.synchronized = true := by
      rcases h : u.state <;> simp_all [State.synchronized]
    refine ((transmitDataOrFin_step u now hs hin).orElse fun t' hc' _ => ?_).polls t now hc hv
    have hs' : t'.state.synchronized = true := by
      rw [show t'.state = u.state from congrArg Core.state hc']; exact hs
    refine emitOwedAck_step t' ?_ ?_ ?_ ?_ <;> intro h <;> simp [h, State.synchronized] at hs'

end Tcb

end Ferrumnet
